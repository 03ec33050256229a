import Blockflow.Proofs.Expression.Numeric

/-!
# Where a token ends

How much of a text its first token takes depends on what stands behind it: a name goes on as long as
there are name characters, a point may belong to a number, two signs may be one operator, and a
quote opens a text only if it is closed somewhere. `Token.Leads t rest` says that `t` is the first
token when `rest` stands behind its text. The rest may be exchanged for another one that is alike in
these respects and does not go on with the token (`Token.Leads.exchange`).
-/

namespace Blockflow

open Text

namespace Text

/-- A letter and an underscore are no digits of any script. -/
theorem isDigit_of_isNameStart {c : Char} (h : isNameStart c = true) : isDigit c = false := by
  have hall : ∀ n ∈ List.range 128, isNameStart (Char.ofNat n) = true →
      isDigit (Char.ofNat n) = false := by
    decide +kernel
  have hlt : c.toNat < 128 := by
    delta isNameStart Char.isAlpha Char.isUpper Char.isLower at h
    simp only [Bool.or_eq_true, Bool.and_eq_true, decide_eq_true_eq, beq_iff_eq, ge_iff_le,
      UInt32.le_iff_toNat_le] at h
    have hnat : c.toNat = c.val.toNat := rfl
    have hZ : 'Z'.val.toNat = 90 := rfl
    have hz : 'z'.val.toNat = 122 := rfl
    rcases h with h | rfl
    · omega
    · decide
  have := hall c.toNat (List.mem_range.mpr hlt)
  rw [Char.ofNat_toNat] at this
  exact this h

end Text

namespace Token

/-! ## Quotes -/

/-- The characters that open a text. -/
def isQuote (c : Char) : Bool := c = '"' || c = '\x27'

/-- A text that means nothing within quotes. -/
def isQuiet (s : List Char) : Bool :=
  !s.isEmpty && s.all fun c => !isQuote c && c ≠ '\\' && c ≠ '\n'

/-- How far a text in quotes has been read. -/
inductive QuoteState where
  /-- within the quotes -/
  | inside
  /-- after a backslash -/
  | escaped
  /-- after the closing quote -/
  | closed
  /-- after a backslash and a line break -/
  | broken
deriving DecidableEq

namespace QuoteState

variable {quote : Char}

def step (quote : Char) : QuoteState → Char → QuoteState
  | .inside, c => if c = quote then .closed else if c = '\\' then .escaped else .inside
  | .escaped, c => if c = '\n' then .broken else .inside
  | .closed, _ => .closed
  | .broken, _ => .broken

/-- The state after a text. -/
def after (quote : Char) (state : QuoteState) (s : List Char) : QuoteState :=
  s.foldl (step quote) state

theorem after_cons (state : QuoteState) (c : Char) (s : List Char) :
    state.after quote (c :: s) = (state.step quote c).after quote s := rfl

/-- A text is read one half after the other. -/
theorem after_append (state : QuoteState) (s s' : List Char) :
    state.after quote (s ++ s') = (state.after quote s).after quote s' := List.foldl_append

theorem after_closed (s : List Char) : closed.after quote s = closed := by
  induction s with
  | nil => rfl
  | cons c rest ih => exact ih

theorem after_broken (s : List Char) : broken.after quote s = broken := by
  induction s with
  | nil => rfl
  | cons c rest ih => exact ih

/-- The state after a character that means nothing within quotes. -/
def settled : QuoteState → QuoteState
  | .escaped => .inside
  | state => state

/-- Characters other than the quote and backslashes matter only directly after a backslash. -/
theorem after_settled (state : QuoteState) {s : List Char} (h : ∀ c ∈ s, c ≠ quote ∧ c ≠ '\\') :
    state.settled.after quote s = state.settled := by
  induction s with
  | nil => rfl
  | cons c rest ih =>
    have hc := h c List.mem_cons_self
    have hstep : state.settled.step quote c = state.settled := by
      cases state <;> simp [settled, step, hc.1, hc.2]
    rw [after_cons, hstep]
    exact ih fun d hd => h d (List.mem_cons_of_mem _ hd)

/-- A text that means nothing within quotes only ends an escape. -/
theorem after_of_isQuiet (hquote : isQuote quote = true) {s : List Char} (h : isQuiet s = true)
    (state : QuoteState) : state.after quote s = state.settled := by
  cases s with
  | nil => cases h
  | cons c rest =>
    have hplain : ∀ d ∈ c :: rest, d ≠ quote ∧ d ≠ '\\' ∧ d ≠ '\n' := by
      intro d hd
      rw [isQuiet, Bool.and_eq_true] at h
      have hd := List.all_eq_true.mp h.2 d hd
      simp only [Bool.and_eq_true, Bool.not_eq_true', decide_eq_true_eq] at hd
      refine ⟨?_, hd.1.2, hd.2⟩
      rintro rfl
      rw [hd.1.1] at hquote
      cases hquote
    have hc := hplain c List.mem_cons_self
    have hstep : state.step quote c = state.settled := by
      cases state <;> simp [step, settled, hc]
    rw [after_cons, hstep]
    exact state.after_settled fun d hd =>
      ⟨(hplain d (List.mem_cons_of_mem _ hd)).1, (hplain d (List.mem_cons_of_mem _ hd)).2.1⟩

end QuoteState

/-- A quote stays open exactly when reading never reaches its end. -/
theorem closeQuote?_eq_none_iff {quote : Char} {s : List Char} :
    closeQuote? quote s = none ↔ QuoteState.inside.after quote s ≠ .closed := by
  fun_induction closeQuote? quote s with
  | case1 => simp [QuoteState.after]
  | case2 rest => simp [QuoteState.after_cons, QuoteState.step, QuoteState.after_closed]
  | case3 h => simp [QuoteState.after, QuoteState.step, h]
  | case4 more h => simp [QuoteState.after_cons, QuoteState.step, h, QuoteState.after_broken]
  | case5 d more h hd ih =>
    simpa [QuoteState.after_cons, QuoteState.step, h, hd] using ih
  | case6 c rest h hc ih => simpa [QuoteState.after_cons, QuoteState.step, h, hc] using ih

theorem closeQuote?_quote (quote : Char) (rest : List Char) :
    closeQuote? quote (quote :: rest) = some [quote] := by
  rw [closeQuote?.eq_def]
  simp

/-- An escaped character does not close a quote. -/
theorem closeQuote?_escape {quote d : Char} (hquote : '\\' ≠ quote) (hd : d ≠ '\n')
    (rest : List Char) :
    closeQuote? quote ('\\' :: d :: rest) = (closeQuote? quote rest).map ('\\' :: d :: ·) := by
  rw [closeQuote?.eq_def]
  simp [hquote, hd]

theorem closeQuote?_plain {quote c : Char} (hquote : c ≠ quote) (hslash : c ≠ '\\')
    (rest : List Char) : closeQuote? quote (c :: rest) = (closeQuote? quote rest).map (c :: ·) := by
  rw [closeQuote?.eq_def]
  simp [hquote, hslash]

/-- A text in quotes ends at its closing quote, whatever stands behind it. -/
theorem closeQuote?_append {quote : Char} {s body : List Char} (h : closeQuote? quote s = some body)
    (rest : List Char) : closeQuote? quote (body ++ rest) = some body := by
  fun_induction closeQuote? quote s generalizing body with
  | case1 => cases h
  | case2 more =>
    cases h
    exact closeQuote?_quote quote rest
  | case3 => cases h
  | case4 => cases h
  | case5 d more hd hc ih =>
    obtain ⟨b, hb, rfl⟩ := Option.map_eq_some_iff.mp h
    rw [List.cons_append, List.cons_append, closeQuote?_escape hc hd, ih hb, Option.map_some]
  | case6 c more hc hslash ih =>
    obtain ⟨b, hb, rfl⟩ := Option.map_eq_some_iff.mp h
    rw [List.cons_append, closeQuote?_plain hc hslash, ih hb, Option.map_some]

/-! ## Operators -/

/-- Both characters of a pair are symbols, and the first is not a dot. -/
theorem isSymbol_of_isPair {c d : Char} (h : isPair c d = true) :
    isSymbol c = true ∧ isSymbol d = true ∧ c ≠ '.' := by
  unfold isPair at h
  split at h
  any_goals decide
  cases h

theorem not_isPair_of_not_isSymbol {c d : Char} (h : isSymbol d = false) : isPair c d = false := by
  by_contra hpair
  rw [Bool.not_eq_false] at hpair
  rw [(isSymbol_of_isPair hpair).2.1] at h
  cases h

/-- An operator starts with a symbol. -/
theorem isSymbol_of_op? {c : Char} {s text : List Char} (h : op? c s = some text) :
    isSymbol c = true := by
  unfold op? at h
  split at h
  next d more =>
    split at h
    next hpair => exact (isSymbol_of_isPair hpair).1
    next =>
      split at h
      next hsymbol => exact hsymbol
      next => cases h
  next =>
    split at h
    next hsymbol => exact hsymbol
    next => cases h

theorem op?_eq_none {c : Char} (h : isSymbol c = false) (s : List Char) : op? c s = none := by
  cases hop : op? c s with
  | none => rfl
  | some text =>
    rw [isSymbol_of_op? hop] at h
    cases h

/-- A symbol that makes no pair with the next character is an operator alone. -/
theorem op?_single {c : Char} {rest : List Char} (hsymbol : isSymbol c = true)
    (hpair : ∀ d ∈ rest.head?, isPair c d = false) : op? c rest = some [c] := by
  cases rest with
  | nil => simp [op?, hsymbol]
  | cons d more => simp [op?, hsymbol, hpair d rfl]

theorem op?_pair {c d : Char} (hpair : isPair c d = true) (rest : List Char) :
    op? c (d :: rest) = some [c, d] := by
  simp [op?, hpair]

/-- An operator is two signs that are a pair, or one sign that makes no pair with the next one. -/
theorem op?_append_eq_some {c : Char} {more rest : List Char}
    (h : op? c (more ++ rest) = some (c :: more)) :
    (more = [] ∧ isSymbol c = true ∧ ∀ d ∈ rest.head?, isPair c d = false) ∨
      ∃ d, more = [d] ∧ isPair c d = true := by
  have hsymbol := isSymbol_of_op? h
  cases more with
  | nil =>
    refine Or.inl ⟨rfl, hsymbol, ?_⟩
    rintro d hd
    by_contra hpair
    rw [Bool.not_eq_false] at hpair
    cases rest with
    | nil => cases hd
    | cons e tail =>
      cases hd
      rw [List.nil_append, op?_pair hpair] at h
      cases h
  | cons d tail =>
    rw [List.cons_append] at h
    by_cases hpair : isPair c d = true
    · rw [op?_pair hpair] at h
      cases h
      exact Or.inr ⟨d, rfl, hpair⟩
    · simp [op?, hpair, hsymbol] at h

/-- A symbol is no quote and not part of a name or number. -/
theorem not_of_isSymbol {c : Char} (h : isSymbol c = true) :
    isQuote c = false ∧ isNameStart c = false ∧ isDigit c = false ∧ isNameChar c = false := by
  have hall : "-+*/%<>=!(),[]\x7b\x7d.:?&|^~;".toList.all
      (fun d => !isQuote d && !isNameStart d && !isDigit d && !isNameChar d) = true := by
    decide
  simpa [and_assoc] using List.all_eq_true.mp hall c (List.contains_iff_mem.mp h)

/-- A quote starts no other token. -/
theorem not_of_isQuote {c : Char} (h : isQuote c = true) :
    isDigit c = false ∧ c ≠ '.' ∧ isNameStart c = false ∧ isSymbol c = false ∧
      isBlank c = false := by
  simp only [isQuote, Bool.or_eq_true, decide_eq_true_eq] at h
  rcases h with rfl | rfl <;> decide

/-! ## The first token -/

/-- The token is the first one of its text with the rest behind it. -/
def Leads (t : Token) (rest : List Char) : Prop :=
  ∃ c more, t.text = c :: more ∧ first c (more ++ rest) = t

variable {t : Token} {rest rest' : List Char}

/-- What stands behind a leading token is cut on its own. -/
theorem Leads.tokens_eq (h : Leads t rest) : tokens (t.text ++ rest) = t :: tokens rest := by
  obtain ⟨c, more, htext, hfirst⟩ := h
  have hlength : (c :: (more ++ rest)).drop t.text.length = rest := by
    rw [htext, ← List.cons_append, List.drop_left]
  rw [htext, List.cons_append, tokens_cons, hfirst, hlength]

theorem Leads.solid_eq (h : Leads t rest) (hkind : t.kind ≠ .space) :
    solid (t.text ++ rest) = t :: solid rest := by
  rw [solid, h.tokens_eq, List.filter_cons_of_pos (by simp [isSolid, hkind]), solid]

/-- The tokens of a text: the first one leads the others, and those are the tokens of their text. -/
theorem leads_of_tokens {s : List Char} {ts : List Token} (h : tokens s = t :: ts) :
    Leads t (join ts) ∧ tokens (join ts) = ts := by
  cases s with
  | nil => cases h
  | cons c rest =>
    obtain ⟨more, hmore⟩ := (first_isFirst c rest).isPrefix
    rw [tokens_cons, ← hmore, List.drop_left] at h
    injection h with ht hts
    have hjoin : join ts = more := by rw [← hts, join_tokens]
    rw [hjoin]
    refine ⟨?_, hts⟩
    cases htext : (first c rest).text with
    | nil => exact absurd htext (first_isFirst c rest).ne_nil
    | cons d tail =>
      rw [htext, List.cons_append] at hmore
      injection hmore with hd hrest
      subst hd
      exact ⟨d, tail, by rw [← ht, htext], by rw [hrest, ht]⟩

/-- Each token is the first one of what is left of the text. -/
theorem leads_of_tokens_append {s : List Char} {after : List Token} :
    ∀ {before : List Token}, tokens s = before ++ t :: after → Leads t (join after)
  | [], h => (leads_of_tokens h).1
  | _ :: _, h => leads_of_tokens_append (leads_of_tokens h).2

/-- Every token of a text leads some rest. -/
theorem exists_leads_of_mem {s : List Char} (h : t ∈ tokens s) : ∃ rest, Leads t rest := by
  obtain ⟨before, after, hsplit⟩ := List.append_of_mem h
  exact ⟨join after, leads_of_tokens_append hsplit⟩

/-- What makes the text `c :: more` a first token of the kind, with `rest` behind it. -/
def Fits (rest : List Char) : TokenKind → Char → List Char → Prop
  | .string, c, more => isQuote c = true ∧ closeQuote? c (more ++ rest) = some more
  | .number, c, more => number? (c :: (more ++ rest)) = some (c :: more)
  | .name, c, more =>
    isNameStart c = true ∧ (∀ d ∈ more, isNameChar d = true) ∧
      ∀ d ∈ rest.head?, isNameChar d = false
  | .op, c, more =>
    number? (c :: (more ++ rest)) = none ∧ op? c (more ++ rest) = some (c :: more)
  | .space, c, more =>
    isBlank c = true ∧ (∀ d ∈ more, isBlank d = true) ∧ ∀ d ∈ rest.head?, isBlank d = false
  | .other, c, more =>
    more = [] ∧ number? (c :: rest) = none ∧ isNameStart c = false ∧ isSymbol c = false ∧
      isBlank c = false ∧ (isQuote c = true → closeQuote? c rest = none)

theorem first_of_isQuote {c : Char} (hc : isQuote c = true) (s : List Char) :
    first c s = ((closeQuote? c s).map (Token.mk .string <| c :: ·)).getD ⟨.other, [c]⟩ := by
  obtain ⟨hdigit, hdot, hname, hsymbol, hblank⟩ := not_of_isQuote hc
  simp only [isQuote, Bool.or_eq_true, decide_eq_true_eq] at hc
  cases hclose : closeQuote? c s with
  | none =>
    simp [first, hc, hclose, number?_eq_none hdigit hdot, hname, hblank, op?_eq_none hsymbol]
  | some body => simp [first, hc, hclose]

theorem first_of_not_isQuote {c : Char} (hc : isQuote c = false) (s : List Char) :
    first c s =
      match number? (c :: s) with
      | some digits => ⟨.number, digits⟩
      | none =>
        if isNameStart c then ⟨.name, c :: s.takeWhile isNameChar⟩
        else
          match op? c s with
          | some text => ⟨.op, text⟩
          | none => if isBlank c then ⟨.space, c :: s.takeWhile isBlank⟩ else ⟨.other, [c]⟩ := by
  have hnone : (if c = '"' || c = '\x27' then closeQuote? c s else none) = none :=
    if_neg (Bool.eq_false_iff.mp hc)
  unfold first
  generalize (if c = '"' || c = '\x27' then closeQuote? c s else none) = body? at hnone
  cases hnone
  rfl

/-- A first token fits its kind: the character it starts with and the rest behind it say which it
is. -/
theorem fits_of_first {c : Char} {more rest : List Char} {kind : TokenKind}
    (h : first c (more ++ rest) = ⟨kind, c :: more⟩) : Fits rest kind c more := by
  by_cases hc : isQuote c = true
  · rw [first_of_isQuote hc] at h
    cases hclose : closeQuote? c (more ++ rest) with
    | some body =>
      rw [hclose] at h
      cases h
      exact ⟨hc, hclose⟩
    | none =>
      -- a quote that is not closed is a token by itself
      rw [hclose] at h
      cases h
      obtain ⟨hdigit, hdot, hname, hsymbol, hblank⟩ := not_of_isQuote hc
      exact ⟨rfl, number?_eq_none hdigit hdot, hname, hsymbol, hblank, fun _ => hclose⟩
  · rw [Bool.not_eq_true] at hc
    rw [first_of_not_isQuote hc] at h
    split at h
    next digits hnumber =>
      cases h
      exact hnumber
    next hnumber =>
      split at h
      next hname =>
        injection h with hkind htext
        subst hkind
        exact ⟨hname, of_takeWhile_append (List.cons.inj htext).2⟩
      next hname =>
        split at h
        next text hop =>
          cases h
          exact ⟨hnumber, hop⟩
        next hop =>
          split at h
          next hblank =>
            injection h with hkind htext
            subst hkind
            exact ⟨hblank, of_takeWhile_append (List.cons.inj htext).2⟩
          next hblank =>
            cases h
            -- a sign would have been taken as an operator
            have hsymbol : isSymbol c = false := by
              by_contra hsymbol
              rw [Bool.not_eq_false] at hsymbol
              cases rest with
              | nil => simp [op?, hsymbol] at hop
              | cons d tail =>
                simp only [op?, List.nil_append, hsymbol, if_true] at hop
                split at hop <;> cases hop
            exact ⟨rfl, hnumber, by simpa using hname, hsymbol, by simpa using hblank,
              fun hquote => absurd hquote (by simp [hc])⟩

/-- A text that fits a kind is cut off as a token of that kind. -/
theorem first_of_fits {c : Char} {more rest : List Char} {kind : TokenKind}
    (h : Fits rest kind c more) : first c (more ++ rest) = ⟨kind, c :: more⟩ := by
  cases kind with
  | string => rw [first_of_isQuote h.1, h.2, Option.map_some, Option.getD_some]
  | number =>
    have hnumber : number? (c :: (more ++ rest)) = some (c :: more) := h
    have hc : isQuote c = false := by
      by_contra hc
      obtain ⟨hdigit, hdot, -⟩ := not_of_isQuote (by simpa using hc)
      rw [number?_eq_none hdigit hdot] at hnumber
      cases hnumber
    simp only [first_of_not_isQuote hc, hnumber]
  | name =>
    obtain ⟨hname, hmore, hrest⟩ := h
    have hc : isQuote c = false := by
      by_contra hc
      rw [(not_of_isQuote (by simpa using hc)).2.2.1] at hname
      cases hname
    have hdot : c ≠ '.' := by
      rintro rfl
      exact absurd hname (by decide)
    have hnumber : number? (c :: (more ++ rest)) = none :=
      number?_eq_none (isDigit_of_isNameStart hname) hdot
    simp only [first_of_not_isQuote hc, hnumber, hname, if_true,
      takeWhile_append_of_head hmore hrest]
  | op =>
    obtain ⟨hnumber, hop⟩ := h
    obtain ⟨hc, hname, -⟩ := not_of_isSymbol (isSymbol_of_op? hop)
    simp [first_of_not_isQuote hc, hnumber, hname, hop]
  | space =>
    obtain ⟨hblank, hmore, hrest⟩ := h
    rw [first_of_isBlank _ hblank, takeWhile_append_of_head hmore hrest]
  | other =>
    obtain ⟨rfl, hnumber, hname, hsymbol, hblank, hquote⟩ := h
    rw [List.nil_append]
    by_cases hc : isQuote c = true
    · rw [first_of_isQuote hc, hquote hc]
      rfl
    · rw [Bool.not_eq_true] at hc
      simp [first_of_not_isQuote hc, hnumber, hname, op?_eq_none hsymbol, hblank]

/-- Whether a text leads as a token of a kind depends on that kind's condition only. -/
theorem leads_iff {c : Char} {more rest : List Char} {kind : TokenKind} :
    Leads ⟨kind, c :: more⟩ rest ↔ Fits rest kind c more := by
  constructor
  · rintro ⟨d, tail, htext, hfirst⟩
    cases htext
    exact fits_of_first hfirst
  · intro h
    exact ⟨c, more, rfl, first_of_fits h⟩

/-- A name leads if no name character follows. -/
theorem leads_name {text rest : List Char} (h : isName text = true)
    (hrest : ∀ c ∈ rest.head?, isNameChar c = false) : Leads ⟨.name, text⟩ rest := by
  cases text with
  | nil => cases h
  | cons c more =>
    rw [isName, Bool.and_eq_true] at h
    exact leads_iff.mpr ⟨h.1, List.all_eq_true.mp h.2, hrest⟩

theorem leads_pair {c d : Char} (h : isPair c d = true) (rest : List Char) :
    Leads ⟨.op, [c, d]⟩ rest := by
  obtain ⟨hsymbol, -, hdot⟩ := isSymbol_of_isPair h
  exact leads_iff.mpr ⟨number?_eq_none (not_of_isSymbol hsymbol).2.2.1 hdot, op?_pair h rest⟩

/-- A symbol leads if it starts no number and makes no pair. -/
theorem leads_sign {c : Char} {rest : List Char} (hsymbol : isSymbol c = true)
    (hnumber : number? (c :: rest) = none) (hpair : ∀ d ∈ rest.head?, isPair c d = false) :
    Leads ⟨.op, [c]⟩ rest :=
  leads_iff.mpr ⟨hnumber, op?_single hsymbol hpair⟩

/-! ## Exchanging the rest -/

/-- The rest does not go on with the token. -/
structure Ends (t : Token) (rest : List Char) : Prop where
  name : t.kind = .name → ∀ d ∈ rest.head?, isNameChar d = false
  op : t.kind = .op → ∀ c, t.text = [c] → ∀ d ∈ rest.head?, isPair c d = false
  space : t.kind = .space → ∀ d ∈ rest.head?, isBlank d = false

/-- The rest behind a token does not go on with it. -/
theorem Leads.ends (h : Leads t rest) : Ends t rest := by
  obtain ⟨kind, text⟩ := t
  obtain ⟨c, more, rfl, hfirst⟩ := h
  have hfits := fits_of_first hfirst
  refine ⟨?_, ?_, ?_⟩
  · rintro rfl
    exact hfits.2.2
  · rintro rfl e he
    cases he
    rcases op?_append_eq_some hfits.2 with ⟨-, -, hpair⟩ | ⟨d, hd, -⟩
    · exact hpair
    · cases hd
  · rintro rfl
    exact hfits.2.2

theorem Leads.allBlank (h : Leads t rest) (hkind : t.kind = .space) : allBlank t.text = true := by
  obtain ⟨kind, text⟩ := t
  obtain ⟨c, more, rfl, hfirst⟩ := h
  subst hkind
  have hfits := fits_of_first hfirst
  exact List.all_eq_true.mpr (List.forall_mem_cons.mpr ⟨hfits.1, hfits.2.1⟩)

theorem Leads.isName (h : Leads t rest) (hkind : t.kind = .name) : isName t.text = true := by
  obtain ⟨kind, text⟩ := t
  obtain ⟨c, more, rfl, hfirst⟩ := h
  subst hkind
  have hfits := fits_of_first hfirst
  rw [Text.isName, Bool.and_eq_true]
  exact ⟨hfits.1, List.all_eq_true.mpr hfits.2.1⟩

/-- What starts with a sign other than a point is an operator. -/
theorem Leads.kind_of_isSymbol {c : Char} (h : Leads t rest) (hhead : t.text.head? = some c)
    (hsymbol : isSymbol c = true) (hdot : c ≠ '.') : t.kind = .op := by
  obtain ⟨kind, text⟩ := t
  obtain ⟨more, rfl⟩ := List.head?_eq_some_iff.mp hhead
  obtain ⟨hquote, hname, hdigit, -⟩ := not_of_isSymbol hsymbol
  have hfits := leads_iff.mp h
  cases kind with
  | op => rfl
  | string => exact absurd hfits.1 (by simp [hquote])
  | number =>
    rw [Fits, number?_eq_none hdigit hdot] at hfits
    cases hfits
  | name => exact absurd hfits.1 (by simp [hname])
  | space =>
    rw [(not_of_isBlank hfits.1).2.2.1] at hsymbol
    cases hsymbol
  | other => exact absurd hfits.2.2.2.1 (by simp [hsymbol])

/-- Is the token a quote that is never closed? -/
def isStray (t : Token) : Bool := t.kind = .other && t.text.any isQuote

/-- **The first token stays the first one when the rest is exchanged** for one that looks the same
to numbers and does not go on with the token. A quote that is not closed has to stay so. -/
theorem Leads.exchange (h : Leads t rest)
    (hnumeric : rest'.takeWhile isNumeric <+: rest.takeWhile isNumeric) (hends : Ends t rest')
    (hopen : t.isStray = true → ∀ q, isQuote q = true → closeQuote? q rest = none →
      closeQuote? q rest' = none) : Leads t rest' := by
  obtain ⟨kind, text⟩ := t
  obtain ⟨c, more, rfl, hfirst⟩ := h
  have hfits := fits_of_first hfirst
  obtain ⟨hnumber, hnone⟩ := number?_exchange (List.cons_ne_nil c more) hnumeric
  refine leads_iff.mpr ?_
  cases kind with
  | string => exact ⟨hfits.1, closeQuote?_append hfits.2 rest'⟩
  | number => exact hnumber hfits
  | name => exact ⟨hfits.1, hfits.2.1, hends.name rfl⟩
  | op =>
    refine ⟨hnone hfits.1, ?_⟩
    rcases op?_append_eq_some hfits.2 with ⟨rfl, hsymbol, -⟩ | ⟨d, rfl, hpair⟩
    · exact op?_single hsymbol (hends.op rfl c rfl)
    · exact op?_pair hpair rest'
  | space => exact ⟨hfits.1, hfits.2.1, hends.space rfl⟩
  | other =>
    obtain ⟨rfl, hnumber, hname, hsymbol, hblank, hquote⟩ := hfits
    refine ⟨rfl, hnone hnumber, hname, hsymbol, hblank, fun hc => ?_⟩
    exact hopen (by simp [isStray, hc]) c hc (hquote hc)

/-- The second rest looks to numbers and to open quotes like the first one. -/
structure Alike (rest rest' : List Char) : Prop where
  numeric : rest'.takeWhile isNumeric <+: rest.takeWhile isNumeric
  quote : ∀ q, isQuote q = true → closeQuote? q rest = none → closeQuote? q rest' = none

/-- A leading token still leads another rest that looks alike and does not go on with it. -/
theorem Leads.of_alike (h : Leads t rest) (ha : Alike rest rest') (hends : Ends t rest') :
    Leads t rest' :=
  h.exchange ha.numeric hends fun _ => ha.quote

end Token

end Blockflow
