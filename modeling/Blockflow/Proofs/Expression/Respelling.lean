import Blockflow.Proofs.Expression.SpellingTable

/-!
# Respelling, token by token

A respelled text is cut into tokens again by whoever reads it. Blanks are put in and dropped on the
way, signs become words and words become signs, so it has to be shown that the tokens are cut at the
same places as before: the tokens of a respelled text are those of the text, each exchanged by the
table of the spelling, and respelling a second time does nothing (`Expression.tokenwise_spell`).

A respelled rest looks to an open quote and to a number like the rest that it was made of
(`Expression.alike_spellTokens`), because the words and signs of the table hold no quotes, no
backslashes and no numeric characters at their start.
-/

namespace Blockflow.Expression

open Text Token

/-! ## The respelled rest of a text -/

/-- A text that means nothing within quotes and nothing to a number before it. -/
def isCalm (s : List Char) : Bool := isQuiet s && s.head?.all (!isNumeric ·)

theorem takeWhile_of_isCalm {s : List Char} (h : isCalm s = true) (rest : List Char) :
    (s ++ rest).takeWhile isNumeric = [] := by
  cases s with
  | nil => cases h
  | cons c more =>
    have hc : isNumeric c = false := by
      rw [isCalm, Bool.and_eq_true] at h
      simpa using h.2
    rw [List.cons_append, List.takeWhile_cons_of_neg (by simp [hc])]

/-- A calm text only ends an escape within quotes. -/
theorem after_of_isCalm {q : Char} (hq : isQuote q = true) {s : List Char} (h : isCalm s = true)
    (state : QuoteState) : state.after q s = state.settled := by
  rw [isCalm, Bool.and_eq_true] at h
  exact state.after_of_isQuiet hq h.1

section

variable {spelling : Spelling} {previous next : Option Token} {t : Token} {text : List Char}
  {drop : Bool}

/-- A token stays with its text, or both its text and the new one mean nothing to what is around. -/
theorem Spells.calm (h : Spells previous next spelling t text drop) :
    (text = t.text ∧ drop = false) ∨ (isCalm t.text = true ∧ isCalm text = true) := by
  have hjoins : ∀ entry ∈ Spelling.joins, isCalm entry.1.text = true ∧ isCalm entry.2.text = true ∧
      ∀ before after, isCalm (gap before ++ entry.2.text ++ gap after) = true := by
    decide
  cases h with
  | same => exact Or.inl ⟨rfl, rfl⟩
  | constant hmem =>
    have hall : ∀ entry ∈ spelling.table,
        isCalm entry.1.text = true ∧ isCalm entry.2.text = true := by
      cases spelling <;> decide +kernel
    exact Or.inr (hall _ hmem)
  | joinWord hmem => exact Or.inr ⟨(hjoins _ hmem).1, (hjoins _ hmem).2.2 _ _⟩
  | notWord =>
    refine Or.inr ⟨by decide, ?_⟩
    cases isGap previous || previous.any (·.text = ['(']) <;> decide
  | joinSign _ hmem => exact Or.inr ⟨(hjoins _ hmem).2.1, (hjoins _ hmem).1⟩
  | notSign => exact Or.inr ⟨by decide, by decide⟩

/-- A respelled token leads through quotes as the token does. -/
theorem Spells.after_eq (h : Spells previous next spelling t text drop) {q : Char}
    (hq : isQuote q = true) (state : QuoteState) :
    state.after q text = state.after q t.text ∧
      (drop = true → (state.after q text).settled = state.after q text) := by
  rcases h.calm with ⟨rfl, rfl⟩ | ⟨ht, htext⟩
  · exact ⟨rfl, fun h => by cases h⟩
  · rw [after_of_isCalm hq ht, after_of_isCalm hq htext]
    refine ⟨rfl, fun _ => ?_⟩
    cases state <;> rfl

end

/-! ## Texts that can be respelled -/

/-- The tokens after a blank one, if there is one at the start. -/
def skipBlank : List Token → List Token
  | [] => []
  | t :: rest => if t.kind = .space then rest else t :: rest

/-- Would the sign for the token, or for the one after it, grow into another operator: `not` before
an equals sign, `and` after `&`, `or` after `|`? -/
def merges (t : Token) (rest : List Token) : Bool :=
  (t = sign "&" && rest.head? = some (word "and")) ||
    (t = sign "|" && rest.head? = some (word "or")) ||
    (t = word "not" && (skipBlank rest).head?.any fun u => u.kind = .op && u.text.head? = some '=')

/-- Can signs be written for words token by token? No text gets other quotes, and no sign grows. -/
def isRespellable : List Token → Bool
  | [] => true
  | t :: rest => !isRequoted t && !merges t rest && isRespellable rest

/-- A spelling with words suits every text. -/
def Spelling.Suits (spelling : Spelling) (ts : List Token) : Prop :=
  spelling ≠ .words → isRespellable ts = true

section

variable {spelling : Spelling} {t : Token} {rest : List Token}

theorem Spelling.Suits.tail (h : spelling.Suits (t :: rest)) : spelling.Suits rest := by
  intro hwords
  have := h hwords
  rw [isRespellable, Bool.and_eq_true] at this
  exact this.2

theorem Spelling.Suits.head (h : spelling.Suits (t :: rest)) (hwords : spelling ≠ .words) :
    isRequoted t = false ∧ merges t rest = false := by
  have := h hwords
  rw [isRespellable, Bool.and_eq_true, Bool.and_eq_true, Bool.not_eq_true',
    Bool.not_eq_true'] at this
  exact this.1

/-- A token is respelled by itself, and the rest behind it. -/
theorem spellTokens_cons {previous : Option Token} {drop : Bool}
    (h : drop = true → t.kind ≠ .space) :
    spellTokens spelling previous drop (t :: rest) =
      (spellToken spelling previous rest.head? t).1 ++
        spellTokens spelling (some t) (spellToken spelling previous rest.head? t).2 rest := by
  rw [spellTokens, if_neg (by simpa using h)]

/-- An open quote sees no difference between a respelled text and the text. -/
theorem after_spellTokens {q : Char} (hq : isQuote q = true) : ∀ {ts : List Token}
    {previous : Option Token} {drop : Bool} {state : QuoteState}, tokens (join ts) = ts →
      spelling.Suits ts → (drop = true → state.settled = state) →
      state.after q (spellTokens spelling previous drop ts) = state.after q (join ts)
  | [], _, _, _, _, _, _ => rfl
  | t :: rest, previous, drop, state, hts, hsuits, hdrop => by
    obtain ⟨hleads, hrest⟩ := leads_of_tokens hts
    have hjoin : join (t :: rest) = t.text ++ join rest := rfl
    rw [hjoin, QuoteState.after_append]
    by_cases hskip : drop = true ∧ t.kind = .space
    · have hblank : ∀ c ∈ t.text, c ≠ q ∧ c ≠ '\\' := by
        intro c hc
        have hc := not_inside_of_isBlank (List.all_eq_true.mp (hleads.allBlank hskip.2) c hc)
        refine ⟨?_, hc.2.2.2.2⟩
        rintro rfl
        rw [hc.2.2.2.1] at hq
        cases hq
      have hstate : state.after q t.text = state := by
        rw [← hdrop hskip.1]
        exact state.after_settled hblank
      rw [spellTokens, if_pos (by simpa using hskip), hstate]
      exact after_spellTokens hq hrest hsuits.tail fun h => by cases h
    · have hspells := spells_spellToken (t := t) previous rest.head? fun hwords =>
        (hsuits.head hwords).1
      obtain ⟨heq, hsettled⟩ := hspells.after_eq hq state
      rw [spellTokens_cons fun hdrop hkind => hskip ⟨hdrop, hkind⟩, QuoteState.after_append,
        after_spellTokens hq hrest hsuits.tail hsettled, heq]

/-- A number sees no difference between a respelled text and the text. -/
theorem takeWhile_spellTokens : ∀ {ts : List Token} {previous : Option Token},
    spelling.Suits ts →
      (spellTokens spelling previous false ts).takeWhile isNumeric = (join ts).takeWhile isNumeric
  | [], _, _ => rfl
  | t :: rest, previous, hsuits => by
    have hspells := spells_spellToken (t := t) previous rest.head? fun hwords =>
      (hsuits.head hwords).1
    have hjoin : join (t :: rest) = t.text ++ join rest := rfl
    rw [hjoin, spellTokens_cons fun h => by cases h]
    rcases hspells.calm with ⟨htext, hdrop⟩ | ⟨ht, htext⟩
    · rw [htext, hdrop, List.takeWhile_append, List.takeWhile_append,
        takeWhile_spellTokens hsuits.tail]
    · rw [takeWhile_of_isCalm htext, takeWhile_of_isCalm ht]

/-- A respelled rest looks to the token before it like the rest. -/
theorem alike_spellTokens (previous : Option Token) (hrest : tokens (join rest) = rest)
    (hsuits : spelling.Suits rest) :
    Alike (join rest) (spellTokens spelling previous false rest) where
  numeric := by simp only [takeWhile_spellTokens hsuits, List.prefix_rfl]
  quote q hq hclose := by
    rw [closeQuote?_eq_none_iff] at hclose ⊢
    rwa [after_spellTokens hq hrest hsuits fun h => by cases h]

/-! ## Where the tokens end -/

/-- What the names of a table start with. -/
theorem head_of_mem_table {u v : Token} (h : (u, v) ∈ spelling.table) :
    (u.kind = .name → ∃ c more, u.text = c :: more ∧ isNameChar c = true) ∧
      (v.kind = .name → ∃ c more, v.text = c :: more ∧ isSymbol c = false) := by
  have hall : ∀ entry ∈ spelling.table,
      (entry.1.kind = .name → entry.1.text.head?.any isNameChar = true) ∧
        (entry.2.kind = .name → (entry.2.text.head?.any fun c => !isSymbol c) = true) := by
    cases spelling <;> decide +kernel
  refine ⟨fun hkind => ?_, fun hkind => ?_⟩
  · obtain ⟨c, hc, hname⟩ := (Option.any_eq_true _ _).mp ((hall _ h).1 hkind)
    obtain ⟨more, hmore⟩ := List.head?_eq_some_iff.mp hc
    exact ⟨c, more, hmore, hname⟩
  · obtain ⟨c, hc, hsymbol⟩ := (Option.any_eq_true _ _).mp ((hall _ h).2 hkind)
    obtain ⟨more, hmore⟩ := List.head?_eq_some_iff.mp hc
    exact ⟨c, more, hmore, by simpa using hsymbol⟩

/-- Which signs pair with `&`, with `|` and with `!`. -/
theorem isPair_logic (c : Char) :
    (isPair c '&' = true → c = '&') ∧ (isPair c '|' = true → c = '|') ∧
    isPair c '!' = false ∧ (isPair '!' c = true → c = '=') := by
  refine ⟨fun h => ?_, fun h => ?_, ?_, fun h => ?_⟩
  · unfold isPair at h
    split at h <;> simp_all
  · unfold isPair at h
    split at h <;> simp_all
  · unfold isPair
    split <;> simp_all
  · unfold isPair at h
    split at h <;> simp_all

/-- The word of an operation starts like a name. Its sign merges with each sign that pairs with
it. -/
theorem head_of_mem_joins {u v : Token} (h : (u, v) ∈ Spelling.joins) :
    (∃ c more, v.text = c :: more ∧ isNameChar c = true) ∧
      ∃ c more, u.text = c :: more ∧
        ∀ e rest, isPair e c = true → merges ⟨.op, [e]⟩ (v :: rest) = true := by
  simp only [Spelling.joins, List.mem_cons, Prod.mk.injEq, List.not_mem_nil, or_false] at h
  rcases h with ⟨rfl, rfl⟩ | ⟨rfl, rfl⟩
  · refine ⟨⟨'a', _, rfl, rfl⟩, '&', _, rfl, fun e rest hpair => ?_⟩
    rw [(isPair_logic e).1 hpair]
    simp [merges, sign]
  · refine ⟨⟨'o', _, rfl, rfl⟩, '|', _, rfl, fun e rest hpair => ?_⟩
    rw [(isPair_logic e).2.1 hpair]
    simp [merges, sign]

/-- A character ends a token if it goes on with none. -/
theorem ends_cons {c : Char} {s : List Char} (hkind : t.kind ≠ .space)
    (hname : t.kind = .name → isNameChar c = false)
    (hop : t.kind = .op → ∀ e, t.text = [e] → isPair e c = false) : Ends t (c :: s) where
  name h d hd := by
    cases hd
    exact hname h
  op h e he d hd := by
    cases hd
    exact hop h e he
  space h := absurd h hkind

/-- The new text of a token goes on with the token before it no more than the old one did. -/
theorem Spells.ends {next : Option Token} {u : Token} {text : List Char} {drop : Bool}
    (h : Spells (some t) next spelling u text drop) (hkind : t.kind ≠ .space)
    (hleads : Leads t (join (u :: rest))) (hne : u.text ≠ [])
    (hmerges : spelling ≠ .words → merges t (u :: rest) = false) (tail : List Char) :
    Ends t (text ++ tail) := by
  have hends := hleads.ends
  have hgap : isGap (some t) = false := by simp [isGap, hkind]
  have hblank : ∀ {s : List Char}, Ends t (' ' :: s) := fun {s} =>
    ends_cons hkind (fun _ => rfl) fun _ e _ => not_isPair_of_not_isSymbol rfl
  -- a name directly behind the token shows that the token is not a name itself
  have hafter : ∀ {c : Char} {more : List Char}, u.text = c :: more → isNameChar c = true →
      t.kind ≠ .name := by
    intro c more hu hc hname
    have := hends.name hname c (by simp [join, hu])
    rw [hc] at this
    cases this
  cases h with
  | same =>
    obtain ⟨c, more, hu⟩ := List.exists_cons_of_ne_nil hne
    have hjoin : join (u :: rest) = c :: (more ++ join rest) := by simp [join, hu]
    rw [hjoin] at hends
    rw [hu]
    exact ⟨hends.name, hends.op, hends.space⟩
  | constant hmem hu hv =>
    obtain ⟨c, more, hc, hname⟩ := (head_of_mem_table hmem).1 hu
    obtain ⟨d, more', hd, hsymbol⟩ := (head_of_mem_table hmem).2 hv
    rw [hd]
    exact ends_cons hkind (fun h => absurd h (hafter hc hname)) fun _ e _ =>
      not_isPair_of_not_isSymbol hsymbol
  | joinWord =>
    rw [hgap]
    exact hblank
  | notWord =>
    -- only a parenthesis goes without the blank, and it is no name
    by_cases hparen : t.text = ['(']
    · have hfree : (isGap (some t) || (some t).any (·.text = ['('])) = true := by simp [hparen]
      rw [hfree]
      refine ends_cons hkind (fun hname => ?_) fun _ e _ => not_isPair_of_not_isSymbol rfl
      obtain ⟨kind, text⟩ := t
      cases hparen
      cases hname
      exact absurd (leads_iff.mp hleads).1 (by decide)
    · have hfree : (isGap (some t) || (some t).any (·.text = ['('])) = false := by
        simp [hgap, hparen]
      rw [hfree]
      exact hblank
  | joinSign hwords hmem =>
    obtain ⟨⟨d, more', hd, hname⟩, c, more, hc, hgrows⟩ := head_of_mem_joins hmem
    rw [hc]
    refine ends_cons hkind (fun h => absurd h (hafter hd hname)) fun hop e he => ?_
    by_contra hpair
    have hmerges := hmerges hwords
    obtain ⟨kind, text⟩ := t
    cases hop
    cases he
    rw [hgrows e rest (by simpa using hpair)] at hmerges
    cases hmerges
  | notSign =>
    exact ends_cons hkind (fun h => absurd h (hafter rfl rfl)) fun _ e _ => (isPair_logic e).2.2.1

/-- The respelled rest goes on with a token no more than the rest did. -/
theorem ends_spellTokens (hkind : t.kind ≠ .space) (hleads : Leads t (join rest))
    (hrest : tokens (join rest) = rest) (hsuits : spelling.Suits (t :: rest)) :
    Ends t (spellTokens spelling (some t) false rest) := by
  cases rest with
  | nil => exact hleads.ends
  | cons u more =>
    have hspells := spells_spellToken (t := u) (some t) more.head? fun hwords =>
      (hsuits.tail.head hwords).1
    obtain ⟨⟨c, text, hu, -⟩, -⟩ := leads_of_tokens hrest
    rw [spellTokens_cons fun h => by cases h]
    exact hspells.ends hkind hleads (by simp [hu]) (fun hwords => (hsuits.head hwords).2) _

/-- A respelled token does not start with an equals sign that was not there. -/
theorem Spells.head_ne_equals {previous next : Option Token} {text : List Char} {drop : Bool}
    (h : Spells previous next spelling t text drop) (hwords : spelling ≠ .words)
    (hne : t.text ≠ []) (hhead : t.text.head? ≠ some '=') (tail : List Char) :
    (text ++ tail).head? ≠ some '=' := by
  cases h with
  | same =>
    obtain ⟨c, more, ht⟩ := List.exists_cons_of_ne_nil hne
    rw [ht] at hhead ⊢
    exact hhead
  | constant hmem _ hu =>
    obtain ⟨c, more, hc, hsymbol⟩ := (head_of_mem_table hmem).2 hu
    rw [hc]
    rintro h
    cases h
    cases hsymbol
  | joinWord => exact absurd rfl hwords
  | notWord => exact absurd rfl hwords
  | joinSign _ hmem =>
    simp only [Spelling.joins, List.mem_cons, Prod.mk.injEq, List.not_mem_nil, or_false] at hmem
    rcases hmem with ⟨rfl, -⟩ | ⟨rfl, -⟩ <;> simp [sign]
  | notSign => simp

/-- A respelled text does not start with an equals sign that was not there. -/
theorem spellTokens_head_ne_equals (hwords : spelling ≠ .words) {ts : List Token}
    (hts : tokens (join ts) = ts) (hsuits : spelling.Suits ts)
    (hhead : ∀ u ∈ ts.head?, u.kind = .op → u.text.head? ≠ some '=') {previous : Option Token}
    {drop : Bool} (hdrop : drop = true → ∀ u ∈ ts.head?, u.kind ≠ .space) :
    (spellTokens spelling previous drop ts).head? ≠ some '=' := by
  cases ts with
  | nil => simp [spellTokens]
  | cons u rest =>
    obtain ⟨hleads, -⟩ := leads_of_tokens hts
    have hne : u.text ≠ [] := by
      obtain ⟨c, more, hu, -⟩ := hleads
      simp [hu]
    have hu : u.text.head? ≠ some '=' := fun h =>
      hhead u rfl (hleads.kind_of_isSymbol h (by decide) (by decide)) h
    rw [spellTokens_cons fun h => hdrop h u rfl]
    exact (spells_spellToken previous rest.head? fun hwords =>
      (hsuits.head hwords).1).head_ne_equals hwords hne hu _

/-- The sign of a negation is not drawn together with what follows. -/
theorem negation_head_ne_equals (hwords : spelling ≠ .words) (hrest : tokens (join rest) = rest)
    (hsuits : spelling.Suits (word "not" :: rest)) (previous : Option Token) :
    (spellTokens spelling previous true rest).head? ≠ some '=' := by
  have hmerges : ∀ u ∈ (skipBlank rest).head?, u.kind = .op → u.text.head? ≠ some '=' := by
    intro u hu hkind hhead
    have hfalse := (hsuits.head hwords).2
    rw [Option.mem_def] at hu
    simp [merges, hu, hkind, hhead] at hfalse
  cases rest with
  | nil => simp [spellTokens]
  | cons u more =>
    by_cases hspace : u.kind = .space
    · rw [skipBlank, if_pos hspace] at hmerges
      rw [spellTokens, if_pos (by simp [hspace])]
      exact spellTokens_head_ne_equals hwords (leads_of_tokens hrest).2 hsuits.tail.tail hmerges
        fun h => by cases h
    · rw [skipBlank, if_neg hspace] at hmerges
      refine spellTokens_head_ne_equals hwords hrest hsuits.tail hmerges fun _ v hv => ?_
      cases hv
      exact hspace

/-! ## The tokens of a respelled text -/

theorem allBlank_gap (present : Bool) : allBlank (gap present) = true := by
  cases present <;> decide

/-- A word with a gap behind it is a token of its own. -/
theorem leads_word {w : String} (hw : isName w.toList = true) (hrest : tokens (join rest) = rest)
    (previous : Option Token) :
    Leads (word w) (gap (isGap rest.head?) ++ spellTokens spelling previous false rest) := by
  refine leads_name hw fun c hc => ?_
  cases rest with
  | nil => cases hc
  | cons u more =>
    by_cases hspace : u.kind = .space
    · obtain ⟨hleads, -⟩ := leads_of_tokens hrest
      have hblank := hleads.allBlank hspace
      obtain ⟨d, text, hu, -⟩ := hleads
      have hspell : spellToken spelling previous more.head? u = (u.text, false) := by
        simp [spellToken, hspace]
      rw [spellTokens_cons (fun h => by cases h), hspell, hu] at hc
      simp only [isGap, gap, List.head?_cons, hspace, decide_true, if_true] at hc
      cases hc
      rw [hu, allBlank, List.all_cons, Bool.and_eq_true] at hblank
      exact (not_inside_of_isBlank hblank.1).1
    · simp only [isGap, gap, List.head?_cons, hspace, decide_false, Bool.false_eq_true, if_false,
        List.cons_append, List.nil_append] at hc
      cases hc
      rfl

theorem isName_of_mem_table {u v : Token} (h : (u, v) ∈ spelling.table) (hv : v.kind = .name) :
    isName v.text = true := by
  have hall : ∀ entry ∈ spelling.table, entry.2.kind = .name → isName entry.2.text = true := by
    cases spelling <;> decide +kernel
  exact hall _ h hv

/-- The new text of a token is cut off again as one token, blanks apart. -/
theorem Spells.solid_append {previous : Option Token} {text : List Char} {drop : Bool}
    (h : Spells previous rest.head? spelling t text drop) (hkind : t.kind ≠ .space)
    (hleads : Leads t (join rest)) (hrest : tokens (join rest) = rest)
    (hsuits : spelling.Suits (t :: rest)) :
    solid (text ++ spellTokens spelling (some t) drop rest) =
      spelling.respelled t :: solid (spellTokens spelling (some t) drop rest) := by
  cases h with
  | same heq =>
    have hleads' := hleads.of_alike (alike_spellTokens (some t) hrest hsuits.tail)
      (ends_spellTokens hkind hleads hrest hsuits)
    rw [heq, hleads'.solid_eq hkind]
  | @constant _ _ u hmem ht hu =>
    have hends := (ends_spellTokens hkind hleads hrest hsuits).name ht
    have hname := isName_of_mem_table hmem hu
    rw [spelling.respelled_of_mem hmem]
    obtain ⟨kind, text⟩ := u
    cases hu
    exact (leads_name hname hends).solid_eq (by simp)
  | joinWord hmem =>
    have htable : ∀ entry ∈ Spelling.joins, Spelling.words.respelled entry.1 = entry.2 := by decide
    rw [htable _ hmem, List.append_assoc, List.append_assoc, solid_blanks (allBlank_gap _)]
    simp only [Spelling.joins, List.mem_cons, Prod.mk.injEq, List.not_mem_nil, or_false] at hmem
    rcases hmem with ⟨rfl, rfl⟩ | ⟨rfl, rfl⟩ <;>
      rw [(leads_word (by decide) hrest _).solid_eq (by simp [word]), solid_blanks (allBlank_gap _)]
  | notWord =>
    have htext : "not ".toList ++ spellTokens .words (some (sign "!")) true rest =
        (word "not").text ++ (' ' :: spellTokens .words (some (sign "!")) true rest) := rfl
    have hleads' : Leads (word "not") (' ' :: spellTokens .words (some (sign "!")) true rest) :=
      leads_name (by decide) fun c hc => by
        cases hc
        rfl
    rw [List.append_assoc, solid_blanks (allBlank_gap _), htext, hleads'.solid_eq (by simp [word])]
    exact congrArg _ (solid_blanks (b := [' ']) (by decide) _)
  | joinSign hwords hmem =>
    rw [spelling.respelled_of_mem (Spelling.mem_table_of_mem_joins hwords hmem)]
    simp only [Spelling.joins, List.mem_cons, Prod.mk.injEq, List.not_mem_nil, or_false] at hmem
    rcases hmem with ⟨rfl, rfl⟩ | ⟨rfl, rfl⟩ <;>
      exact (leads_pair (by decide) _).solid_eq (by simp)
  | notSign hwords =>
    have hleads' : Leads (sign "!") (spellTokens spelling (some (word "not")) true rest) := by
      refine leads_sign (c := '!') rfl (number?_eq_none rfl (by decide)) fun d hd => ?_
      by_contra hpair
      rw [Bool.not_eq_false] at hpair
      rw [(isPair_logic d).2.2.2 hpair] at hd
      exact negation_head_ne_equals hwords hrest hsuits _ hd
    rw [Spelling.respelled_not hwords]
    exact hleads'.solid_eq (by simp [sign])

/-- **The tokens of a respelled text** are those of the text, each exchanged by the table. -/
theorem solid_spellTokens_eq : ∀ {ts : List Token} {previous : Option Token} {drop : Bool},
    tokens (join ts) = ts → spelling.Suits ts →
      solid (spellTokens spelling previous drop ts) = (ts.filter isSolid).map spelling.respelled
  | [], _, _, _, _ => rfl
  | t :: rest, previous, drop, hts, hsuits => by
    obtain ⟨hleads, hrest⟩ := leads_of_tokens hts
    have ih : ∀ {drop}, solid (spellTokens spelling (some t) drop rest) =
        (rest.filter isSolid).map spelling.respelled :=
      fun {drop} => solid_spellTokens_eq hrest hsuits.tail
    by_cases hkind : t.kind = .space
    · rw [List.filter_cons_of_neg (by simp [isSolid, hkind])]
      by_cases hdrop : drop = true
      · rw [spellTokens, if_pos (by simp [hdrop, hkind]), ih]
      · have hspell : spellToken spelling previous rest.head? t = (t.text, false) := by
          simp [spellToken, hkind]
        rw [spellTokens_cons fun h => absurd h hdrop, hspell, solid_blanks (hleads.allBlank hkind),
          ih]
    · have hspells := spells_spellToken (t := t) previous rest.head? fun hwords =>
        (hsuits.head hwords).1
      rw [spellTokens_cons fun _ => hkind, hspells.solid_append hkind hleads hrest hsuits, ih,
        List.filter_cons_of_pos (by simp [isSolid, hkind]), List.map_cons]

/-! ## Stretches of tokens -/

theorem skipBlank_append_head {u : Token} (after : List Token)
    (h : (skipBlank rest).head? = some u) : (skipBlank (rest ++ after)).head? = some u := by
  cases rest with
  | nil => cases h
  | cons t more =>
    rw [List.cons_append, skipBlank] at *
    split at h
    next hspace => rw [if_pos hspace, List.head?_append, h, Option.some_or]
    next hspace =>
      rw [if_neg hspace]
      exact h

/-- Two tokens that merge also merge if more follows. -/
theorem merges_append (after : List Token) (h : merges t rest = true) :
    merges t (rest ++ after) = true := by
  have hhead : ∀ {u}, rest.head? = some u → (rest ++ after).head? = some u := by
    intro u hu
    rw [List.head?_append, hu, Option.some_or]
  simp only [merges, Bool.or_eq_true, Bool.and_eq_true, decide_eq_true_eq] at h ⊢
  rcases h with (⟨ht, hu⟩ | ⟨ht, hu⟩) | ⟨ht, hany⟩
  · exact Or.inl (Or.inl ⟨ht, hhead hu⟩)
  · exact Or.inl (Or.inr ⟨ht, hhead hu⟩)
  · obtain ⟨u, hu, hequals⟩ := (Option.any_eq_true _ _).mp hany
    exact Or.inr ⟨ht, (Option.any_eq_true _ _).mpr ⟨u, skipBlank_append_head after hu, hequals⟩⟩

/-- A stretch of tokens is respellable when all of them are. -/
theorem isRespellable_of_append {before ts after : List Token}
    (h : isRespellable (before ++ ts ++ after) = true) : isRespellable ts = true := by
  induction before with
  | cons t more ih =>
    rw [List.cons_append, List.cons_append, isRespellable, Bool.and_eq_true] at h
    exact ih h.2
  | nil =>
    rw [List.nil_append] at h
    induction ts with
    | nil => rfl
    | cons t more ih =>
      rw [List.cons_append, isRespellable, Bool.and_eq_true, Bool.and_eq_true] at h
      rw [isRespellable, Bool.and_eq_true, Bool.and_eq_true]
      refine ⟨⟨h.1.1, ?_⟩, ih h.2⟩
      have hmerges := h.1.2
      rw [Bool.not_eq_true'] at hmerges ⊢
      by_contra hnot
      rw [merges_append after (by simpa using hnot)] at hmerges
      cases hmerges

theorem not_isRequoted_of_mem {ts : List Token} (h : isRespellable ts = true) (ht : t ∈ ts) :
    isRequoted t = false := by
  induction ts with
  | nil => cases ht
  | cons u more ih =>
    rw [isRespellable, Bool.and_eq_true, Bool.and_eq_true, Bool.not_eq_true'] at h
    rcases List.mem_cons.mp ht with rfl | ht
    · exact h.1.1
    · exact ih h.2 ht

/-- A text that can be respelled can be respelled without the blanks around it. -/
theorem Spelling.Suits.strip {s : List Char} (h : spelling.Suits (tokens s)) :
    spelling.Suits (tokens (strip s)) := by
  intro hwords
  obtain ⟨before, after, hs, -⟩ := tokens_strip s
  have h := h hwords
  rw [hs] at h
  exact isRespellable_of_append h

/-- The solid tokens of a respelled text are the respelled solid tokens. -/
theorem solid_spellChars {s : List Char} (h : spelling.Suits (tokens s)) :
    solid (spellChars spelling s) = (solid s).map spelling.respelled := by
  rw [spellChars, solid_spellTokens_eq (by rw [join_tokens]) h.strip]
  exact congrArg _ (solid_strip s)

/-! ## Respelling twice -/

/-- A token that is its own respelling stays as it is written. -/
theorem Spells.of_respelled {previous next : Option Token} {text : List Char} {drop : Bool}
    (h : Spells previous next spelling t text drop) (hfixed : spelling.respelled t = t) :
    text = t.text ∧ drop = false := by
  cases h with
  | same => exact ⟨rfl, rfl⟩
  | constant hmem =>
    rw [spelling.respelled_of_mem hmem] at hfixed
    exact ⟨by rw [hfixed], rfl⟩
  | joinWord hmem =>
    have htable : ∀ entry ∈ Spelling.joins, Spelling.words.respelled entry.1 ≠ entry.1 := by decide
    exact absurd hfixed (htable _ hmem)
  | notWord => exact absurd hfixed (by decide)
  | joinSign hwords hmem =>
    rw [spelling.respelled_of_mem (Spelling.mem_table_of_mem_joins hwords hmem)] at hfixed
    exact ⟨by rw [hfixed], rfl⟩
  | notSign hwords =>
    rw [Spelling.respelled_not hwords] at hfixed
    exact absurd hfixed (by decide)

/-- Tokens that the table leaves alone are written as they are. -/
theorem spellTokens_of_respelled : ∀ {ts : List Token} {previous : Option Token},
    (∀ t ∈ ts, spelling.respelled t = t ∧ (spelling ≠ .words → isRequoted t = false)) →
      spellTokens spelling previous false ts = join ts
  | [], _, _ => rfl
  | t :: rest, previous, h => by
    obtain ⟨ht, hrest⟩ := List.forall_mem_cons.mp h
    obtain ⟨htext, hdrop⟩ := (spells_spellToken previous rest.head? ht.2).of_respelled ht.1
    rw [spellTokens_cons (fun h => by cases h), htext, hdrop, spellTokens_of_respelled hrest]
    rfl

/-- A text whose tokens the table leaves alone is only stripped. -/
theorem spellChars_of_respelled {s : List Char}
    (h : ∀ t ∈ solid s, spelling.respelled t = t ∧ (spelling ≠ .words → isRequoted t = false)) :
    spellChars spelling s = strip s := by
  have hfixed : ∀ t ∈ tokens (strip s),
      spelling.respelled t = t ∧ (spelling ≠ .words → isRequoted t = false) := by
    intro t ht
    by_cases hkind : t.kind = .space
    · exact ⟨Spelling.respelled_eq_self (by simp [Spelling.exchanges, hkind]),
        fun _ => by simp [isRequoted, hkind]⟩
    · refine h t ?_
      rw [← solid_strip]
      exact List.mem_filter.mpr ⟨ht, by simp [isSolid, hkind]⟩
  rw [spellChars, spellTokens_of_respelled hfixed, join_tokens]

/-- A text that was respelled is only stripped when it is respelled again. -/
theorem spellChars_spellChars {s : List Char} (h : spelling.Suits (tokens s)) :
    spellChars spelling (spellChars spelling s) = strip (spellChars spelling s) := by
  refine spellChars_of_respelled fun t ht => ?_
  rw [solid_spellChars h] at ht
  obtain ⟨u, hu, rfl⟩ := List.mem_map.mp ht
  refine ⟨spelling.respelled_respelled u, fun hwords => ?_⟩
  rcases spelling.respelled_cases u with heq | hentry
  · rw [heq]
    exact not_isRequoted_of_mem (h hwords) (List.mem_filter.mp hu).1
  · have hall : ∀ entry ∈ spelling.table, isRequoted entry.2 = false := by
      cases spelling <;> decide
    exact hall _ hentry

end

/-- **A text is respelled token by token.** Cut into tokens again, the respelled text has the tokens
of the text, each exchanged as the table of the language says, and to respell it once more only
strips it. For languages with signs the text must not have a text in single quotes that gets double
ones, or a word whose sign would grow into another operator. -/
theorem tokenwise_spell (language s : String)
    (h : language = "python" ∨ isRespellable (tokens s.toList) = true) :
    solid (spell (.ofLanguage language) s).toList =
        (solid s.toList).map (Spelling.ofLanguage language).respelled ∧
      spell (.ofLanguage language) (spell (.ofLanguage language) s) =
        trim (spell (.ofLanguage language) s) := by
  have hsuits : (Spelling.ofLanguage language).Suits (tokens s.toList) := by
    intro hwords
    rcases h with rfl | h
    · exact absurd rfl hwords
    · exact h
  refine ⟨?_, ?_⟩
  · rw [spell, String.toList_ofList, solid_spellChars hsuits]
  · rw [spell, trim, spell, String.toList_ofList, spellChars_spellChars hsuits]

/-- Words beside numbers, operators and an open quote, for a language with signs. -/
theorem tokenwise_spell_open_quote :
    isRespellable (tokens "not (a and 1.or.5) != None' \\not ".toList) = true ∧
      solid (spell (.ofLanguage "cpp") "not (a and 1.or.5) != None' \\not ").toList =
        (solid "not (a and 1.or.5) != None' \\not ".toList).map
          (Spelling.ofLanguage "cpp").respelled ∧
      spell (.ofLanguage "cpp") (spell (.ofLanguage "cpp") "not (a and 1.or.5) != None' \\not ") =
        trim (spell (.ofLanguage "cpp") "not (a and 1.or.5) != None' \\not ") := by
  have h : isRespellable (tokens "not (a and 1.or.5) != None' \\not ".toList) = true := by
    decide +kernel
  exact ⟨h, tokenwise_spell "cpp" "not (a and 1.or.5) != None' \\not " (Or.inr h)⟩

end Blockflow.Expression
