import Blockflow.Proofs.Expression.SpellingTable

/-!
# Qualified names, token by token

Fields of a class are written with `self.` before them. This puts two tokens before each bare
occurrence of a field and changes nothing else, however the text is cut into tokens afterwards
(`Expression.solid_qualify_self`). To qualify several names is to qualify all of them but one, and
then that one (`Expression.qualifiedTokens_filter`). A name that was qualified is a member of
something, so a text that was qualified has no bare names left
(`Expression.hasBare_qualifiedTokens`).
-/

namespace Blockflow.Expression

open Text Token

/-! ## Bare names -/

variable {isField : List Char → Bool}

/-- Is the token one of the names, and no member of something? The text of the token before it is
`previous`. -/
def isBare (isField : List Char → Bool) (previous : List Char) (t : Token) : Bool :=
  t.kind = .name && isField t.text && previous ≠ ['.']

/-- The tokens with `self.` before the bare names. -/
def qualifiedTokens (isField : List Char → Bool) :
    (previous : List Char) → List Token → List Token
  | _, [] => []
  | previous, t :: rest =>
    (if isBare isField previous t then [word "self", sign ".", t] else [t]) ++
      qualifiedTokens isField t.text rest

/-- Is there a bare name among the tokens? -/
def hasBare (isField : List Char → Bool) : (previous : List Char) → List Token → Bool
  | _, [] => false
  | previous, t :: rest => isBare isField previous t || hasBare isField t.text rest

theorem qualifiedTokens_cons_of_bare {previous : List Char} {t : Token}
    (h : isBare isField previous t = true) (rest : List Token) :
    qualifiedTokens isField previous (t :: rest) =
      word "self" :: sign "." :: t :: qualifiedTokens isField t.text rest := by
  rw [qualifiedTokens, if_pos h]
  rfl

theorem qualifiedTokens_cons_of_not {previous : List Char} {t : Token}
    (h : isBare isField previous t = false) (rest : List Token) :
    qualifiedTokens isField previous (t :: rest) = t :: qualifiedTokens isField t.text rest := by
  rw [qualifiedTokens, if_neg (by simp [h])]
  rfl

theorem length_le_qualifiedTokens (previous : List Char) (ts : List Token) :
    ts.length ≤ (qualifiedTokens isField previous ts).length := by
  induction ts generalizing previous with
  | nil => simp
  | cons t rest ih =>
    have hrest := ih t.text
    rw [qualifiedTokens, List.length_append, List.length_cons]
    split
    next =>
      simp only [List.length_cons, List.length_nil]
      omega
    next =>
      simp only [List.length_cons, List.length_nil]
      omega

/-- Nothing is put in exactly if there is no bare name. -/
theorem qualifiedTokens_eq_self_iff (previous : List Char) (ts : List Token) :
    qualifiedTokens isField previous ts = ts ↔ hasBare isField previous ts = false := by
  induction ts generalizing previous with
  | nil => simp [qualifiedTokens, hasBare]
  | cons t rest ih =>
    rw [hasBare, Bool.or_eq_false_iff, ← ih]
    by_cases hbare : isBare isField previous t = true
    · rw [qualifiedTokens_cons_of_bare hbare]
      have hlength : rest.length ≤ (qualifiedTokens isField t.text rest).length :=
        length_le_qualifiedTokens t.text rest
      constructor
      · intro h
        have := congrArg List.length h
        simp only [List.length_cons] at this
        omega
      · intro h
        rw [hbare] at h
        cases h.1
    · rw [Bool.not_eq_true] at hbare
      simp [qualifiedTokens_cons_of_not hbare, hbare]

/-- Does the text name one of these? -/
def isAmong (names : List String) (text : List Char) : Bool := names.contains (String.ofList text)

/-- The names but one, and then that one. -/
theorem qualifiedTokens_filter {names : List String} {x : String} (hx : x ∈ names)
    (hself : x ≠ "self") (previous : List Char) (ts : List Token) :
    qualifiedTokens (isAmong names) previous ts =
      qualifiedTokens (isAmong [x]) previous
        (qualifiedTokens (isAmong (names.filter (· ≠ x))) previous ts) := by
  induction ts generalizing previous with
  | nil => rfl
  | cons t rest ih =>
    have hone : ∀ p (u : Token), isBare (isAmong [x]) p u = true ↔
        u.kind = .name ∧ String.ofList u.text = x ∧ p ≠ ['.'] := by
      intro p u
      simp [isBare, isAmong, and_assoc]
    by_cases ht : String.ofList t.text = x
    · have hnot : isBare (isAmong (names.filter (· ≠ x))) previous t = false := by
        simp [isBare, isAmong, ht]
      have hsame : isBare (isAmong names) previous t = isBare (isAmong [x]) previous t := by
        simp [isBare, isAmong, ht, hx]
      rw [qualifiedTokens_cons_of_not hnot, qualifiedTokens, qualifiedTokens, hsame, ih]
    · have hsame : isBare (isAmong names) previous t =
          isBare (isAmong (names.filter (· ≠ x))) previous t := by
        simp [isBare, isAmong, ht]
      have hnot : ∀ p, isBare (isAmong [x]) p t = false := by
        intro p
        rw [← Bool.not_eq_true, hone]
        exact fun h => ht h.2.1
      by_cases hbare : isBare (isAmong names) previous t = true
      · have hlead : ∀ p, isBare (isAmong [x]) p (word "self") = false := by
          intro p
          rw [← Bool.not_eq_true, hone]
          intro h
          exact hself (by rw [← h.2.1]; rfl)
        have hdot : ∀ p, isBare (isAmong [x]) p (sign ".") = false := fun p => rfl
        rw [qualifiedTokens_cons_of_bare hbare, qualifiedTokens_cons_of_bare (hsame ▸ hbare),
          qualifiedTokens_cons_of_not (hlead _), qualifiedTokens_cons_of_not (hdot _),
          qualifiedTokens_cons_of_not (hnot _), ih]
      · rw [Bool.not_eq_true] at hbare
        rw [qualifiedTokens_cons_of_not hbare, qualifiedTokens_cons_of_not (hsame ▸ hbare),
          qualifiedTokens_cons_of_not (hnot _), ih]

/-! ## The tokens of a qualified text -/

/-- What is put before a field. -/
def selfLead : List Char := "self.".toList

theorem qualifyTokens_cons (previous : List Char) (t : Token) (rest : List Token) :
    qualifyTokens isField selfLead previous (t :: rest) =
      (if isBare isField previous t then selfLead ++ t.text else t.text) ++
        qualifyTokens isField selfLead (if t.kind = .space then previous else t.text) rest := by
  simp [qualifyTokens, isBare]

theorem isQuiet_of_isName {text : List Char} (h : isName text = true) : isQuiet text = true := by
  rw [isQuiet, Bool.and_eq_true, List.all_eq_true]
  refine ⟨?_, fun c hc => ?_⟩
  · cases text with
    | nil => cases h
    | cons c rest => rfl
  · have hname := isNameChar_of_mem h hc
    by_contra hnot
    simp only [isQuote, Bool.and_eq_true, Bool.not_eq_true', Bool.or_eq_false_iff,
      decide_eq_false_iff_not, decide_eq_true_eq, not_and_or, not_not] at hnot
    rcases hnot with ((rfl | rfl) | rfl) | rfl <;> exact absurd hname (by decide)

theorem kind_of_isBare {previous : List Char} {t : Token} (h : isBare isField previous t = true) :
    t.kind = .name := by
  simp only [isBare, Bool.and_eq_true, decide_eq_true_eq] at h
  exact h.1.1

theorem after_qualifyTokens {q : Char} (hq : isQuote q = true) : ∀ {ts : List Token}
    {previous : List Char} {state : QuoteState}, tokens (join ts) = ts →
      state.after q (qualifyTokens isField selfLead previous ts) = state.after q (join ts)
  | [], _, _, _ => rfl
  | t :: rest, previous, state, hts => by
    obtain ⟨hleads, hrest⟩ := leads_of_tokens hts
    have hjoin : join (t :: rest) = t.text ++ join rest := rfl
    rw [qualifyTokens_cons, hjoin, QuoteState.after_append, QuoteState.after_append,
      after_qualifyTokens hq hrest]
    split
    next hbare =>
      have hquiet := isQuiet_of_isName (hleads.isName (kind_of_isBare hbare))
      have hlead : isQuiet selfLead = true := by decide
      rw [QuoteState.after_append, state.after_of_isQuiet hq hlead,
        QuoteState.after_of_isQuiet hq hquiet, state.after_of_isQuiet hq hquiet]
      cases state <;> rfl
    next => rfl

theorem takeWhile_qualifyTokens : ∀ {ts : List Token} {previous : List Char},
    (qualifyTokens isField selfLead previous ts).takeWhile isNumeric <+:
      (join ts).takeWhile isNumeric
  | [], _ => List.prefix_rfl
  | t :: rest, previous => by
    have hjoin : join (t :: rest) = t.text ++ join rest := rfl
    rw [qualifyTokens_cons, hjoin]
    split
    next => exact List.nil_prefix
    next =>
      rw [List.takeWhile_append, List.takeWhile_append]
      split
      next => exact (List.prefix_append_right_inj _).mpr takeWhile_qualifyTokens
      next => exact List.prefix_rfl

theorem alike_qualifyTokens {rest : List Token} (hrest : tokens (join rest) = rest)
    (previous : List Char) : Alike (join rest) (qualifyTokens isField selfLead previous rest) where
  numeric := takeWhile_qualifyTokens
  quote q hq hclose := by
    rw [closeQuote?_eq_none_iff] at hclose ⊢
    rwa [after_qualifyTokens hq hrest]

theorem ends_qualifyTokens {t : Token} {rest : List Token} (hleads : Leads t (join rest))
    (hrest : tokens (join rest) = rest) (previous : List Char) :
    Ends t (qualifyTokens isField selfLead previous rest) := by
  have hends := hleads.ends
  cases rest with
  | nil => exact hends
  | cons u more =>
    obtain ⟨hu, -⟩ := leads_of_tokens hrest
    obtain ⟨c, tail, htext, -⟩ := id hu
    have hjoin : join (u :: more) = c :: (tail ++ join more) := by simp [join, htext]
    rw [hjoin] at hends
    rw [qualifyTokens_cons]
    split
    next hbare =>
      have hchar : isNameChar c = true :=
        isNameChar_of_mem (hu.isName (kind_of_isBare hbare)) (by simp [htext])
      exact
        { name := fun hkind d hd => by
            rw [hends.name hkind c rfl] at hchar
            cases hchar
          op := fun _ e _ d hd => by
            cases hd
            exact not_isPair_of_not_isSymbol rfl
          space := fun _ d hd => by
            cases hd
            decide }
    next =>
      rw [htext]
      exact ⟨hends.name, hends.op, hends.space⟩

/-- A point before a name is an operator. -/
theorem leads_point {text : List Char} (h : isName text = true) (tail : List Char) :
    Leads (sign ".") (text ++ tail) := by
  cases text with
  | nil => cases h
  | cons c more =>
    rw [isName, Bool.and_eq_true] at h
    have hdigit : ¬ isDigit c = true := by simp [isDigit_of_isNameStart h.1]
    refine leads_sign (c := '.') rfl ?_ fun d _ => ?_
    · rw [number?_point, List.cons_append, List.takeWhile_cons_of_neg hdigit, if_pos rfl]
    · by_contra hpair
      exact (isSymbol_of_isPair (by simpa using hpair)).2.2 rfl

/-- **The tokens of a qualified text.** -/
theorem solid_qualifyTokens : ∀ {ts : List Token} {previous : List Char}, tokens (join ts) = ts →
    solid (qualifyTokens isField selfLead previous ts) =
      qualifiedTokens isField previous (ts.filter isSolid)
  | [], _, _ => rfl
  | t :: rest, previous, hts => by
    obtain ⟨hleads, hrest⟩ := leads_of_tokens hts
    rw [qualifyTokens_cons]
    by_cases hkind : t.kind = .space
    · have hbare : ¬ isBare isField previous t = true := by simp [isBare, hkind]
      rw [if_neg hbare, if_pos hkind, solid_blanks (hleads.allBlank hkind),
        solid_qualifyTokens hrest, List.filter_cons_of_neg (by simp [isSolid, hkind])]
    · have hleads' : Leads t (qualifyTokens isField selfLead t.text rest) :=
        hleads.of_alike (alike_qualifyTokens hrest _) (ends_qualifyTokens hleads hrest _)
      rw [if_neg hkind, List.filter_cons_of_pos (by simp [isSolid, hkind]), qualifiedTokens,
        ← solid_qualifyTokens hrest]
      split
      next hbare =>
        -- the two tokens before the name are cut off first
        have hname := hleads.isName (kind_of_isBare hbare)
        generalize qualifyTokens isField selfLead t.text rest = tail at hleads' ⊢
        have hdot : Leads (sign ".") (t.text ++ tail) := leads_point hname tail
        have hself : Leads (word "self") ((sign ".").text ++ (t.text ++ tail)) :=
          leads_name (by decide) fun c hc => by
            cases hc
            decide
        have htext : selfLead ++ t.text ++ tail =
            (word "self").text ++ ((sign ".").text ++ (t.text ++ tail)) := by
          simp [selfLead, word, sign]
        rw [htext, hself.solid_eq (by simp [word]), hdot.solid_eq (by simp [sign]),
          hleads'.solid_eq hkind]
        rfl
      next => exact hleads'.solid_eq hkind

theorem solid_qualify_self (names : List String) (s : String) :
    solid (qualify names "self." s).toList =
      qualifiedTokens (isAmong names) [] (solid s.toList) := by
  rw [qualify, String.toList_ofList]
  exact solid_qualifyTokens (by rw [join_tokens])

/-- A name is qualified if it is one of the names. -/
theorem qualify_name {names : List String} {s : String} (h : isName s.toList = true) :
    qualify names "self." s = if names.contains s then "self." ++ s else s := by
  have htokens : tokens s.toList = [⟨.name, s.toList⟩] := by
    have hleads : Leads ⟨.name, s.toList⟩ [] := leads_name h fun c hc => by cases hc
    have htokens := hleads.tokens_eq
    rwa [List.append_nil] at htokens
  apply String.toList_inj.mp
  rw [qualify, htokens, String.toList_ofList, qualifyTokens, qualifyTokens]
  by_cases hs : s ∈ names
  · simp [hs]
  · simp [hs]

/-- A qualified text has something put in, or it is the text itself. -/
theorem qualifyTokens_eq_or_mem (ts : List Token) (previous : List Char) :
    qualifyTokens isField selfLead previous ts = join ts ∨
      '.' ∈ qualifyTokens isField selfLead previous ts := by
  induction ts generalizing previous with
  | nil => exact Or.inl rfl
  | cons t rest ih =>
    rw [qualifyTokens_cons]
    split
    next => exact Or.inr (by simp [selfLead])
    next =>
      rcases ih (if t.kind = .space then previous else t.text) with h | h
      · exact Or.inl (by rw [h]; rfl)
      · exact Or.inr (List.mem_append_right _ h)

theorem qualify_eq_zero_iff {names : List String} {s : String} :
    qualify names "self." s = "0" ↔ s = "0" := by
  constructor
  · intro h
    have hlist : qualifyTokens (isAmong names) selfLead [] (tokens s.toList) = ['0'] := by
      have := congrArg String.toList h
      rwa [qualify, String.toList_ofList] at this
    rcases qualifyTokens_eq_or_mem (tokens s.toList) [] with heq | hmem
    · rw [join_tokens, hlist] at heq
      exact String.toList_inj.mp heq.symm
    · rw [hlist] at hmem
      exact absurd hmem (by decide)
  · rintro rfl
    rw [qualify, show tokens "0".toList = [⟨.number, ['0']⟩] by decide]
    rfl

/-! ## Qualifying again -/

/-- No name is bare after it was qualified, and `self` is none of the names. -/
theorem hasBare_qualifiedTokens (hself : isField "self".toList = false) (previous : List Char)
    (ts : List Token) : hasBare isField previous (qualifiedTokens isField previous ts) = false := by
  induction ts generalizing previous with
  | nil => rfl
  | cons t rest ih =>
    by_cases hbare : isBare isField previous t = true
    · rw [qualifiedTokens_cons_of_bare hbare]
      simp only [hasBare, Bool.or_eq_false_iff]
      refine ⟨?_, rfl, ?_, ih t.text⟩
      · have hword : isField (word "self").text = false := hself
        simp [isBare, hword]
      · -- the point stands before the name now
        simp [isBare, sign]
    · rw [Bool.not_eq_true] at hbare
      rw [qualifiedTokens_cons_of_not hbare, hasBare, hbare, ih]
      rfl

/-- A text without bare names stays as it is. -/
theorem qualifyTokens_of_hasBare {ts : List Token} {previous : List Char}
    (h : hasBare isField previous (ts.filter isSolid) = false) :
    qualifyTokens isField selfLead previous ts = join ts := by
  induction ts generalizing previous with
  | nil => rfl
  | cons t rest ih =>
    have hjoin : join (t :: rest) = t.text ++ join rest := rfl
    rw [qualifyTokens_cons, hjoin]
    by_cases hkind : t.kind = .space
    · -- blanks are no names, and the token before them is the last one that counts
      rw [List.filter_cons_of_neg (by simp [isSolid, hkind])] at h
      rw [if_neg (by simp [isBare, hkind]), if_pos hkind, ih h]
    · rw [List.filter_cons_of_pos (by simp [isSolid, hkind]), hasBare, Bool.or_eq_false_iff] at h
      rw [if_neg (by simp [h.1]), if_neg hkind, ih h.2]

/-- **A text is qualified once and for all.** Cut into tokens again, the qualified text has the
tokens of the text, with `self` and a point before exactly those names that are to be qualified and
stand behind no point. To qualify it once more changes nothing, if `self` is none of the names. -/
theorem qualify_self_idempotent {names : List String} (h : "self" ∉ names) (s : String) :
    solid (qualify names "self." s).toList =
        qualifiedTokens (isAmong names) [] (solid s.toList) ∧
      qualify names "self." (qualify names "self." s) = qualify names "self." s := by
  refine ⟨solid_qualify_self names s, ?_⟩
  have hself : isAmong names "self".toList = false := by simpa [isAmong] using h
  have hbare : hasBare (isAmong names) [] (solid (qualify names "self." s).toList) = false := by
    rw [solid_qualify_self]
    exact hasBare_qualifiedTokens hself [] (solid s.toList)
  generalize qualify names "self." s = text at hbare ⊢
  apply String.toList_inj.mp
  rw [qualify, String.toList_ofList]
  calc qualifyTokens (isAmong names) selfLead [] (tokens text.toList)
      = join (tokens text.toList) := qualifyTokens_of_hasBare hbare
    _ = text.toList := join_tokens text.toList

/-- The name after a number that ends in a point, as a member behind blanks, within quotes, and
after a quote that is never closed. -/
theorem qualify_self_idempotent_members :
    "self" ∉ ["x"] ∧
      solid (qualify ["x"] "self." "1.x + a . x + 'x' + \"x").toList =
        [⟨.number, "1.".toList⟩, word "self", sign ".", word "x", sign "+", word "a", sign ".",
          word "x", sign "+", ⟨.string, "'x'".toList⟩, sign "+", ⟨.other, ['"']⟩, word "self",
          sign ".", word "x"] ∧
      qualify ["x"] "self." (qualify ["x"] "self." "1.x + a . x + 'x' + \"x") =
        qualify ["x"] "self." "1.x + a . x + 'x' + \"x" := by
  have hself : "self" ∉ ["x"] := by decide
  obtain ⟨hsolid, hagain⟩ := qualify_self_idempotent hself "1.x + a . x + 'x' + \"x"
  refine ⟨hself, ?_, hagain⟩
  rw [hsolid]
  decide +kernel

end Blockflow.Expression
