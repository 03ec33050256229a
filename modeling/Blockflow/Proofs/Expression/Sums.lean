import Blockflow.Proofs.Expression.Portable

/-!
# Sums taken apart

A sum that builds a text is cut at its plus signs, and the operands before the first text in quotes
are joined again, with blanks around the plus signs. The tokens of a sum that was joined are those
of its operands (`Expression.tokens_joinPlus`), because no operand starts or ends with a blank and
all quotes are closed. So the pieces have the tokens of the sum, with a plus sign between them
(`Expression.intercalate_concatPieces?`).
-/

namespace Blockflow.Expression

open Text Token

/-! ## Operands that are joined -/

/-- What stands between operands that are joined. -/
def plus : List Token := [⟨.space, [' ']⟩, sign "+", ⟨.space, [' ']⟩]

/-- A text that can be an operand of a sum: it is not empty, there are no blanks at its ends, and
all quotes in it are closed. -/
structure IsOperand (s : List Char) : Prop where
  ne_nil : s ≠ []
  stripped : Stripped s
  closed : ∀ t ∈ tokens s, t.isStray = false

theorem tokens_blank_cons {s : List Char} (hs : ∀ c ∈ s.head?, isBlank c = false) :
    tokens (' ' :: s) = ⟨.space, [' ']⟩ :: tokens s :=
  tokens_blanks_append (b := [' ']) (by decide) hs

theorem tokens_append_plus {p s : List Char} (hp : IsOperand p)
    (hs : ∀ c ∈ s.head?, isBlank c = false) :
    tokens (p ++ [' ', '+', ' '] ++ s) = tokens p ++ plus ++ tokens s := by
  have hhead : ∀ c ∈ (' ' :: '+' :: ' ' :: s).head?, Breaks c := by
    intro c hc
    cases hc
    exact breaks_of_isBlank rfl
  -- The blank ends the operand, which is why no closing quote may be missing in it.
  have happend := tokens_append hp.stripped hp.closed hhead
  have hsign : Leads (sign "+") (' ' :: s) := by
    refine leads_sign (c := '+') rfl (number?_eq_none rfl (by decide)) fun d hd => ?_
    cases hd
    rfl
  have hplus : tokens ('+' :: ' ' :: s) = sign "+" :: ⟨.space, [' ']⟩ :: tokens s := by
    rw [← tokens_blank_cons hs]
    exact hsign.tokens_eq
  rw [tokens_blank_cons (by rintro c ⟨⟩; rfl), hplus] at happend
  rw [List.append_assoc, List.append_assoc]
  exact happend

theorem joinPlus_eq_intercalate :
    ∀ ps : List (List Char), joinPlus ps = [' ', '+', ' '].intercalate ps
  | [] => rfl
  | [p] => by simp [joinPlus]
  | p :: q :: rest => by
    rw [joinPlus, joinPlus_eq_intercalate (q :: rest), List.intercalate_cons_cons]
    simp

theorem head_joinPlus {ps : List (List Char)} (h : ∀ p ∈ ps, IsOperand p) :
    ∀ c ∈ (joinPlus ps).head?, isBlank c = false := by
  rw [joinPlus_eq_intercalate]
  cases ps with
  | nil => exact fun c hc => by cases hc
  | cons p rest =>
    have hp := h p List.mem_cons_self
    rw [head?_intercalate hp.ne_nil]
    exact hp.stripped.head

/-- **The tokens of operands that were joined.** -/
theorem tokens_joinPlus : ∀ {ps : List (List Char)}, (∀ p ∈ ps, IsOperand p) →
    tokens (joinPlus ps) = plus.intercalate (ps.map tokens)
  | [], _ => rfl
  | [p], _ => by simp [joinPlus]
  | p :: q :: rest, h => by
    obtain ⟨hp, hrest⟩ := List.forall_mem_cons.mp h
    rw [joinPlus, tokens_append_plus hp (head_joinPlus hrest), tokens_joinPlus hrest]
    · simp only [List.map_cons, List.intercalate_cons_cons]
    · simp

theorem solid_joinPlus {ps : List (List Char)} (h : ∀ p ∈ ps, IsOperand p) :
    solid (joinPlus ps) = [sign "+"].intercalate (ps.map solid) := by
  rw [solid, tokens_joinPlus h, intercalate_hom rfl List.filter_append, List.map_map]
  rfl

/-! ## Joined operands with signs -/

theorem merges_append_plus {t : Token} {rest more : List Token}
    (h : merges t (rest ++ plus ++ more) = true) : merges t rest = true := by
  cases rest with
  | nil => simp [merges, plus, skipBlank, sign, word] at h
  | cons u others =>
    rw [List.append_assoc, List.cons_append] at h
    rw [merges, List.head?_cons] at h ⊢
    by_cases hu : u.kind = .space
    · rw [skipBlank, if_pos hu] at h ⊢
      cases others with
      | nil => simpa [plus] using h
      | cons v rest => exact h
    · rw [skipBlank, if_neg hu] at h ⊢
      exact h

theorem isRespellable_append_plus {ts more : List Token} (hts : isRespellable ts = true)
    (hmore : isRespellable more = true) : isRespellable (ts ++ plus ++ more) = true := by
  induction ts with
  | nil => simpa [isRespellable, plus, isRequoted, merges, skipBlank, sign, word] using hmore
  | cons t rest ih =>
    rw [isRespellable, Bool.and_eq_true, Bool.and_eq_true] at hts
    rw [List.cons_append, List.cons_append, isRespellable, Bool.and_eq_true, Bool.and_eq_true]
    refine ⟨⟨hts.1.1, ?_⟩, ih hts.2⟩
    have hmerges := hts.1.2
    rw [Bool.not_eq_true'] at hmerges ⊢
    by_contra h
    rw [merges_append_plus (by simpa using h)] at hmerges
    cases hmerges

theorem isPortable_append_plus {ts more : List Token} (hts : isPortable ts = true)
    (hmore : isPortable more = true) : isPortable (ts ++ plus ++ more) = true := by
  rw [isPortable, Bool.and_eq_true] at hts hmore
  have hplus : plus.map requote = plus ∧ plus.all isWritable = true := by decide
  rw [isPortable, List.map_append, List.map_append, hplus.1, List.all_append, List.all_append,
    hts.1, hplus.2, hmore.1, isRespellable_append_plus hts.2 hmore.2]
  rfl

theorem isPortable_intercalate : ∀ {pieces : List (List Token)},
    (∀ piece ∈ pieces, isPortable piece = true) → isPortable (plus.intercalate pieces) = true
  | [], _ => rfl
  | [piece], h => by simpa using h
  | piece :: next :: pieces, h => by
    obtain ⟨hpiece, hrest⟩ := List.forall_mem_cons.mp h
    rw [List.intercalate_cons_cons]
    exact isPortable_append_plus hpiece (isPortable_intercalate hrest)

/-! ## The pieces of a sum -/

section

variable {s : List Char} {ps : List (List Char)}

theorem joinLeading?_eq_some {parts : List (List Char)} (h : joinLeading? parts = some ps) :
    ∃ leading literal rest, parts = leading ++ literal :: rest ∧
      (∀ p ∈ leading, isStringLiteral p = false) ∧ isStringLiteral literal = true ∧
      (leading = [] ∧ ps = literal :: rest ∨
        leading ≠ [] ∧ ps = joinPlus leading :: literal :: rest) := by
  unfold joinLeading? at h
  split at h
  next => cases h
  next hne =>
    obtain ⟨literal, rest, hrest⟩ := List.exists_cons_of_ne_nil hne
    refine ⟨parts.takeWhile (!isStringLiteral ·), literal, rest, ?_, ?_, ?_, ?_⟩
    · rw [← hrest, List.takeWhile_append_dropWhile]
    · intro p hp
      simpa using List.mem_takeWhile_imp hp
    · have hhead := List.head?_dropWhile_not (!isStringLiteral ·) parts
      rw [hrest] at hhead
      simpa using hhead
    · rw [hrest] at h
      split at h
      next hleading =>
        cases h
        exact Or.inl ⟨hleading, rfl⟩
      next hleading =>
        cases h
        exact Or.inr ⟨hleading, rfl⟩

theorem joinLeading?_eq_none_iff {parts : List (List Char)} :
    joinLeading? parts = none ↔ ∀ p ∈ parts, isStringLiteral p = false := by
  have hdrop : parts.dropWhile (!isStringLiteral ·) = [] ↔
      ∀ p ∈ parts, isStringLiteral p = false := by
    simp [List.dropWhile_eq_nil_iff]
  rw [← hdrop, joinLeading?]
  split
  next hnil => simp [hnil]
  next hne => split <;> simpa using hne

/-- How a sum is cut: the operands before the first text in quotes, this text, and the operands
behind it. -/
structure IsSum (s : List Char) (leading : List (List Char)) (literal : List Char)
    (rest : List (List Char)) : Prop where
  pieces_eq : pieces ['+'] (strip s) = leading ++ literal :: rest
  isOperand : ∀ p ∈ leading ++ literal :: rest, IsOperand p
  several : 2 ≤ (leading ++ literal :: rest).length
  not_literal : ∀ p ∈ leading, isStringLiteral p = false
  literal : isStringLiteral literal = true

/-- The pieces of a sum are operands of it, the first ones joined. -/
theorem concatPieces?_eq_some (hclosed : ∀ t ∈ tokens s, t.isStray = false)
    (h : concatPieces? s = some ps) :
    ∃ leading literal rest, IsSum s leading literal rest ∧
      (leading = [] ∧ ps = literal :: rest ∨
        leading ≠ [] ∧ ps = joinPlus leading :: literal :: rest) := by
  unfold concatPieces? at h
  simp only at h
  split at h
  next => cases h
  next hparts =>
    simp only [Bool.or_eq_true, not_or, List.any_eq_true, decide_eq_true_eq, not_exists,
      not_and, Nat.not_lt] at hparts
    obtain ⟨leading, literal, rest, heq, hleading, hliteral, hps⟩ := joinLeading?_eq_some h
    rw [heq] at hparts
    refine ⟨leading, literal, rest, ⟨heq, fun p hp => ?_, hparts.1, hleading, hliteral⟩, hps⟩
    obtain ⟨hstripped, before, after, htokens⟩ := tokens_of_mem_pieces (heq ▸ hp)
    obtain ⟨before', after', hstrip, -⟩ := tokens_strip s
    refine ⟨hparts.2 p hp, hstripped, fun t ht => hclosed t ?_⟩
    rw [hstrip, htokens]
    simp [ht]

theorem concatPieces?_eq_none_iff :
    concatPieces? s = none ↔ (pieces ['+'] (strip s)).length < 2 ∨ [] ∈ pieces ['+'] (strip s) ∨
      ∀ p ∈ pieces ['+'] (strip s), isStringLiteral p = false := by
  unfold concatPieces?
  simp only
  split
  next hparts => simpa [or_assoc] using Or.inl hparts
  next hparts =>
    simp only [Bool.or_eq_true, not_or, List.any_eq_true, decide_eq_true_eq, not_exists, not_and]
      at hparts
    rw [joinLeading?_eq_none_iff, or_iff_right hparts.1, or_iff_right fun h => hparts.2 [] h rfl]

/-- **The pieces of a sum have its tokens**, with a plus sign between them, and are level. -/
theorem intercalate_concatPieces? (hclosed : ∀ t ∈ tokens s, t.isStray = false)
    (h : concatPieces? s = some ps) :
    [sign "+"].intercalate (ps.map solid) = solid s ∧ Leveled 0 (ps.map solid) := by
  obtain ⟨leading, literal, rest, hsum, hps⟩ := concatPieces?_eq_some hclosed h
  have hsolid := intercalate_pieces ['+'] (strip s)
  have hlevel := leveled_pieces (show depthChange ⟨.op, ['+']⟩ = 0 from rfl) (strip s)
  rw [hsum.pieces_eq, solid_strip] at hsolid
  rw [hsum.pieces_eq] at hlevel
  rcases hps with ⟨rfl, rfl⟩ | ⟨hleading, rfl⟩
  · exact ⟨hsolid, hlevel⟩
  · -- The operands in front of the first text are joined again by plus signs.
    have hrest : (literal :: rest).map solid ≠ [] := by simp
    have hleading' : leading.map solid ≠ [] := by simpa using hleading
    have hjoined := solid_joinPlus fun p hp => hsum.isOperand p (List.mem_append_left _ hp)
    rw [List.map_append] at hsolid hlevel
    obtain ⟨hdepth, hlevel⟩ := Leveled.of_append hrest hlevel
    rw [intercalate_append hrest hleading'] at hsolid
    rw [List.map_cons, hjoined]
    refine ⟨?_, Leveled.cons (depth_intercalate rfl hdepth) hlevel⟩
    refine (intercalate_append hrest (List.cons_ne_nil _ [])).trans ?_
    rw [List.intercalate_singleton]
    exact hsolid

/-- The pieces of a sum can be written with signs if the sum can. -/
theorem isPortable_concatPieces? (hs : isPortable (tokens s) = true)
    (h : concatPieces? s = some ps) : ∀ p ∈ ps, isPortable (tokens p) = true := by
  obtain ⟨leading, literal, rest, hsum, hps⟩ :=
    concatPieces?_eq_some (fun t => not_isStray_of_isPortable hs) h
  have hportable : ∀ p ∈ leading ++ literal :: rest, isPortable (tokens p) = true := by
    intro p hp
    rw [← hsum.pieces_eq] at hp
    obtain ⟨-, before, after, htokens⟩ := tokens_of_mem_pieces hp
    have hs := isPortable_strip hs
    rw [htokens] at hs
    exact isPortable_stretch hs
  rcases hps with ⟨rfl, rfl⟩ | ⟨-, rfl⟩
  · exact hportable
  · refine List.forall_mem_cons.mpr ⟨?_, fun p hp => hportable p (List.mem_append_right _ hp)⟩
    rw [tokens_joinPlus fun p hp => hsum.isOperand p (List.mem_append_left _ hp)]
    exact isPortable_intercalate (List.forall_mem_map.mpr fun p hp =>
      hportable p (List.mem_append_left _ hp))

end

end Blockflow.Expression
