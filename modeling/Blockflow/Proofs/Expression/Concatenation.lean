import Blockflow.Proofs.Expression.Cuts
import Blockflow.Proofs.Expression.Sums

/-!
# Sums that build a text

An expression builds a text if one of the operands between its plus signs is a text in quotes. It is
taken apart into this text, the operands behind it, and what stands in front of it as one piece. The
pieces have the tokens of the expression, with plus signs between them, and there are none if and
only if the operands are too few, or one of them is empty, or none is a text in quotes
(`Expression.splitConcat_decomposes`).
-/

namespace Blockflow

open Text Token

namespace Token

/-- The pieces of a text are those of its tokens, up to blanks. -/
theorem isCut_pieces {mark : List Char} (hmark : depthChange ⟨.op, mark⟩ = 0) (s : List Char) :
    IsCut ⟨.op, mark⟩ (solid s) ((pieces mark s).map solid) where
  joined := intercalate_pieces mark s
  leveled := leveled_pieces hmark s
  whole := by
    rw [map_solid_pieces, List.forall_mem_map]
    intro piece hpiece hmem
    rw [outside_filter fun _ => depthChange_of_not_isSolid] at hmem
    exact ((isCut_iff hmark).mpr rfl).whole piece hpiece (List.mem_filter.mp hmem).1
  ne_nil := by
    rw [map_solid_pieces]
    exact mt List.map_eq_nil_iff.mp (cutAt_ne_nil mark 0 _)

theorem isCut_solid_iff {mark s : List Char} (hmark : depthChange ⟨.op, mark⟩ = 0)
    {operands : List (List Token)} :
    IsCut ⟨.op, mark⟩ (solid s) operands ↔ (pieces mark s).map solid = operands := by
  rw [isCut_iff hmark, (isCut_iff hmark).mp (isCut_pieces hmark s)]

theorem notMem_outside_solid {t : Token} (ht : isSolid t = true) {s : List Char} :
    t ∉ outside 0 (solid s) ↔ t ∉ outside 0 (tokens s) := by
  rw [outside_solid, List.mem_filter, and_iff_left ht]

/-- A text without blanks at its ends has a token that is no blank, unless it is empty. -/
theorem solid_eq_nil_iff {s : List Char} (hs : Stripped s) : solid s = [] ↔ s = [] := by
  constructor
  · intro h
    have htokens : tokens s = [] := by
      by_contra hne
      obtain ⟨t, ht⟩ := Option.isSome_iff_exists.mp (List.getLast?_isSome.mpr hne)
      have hblank := List.filter_eq_nil_iff.mp h t (List.mem_of_mem_getLast? ht)
      exact last_of_stripped hs t ht (by simpa [isSolid] using hblank)
    rw [← join_tokens s, htokens]
    rfl
  · rintro rfl
    rfl

end Token

namespace Expression

/-- An operand that is a text in quotes and nothing else. -/
def IsLiteral (operand : List Token) : Prop := ∃ text, operand = [⟨.string, text⟩]

theorem isStringLiteral_iff {s : List Char} : isStringLiteral s = true ↔ IsLiteral (solid s) := by
  rw [← solid_strip s]
  constructor
  · intro h
    unfold isStringLiteral at h
    split at h
    next t htokens =>
      obtain ⟨kind, text⟩ := t
      obtain rfl : kind = .string := by simpa using h
      exact ⟨text, by rw [solid, htokens]; rfl⟩
    next => cases h
  · rintro ⟨text, hsolid⟩
    obtain ⟨hmem, heq⟩ := eq_of_solid_singleton (strip_stripped s) hsolid
    obtain ⟨before, after, htokens⟩ := List.append_of_mem hmem
    -- A token of a text is the only one of its own text.
    have hstretch : tokens (join (before ++ [⟨.string, text⟩] ++ after)) =
        before ++ [⟨.string, text⟩] ++ after := by
      rw [List.append_assoc, List.singleton_append, ← htokens, join_tokens]
    have hjoin : join [⟨.string, text⟩] = strip s := by rw [heq]; exact List.flatMap_singleton _ _
    rw [isStringLiteral, ← hjoin, tokens_stretch hstretch]
    rfl

theorem not_isLiteral_iff {s : List Char} : ¬ IsLiteral (solid s) ↔ isStringLiteral s = false := by
  rw [← isStringLiteral_iff, Bool.not_eq_true]

/-- Pieces that build a text one after the other, from the first text in quotes on. What stands in
front of this text is one piece. -/
structure IsTextSum (ps : List (List Char)) : Prop where
  several : 2 ≤ ps.length
  ne_nil : ∀ p ∈ ps, p ≠ []
  split : ∃ leading literal rest, ps = leading ++ literal :: rest ∧ leading.length ≤ 1 ∧
    (∀ p ∈ leading, ¬ IsLiteral (solid p)) ∧ IsLiteral (solid literal) ∧
    ∀ p ∈ literal :: rest, sign "+" ∉ outside 0 (tokens p)

section

variable {s : List Char} {leading rest ps : List (List Char)} {literal : List Char}

theorem joinPlus_joined (hleading : leading ≠ []) (hrest : rest ≠ []) :
    joinPlus (joinPlus leading :: rest) = joinPlus (leading ++ rest) := by
  obtain ⟨next, more, rfl⟩ := List.exists_cons_of_ne_nil hrest
  simp only [joinPlus_eq_intercalate]
  rw [intercalate_append hrest hleading, List.intercalate_cons_cons]

theorem joinPlus_ne_nil (h : ∀ p ∈ leading, IsOperand p) (hne : leading ≠ []) :
    joinPlus leading ≠ [] := by
  obtain ⟨p, more, rfl⟩ := List.exists_cons_of_ne_nil hne
  have hp := (h p List.mem_cons_self).ne_nil
  rw [joinPlus_eq_intercalate]
  intro hnil
  have hhead : ([' ', '+', ' '].intercalate (p :: more)).head? = p.head? :=
    head?_intercalate hp more
  rw [hnil, List.head?_nil] at hhead
  exact hp (List.head?_eq_none_iff.mp hhead.symm)

/-- Operands that are joined are no text in quotes, because there is a plus sign between them. -/
theorem not_isLiteral_joinPlus (h : ∀ p ∈ leading, IsOperand p) (hne : leading ≠ [])
    (hliteral : ∀ p ∈ leading, ¬ IsLiteral (solid p)) : ¬ IsLiteral (solid (joinPlus leading)) := by
  obtain ⟨p, more, rfl⟩ := List.exists_cons_of_ne_nil hne
  cases more with
  | nil => exact hliteral p List.mem_cons_self
  | cons q more =>
    rintro ⟨text, hsolid⟩
    rw [solid_joinPlus h, List.map_cons, List.map_cons, List.intercalate_cons_cons] at hsolid
    have hmem : sign "+" ∈ [(⟨.string, text⟩ : Token)] := by
      rw [← hsolid]
      simp
    simp [sign] at hmem

theorem IsSum.whole (hsum : IsSum s leading literal rest) :
    ∀ p ∈ literal :: rest, sign "+" ∉ outside 0 (tokens p) := by
  intro p hp
  have hpieces : p ∈ pieces ['+'] (strip s) := hsum.pieces_eq ▸ List.mem_append_right _ hp
  exact (notMem_outside_solid rfl).mp
    ((isCut_pieces rfl (strip s)).whole _ (List.mem_map_of_mem hpieces))

/-- The pieces of a sum build a text, and joined they have the tokens of the sum. -/
theorem isTextSum_concatPieces? (hclosed : ∀ t ∈ tokens s, t.isStray = false)
    (h : concatPieces? s = some ps) : IsTextSum ps ∧ solid (joinPlus ps) = solid s := by
  obtain ⟨leading, literal, rest, hsum, hps⟩ := concatPieces?_eq_some hclosed h
  have hliteral := isStringLiteral_iff.mp hsum.literal
  have hsolid : solid (joinPlus (leading ++ literal :: rest)) = solid s := by
    rw [solid_joinPlus hsum.isOperand, ← hsum.pieces_eq]
    exact (intercalate_pieces ['+'] (strip s)).trans (solid_strip s)
  rcases hps with ⟨rfl, rfl⟩ | ⟨hne, rfl⟩
  · exact ⟨⟨hsum.several, fun p hp => (hsum.isOperand p hp).ne_nil,
      [], literal, rest, rfl, Nat.zero_le 1, List.forall_mem_nil _, hliteral, hsum.whole⟩, hsolid⟩
  · -- The operands in front of the first text in quotes are one piece.
    have hleading := fun p hp => hsum.isOperand p (List.mem_append_left _ hp)
    have hnot := not_isLiteral_joinPlus hleading hne fun p hp =>
      not_isLiteral_iff.mpr (hsum.not_literal p hp)
    refine ⟨⟨by simp, List.forall_mem_cons.mpr ⟨joinPlus_ne_nil hleading hne, fun p hp =>
      (hsum.isOperand p (List.mem_append_right _ hp)).ne_nil⟩, [joinPlus leading], literal, rest,
      rfl, Nat.le_refl 1, List.forall_mem_singleton.mpr hnot, hliteral, hsum.whole⟩, ?_⟩
    rw [joinPlus_joined hne (List.cons_ne_nil _ _), hsolid]

/-- There are no pieces if and only if the operands do not build a text. -/
theorem concatPieces?_eq_none_iff_operands :
    concatPieces? s = none ↔ ∃ operands, IsCut (sign "+") (solid s) operands ∧
      (operands.length < 2 ∨ [] ∈ operands ∨ ∀ operand ∈ operands, ¬ IsLiteral operand) := by
  have hcut : ∀ {operands}, IsCut (sign "+") (solid s) operands ↔
      (pieces ['+'] (strip s)).map solid = operands := by
    rw [← solid_strip s]
    exact isCut_solid_iff rfl
  have hempty : [] ∈ (pieces ['+'] (strip s)).map solid ↔ [] ∈ pieces ['+'] (strip s) := by
    rw [List.mem_map]
    constructor
    · rintro ⟨p, hp, hnil⟩
      exact (solid_eq_nil_iff (tokens_of_mem_pieces hp).1).mp hnil ▸ hp
    · exact fun hnil => ⟨[], hnil, rfl⟩
  simp only [hcut, exists_eq_left', List.length_map, hempty, List.forall_mem_map, not_isLiteral_iff]
  exact concatPieces?_eq_none_iff

end

/-- **A sum that builds a text is taken apart faithfully.** If no closing quote is missing, the
pieces build the text, and with plus signs between them they have the tokens of the sum. There are
no pieces if and only if there are fewer than two operands between the plus signs outside of
brackets, or an empty one, or no text in quotes. -/
theorem splitConcat_decomposes {e : String} (hclosed : ∀ t ∈ tokens e.toList, t.isStray = false) :
    (∀ ps, splitConcat? e = some ps → IsTextSum (ps.map String.toList) ∧
      solid (" + ".intercalate ps).toList = solid e.toList) ∧
    (splitConcat? e = none ↔ ∃ operands, IsCut (sign "+") (solid e.toList) operands ∧
      (operands.length < 2 ∨ [] ∈ operands ∨ ∀ operand ∈ operands, ¬ IsLiteral operand)) := by
  constructor
  · intro ps h
    obtain ⟨pieces, hpieces, rfl⟩ := Option.map_eq_some_iff.mp h
    have htexts : (pieces.map String.ofList).map String.toList = pieces := by simp
    have hplus : " + ".toList = [' ', '+', ' '] := rfl
    rw [String.toList_intercalate, hplus, htexts, ← joinPlus_eq_intercalate]
    exact isTextSum_concatPieces? hclosed hpieces
  · rw [splitConcat?, Option.map_eq_none_iff]
    exact concatPieces?_eq_none_iff_operands

/-- A sum with plus signs within brackets and quotes, and with operators that have one in them. -/
def greeting : String := "n++ +(a + 'b')+ \"x + \" +f[1 + i]+'y'"

theorem splitConcat_decomposes_greeting :
    (∀ t ∈ tokens greeting.toList, t.isStray = false) ∧
      splitConcat? greeting = some ["n++ + (a + 'b')", "\"x + \"", "f[1 + i]", "'y'"] ∧
      IsTextSum (["n++ + (a + 'b')", "\"x + \"", "f[1 + i]", "'y'"].map String.toList) := by
  have hclosed : ∀ t ∈ tokens greeting.toList, t.isStray = false := by decide +kernel
  have hsplit : splitConcat? greeting =
      some ["n++ + (a + 'b')", "\"x + \"", "f[1 + i]", "'y'"] := by decide +kernel
  exact ⟨hclosed, hsplit, ((splitConcat_decomposes hclosed).1 _ hsplit).1⟩

end Expression

end Blockflow
