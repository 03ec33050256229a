import Blockflow.Code.Braced
import Blockflow.Proofs.Expression.Sums

/-!
# Printed values

In C++ a value is printed by a chain of `<<`, and the operands of a sum that builds a text are
operands of the chain. An operator that binds looser than `<<` tears an operand apart unless it
stands in brackets, and nothing puts brackets there. The operands have the tokens of the value, so
they are whole if and only if the value has no such operator outside of brackets, and no word that
becomes one (`Braced.print_operands`).
-/

namespace Blockflow

open Token Expression

/-! ## Operators that bind looser -/

/-- The operators that bind looser than `<<`. -/
def looserSigns : List Token :=
  ["<", ">", "<=", ">=", "==", "!=", "&", "^", "|", "&&", "||", "?", ":", "=", "+=", "-=", "*=",
    "/=", "%="].map sign

/-- The words that are written as such operators. -/
def looserWords : List Token := ["and", "or"].map word

namespace Token

/-- Do none of the marks stand outside of brackets? -/
def isFree (marks ts : List Token) : Bool := (outside 0 ts).all (!marks.contains ·)

/-- Do the brackets close in order, where `start` of them are open at the start? -/
def isBalanced : (start : Int) → List Token → Bool
  | start, [] => start = 0
  | start, t :: rest => 0 ≤ start + t.depthChange && isBalanced (start + t.depthChange) rest

variable {marks ts : List Token}

theorem isFree_iff : isFree marks ts = true ↔ ∀ t ∈ outside 0 ts, t ∉ marks := by simp [isFree]

theorem isFree_solid (hmarks : ∀ t ∈ marks, isSolid t = true) (s : List Char) :
    isFree marks (solid s) = isFree marks (tokens s) := by
  rw [Bool.eq_iff_iff, isFree_iff, isFree_iff, outside_solid]
  constructor
  · intro h t ht hmark
    exact h t (List.mem_filter.mpr ⟨ht, hmarks t hmark⟩) hmark
  · intro h t ht
    exact h t (List.mem_filter.mp ht).1

/-- A mark stands outside of brackets in a text if it does so in a piece. -/
theorem isFree_intercalate {sep : Token} (hdepth : sep.depthChange = 0) (hsep : sep ∉ marks)
    {pieces : List (List Token)} (h : Leveled 0 pieces) :
    isFree marks ([sep].intercalate pieces) = true ↔
      ∀ piece ∈ pieces, isFree marks piece = true := by
  have hbetween : ∀ t ∈ [sep], t ∉ marks := by simpa using hsep
  simp only [isFree_iff]
  rw [outside_intercalate hdepth h, forall_mem_intercalate hbetween, List.forall_mem_map]

end Token

namespace Expression

theorem respelled_mem_looserSigns (t : Token) :
    Spelling.signsNullptr.respelled t ∈ looserSigns ↔ t ∈ looserSigns ++ looserWords := by
  have htable : ∀ entry ∈ Spelling.signsNullptr.table,
      (entry.2 ∈ looserSigns ↔ entry.1 ∈ looserSigns ++ looserWords) := by decide
  have hwords : ∀ u ∈ looserWords, Spelling.signsNullptr.respelled u ≠ u := by decide
  rcases Spelling.signsNullptr.respelled_cases t with h | h
  · rw [h, List.mem_append, or_iff_left fun ht => hwords t ht h]
  · exact htable _ h

theorem rewritten_mem_looserSigns (t : Token) :
    Spelling.signsNullptr.rewritten t ∈ looserSigns ↔ t ∈ looserSigns ++ looserWords := by
  have hkinds : ∀ u ∈ looserSigns ++ looserWords, u.kind ≠ .string := by decide
  rw [Spelling.rewritten, respelled_mem_looserSigns]
  -- A text with other quotes is still a text, and none of the marks is one.
  cases hquoted : isRequoted t with
  | false => rw [requote_of_not hquoted]
  | true =>
    obtain ⟨more, more', rfl, hrequote⟩ := requote_eq hquoted
    rw [hrequote]
    exact ⟨fun h => absurd rfl (hkinds _ h), fun h => absurd rfl (hkinds _ h)⟩

theorem isFree_rewritten (ts : List Token) :
    isFree looserSigns (ts.map Spelling.signsNullptr.rewritten) =
      isFree (looserSigns ++ looserWords) ts := by
  rw [Bool.eq_iff_iff, isFree_iff, isFree_iff, outside_map (depthChange_rewritten _),
    List.forall_mem_map]
  simp only [rewritten_mem_looserSigns]

end Expression

namespace Braced

/-! ## The operands of the chain -/

/-- The parts that a value is printed in. -/
def printParts (value : String) : List String := (splitConcat? value).getD [value]

/-- The operands of the chain that prints a value. -/
def printOperands (value : String) : List String :=
  (printParts value).map (spell .signsNullptr)

variable {value : String}

theorem isPortable_printParts (h : isPortable (tokens value.toList) = true) :
    ∀ part ∈ printParts value, isPortable (tokens part.toList) = true := by
  unfold printParts splitConcat?
  cases hpieces : concatPieces? value.toList with
  | none => simpa using h
  | some ps =>
    refine List.forall_mem_map.mpr fun p hp => ?_
    rw [String.toList_ofList]
    exact isPortable_concatPieces? h hpieces p hp

theorem solid_printParts (h : isPortable (tokens value.toList) = true) :
    [sign "+"].intercalate ((printParts value).map (solid ·.toList)) = solid value.toList ∧
      Leveled 0 ((printParts value).map (solid ·.toList)) := by
  unfold printParts splitConcat?
  cases hpieces : concatPieces? value.toList with
  | none => exact ⟨by simp, .last _⟩
  | some ps =>
    have hparts : (ps.map String.ofList).map (solid ·.toList) = ps.map solid := by
      simp [Function.comp_def]
    rw [Option.map_some, Option.getD_some, hparts]
    exact intercalate_concatPieces? (fun t => not_isStray_of_isPortable h) hpieces

theorem solid_printOperands (h : isPortable (tokens value.toList) = true) :
    (printOperands value).map (solid ·.toList) =
      ((printParts value).map (solid ·.toList)).map (·.map Spelling.signsNullptr.rewritten) := by
  rw [printOperands, List.map_map, List.map_map]
  refine List.map_congr_left fun part hpart => ?_
  simp only [Function.comp_apply, spell, String.toList_ofList]
  exact solid_spellChars_of_isPortable (by decide) (isPortable_printParts h part hpart)

theorem intercalate_printOperands (h : isPortable (tokens value.toList) = true) :
    [sign "+"].intercalate ((printOperands value).map (solid ·.toList)) =
      (solid value.toList).map Spelling.signsNullptr.rewritten := by
  have hplus : [sign "+"].map Spelling.signsNullptr.rewritten = [sign "+"] := by decide
  rw [solid_printOperands h, ← (solid_printParts h).1,
    intercalate_hom (f := List.map _) List.map_nil (fun _ _ => List.map_append), hplus]

theorem leveled_printOperands (h : isPortable (tokens value.toList) = true) :
    Leveled 0 ((printOperands value).map (solid ·.toList)) := by
  rw [solid_printOperands h]
  exact (solid_printParts h).2.map (depth_map (depthChange_rewritten _))

/-- The operands are torn apart by the operators that would do so in the value. -/
theorem isFree_printOperands (h : isPortable (tokens value.toList) = true) :
    (∀ operand ∈ printOperands value, isFree looserSigns (tokens operand.toList) = true) ↔
      isFree (looserSigns ++ looserWords) (tokens value.toList) = true := by
  have hsigns : ∀ t ∈ looserSigns, isSolid t = true := by decide
  have hmarks : ∀ t ∈ looserSigns ++ looserWords, isSolid t = true := by decide
  -- From the value to its tokens in C++, and from these, cut at the plus signs, to the operands.
  rw [← isFree_solid hmarks, ← isFree_rewritten, ← intercalate_printOperands h,
    isFree_intercalate rfl (by decide) (leveled_printOperands h), List.forall_mem_map]
  simp only [isFree_solid hsigns]

/-- **A printed value** is written as a chain of operands. With plus signs between them they have
the tokens of the value, as these are written in C++, and they are whole if and only if no operator
of the value that binds looser than `<<` stands outside of brackets. -/
theorem print_operands (site : Site) (hcpp : site.dialect = .cpp) (value : FieldValue)
    (node : String) :
    site.leaf? (.print value node) =
        some ("std::cout << " ++ " << ".intercalate (printOperands value.shown) ++
          " << std::endl;") ∧
      (isPortable (tokens value.shown.toList) = true →
        [sign "+"].intercalate ((printOperands value.shown).map (solid ·.toList)) =
            (solid value.shown.toList).map Spelling.signsNullptr.rewritten ∧
          ((∀ operand ∈ printOperands value.shown,
              isFree looserSigns (tokens operand.toList) = true) ↔
            isFree (looserSigns ++ looserWords) (tokens value.shown.toList) = true)) := by
  refine ⟨?_, fun h => ⟨intercalate_printOperands h, isFree_printOperands h⟩⟩
  have hexpr : site.expr = spell .signsNullptr := by
    funext text
    rw [Site.expr, hcpp]
    rfl
  rw [Site.leaf?, Site.printText, hcpp, hexpr]
  rfl

/-- Operands in front of the first text stay one operand, and brackets keep an operator whole. -/
theorem print_operands_total :
    (⟨.cpp, false, []⟩ : Site).leaf? (.print (.text "a + f(b > 1) + 'Total: ' + (not c)") "p") =
        some "std::cout << a + f(b > 1) << \"Total: \" << (!c) << std::endl;" ∧
      isPortable (tokens "a + f(b > 1) + 'Total: ' + (not c)".toList) = true ∧
      ∀ operand ∈ printOperands "a + f(b > 1) + 'Total: ' + (not c)",
        isFree looserSigns (tokens operand.toList) = true := by
  have hportable : isPortable (tokens "a + f(b > 1) + 'Total: ' + (not c)".toList) = true := by
    decide +kernel
  obtain ⟨hline, hoperands⟩ := print_operands ⟨.cpp, false, []⟩ rfl
    (.text "a + f(b > 1) + 'Total: ' + (not c)") "p"
  refine ⟨hline.trans (by decide +kernel), hportable, ?_⟩
  exact (hoperands hportable).2.mpr (by decide +kernel)

/-- A comparison is torn apart: `<<` takes its left side alone. -/
theorem not_forall_isFree_printOperands : ¬ ∀ value : String,
    isBalanced 0 (tokens value.toList) = true →
      ∀ operand ∈ printOperands value, isFree looserSigns (tokens operand.toList) = true := by
  intro h
  have hfree := h "x > 3" (by decide +kernel) "x > 3" (by decide +kernel)
  exact absurd hfree (by decide +kernel)

end Braced

end Blockflow
