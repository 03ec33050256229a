import Blockflow.Proofs.Expression.Stripping
import Mathlib.Data.List.Forall2

/-!
# Types that are inferred

What is inferred of an expression only grows with what is known of its names. If more names have
types, each operand has the type that it had before, unless it had none
(`Expression.refines_readTypes`), and an operation over operands that are known better has the type
that it had before, unless it had none (`Expression.combine_of_refines`). A literal has its own
type, whatever is known of names (`Expression.inferType_of_literalType`).
-/

namespace Blockflow.Expression

open Text Token

/-! ## What is known -/

/-- The second type says what the first one says, or the first one says nothing. -/
def Refines (type type' : ValueType) : Prop := type ≠ .unknown → type' = type

/-- The names that have types in the first table have the same types in the second one. -/
def Extends (symbols symbols' : Symbols) : Prop :=
  ∀ name type, symbols.get? name = some type → symbols'.get? name = some type

theorem Refines.refl (type : ValueType) : Refines type type := fun _ => rfl

theorem Extends.refines {symbols symbols' : Symbols} (h : Extends symbols symbols')
    (name : String) :
    Refines ((symbols.get? name).getD .unknown) ((symbols'.get? name).getD .unknown) := by
  intro hne
  cases hget : symbols.get? name with
  | none =>
    rw [hget] at hne
    exact absurd rfl hne
  | some type => rw [h name type hget]

/-! ## Operations -/

section

variable {types types' : List ValueType}

theorem eq_of_refines (h : List.Forall₂ Refines types types') (hknown : .unknown ∉ types) :
    types' = types := by
  induction h with
  | nil => rfl
  | cons hhead _ ih =>
    rw [List.mem_cons, not_or] at hknown
    rw [hhead (Ne.symm hknown.1), ih hknown.2]

theorem mem_of_refines (h : List.Forall₂ Refines types types') {type : ValueType}
    (hne : type ≠ .unknown) (hmem : type ∈ types) : type ∈ types' := by
  induction h with
  | nil => cases hmem
  | cons hhead _ ih =>
    rcases List.mem_cons.mp hmem with rfl | hmem
    · rw [hhead hne]
      exact List.mem_cons_self
    · exact List.mem_cons_of_mem _ (ih hmem)

/-- The type of an operation with two operands or more. -/
theorem combine_of_length (h : 2 ≤ types.length) (plus : Bool) :
    combine types plus =
      if types.contains .string && plus then .string
      else if types.contains .unknown then .unknown
      else if types.all (· = .int) then .int
      else if types.all fun t => t = .int || t = .float then .float
      else .unknown := by
  cases types with
  | nil => cases h
  | cons type rest =>
    cases rest with
    | nil => exact absurd h (by simp)
    | cons => rfl

/-- **An operation over operands that are known better has the type that it had.** -/
theorem combine_of_refines (h : List.Forall₂ Refines types types') (plus : Bool) :
    Refines (combine types plus) (combine types' plus) := by
  intro hne
  by_cases hlength : 2 ≤ types.length
  · have hlength' : 2 ≤ types'.length := h.length_eq ▸ hlength
    by_cases hstring : .string ∈ types ∧ plus = true
    · -- a string is added to, whatever the other operands are
      have hstring' := mem_of_refines h (by decide) hstring.1
      simp [combine_of_length hlength, combine_of_length hlength', hstring, hstring']
    · -- one operand of unknown type would leave the type of the operation unknown
      have hknown : .unknown ∉ types := by
        intro hmem
        have hcond : ¬ ((types.contains .string && plus) = true) := by simpa using hstring
        rw [combine_of_length hlength, if_neg hcond, if_pos (by simpa using hmem)] at hne
        exact hne rfl
      rw [eq_of_refines h hknown]
  · cases h with
    | nil => rfl
    | cons hhead htail =>
      cases htail with
      | nil => exact hhead hne
      | cons => simp at hlength

end

/-! ## Reading tokens -/

/-- The readings say the same, but for operands that the second one knows better. -/
inductive Reading.Refines : Reading → Reading → Prop where
  | decided (type : ValueType) : Reading.Refines (.decided type) (.decided type)
  | operands {types types' : List ValueType} (plus : Bool) :
      List.Forall₂ Expression.Refines types types' →
        Reading.Refines (.operands types plus) (.operands types' plus)

namespace Reading.Refines

variable {reading reading' : Reading}

theorem addPlus (h : reading.Refines reading') : reading.addPlus.Refines reading'.addPlus := by
  cases h with
  | decided type => exact .decided type
  | operands plus htypes => exact .operands true htypes

theorem addOperand (h : reading.Refines reading') {type type' : ValueType}
    (htype : Expression.Refines type type') :
    (reading.addOperand type).Refines (reading'.addOperand type') := by
  cases h with
  | decided t => exact .decided t
  | operands plus htypes => exact .operands plus (.cons htype htypes)

end Reading.Refines

/-- **The tokens of an expression say no less when more names have types.** -/
theorem refines_readTypes {symbols symbols' : Symbols} (h : Extends symbols symbols')
    (ts : List Token) : (readTypes symbols ts).Refines (readTypes symbols' ts) := by
  induction ts with
  | nil => exact .operands false .nil
  | cons t rest ih =>
    unfold readTypes
    cases t.kind with
    | op =>
      simp only
      split
      next => exact .decided .bool
      next =>
        split
        next => exact .decided .unknown
        next =>
          split
          next => exact ih.addPlus
          next => exact ih
    | name =>
      simp only
      split
      next => exact .decided .bool
      next =>
        split
        next => exact .decided .unknown
        next =>
          split
          next => exact ih.addOperand (.refl .bool)
          next => exact ih.addOperand (h.refines _)
    | number => exact ih.addOperand (.refl _)
    | string => exact ih.addOperand (.refl _)
    | space | other => exact .decided .unknown

theorem inferType_of_extends {symbols symbols' : Symbols} (h : Extends symbols symbols')
    (s : List Char) : Refines (inferType symbols s) (inferType symbols' s) := by
  have hreadings := refines_readTypes h (solid s)
  unfold inferType
  generalize readTypes symbols (solid s) = reading at hreadings ⊢
  generalize readTypes symbols' (solid s) = reading' at hreadings ⊢
  cases hreadings with
  | decided type => exact .refl type
  | operands plus htypes => exact combine_of_refines htypes plus

/-! ## Literals -/

/-- A word for a truth value is no word for an operation. -/
theorem isLogicWord_of_isBoolWord {s : List Char} (h : isBoolWord s = true) :
    isLogicWord s = false := by
  simp only [isBoolWord, isTrueWord, isFalseWord, Bool.or_eq_true, decide_eq_true_eq] at h
  rcases h with (rfl | rfl) | (rfl | rfl) <;> decide

theorem readTypes_literal (symbols : Symbols) {t : Token} (h : tokenType t ≠ .unknown) :
    readTypes symbols [t] = .operands [tokenType t] false := by
  obtain ⟨kind, text⟩ := t
  cases kind with
  | number | string => rfl
  | name =>
    by_cases hbool : isBoolWord text = true
    · simp [readTypes, tokenType, hbool, isLogicWord_of_isBoolWord hbool, extendsName,
        Reading.addOperand]
    · exact absurd (if_neg hbool) h
  | op | space | other => exact absurd rfl h

theorem readTypes_minus (symbols : Symbols) {t : Token} (h : t.kind = .number) :
    readTypes symbols [⟨.op, ['-']⟩, t] = .operands [numberType t.text] false := by
  obtain ⟨kind, text⟩ := t
  cases h
  rfl

/-- **A literal has its own type,** whatever is known of names. -/
theorem inferType_of_literalType (symbols : Symbols) {s : List Char}
    (h : literalType s ≠ .unknown) : inferType symbols s = literalType s := by
  unfold literalType at h ⊢
  rw [solid_strip] at h ⊢
  unfold inferType
  split at h
  next t hsolid => rw [hsolid, readTypes_literal symbols h]; rfl
  next sign t hsolid =>
    split at h
    next hcond =>
      simp only [Bool.and_eq_true, decide_eq_true_eq] at hcond
      have hsign : sign = ⟨.op, ['-']⟩ := by
        have hmem : sign ∈ solid s := by
          rw [hsolid]
          exact List.mem_cons_self
        obtain ⟨rest, hleads⟩ := exists_leads_of_mem (List.mem_filter.mp hmem).1
        have hop : sign.kind = .op :=
          hleads.kind_of_isSymbol (c := '-') (by rw [hcond.1]; rfl) (by decide) (by decide)
        obtain ⟨kind, text⟩ := sign
        cases hop
        cases hcond.1
        rfl
      rw [hsolid, hsign, readTypes_minus symbols hcond.2]
      simp only [decide_true, hcond.2, Bool.and_self, if_true]
      rfl
    next => exact absurd rfl h
  next => exact absurd rfl h

/-- **Inference extends the typing of literals and keeps what it has found.** A text that is a
literal has the type of the literal, whatever types names have. A type that is found for an
expression stays the same when more names have types. -/
theorem infer_conservative :
    (∀ (symbols : Symbols) (s : String), literalType s.toList ≠ .unknown →
      infer symbols s = literalType s.toList) ∧
    ∀ (symbols symbols' : Symbols) (s : String),
      (∀ name type, symbols.get? name = some type → symbols'.get? name = some type) →
        infer symbols s ≠ .unknown → infer symbols' s = infer symbols s :=
  ⟨fun symbols _ h => inferType_of_literalType symbols h,
    fun _ _ s h => inferType_of_extends h s.toList⟩

/-- A number after a minus sign and a blank, and a sum of a string and two names of which one has a
type. -/
theorem infer_conservative_sum :
    literalType " - 1.5".toList = .float ∧ infer [("k", .int)] " - 1.5" = .float ∧
      infer [("k", .int)] "'n: ' + k + n" = .string ∧
      infer [("n", .float), ("k", .int)] "'n: ' + k + n" = .string := by
  have hliteral : literalType " - 1.5".toList = .float := by decide +kernel
  have hsum : infer [("k", .int)] "'n: ' + k + n" = .string := by decide +kernel
  have hextends : ∀ name type, Dict.get? name [("k", ValueType.int)] = some type →
      Dict.get? name [("n", ValueType.float), ("k", ValueType.int)] = some type := by
    intro name type h
    by_cases hname : "k" = name
    · subst hname
      exact h
    · simp [Dict.get?, hname] at h
  obtain ⟨hliterals, hkept⟩ := infer_conservative
  refine ⟨hliteral, ?_, hsum, ?_⟩
  · rw [hliterals _ _ (by rw [hliteral]; decide), hliteral]
  · rw [hkept _ _ _ hextends (by rw [hsum]; decide), hsum]

-- nothing is told where an operand is unknown, and a name that gets a type decides it
example : infer [("k", .int)] "k * n" = .unknown ∧
    infer [("n", .float), ("k", .int)] "k * n" = .float := by
  decide +kernel

end Blockflow.Expression
