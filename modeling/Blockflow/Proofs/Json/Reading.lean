import Blockflow.Json.Reader

/-!
# What the reader keeps

The reader goes from lexeme to lexeme with a stack of lists and objects that are open. A property of
values that single lexemes have, and that a list keeps with one more item and an object with one
more member, is kept by every step, so every value that is read from a text has it
(`Json.Kept.of_parse`).
-/

namespace Blockflow.Json

/-! ## Lexemes -/

/-- A value that is read from a single lexeme without quotes: a named value or a number. -/
inductive IsAtom : Json → Prop where
  | named {s : List Char} {value : Json} {width : Nat} :
      readNamed? s = some (value, width) → IsAtom value
  | number {negative : Bool} {s : List Char} {value : Json} {width : Nat} :
      readNumber? negative s = some (.scalar value, width) → IsAtom value

/-- A lexeme that is a value is an atom. -/
def Lexeme.IsSimple : Lexeme → Prop
  | .scalar value => value.IsAtom
  | _ => True

theorem isSimple_of_readNumber? {negative : Bool} {s : List Char} {lexeme : Lexeme} {width : Nat}
    (h : readNumber? negative s = some (lexeme, width)) : lexeme.IsSimple := by
  cases lexeme with
  | scalar => exact .number h
  | _ => trivial

theorem isSimple_nextLexeme (offset : Nat) (c : Char) (rest : List Char) :
    (nextLexeme offset c rest).1.IsSimple := by
  unfold nextLexeme
  iterate 6
    split
    · trivial
  split
  next => split <;> trivial
  next =>
    split
    next hnamed => exact IsAtom.named hnamed
    next =>
      split
      next =>
        split
        next hnumber => exact isSimple_of_readNumber? hnumber
        next => trivial
      next =>
        split
        next hnumber => exact isSimple_of_readNumber? hnumber
        next => trivial

theorem isSimple_of_mem_lex : ∀ {skip offset : Nat} {s : List Char} {place : Nat × Lexeme},
    place ∈ lex skip offset s → place.2.IsSimple
  | _, _, [], _, h => by
    rw [lex] at h
    cases h
  | skip + 1, offset, _ :: rest, _, h => by
    rw [lex] at h
    exact isSimple_of_mem_lex h
  | 0, offset, c :: rest, _, h => by
    rw [lex] at h
    split at h
    next => exact isSimple_of_mem_lex h
    next =>
      rcases List.mem_cons.mp h with rfl | h
      · exact isSimple_nextLexeme offset c rest
      · exact isSimple_of_mem_lex h

/-! ## Reading -/

/-- A property of values that the reader keeps. -/
structure Kept (P : Json → Prop) : Prop where
  atom {value : Json} : value.IsAtom → P value
  str (value : String) : P (.str value)
  noItems : P (.arr [])
  append {items : List Json} {value : Json} : P (.arr items) → P value → P (.arr (items ++ [value]))
  noMembers : P (.obj [])
  put {members : Dict Json} {key : String} {value : Json} :
    P (.obj members) → P value → P (.obj (members.put key value))

/-- What has been read of an open list or object has the property. -/
def Frame.Has (P : Json → Prop) : Frame → Prop
  | .items done => P (.arr done)
  | .members done _ => P (.obj done)

/-- What has been read of the innermost value has the property. -/
def Want.Has (P : Json → Prop) : Want → Prop
  | .key done | .colon done _ => P (.obj done)
  | .after v => P v
  | .value | .firstItem | .firstKey => True

/-- Everything that has been read so far has the property. -/
def HasRead (P : Json → Prop) (state : Want × List Frame) : Prop :=
  state.1.Has P ∧ ∀ frame ∈ state.2, frame.Has P

namespace Kept

variable {P : Json → Prop} {limit : Option Nat} {offset : Nat} {lexeme : Lexeme}
  {stack : List Frame} {state : Want × List Frame}

theorem startValue (hP : Kept P) (hstack : ∀ frame ∈ stack, frame.Has P) (hlexeme : lexeme.IsSimple)
    (h : startValue limit stack offset lexeme = .ok state) : HasRead P state := by
  unfold Json.startValue at h
  split at h
  next =>
    cases h
    exact ⟨hP.atom hlexeme, hstack⟩
  next =>
    cases h
    exact ⟨hP.str _, hstack⟩
  next =>
    split at h
    next => cases h
    next =>
      cases h
      exact ⟨trivial, List.forall_mem_cons.mpr ⟨hP.noItems, hstack⟩⟩
  next =>
    split at h
    next => cases h
    next =>
      cases h
      exact ⟨trivial, hstack⟩
  next => cases h
  next => cases h
  next => cases h

theorem startKey {done : Dict Json} (hdone : P (.obj done)) (hstack : ∀ frame ∈ stack, frame.Has P)
    (h : startKey done stack offset lexeme = .ok state) : HasRead P state := by
  unfold Json.startKey at h
  split at h
  next =>
    cases h
    exact ⟨hdone, hstack⟩
  next => cases h
  next => cases h

/-- One lexeme further, everything that has been read still has the property. -/
theorem step (hP : Kept P) {want : Want} (hs : HasRead P (want, stack)) (hlexeme : lexeme.IsSimple)
    (h : readStep limit offset lexeme want stack = .ok state) : HasRead P state := by
  obtain ⟨hwant, hstack⟩ := hs
  unfold readStep at h
  split at h
  next => exact hP.startValue hstack hlexeme h
  next =>
    split at h
    next =>
      cases h
      exact ⟨(List.forall_mem_cons.mp hstack).1, (List.forall_mem_cons.mp hstack).2⟩
    next => exact hP.startValue hstack hlexeme h
  next =>
    split at h
    next =>
      cases h
      exact ⟨hP.noMembers, hstack⟩
    next => exact startKey hP.noMembers hstack h
  next => exact startKey hwant hstack h
  next =>
    split at h
    next =>
      cases h
      exact ⟨trivial, List.forall_mem_cons.mpr ⟨hwant, hstack⟩⟩
    next => cases h
  next => cases h
  next value done below =>
    obtain ⟨hdone, hbelow⟩ := List.forall_mem_cons.mp hstack
    split at h
    next =>
      cases h
      exact ⟨trivial, List.forall_mem_cons.mpr ⟨hP.append hdone hwant, hbelow⟩⟩
    next =>
      cases h
      exact ⟨hP.append hdone hwant, hbelow⟩
    next => cases h
  next value done key below =>
    obtain ⟨hdone, hbelow⟩ := List.forall_mem_cons.mp hstack
    split at h
    next =>
      cases h
      exact ⟨hP.put hdone hwant, hbelow⟩
    next =>
      cases h
      exact ⟨hP.put hdone hwant, hbelow⟩
    next => cases h

theorem all (hP : Kept P) {stop : Nat} {value : Json} : ∀ {lexemes : List (Nat × Lexeme)}
    {want : Want} {stack : List Frame}, (∀ place ∈ lexemes, place.2.IsSimple) →
    HasRead P (want, stack) → readAll limit stop lexemes want stack = .ok value → P value
  | [], want, stack, _, hs, h => by
    rw [readAll] at h
    unfold readEnd at h
    split at h
    next =>
      cases h
      exact hs.1
    all_goals cases h
  | (offset, lexeme) :: rest, want, stack, hlexemes, hs, h => by
    obtain ⟨hlexeme, hrest⟩ := List.forall_mem_cons.mp hlexemes
    rw [readAll] at h
    cases hstep : readStep limit offset lexeme want stack with
    | error =>
      rw [hstep] at h
      cases h
    | ok state =>
      rw [hstep] at h
      exact all hP hrest (hP.step hs hlexeme hstep) h

/-- **Every value that is read from a text has the property.** -/
theorem of_parse (hP : Kept P) {text : List Char} {value : Json} (h : parse text = .ok value) :
    P value := by
  unfold parse parseWithin at h
  split at h
  next => cases h
  next =>
    have hstart : HasRead P (.value, []) := ⟨trivial, fun _ h => absurd h List.not_mem_nil⟩
    exact hP.all (fun _ hplace => isSimple_of_mem_lex hplace) hstart h

end Kept

end Blockflow.Json
