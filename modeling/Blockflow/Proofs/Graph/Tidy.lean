import Blockflow.Proofs.Expression.DottedNames
import Blockflow.Proofs.Program.Fragment

/-!
# Loaded texts are tidy

The data of a loaded node are texts that do not start with a blank, whatever they have been loaded
from (`FieldValue.isTidy_itemText`). They may end with one, but only as an empty item at the end of
a list leaves a separator behind. A name has no separator, so a test for names is exact on loaded
texts even if it lets a line break at the end pass (`Text.IsTidy.isName_eq`).
-/

namespace Blockflow

open Text

/-! ## Tidy texts -/

/-- The text does not start with a blank, and does not end with one unless it has a separator in it.
-/
structure Text.IsTidy (s : String) : Prop where
  head : ∀ c ∈ s.toList.head?, isBlank c = false
  last : (∀ c ∈ s.toList.getLast?, isBlank c = false) ∨ ',' ∈ s.toList

theorem Text.Stripped.isTidy {s : String} (h : Stripped s.toList) : IsTidy s :=
  ⟨h.head, .inl h.last⟩

theorem Text.stripped_of_forall {s : List Char} (h : ∀ c ∈ s, isBlank c = false) : Stripped s :=
  ⟨fun c hc => h c (List.mem_of_mem_head? hc), fun c hc => h c (List.mem_of_mem_getLast? hc)⟩

theorem Text.stripped_of_all {s : List Char} (h : s.all (!isBlank ·) = true) : Stripped s :=
  stripped_of_forall fun c hc => by simpa using List.all_eq_true.mp h c hc

/-- A text between two marks. -/
theorem Text.stripped_enclosed {first last : Char} {middle : List Char}
    (hfirst : isBlank first = false) (hlast : isBlank last = false) :
    Stripped (first :: middle ++ [last]) where
  head c hc := by
    cases hc
    exact hfirst
  last c hc := by
    rw [List.getLast?_concat] at hc
    cases hc
    exact hlast

/-- Tidy texts stay tidy with commas between them. -/
theorem Text.isTidy_intercalate : ∀ {texts : List String}, (∀ s ∈ texts, IsTidy s) →
    IsTidy (", ".intercalate texts)
  | [], _ => (stripped_of_all rfl).isTidy
  | [s], h => by
    rw [String.intercalate_singleton]
    exact h s List.mem_cons_self
  | s :: t :: rest, h => by
    have hjoined : (", ".intercalate (s :: t :: rest)).toList =
        s.toList ++ ([',', ' '] ++ (", ".intercalate (t :: rest)).toList) := by
      rw [String.toList_intercalate, List.map_cons, List.map_cons, List.intercalate_cons_cons,
        String.toList_intercalate, List.map_cons, List.append_assoc]
      rfl
    constructor
    · intro c hc
      rw [hjoined, List.head?_append] at hc
      -- the separator comes first if the first text is empty
      cases hs : s.toList.head? with
      | none =>
        rw [hs] at hc
        cases hc
        decide
      | some d =>
        rw [hs] at hc
        cases hc
        exact (h s List.mem_cons_self).head _ hs
    · refine .inr ?_
      rw [hjoined]
      exact List.mem_append_right _ List.mem_cons_self

theorem isBlank_of_mem_toDigits {n : Nat} {c : Char} (h : c ∈ Nat.toDigits 10 n) :
    isBlank c = false :=
  isBlank_of_isDigit (isDigit_of_mem_toDigits h)

theorem Json.stripped_intText (n : Int) : Stripped (intText n) := by
  refine stripped_of_forall fun c hc => ?_
  rw [intText] at hc
  split at hc
  next =>
    rcases List.mem_cons.mp hc with rfl | hc
    · decide
    · exact isBlank_of_mem_toDigits hc
  next => exact isBlank_of_mem_toDigits hc

/-! ## Numbers with a fraction -/

theorem Binary64.mem_dropZeros {digits : List Char} {c : Char} (h : c ∈ dropZeros digits) :
    c = '0' ∨ c ∈ digits := by
  unfold dropZeros at h
  split at h
  next => exact Or.inl (List.mem_singleton.mp h)
  next =>
    refine Or.inr (List.mem_reverse.mp ?_)
    exact (List.dropWhile_suffix _).subset (List.mem_reverse.mp h)

/-- The digits of a number are no blanks. -/
theorem Binary64.isBlank_of_mem_shortest {mantissa : Nat} {exponent : Int} {c : Char}
    (h : c ∈ (shortest mantissa exponent).1) : isBlank c = false := by
  have hzero : isBlank '0' = false := by decide
  unfold shortest at h
  split at h
  next => rwa [List.mem_singleton.mp h]
  next =>
    simp only at h
    split at h
    next =>
      rcases mem_dropZeros h with rfl | h
      · exact hzero
      · exact isBlank_of_mem_toDigits h
    next => rwa [List.mem_singleton.mp h]

/-- What a number is written with besides its digits. -/
theorem DecimalStyle.mem_layout (style : DecimalStyle) {digits : List Char} {point : Int} {c : Char}
    (h : c ∈ style.layout digits point) :
    c ∈ digits ∨ c ∈ Nat.toDigits 10 point.natAbs ∨ c ∈ ['0', '.', 'e', '-', '+'] := by
  unfold layout at h
  split at h
  next =>
    split at h
    next => grind
    next =>
      simp only at h
      split at h
      next => grind
      next => grind [List.mem_of_mem_take, List.mem_of_mem_drop]
  next => grind

/-- A number with a fraction is written without blanks around it. -/
theorem DecimalStyle.stripped_write (style : DecimalStyle) (x : Binary64) :
    Stripped (style.write x).toList := by
  have hmarks : ∀ c ∈ ['0', '.', 'e', '-', '+'], isBlank c = false := by
    have hall : ['0', '.', 'e', '-', '+'].all (!isBlank ·) = true := by decide
    intro c hc
    simpa using List.all_eq_true.mp hall c hc
  cases x with
  | finite negative mantissa exponent =>
    rw [write, String.toList_ofList]
    refine stripped_of_forall fun c hc => ?_
    rcases List.mem_append.mp hc with hc | hc
    · refine hmarks c ?_
      cases negative <;> simp_all
    · rcases style.mem_layout hc with hc | hc | hc
      · exact Binary64.isBlank_of_mem_shortest hc
      · exact isBlank_of_mem_toDigits hc
      · exact hmarks c hc
  | infinite negative =>
    rw [write]
    split <;> exact stripped_of_all (by decide)
  | undefined =>
    rw [write]
    exact stripped_of_all (by decide)

/-! ## Loaded data -/

/-- A shown value has no blanks around it. -/
theorem Json.stripped_shown (value : Json) : Stripped value.shown.toList := by
  cases value with
  | null => exact stripped_of_all (by decide)
  | bool value => cases value <;> exact stripped_of_all (by decide)
  | int value =>
    rw [shown, intString, String.toList_ofList]
    exact stripped_intText value
  | float value =>
    rw [shown]
    exact DecimalStyle.message.stripped_write value
  | str value =>
    have hmark : isBlank (quoteMark value.toList) = false := by
      unfold quoteMark
      split <;> decide
    rw [shown, quoted, String.toList_ofList]
    exact stripped_enclosed hmark hmark
  | arr items =>
    rw [shown, String.toList_append, String.toList_append]
    exact stripped_enclosed (by decide) (by decide)
  | obj members =>
    rw [shown, String.toList_append, String.toList_append]
    exact stripped_enclosed (by decide) (by decide)

namespace FieldValue

mutual

/-- **Every item of a list is tidy.** -/
theorem isTidy_itemText : ∀ value : Json, IsTidy (itemText value)
  | .bool true => (stripped_of_all (by decide)).isTidy
  | .bool false => (stripped_of_all (by decide)).isTidy
  | .str s => by
    refine Stripped.isTidy ?_
    rw [itemText, trim, String.toList_ofList]
    exact strip_stripped s.toList
  | .arr items => by
    rw [itemText]
    exact isTidy_intercalate (isTidy_itemTexts items)
  | .null => (Json.stripped_shown .null).isTidy
  | .int n => (Json.stripped_shown (.int n)).isTidy
  | .float x => (Json.stripped_shown (.float x)).isTidy
  | .obj members => (Json.stripped_shown (.obj members)).isTidy

theorem isTidy_itemTexts : ∀ (items : List Json), ∀ s ∈ itemTexts items, IsTidy s
  | [], _, h => absurd h List.not_mem_nil
  | item :: rest, s, h => by
    rw [itemTexts] at h
    rcases List.mem_cons.mp h with rfl | h
    · exact isTidy_itemText item
    · exact isTidy_itemTexts rest s h

end

/-- What a field value is loaded from: a text is tidy, and an object stays what it is. -/
theorem ofJson?_eq_some {value : Json} {v : FieldValue} (h : ofJson? value = some v) :
    (∃ s, v = .text s ∧ IsTidy s) ∨ ∃ members, v = .object members ∧ value = .obj members := by
  unfold ofJson? at h
  split at h
  next => cases h
  next members => cases h; exact Or.inr ⟨members, rfl, rfl⟩
  next => cases h; exact Or.inl ⟨_, rfl, isTidy_itemText _⟩

end FieldValue

/-- What the data of a loaded node come from. -/
theorem Node.exists_of_mem_data {d : DrawnNode} {entry : String × FieldValue}
    (h : entry ∈ (Node.ofDrawn d).data) :
    ∃ value, (entry.1, value) ∈ d.data ∧ entry.1 ∉ displayKeys ∧
      FieldValue.ofJson? value = some entry.2 := by
  obtain ⟨⟨key, value⟩, hmem, hentry⟩ := List.mem_filterMap.mp h
  obtain ⟨hkey, hdisplay⟩ := key_of_normalized hentry
  simp only [List.contains_eq_mem, hdisplay, decide_false, Bool.false_eq_true, if_false] at hentry
  obtain ⟨v, hv, rfl⟩ := Option.map_eq_some_iff.mp hentry
  exact ⟨value, hmem, hdisplay, hv⟩

namespace Graph

/-- All texts in the data of the graph are tidy. -/
def Tidy (g : Graph) : Prop :=
  ∀ n ∈ g.nodes, ∀ field s, n.data.get? field = some (.text s) → IsTidy s

/-- **A graph that was loaded has tidy texts.** -/
theorem tidy_of_load {d : Diagram} {g : Graph} (hload : Graph.load d = .ok g) : g.Tidy := by
  intro n hn field s h
  rw [(load_eq_ok hload).1] at hn
  obtain ⟨drawn, -, rfl⟩ := List.mem_map.mp hn
  obtain ⟨value, -, -, hvalue⟩ := Node.exists_of_mem_data (Dict.mem_of_get? h)
  rcases FieldValue.ofJson?_eq_some hvalue with ⟨s', heq, htidy⟩ | ⟨members, heq, -⟩
  · cases heq
    exact htidy
  · cases heq

end Graph

/-! ## Names -/

namespace Text

variable {s : String}

/-- A tidy text ends with a line break only if it has a separator. So a test that texts with a
separator do not pass is exact. -/
theorem IsTidy.passesLine_eq {test : List Char → Bool} (h : IsTidy s)
    (htest : ∀ u, test u = true → ',' ∉ u) : passesLine test s.toList = test s.toList := by
  have hfails : ∀ u, ',' ∈ u → test u = false := fun u hu =>
    Bool.eq_false_iff.mpr fun hpass => htest u hpass hu
  rcases h.last with hlast | hmark
  · exact Text.passesLine_eq fun hbreak => absurd (hlast '\n' hbreak) (by decide)
  · by_cases hbreak : s.toList.getLast? = some '\n'
    · obtain ⟨front, hfront⟩ := List.getLast?_eq_some_iff.mp hbreak
      have hmark' : ',' ∈ front := by
        rw [hfront, List.mem_append] at hmark
        exact hmark.resolve_right (by decide)
      rw [passesLine, hfails _ hmark, hfront, List.dropLast_concat, hfails _ hmark']
      simp
    · exact Text.passesLine_eq hbreak

theorem IsTidy.isName_eq (h : IsTidy s) : passesLine isName s.toList = isName s.toList :=
  h.passesLine_eq fun _ => separator_notMem_of_isName

theorem IsTidy.isDottedName_eq (h : IsTidy s) :
    passesLine isDottedName s.toList = isDottedName s.toList :=
  h.passesLine_eq fun _ => separator_notMem_of_isDottedName

end Text

end Blockflow
