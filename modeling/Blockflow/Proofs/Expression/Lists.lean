import Blockflow.Block.Basic
import Blockflow.Proofs.Expression.Cuts
import Blockflow.Proofs.Expression.Sums

/-!
# Lists that are joined and split

Texts that are joined with commas are cut at these commas: a comma breaks off every token, so the
tokens of the whole are those of the texts with commas and blanks between them
(`Expression.IsEntry.tokens_intercalate`). Splitting gives the texts back if each of them can be an
entry of a list, with no blanks at its ends, no open quote or bracket, and no comma outside of
brackets (`Expression.splitList_intercalate`).
-/

namespace Blockflow

open Text

namespace Expression

open Token

/-! ## Entries -/

/-- A text that can be an entry of a list: it is not empty, there are no blanks at its ends, no
quote or bracket in it is open, and it has no comma outside of brackets. -/
structure IsEntry (s : List Char) : Prop where
  ne_nil : s ≠ []
  stripped : strip s = s
  closed : ∀ t ∈ tokens s, t.isStray = false
  level : depth (tokens s) = 0
  whole : sign "," ∉ outside 0 (tokens s)

instance (s : List Char) : Decidable (IsEntry s) :=
  decidable_of_iff (s ≠ [] ∧ strip s = s ∧ (∀ t ∈ tokens s, t.isStray = false) ∧
      depth (tokens s) = 0 ∧ sign "," ∉ outside 0 (tokens s))
    ⟨fun h => ⟨h.1, h.2.1, h.2.2.1, h.2.2.2.1, h.2.2.2.2⟩,
      fun h => ⟨h.ne_nil, h.stripped, h.closed, h.level, h.whole⟩⟩

namespace IsEntry

variable {x y : List Char} {xs : List (List Char)}

theorem isOperand (h : IsEntry x) : IsOperand x where
  ne_nil := h.ne_nil
  stripped := h.stripped ▸ strip_stripped x
  closed := h.closed

/-- The tokens of an entry behind the comma of the one before it. -/
def spaced (x : List Char) : List Token := ⟨.space, [' ']⟩ :: tokens x

theorem breaks_comma : Breaks ',' where
  name := by decide
  numeric := by decide
  pair d := by
    unfold isPair
    split <;> simp_all

theorem tokens_append_comma (h : IsEntry x) {s : List Char}
    (hs : ∀ c ∈ s.head?, isBlank c = false) :
    tokens (x ++ [',', ' '] ++ s) = tokens x ++ [sign ","] ++ ⟨.space, [' ']⟩ :: tokens s := by
  have hbreak : ∀ c ∈ (',' :: ' ' :: s).head?, Breaks c := by
    intro c hc
    cases hc
    exact breaks_comma
  have hcomma : Leads (sign ",") (' ' :: s) := by
    refine leads_sign (c := ',') rfl (number?_eq_none (by decide) (by decide)) fun d hd => ?_
    cases hd
    rfl
  have htokens : tokens (',' :: ' ' :: s) = sign "," :: ⟨.space, [' ']⟩ :: tokens s := by
    rw [← tokens_blank_cons hs]
    exact hcomma.tokens_eq
  rw [List.append_assoc, List.append_assoc, List.singleton_append, ← htokens]
  exact tokens_append h.isOperand.stripped h.closed hbreak

/-- **The tokens of entries that are joined** are cut at the commas between them. -/
theorem tokens_intercalate : ∀ {x : List Char} {xs : List (List Char)}, (∀ y ∈ x :: xs, IsEntry y) →
    tokens ([',', ' '].intercalate (x :: xs)) =
      [sign ","].intercalate (tokens x :: xs.map spaced)
  | x, [], _ => by simp
  | x, y :: ys, h => by
    obtain ⟨hx, hxs⟩ := List.forall_mem_cons.mp h
    have hy := (hxs y List.mem_cons_self).isOperand
    have hhead : ∀ c ∈ ([',', ' '].intercalate (y :: ys)).head?, isBlank c = false := by
      rw [head?_intercalate hy.ne_nil]
      exact hy.stripped.head
    have hspaced : ⟨.space, [' ']⟩ :: [sign ","].intercalate (tokens y :: ys.map spaced) =
        [sign ","].intercalate (spaced y :: ys.map spaced) := by
      cases ys with
      | nil => simp [spaced]
      | cons z zs => simp [List.intercalate_cons_cons, spaced]
    rw [List.intercalate_cons_cons, hx.tokens_append_comma hhead, tokens_intercalate hxs, hspaced,
      List.map_cons, List.intercalate_cons_cons]

theorem isCut_intercalate (h : ∀ y ∈ x :: xs, IsEntry y) :
    IsCut (sign ",") (tokens ([',', ' '].intercalate (x :: xs))) (tokens x :: xs.map spaced) where
  joined := (tokens_intercalate h).symm
  leveled := by
    obtain ⟨hx, hxs⟩ := List.forall_mem_cons.mp h
    refine leveled_of_depth (List.forall_mem_cons.mpr ⟨hx.level, List.forall_mem_map.mpr ?_⟩)
    intro y hy
    rw [spaced, depth_cons, (hxs y hy).level]
    rfl
  whole := by
    obtain ⟨hx, hxs⟩ := List.forall_mem_cons.mp h
    refine List.forall_mem_cons.mpr ⟨hx.whole, List.forall_mem_map.mpr fun y hy hmem => ?_⟩
    have houtside : outside 0 (spaced y) = ⟨.space, [' ']⟩ :: outside 0 (tokens y) := rfl
    rw [houtside] at hmem
    rcases List.mem_cons.mp hmem with hblank | hmem
    · cases hblank
    · exact (hxs y hy).whole hmem
  ne_nil := List.cons_ne_nil _ _

end IsEntry

theorem listItems_intercalate {xs : List (List Char)} (h : ∀ x ∈ xs, IsEntry x) :
    listItems ([',', ' '].intercalate xs) = xs := by
  cases xs with
  | nil => rfl
  | cons x xs =>
    have hcut : cutAt [','] 0 (tokens ([',', ' '].intercalate (x :: xs))) =
        tokens x :: xs.map IsEntry.spaced := (isCut_iff rfl).mp (IsEntry.isCut_intercalate h)
    have hspaced : (xs.map IsEntry.spaced).map (strip ∘ join) = xs := by
      rw [List.map_map, List.map_congr_left (g := id), List.map_id]
      intro y hy
      have hy := (h y (List.mem_cons_of_mem _ hy)).stripped
      show strip (' ' :: join (tokens y)) = y
      rw [join_tokens]
      exact hy
    have hpieces : pieces [','] ([',', ' '].intercalate (x :: xs)) = x :: xs := by
      rw [pieces, hcut, List.map_cons, hspaced, Function.comp_apply, join_tokens,
        (h x List.mem_cons_self).stripped]
    rw [listItems, hpieces, List.filter_eq_self.mpr]
    exact fun y hy => decide_eq_true (h y hy).ne_nil

end Expression

/-! ## Lists in the data of a block -/

theorem get?_normalizeData {key : String} (hkey : key ∉ displayKeys) {value : Json}
    {field : FieldValue} (hfield : FieldValue.ofJson? value = some field) : ∀ {data : Dict Json},
      data.get? key = some value → (normalizeData data).get? key = some field
  | [], h => by cases h
  | (k, v) :: rest, h => by
    rw [Dict.get?] at h
    unfold normalizeData
    rw [List.filterMap_cons]
    by_cases hk : k = key
    · subst hk
      rw [if_pos rfl] at h
      cases h
      simp [hkey, hfield, Dict.get?]
    · rw [if_neg hk] at h
      have hrest : (normalizeData rest).get? key = some field := get?_normalizeData hkey hfield h
      split
      next => exact hrest
      next entry heq =>
        simp only [List.contains_eq_mem, decide_eq_true_eq] at heq
        split at heq
        next => cases heq
        next =>
          obtain ⟨f, -, rfl⟩ := Option.map_eq_some_iff.mp heq
          rw [Dict.get?, if_neg hk]
          exact hrest

namespace Expression

/-- **Splitting is the inverse of joining.** Texts that can be entries of a list are its entries
when they are joined with commas. So a field of a block that is given as a list of values with these
texts is read as these texts. -/
theorem splitList_intercalate {xs : List String} (h : ∀ x ∈ xs, IsEntry x.toList) :
    splitList (", ".intercalate xs) = xs ∧
      ∀ (d : DrawnNode) (key : String) (items : List Json), key ∉ displayKeys →
        d.data.get? key = some (.arr items) → FieldValue.itemTexts items = xs →
          (Node.ofDrawn d).list key = .ok xs := by
  have hsplit : splitList (", ".intercalate xs) = xs := by
    have hitems := listItems_intercalate (List.forall_mem_map.mpr h)
    have hcomma : ", ".toList = [',', ' '] := rfl
    rw [splitList, String.toList_intercalate, hcomma, hitems, List.map_map,
      List.map_congr_left (g := id), List.map_id]
    exact fun x _ => String.ofList_toList
  refine ⟨hsplit, fun d key items hkey hget htexts => ?_⟩
  have hgiven : (Node.ofDrawn d).given key = .text (", ".intercalate xs) := by
    rw [Node.given, Node.ofDrawn, get?_normalizeData hkey rfl hget, FieldValue.itemText, htexts]
    rfl
  rw [Node.list, hgiven]
  show Except.ok (splitList (", ".intercalate xs)) = .ok xs
  rw [hsplit]

/-- Texts with commas within quotes and brackets, and between brackets that close first and open
then. -/
def entries : List String := ["f(a, b)", "'it\\'s, ('", "[1, \x7b2, 3\x7d]", "a),(b", "-7"]

/-- A block whose values are given as a list. -/
def valued : DrawnNode where
  id := "a"
  type := "array"
  data := [("label", .str "Array"), ("name", .str "xs"), ("values", .arr
    [.str " f(a, b)", .str "'it\\'s, ('", .str "[1, \x7b2, 3\x7d]\n", .str "a),(b", .int (-7)])]

theorem splitList_intercalate_entries :
    (∀ x ∈ entries, IsEntry x.toList) ∧
      splitList "f(a, b), 'it\\'s, (', [1, \x7b2, 3\x7d], a),(b, -7" = entries ∧
      (Node.ofDrawn valued).list "values" = .ok entries := by
  have h : ∀ x ∈ entries, IsEntry x.toList := by decide +kernel
  obtain ⟨hsplit, hlist⟩ := splitList_intercalate h
  exact ⟨h, hsplit, hlist valued "values" _ (by decide) rfl (by decide +kernel)⟩

end Expression

end Blockflow
