import Blockflow.Expression.Param
import Blockflow.Proofs.Expression.Characters

/-!
# Names and dotted names

A name has no other characters than names have, and a dotted name has dots besides. A test that lets
a line break at the end pass (`passesLine`) adds the line break to them. It is exact for texts that
do not end with a line break, such as the words of a text (`break_notLast_of_mem_words`).
-/

namespace Blockflow.Text

/-! ## Dots -/

/-- A name has no dots. -/
theorem dot_notMem_of_isName : ∀ {s : List Char}, isName s = true → '.' ∉ s
  | [], h => by cases h
  | c :: rest, h => by
    rw [isName, Bool.and_eq_true] at h
    intro hdot
    rcases List.mem_cons.mp hdot with hc | hdot
    · rw [← hc] at h
      exact absurd h.1 (by decide)
    · exact absurd (List.all_eq_true.mp h.2 '.' hdot) (by decide)

theorem splitOn_of_notMem {separator : Char} : ∀ {s : List Char}, separator ∉ s →
    splitOn separator s = [s]
  | [], _ => rfl
  | c :: rest, h => by
    rw [List.mem_cons, not_or] at h
    rw [splitOn, if_neg (Ne.symm h.1), splitOn_of_notMem h.2]

/-- A name is a dotted name with one part. -/
theorem isDottedName_of_isName {s : List Char} (h : isName s = true) : isDottedName s = true := by
  rw [isDottedName, splitOn_of_notMem (dot_notMem_of_isName h)]
  simp [h]

/-! ## Characters of names -/

/-- A character is a separator or stands in one of the pieces. -/
theorem mem_splitOn {separator c : Char} {s : List Char} (h : c ∈ s) :
    c = separator ∨ ∃ piece ∈ splitOn separator s, c ∈ piece := by
  induction s with
  | nil => exact absurd h List.not_mem_nil
  | cons d rest ih =>
    rw [splitOn]
    split
    next hd =>
      rcases List.mem_cons.mp h with rfl | h
      · exact Or.inl hd
      rcases ih h with hc | ⟨piece, hpiece, hc⟩
      · exact Or.inl hc
      · exact Or.inr ⟨piece, List.mem_cons_of_mem _ hpiece, hc⟩
    next =>
      split
      next hnone =>
        rcases List.mem_cons.mp h with rfl | h
        · exact Or.inr ⟨[c], List.mem_cons_self, List.mem_cons_self⟩
        rcases ih h with hc | ⟨piece, hpiece, -⟩
        · exact Or.inl hc
        · rw [hnone] at hpiece
          exact absurd hpiece List.not_mem_nil
      next first more hsome =>
        rcases List.mem_cons.mp h with rfl | h
        · exact Or.inr ⟨c :: first, List.mem_cons_self, List.mem_cons_self⟩
        rcases ih h with hc | ⟨piece, hpiece, hc⟩
        · exact Or.inl hc
        rw [hsome] at hpiece
        rcases List.mem_cons.mp hpiece with rfl | hpiece
        · exact Or.inr ⟨d :: piece, List.mem_cons_self, List.mem_cons_of_mem _ hc⟩
        · exact Or.inr ⟨piece, List.mem_cons_of_mem _ hpiece, hc⟩

/-- A dotted name has only dots and name characters. -/
theorem isNameChar_of_mem_dotted {s : List Char} {c : Char} (h : isDottedName s = true)
    (hc : c ∈ s) : c = '.' ∨ isNameChar c = true := by
  refine (mem_splitOn hc).imp_right fun ⟨piece, hpiece, hc⟩ => ?_
  exact isNameChar_of_mem (List.all_eq_true.mp h piece hpiece) hc

theorem separator_notMem_of_isName {s : List Char} (h : isName s = true) : ',' ∉ s := fun hmark =>
  absurd (isNameChar_of_mem h hmark) (by decide)

theorem separator_notMem_of_isDottedName {s : List Char} (h : isDottedName s = true) : ',' ∉ s :=
  fun hmark => (isNameChar_of_mem_dotted h hmark).elim (by decide) fun hchar =>
    absurd hchar (by decide)

/-! ## Line breaks at the end -/

variable {test : List Char → Bool}

/-- The line break makes no difference for a text that does not end with one. -/
theorem passesLine_eq {s : List Char} (h : s.getLast? ≠ some '\n') :
    passesLine test s = test s := by
  simp [passesLine, h]

theorem passesLine_of_test {s : List Char} (h : test s = true) : passesLine test s = true := by
  simp [passesLine, h]

/-- A text that passes is one that passes the test, perhaps with a line break after it. -/
theorem exists_of_passesLine {s : List Char} (h : passesLine test s = true) :
    ∃ u, test u = true ∧ (s = u ∨ s = u ++ ['\n']) := by
  rw [passesLine, Bool.or_eq_true, Bool.and_eq_true, decide_eq_true_eq] at h
  rcases h with h | ⟨hbreak, h⟩
  · exact ⟨s, h, .inl rfl⟩
  · obtain ⟨front, rfl⟩ := List.getLast?_eq_some_iff.mp hbreak
    rw [List.dropLast_concat] at h
    exact ⟨front, h, .inr rfl⟩

/-- A wider test lets more texts pass. -/
theorem passesLine_mono {test' : List Char → Bool} (h : ∀ u, test u = true → test' u = true)
    {s : List Char} (hs : passesLine test s = true) : passesLine test' s = true := by
  obtain ⟨u, hu, rfl | rfl⟩ := exists_of_passesLine hs
  · exact passesLine_of_test (h _ hu)
  · simp [passesLine, h u hu]

theorem isDottedName_of_passesLine {s : List Char} (h : passesLine isName s = true) :
    passesLine isDottedName s = true :=
  passesLine_mono (fun _ => isDottedName_of_isName) h

/-- The characters of a dotted name, and the line break that is let pass. -/
theorem isNameChar_of_passesLine {s : List Char} {c : Char}
    (h : passesLine isDottedName s = true) (hc : c ∈ s) :
    c = '\n' ∨ c = '.' ∨ isNameChar c = true := by
  obtain ⟨u, hu, rfl | rfl⟩ := exists_of_passesLine h
  · exact .inr (isNameChar_of_mem_dotted hu hc)
  · rcases List.mem_append.mp hc with hc | hc
    · exact .inr (isNameChar_of_mem_dotted hu hc)
    · exact .inl (List.mem_singleton.mp hc)

theorem dot_notMem_of_passesLine {s : List Char} (h : passesLine isName s = true) : '.' ∉ s := by
  obtain ⟨u, hu, rfl | rfl⟩ := exists_of_passesLine h
  · exact dot_notMem_of_isName hu
  · simp [dot_notMem_of_isName hu]

/-- Words have no blanks. -/
theorem isBlank_of_mem_words {s word : List Char} (h : word ∈ words s) :
    ∀ c ∈ word, isBlank c = false := by
  fun_induction words s generalizing word with
  | case1 => cases h
  | case2 c rest hc ih => exact ih h
  | case3 c hc =>
    cases List.mem_singleton.mp h
    simpa using hc
  | case4 c hc d rest hd ih =>
    rcases List.mem_cons.mp h with rfl | h
    · simpa using hc
    · exact ih h
  | case5 c hc d rest hd hwords ih =>
    rw [hwords] at h
    cases List.mem_singleton.mp h
    simpa using hc
  | case6 c hc d rest hd first others hwords ih =>
    rw [hwords] at h ih
    rcases List.mem_cons.mp h with rfl | h
    · refine List.forall_mem_cons.mpr ⟨by simpa using hc, ih List.mem_cons_self⟩
    · exact ih (List.mem_cons_of_mem _ h)

/-- So no word ends with a line break. -/
theorem break_notLast_of_mem_words {s word : List Char} (h : word ∈ words s) :
    word.getLast? ≠ some '\n' := fun hbreak =>
  absurd (isBlank_of_mem_words h '\n' (List.mem_of_mem_getLast? hbreak)) (by decide)

end Blockflow.Text
