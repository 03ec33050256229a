import Blockflow.Proofs.Expression.CountedValues
import Blockflow.Proofs.Expression.Respelling

/-!
# Steps as statements

A step that stands in a line of its own is written as an update, `i += k` or `i -= k`, with no
blanks at its ends (`LoopStep.IsUpdate`). A step that is one already is respelled, and any other
step is written anew; which of the two is done, a sign `+=` or `-=` in the text decides
(`LoopStep.spaced_of_hasUpdateSign`). Respelling changes no token of an update whose variable is a
name in ASCII and no word for a constant (`LoopStep.IsUpdate.statement_eq`), so the update says what
the step has said (`LoopStep.exists_isUpdate_statement`).
-/

namespace Blockflow.Expression

open Text Token

/-! ## Signs among the pieces -/

/-- Blanks aside, a text has the characters of its pieces. -/
theorem Spaced.count_eq {ps : List (List Char)} {s : List Char} (h : Spaced ps s) {c : Char}
    (hc : isBlank c = false) : s.count c = ps.flatten.count c := by
  have hblank : ∀ b : List Char, allBlank b = true → b.count c = 0 := by
    intro b hb
    refine List.count_eq_zero.mpr fun hmem => ?_
    rw [List.all_eq_true.mp hb c hmem] at hc
    cases hc
  induction h with
  | blank hb => rw [hblank _ hb]; rfl
  | piece hb _ ih =>
    rw [List.count_append, List.count_append, hblank _ hb, ih, List.flatten_cons, List.count_append]
    omega

namespace LoopStep

variable {s : List Char} {w : Written}

/-- The signs of a step are neither blanks nor part of a name or a number. -/
theorem not_mem_of_sign {c : Char} (hc : c ∈ ['+', '-', '=']) :
    isBlank c = false ∧ (∀ name, isName name = true → c ∉ name) ∧
      ∀ d : List Char, d.all isDigit = true → c ∉ d := by
  have hall : (['+', '-', '='].all fun c => !isBlank c && !isNameChar c && !isDigit c) = true := by
    decide
  obtain ⟨hblank, hname, hdigit⟩ :
      isBlank c = false ∧ isNameChar c = false ∧ isDigit c = false := by
    simpa [and_assoc] using List.all_eq_true.mp hall c hc
  refine ⟨hblank, fun name h hmem => ?_, fun d h hmem => ?_⟩
  · rw [isNameChar_of_mem h hmem] at hname
    cases hname
  · rw [List.all_eq_true.mp h c hmem] at hdigit
    cases hdigit

/-! ## The sign of an update -/

theorem hasUpdateSign_of_not_mem (h : '=' ∉ s) : hasUpdateSign s = false := by
  fun_induction hasUpdateSign s with
  | case1 => rfl
  | case2 => rfl
  | case3 c d rest ih =>
    rw [List.mem_cons, List.mem_cons, not_or, not_or] at h
    rw [ih (by simp [h.2]), decide_eq_false (Ne.symm h.2.1)]
    simp

theorem hasUpdateSign_append {u : List Char} (h : ∀ c ∈ u, c ≠ '+' ∧ c ≠ '-') (s : List Char) :
    hasUpdateSign (u ++ s) = hasUpdateSign s := by
  induction u with
  | nil => rfl
  | cons c rest ih =>
    obtain ⟨hc, hrest⟩ := List.forall_mem_cons.mp h
    rw [List.cons_append, ← ih hrest]
    cases rest ++ s with
    | nil => rfl
    | cons d more => simp [hasUpdateSign, hc]

theorem hasUpdateSign_of_append (u : List Char) (h : hasUpdateSign s = true) :
    hasUpdateSign (u ++ s) = true := by
  induction u with
  | nil => exact h
  | cons c rest ih =>
    rw [List.cons_append]
    cases hrest : rest ++ s with
    | nil =>
      rw [hrest] at ih
      cases ih
    | cons d more =>
      rw [hrest] at ih
      rw [hasUpdateSign, ih, Bool.or_true]

/-- **The sign decides between the forms.** There is a sign `+=` or `-=` in no other form than the
update. -/
theorem spaced_of_hasUpdateSign (h : Spells w s) (hname : isName w.name = true)
    (hsign : hasUpdateSign s = true) : Spaced [w.name, [signOf w.down, '='], w.digits] s := by
  obtain ⟨hblank, hnotName, hnotDigits⟩ := not_mem_of_sign (c := '=') (by decide)
  have hsigns : ∀ down, '=' ≠ signOf down := by decide
  -- a form without an equals sign has no sign of an update either
  have hnone : ∀ {ps : List (List Char)}, Spaced ps s → '=' ∉ ps.flatten → False := by
    intro ps hs hnot
    rw [hasUpdateSign_of_not_mem] at hsign
    · cases hsign
    · rwa [← List.count_eq_zero, hs.count_eq hblank, List.count_eq_zero]
  cases h with
  | before down _ hs => exact (hnone hs (by simp [hsigns, hnotName _ hname])).elim
  | after down _ hs => exact (hnone hs (by simp [hsigns, hnotName _ hname])).elim
  | update down _ _ hs => exact hs
  | @reassign name d _ down _ hd hs =>
    -- the equals sign stands behind a name, and there is no other one
    obtain ⟨b, rest, hb, hrest, rfl⟩ := spaced_cons_iff.mp hs
    obtain ⟨b', tail, hb', htail, rfl⟩ := spaced_cons_iff.mp hrest
    have hfront : ∀ c ∈ b ++ (name ++ (b' ++ ['='])), c ≠ '+' ∧ c ≠ '-' := by
      have hother : ∀ c, isBlank c = true ∨ isNameChar c = true ∨ c = '=' → c ≠ '+' ∧ c ≠ '-' := by
        intro c hc
        constructor <;> rintro rfl <;> exact absurd hc (by decide)
      simp only [List.mem_append, List.mem_singleton]
      rintro c (hc | hc | hc | hc)
      · exact hother c (.inl (List.all_eq_true.mp hb c hc))
      · exact hother c (.inr (.inl (isNameChar_of_mem hname hc)))
      · exact hother c (.inl (List.all_eq_true.mp hb' c hc))
      · exact hother c (.inr (.inr hc))
    have hback : '=' ∉ tail := by
      rw [← List.count_eq_zero, htail.count_eq hblank, List.count_eq_zero]
      simp [hsigns, hnotName _ hname, hnotDigits _ hd.2]
    have htext : b ++ (name ++ (b' ++ (['='] ++ tail))) = b ++ (name ++ (b' ++ ['='])) ++ tail := by
      simp
    rw [htext, hasUpdateSign_append hfront, hasUpdateSign_of_not_mem hback] at hsign
    cases hsign

/-! ## Updates -/

/-- The text of an update, with blanks before and after its sign. -/
def Written.update (w : Written) (before after : List Char) : List Char :=
  w.name ++ (before ++ ([signOf w.down, '='] ++ (after ++ w.digits)))

/-- The text is an update without blanks at its ends. -/
structure IsUpdate (w : Written) (s : List Char) : Prop where
  isVariable : isVariable w.name = true
  digits : IsDigits w.digits
  text : ∃ before after, allBlank before = true ∧ allBlank after = true ∧ s = w.update before after

namespace IsUpdate

theorem spaced (h : IsUpdate w s) : Spaced [w.name, [signOf w.down, '='], w.digits] s := by
  obtain ⟨before, after, hbefore, hafter, rfl⟩ := h.text
  have hspaced : Spaced [w.name, [signOf w.down, '='], w.digits]
      ([] ++ (w.name ++ (before ++ ([signOf w.down, '='] ++ (after ++ (w.digits ++ [])))))) :=
    .piece rfl (.piece hbefore (.piece hafter (.blank rfl)))
  simpa [Written.update] using hspaced

theorem spells (h : IsUpdate w s) : Spells w s := .update w.down h.isVariable h.digits h.spaced

theorem stripped (h : IsUpdate w s) : Stripped s := by
  obtain ⟨before, after, -, -, rfl⟩ := h.text
  refine ⟨startsSolid_of_isVariable h.isVariable, fun c hc => ?_⟩
  have htext : w.update before after =
      w.name ++ before ++ [signOf w.down, '='] ++ after ++ w.digits := by
    simp [Written.update]
  obtain ⟨d, hd⟩ := Option.isSome_iff_exists.mp (List.getLast?_isSome.mpr h.digits.1)
  rw [htext, List.getLast?_append, hd] at hc
  cases hc
  exact isBlank_of_isDigit (List.all_eq_true.mp h.digits.2 c (List.mem_of_mem_getLast? hd))

theorem hasUpdateSign_eq (h : IsUpdate w s) : hasUpdateSign s = true := by
  obtain ⟨before, after, -, -, rfl⟩ := h.text
  refine hasUpdateSign_of_append w.name (hasUpdateSign_of_append before ?_)
  cases w.down <;> simp [hasUpdateSign, signOf]

/-- Three tokens count in an update whose variable is a name. -/
theorem solid_eq (h : IsUpdate w s) (hname : isName w.name = true) :
    solid s = [⟨.name, w.name⟩, ⟨.op, [signOf w.down, '=']⟩, ⟨.number, w.digits⟩] := by
  obtain ⟨before, after, hbefore, hafter, rfl⟩ := h.text
  have hhead : ∀ c ∈ (before ++ ([signOf w.down, '='] ++ (after ++ w.digits))).head?,
      isNameChar c = false := by
    intro c hc
    cases before with
    | nil =>
      cases hc
      cases w.down <;> decide
    | cons d more =>
      cases hc
      exact (not_inside_of_isBlank (List.all_eq_true.mp hbefore _ List.mem_cons_self)).1
  have hvariable : Leads ⟨.name, w.name⟩ _ := leads_name hname hhead
  have hsign : Leads ⟨.op, [signOf w.down, '=']⟩ (after ++ w.digits) :=
    leads_pair (by cases w.down <;> rfl) _
  calc solid (w.update before after)
      = ⟨.name, w.name⟩ :: solid (before ++ ([signOf w.down, '='] ++ (after ++ w.digits))) :=
        hvariable.solid_eq (by simp)
    _ = ⟨.name, w.name⟩ :: ⟨.op, [signOf w.down, '=']⟩ :: solid (after ++ w.digits) := by
        rw [solid_blanks hbefore, hsign.solid_eq (by simp)]
    _ = [⟨.name, w.name⟩, ⟨.op, [signOf w.down, '=']⟩, ⟨.number, w.digits⟩] := by
        rw [solid_blanks hafter, solid, tokens_digits h.digits.1 h.digits.2]
        rfl

/-- Respelling leaves an update alone, unless its variable is a word for a constant. -/
theorem spellChars_eq (h : IsUpdate w s) (hname : isName w.name = true)
    (hbool : isBoolWord w.name = false) (hnull : isNullWord w.name = false) :
    spellChars .words s = s := by
  have hfixed : ∀ t ∈ solid s, Spelling.words.exchanges t = false := by
    simp only [isBoolWord, Bool.or_eq_false_iff] at hbool
    simp only [h.solid_eq hname, List.forall_mem_cons]
    refine ⟨?_, ?_, rfl, List.forall_mem_nil _⟩
    · simp [Spelling.exchanges, hbool, hnull]
    · cases w.down <;> decide
  calc spellChars .words s
      = strip s := spellChars_of_respelled fun t ht =>
        ⟨Spelling.respelled_eq_self (hfixed t ht), fun hwords => absurd rfl hwords⟩
    _ = s := h.stripped.strip_eq

/-- There is one sign only before the equals sign. -/
theorem not_infix (h : IsUpdate w s) (hname : isName w.name = true) {c : Char}
    (hc : c ∈ ['+', '-']) : ¬ [c, c] <:+: s := by
  intro hinfix
  obtain ⟨hblank, hnotName, hnotDigits⟩ := not_mem_of_sign (List.mem_append_left ['='] hc)
  have hcount : s.count c = [signOf w.down, '='].count c := by
    rw [h.spaced.count_eq hblank]
    simp only [List.flatten_cons, List.flatten_nil, List.count_append, List.count_nil,
      List.count_eq_zero.mpr (hnotName _ hname), List.count_eq_zero.mpr (hnotDigits _ h.digits.2)]
    omega
  have hone : [signOf w.down, '='].count c ≤ 1 := by
    simp only [List.mem_cons, List.not_mem_nil, or_false] at hc
    rcases hc with rfl | rfl <;> cases w.down <;> decide
  have htwo := hinfix.sublist.count_le c
  rw [hcount, List.count_cons_self, List.count_cons_self] at htwo
  omega

end IsUpdate

/-- An update is stripped of the blanks at its ends. -/
theorem isUpdate_strip (hvariable : isVariable w.name = true) (hdigits : IsDigits w.digits)
    (hs : Spaced [w.name, [signOf w.down, '='], w.digits] s) : IsUpdate w (strip s) := by
  obtain ⟨b, rest, hb, hrest, rfl⟩ := spaced_cons_iff.mp hs
  obtain ⟨before, tail, hbefore, htail, rfl⟩ := spaced_cons_iff.mp hrest
  obtain ⟨after, b', hafter, hb', rfl⟩ := spaced_cons_iff.mp htail
  have hupdate : IsUpdate w (w.update before after) :=
    ⟨hvariable, hdigits, before, after, hbefore, hafter, rfl⟩
  have htext : b ++ (w.name ++ (before ++ ([signOf w.down, '='] ++ (after ++ (w.digits ++ b'))))) =
      b ++ w.update before after ++ b' := by
    simp [Written.update]
  rwa [htext, strip_append hb (spaced_nil_iff.mp hb'), hupdate.stripped.strip_eq]

/-! ## Statements -/

variable {text : String} {step : LoopStep}

theorem statement_of_hasUpdateSign (h : hasUpdateSign text.toList = true) :
    statement text = spell .words text := by
  unfold statement
  split
  next => rw [if_pos h]
  next => rfl

/-- A step as it is written anew: nothing is taken away, rather than nothing added. -/
def Written.ofStep (step : LoopStep) : Written :=
  ⟨step.name.toList, step.amount ≤ 0, Nat.toDigits 10 step.amount.natAbs⟩

theorem Written.value_ofStep (step : LoopStep) : (Written.ofStep step).value = step.amount := by
  rw [Written.value, Written.ofStep, readDigits_toDigits]
  by_cases h : step.amount ≤ 0
  · simp only [signedValue, h, decide_true, if_true]
    omega
  · simp only [signedValue, h, decide_false, Bool.false_eq_true, if_false]
    omega

theorem toList_statement (h : parse text = .ok (some step))
    (hsign : hasUpdateSign text.toList = false) :
    (statement text).toList = (Written.ofStep step).update [' '] [' '] := by
  have hdigits : (Json.intString step.amount.natAbs).toList =
      Nat.toDigits 10 step.amount.natAbs := by
    rw [Json.intString, String.toList_ofList, Json.intText, if_neg (by omega), Int.natAbs_natCast]
  have hstatement : statement text = step.name ++
      (if 0 < step.amount then " += " else " -= ") ++ Json.intString step.amount.natAbs := by
    unfold statement
    simp [h, hsign]
  rw [hstatement, String.toList_append, String.toList_append, hdigits]
  by_cases hpos : 0 < step.amount
  · have hup : ¬ step.amount ≤ 0 := by omega
    simp [Written.update, Written.ofStep, signOf, hpos, hup]
  · have hdown : step.amount ≤ 0 := by omega
    simp [Written.update, Written.ofStep, signOf, hpos, hdown]

theorem Spells.isVariable_name (h : Spells w s) : isVariable w.name = true := by
  cases h with
  | before _ hname => exact hname
  | after _ hname => exact hname
  | update _ hname => exact hname
  | reassign _ hname => exact hname

theorem Spells.isDigits (h : Spells w s) : IsDigits w.digits := by
  cases h with
  | before | after => exact ⟨List.cons_ne_nil _ _, rfl⟩
  | update _ _ hd => exact hd
  | reassign _ _ hd => exact hd

/-- An update whose variable is a name and no word for a constant is a statement as it is. -/
theorem IsUpdate.statement_eq (h : IsUpdate w text.toList) (hname : isName w.name = true)
    (hbool : isBoolWord w.name = false) (hnull : isNullWord w.name = false) :
    statement text = text := by
  rw [statement_of_hasUpdateSign h.hasUpdateSign_eq, spell, h.spellChars_eq hname hbool hnull,
    String.ofList_toList]

/-- **The statement of a step is an update that says the same.** -/
theorem exists_isUpdate_statement (h : parse text = .ok (some step))
    (hname : isName step.name.toList = true) (hbool : isBoolWord step.name.toList = false)
    (hnull : isNullWord step.name.toList = false) :
    ∃ w, IsUpdate w (statement text).toList ∧ w.digits.length ≤ digitLimit ∧
      step = ⟨String.ofList w.name, w.value⟩ := by
  obtain ⟨w, hspells, hlength, hstep⟩ := parse_eq_some_iff.mp h
  have hvariable : step.name.toList = w.name := by rw [hstep, String.toList_ofList]
  by_cases hsign : hasUpdateSign text.toList = true
  · -- an update is respelled, which only strips it
    rw [hvariable] at hname hbool hnull
    have hspaced := spaced_of_hasUpdateSign hspells hname hsign
    have hupdate := isUpdate_strip hspells.isVariable_name hspells.isDigits hspaced
    have hspell : spellChars .words text.toList = strip text.toList := by
      rw [← hupdate.spellChars_eq hname hbool hnull, spellChars, spellChars,
        (strip_stripped text.toList).strip_eq]
    refine ⟨w, ?_, hlength, hstep⟩
    rwa [statement_of_hasUpdateSign hsign, spell, String.toList_ofList, hspell]
  · -- any other step is written anew, with no more digits than it had
    rw [Bool.not_eq_true] at hsign
    refine ⟨.ofStep step, ?_, ?_, ?_⟩
    · rw [toList_statement h hsign]
      refine ⟨?_, ⟨Nat.toDigits_ne_nil, ?_⟩, [' '], [' '], by decide, by decide, rfl⟩
      · rw [Written.ofStep, hvariable]
        exact hspells.isVariable_name
      · exact List.all_eq_true.mpr fun c hc => isDigit_of_mem_toDigits hc
    · have hamount : step.amount.natAbs = readDigits w.digits := by
        rw [hstep]
        simp only [Written.value, signedValue]
        split <;> omega
      rw [Written.ofStep, hamount]
      exact Numeral.length_toDigits_of_read hspells.isDigits.1
        (Numeral.read_eq_ok.mpr ⟨hlength, rfl⟩)
    · rw [Written.value_ofStep, Written.ofStep, String.ofList_toList]

/-- **A step makes the same update as a statement.** If the variable of a step is a name in ASCII
and no word for a truth value or the null value, the statement of the step is read as the same step,
has neither `++` nor `--` in it, and is its own statement. -/
theorem statement_same_update (h : parse text = .ok (some step))
    (hname : isName step.name.toList = true) (hbool : isBoolWord step.name.toList = false)
    (hnull : isNullWord step.name.toList = false) :
    parse (statement text) = .ok (some step) ∧
      ¬ "++".toList <:+: (statement text).toList ∧ ¬ "--".toList <:+: (statement text).toList ∧
      statement (statement text) = statement text := by
  obtain ⟨w, hupdate, hlength, hstep⟩ := exists_isUpdate_statement h hname hbool hnull
  have hvariable : step.name.toList = w.name := by rw [hstep, String.toList_ofList]
  rw [hvariable] at hname hbool hnull
  refine ⟨parse_eq_some_iff.mpr ⟨w, hupdate.spells, hlength, hstep⟩, ?_, ?_, ?_⟩
  · exact hupdate.not_infix hname (by decide)
  · exact hupdate.not_infix hname (by decide)
  · exact hupdate.statement_eq hname hbool hnull

/-- A step by a zero of another script, which is written as a step downwards. -/
theorem statement_same_update_zero :
    parse " n =n + ٠" = .ok (some ⟨"n", 0⟩) ∧ statement " n =n + ٠" = "n -= 0" ∧
      parse "n -= 0" = .ok (some ⟨"n", 0⟩) ∧ ¬ "--".toList <:+: "n -= 0".toList ∧
      statement "n -= 0" = "n -= 0" := by
  have hstep : parse " n =n + ٠" = .ok (some ⟨"n", 0⟩) := by decide
  have hstatement : statement " n =n + ٠" = "n -= 0" := by decide
  obtain ⟨hparse, -, hminus, hagain⟩ :=
    statement_same_update hstep (by decide) (by decide) (by decide)
  rw [hstatement] at hparse hminus hagain
  exact ⟨hstep, hstatement, hparse, hminus, hagain⟩

-- the variable is respelled if it is a word for a constant
example : parse "null += 1" = .ok (some ⟨"null", 1⟩) ∧ statement "null += 1" = "None += 1" := by
  decide

end LoopStep

end Blockflow.Expression
