import Blockflow.Expression.Header
import Blockflow.Proofs.Expression.Literal

/-!
# Headers that count

A header counts when its three parts can be read, name one variable, and the step leads towards the
bound (`Counts`). The counter of such a header stops before the bound, or right after it if the
bound is included (`Counter.parse_eq_some_iff`). Reading a header can fail in two ways only: a bound
that is included is a minus sign, blanks and digits, which is taken for a number but cannot be read
as one (`Counter.parse_of_spaced`), or a number has too many digits (`Counter.parse_eq_error`).
-/

namespace Blockflow.Expression

open Text

/-! ## The parts of a header -/

/-- A header that passes every test for a counter, whatever its bound is. -/
structure Counts (init cond step : String) (i : LoopInit) (c : LoopCondition) (s : LoopStep) :
    Prop where
  init : LoopInit.parse? init = some i
  cond : LoopCondition.parse? cond = some c
  step : LoopStep.parse step = .ok (some s)
  simple : isSimpleBound c.bound.toList = true
  condName : i.name = c.name
  stepName : c.name = s.name
  leads : Counter.leadsTo c.comparison s.amount = true

/-- By how much the counter stops after its bound: by a step towards the end if the bound is
included. -/
def Comparison.past? : Comparison → Option Int
  | .less | .greater => none
  | .lessEqual => some 1
  | .greaterEqual => some (-1)

/-- Where a counter with this condition stops. -/
def LoopCondition.stop (c : LoopCondition) : Except NumeralError String :=
  match c.comparison.past? with
  | none => .ok c.bound
  | some delta => Counter.pastBound c.bound delta

namespace Counter

variable {init cond step : String}

theorem ofParts_eq {i : LoopInit} {c : LoopCondition} {s : LoopStep}
    (h : Counts init cond step i c s) :
    ofParts i c s = c.stop.map fun stop => some ⟨i.name, i.value, stop, s.amount⟩ := by
  unfold ofParts LoopCondition.stop
  rw [if_pos (by simp [h.simple, h.condName, h.stepName, h.leads])]
  cases c.comparison with
  | less => rfl
  | greater => rfl
  | lessEqual =>
    show (pastBound c.bound 1 >>= fun stop => pure _) = (pastBound c.bound 1).map _
    cases pastBound c.bound 1 <;> rfl
  | greaterEqual =>
    show (pastBound c.bound (-1) >>= fun stop => pure _) = (pastBound c.bound (-1)).map _
    cases pastBound c.bound (-1) <;> rfl

theorem parse_of_counts {i : LoopInit} {c : LoopCondition} {s : LoopStep}
    (h : Counts init cond step i c s) :
    parse init cond step = c.stop.map fun stop => some ⟨i.name, i.value, stop, s.amount⟩ := by
  unfold parse
  rw [h.init, h.cond, h.step]
  exact ofParts_eq h

/-- A header whose step can be read counts, or it has no counter. -/
theorem parse_cases (init cond step : String) :
    (∃ e, LoopStep.parse step = .error e ∧ parse init cond step = .error e) ∨
      (∃ i c s, Counts init cond step i c s) ∨ parse init cond step = .ok none := by
  unfold parse
  cases hstep : LoopStep.parse step with
  | error e => exact Or.inl ⟨e, rfl, rfl⟩
  | ok step? =>
    refine Or.inr ?_
    cases hinit : LoopInit.parse? init with
    | none => exact Or.inr rfl
    | some i =>
      cases hcond : LoopCondition.parse? cond with
      | none => exact Or.inr rfl
      | some c =>
        cases step? with
        | none => exact Or.inr rfl
        | some s =>
          by_cases hcounts : Counts init cond step i c s
          · exact Or.inl ⟨i, c, s, hcounts⟩
          · refine Or.inr (if_neg fun htest => hcounts ?_)
            simp only [Bool.and_eq_true, decide_eq_true_eq] at htest
            exact ⟨hinit, hcond, hstep, htest.1.1.1, htest.1.1.2, htest.1.2, htest.2⟩

/-- **The counter of a header.** -/
theorem parse_eq_some_iff {k : Counter} :
    parse init cond step = .ok (some k) ↔
      ∃ i c s, Counts init cond step i c s ∧ c.stop = .ok k.stop ∧
        k.name = i.name ∧ k.start = i.value ∧ k.amount = s.amount := by
  constructor
  · intro h
    rcases parse_cases init cond step with ⟨e, -, heq⟩ | ⟨i, c, s, hcounts⟩ | heq
    · cases h.symm.trans heq
    · have heq := parse_of_counts hcounts
      cases hstop : c.stop with
      | error e =>
        rw [hstop] at heq
        cases h.symm.trans heq
      | ok stop =>
        rw [hstop] at heq
        cases h.symm.trans heq
        exact ⟨i, c, s, hcounts, hstop, rfl, rfl, rfl⟩
    · cases h.symm.trans heq
  · rintro ⟨i, c, s, hcounts, hstop, hname, hstart, hamount⟩
    obtain ⟨name, start, stop, amount⟩ := k
    cases hname
    cases hstart
    cases hamount
    rw [parse_of_counts hcounts, hstop]
    rfl

/-- Reading a header fails where its step or the end of its counter cannot be read. -/
theorem parse_eq_error_iff {e : NumeralError} :
    parse init cond step = .error e ↔ LoopStep.parse step = .error e ∨
      ∃ i c s, Counts init cond step i c s ∧ c.stop = .error e := by
  constructor
  · intro h
    rcases parse_cases init cond step with ⟨e', hstep, heq⟩ | ⟨i, c, s, hcounts⟩ | heq
    · cases h.symm.trans heq
      exact Or.inl hstep
    · have heq := parse_of_counts hcounts
      cases hstop : c.stop with
      | error e' =>
        rw [hstop] at heq
        cases h.symm.trans heq
        exact Or.inr ⟨i, c, s, hcounts, hstop⟩
      | ok stop =>
        rw [hstop] at heq
        cases h.symm.trans heq
    · cases h.symm.trans heq
  · rintro (hstep | ⟨i, c, s, hcounts, hstop⟩)
    · unfold parse
      rw [hstep]
      rfl
    · rw [parse_of_counts hcounts, hstop]
      rfl

end Counter

/-! ## Numbers in a header -/

/-- A minus sign, blanks and digits. -/
def IsSpaced (s : List Char) : Prop :=
  ∃ b d, s = '-' :: (b ++ d) ∧ b ≠ [] ∧ allBlank b = true ∧ d ≠ [] ∧ d.all isDigit = true

/-- The digits of a number, after a minus sign if it is negative. -/
def signedDigits (negative : Bool) (d : List Char) : List Char :=
  if negative then '-' :: d else d

/-- The number that digits write, with its sign. -/
def signedValue (negative : Bool) (n : Nat) : Int := if negative then -(n : Int) else n

theorem IsSpaced.isWhole {s : List Char} (h : IsSpaced s) : IsWhole s := by
  obtain ⟨b, d, hs, -, hb, hne, hd⟩ := h
  exact Or.inr ⟨b, d, hs, hb, hne, hd⟩

theorem IsSpaced.readSigned {s : String} (h : IsSpaced s.toList) :
    Numeral.readSigned s = .error (.malformed s) := by
  obtain ⟨b, d, hs, hne, hb, -, -⟩ := h
  have hall : (b ++ d).all isDigit = false := by
    cases b with
    | nil => exact absurd rfl hne
    | cons c rest =>
      have hblank : isBlank c = true := by simpa using (List.all_eq_true.mp hb) c List.mem_cons_self
      simp [(not_of_isBlank hblank).1]
  unfold Numeral.readSigned
  rw [hs]
  simp [hall]

theorem readSigned_of_digits {s : String} {negative : Bool} {d : List Char}
    (hs : s.toList = signedDigits negative d) (hd : d.all isDigit = true) :
    Numeral.readSigned s = (Numeral.read d).map (signedValue negative) := by
  unfold Numeral.readSigned
  rw [hs]
  cases negative with
  | true =>
    simp only [signedDigits, if_true, hd]
    cases Numeral.read d <;> rfl
  | false =>
    split
    next rest heq =>
      have hminus : '-' ∈ d := by
        rw [show d = '-' :: rest from heq]
        exact List.mem_cons_self
      exact absurd (List.all_eq_true.mp hd _ hminus) (by decide)
    next => rfl

/-- A number is written in digits, with a sign if it needs one. -/
theorem toList_intString (n : Int) :
    (Json.intString n).toList = signedDigits (decide (n < 0)) (Nat.toDigits 10 n.natAbs) := by
  rw [Json.intString, String.toList_ofList, Json.intText]
  by_cases hneg : n < 0 <;> simp [signedDigits, hneg]

theorem signedValue_natAbs (n : Int) : signedValue (decide (n < 0)) n.natAbs = n := by
  by_cases hneg : n < 0
  · simp only [signedValue, hneg, decide_true, if_true]
    omega
  · simp only [signedValue, hneg, decide_false, Bool.false_eq_true, if_false]
    omega

/-- What is taken for a whole number is digits with a sign or without one, or it has blanks after
its sign. -/
theorem IsWhole.cases {s : List Char} (h : IsWhole s) :
    IsSpaced s ∨ ∃ negative d, s = signedDigits negative d ∧ d ≠ [] ∧ d.all isDigit = true := by
  rcases h with ⟨hne, hd⟩ | ⟨b, d, rfl, hb, hne, hd⟩
  · exact Or.inr ⟨false, s, rfl, hne, hd⟩
  · by_cases hnil : b = []
    · subst hnil
      exact Or.inr ⟨true, d, rfl, hne, hd⟩
    · exact Or.inl ⟨b, d, rfl, hnil, hb, hne, hd⟩

/-- The bound of a condition is stripped, or it is a single blank. -/
theorem tailText?_eq_some {s t : List Char} (h : tailText? s = some t) :
    Stripped t ∨ ∃ c, isBlank c = true ∧ t = [c] := by
  unfold tailText? at h
  split at h
  next =>
    obtain ⟨c, -, rfl⟩ := Option.map_eq_some_iff.mp h
    cases hc : isBlank c with
    | true => exact Or.inr ⟨c, hc, rfl⟩
    | false => exact Or.inl ⟨by simp [hc], by simp [hc]⟩
  next =>
    split at h
    next => cases h
    next =>
      cases h
      exact Or.inl (strip_stripped s)

/-- What the text at the end of a condition or an initialiser has to be for a whole number. -/
theorem literalType_tailText? {s t : List Char} (h : tailText? s = some t) :
    literalType t = .int ↔ IsWhole t := by
  rcases tailText?_eq_some h with hs | ⟨b, hb, rfl⟩
  · exact literalType_eq_int_iff hs
  · -- a single blank is no number for either side
    have hstrip : strip [b] = [] := by simp [strip, stripStart, stripEnd, hb]
    have htype : literalType [b] = .unknown := by
      rw [literalType, hstrip]
      rfl
    rw [htype]
    refine iff_of_false (by simp) ?_
    rintro (⟨-, hd⟩ | ⟨u, d, heq, -⟩)
    · rw [List.all_cons, (not_of_isBlank hb).1] at hd
      cases hd
    · obtain ⟨rfl, -⟩ := List.cons.inj heq
      exact absurd hb (by decide)

theorem LoopCondition.literalType_bound {s : String} {c : LoopCondition} (h : parse? s = some c) :
    literalType c.bound.toList = .int ↔ IsWhole c.bound.toList := by
  obtain ⟨⟨name, rest⟩, -, h⟩ := Option.bind_eq_some_iff.mp h
  obtain ⟨⟨comparison, rest'⟩, -, h⟩ := Option.bind_eq_some_iff.mp h
  obtain ⟨bound, hbound, h⟩ := Option.bind_eq_some_iff.mp h
  cases h
  rw [String.toList_ofList]
  exact literalType_tailText? hbound

theorem LoopInit.exists_tailText? {s : List Char} {name value : List Char}
    (h : assignment? s = some (name, value)) : ∃ rest, tailText? rest = some value := by
  obtain ⟨⟨name', rest⟩, -, h⟩ := Option.bind_eq_some_iff.mp h
  obtain ⟨tail, -, h⟩ := Option.bind_eq_some_iff.mp h
  obtain ⟨value', hvalue, h⟩ := Option.bind_eq_some_iff.mp h
  cases h
  exact ⟨tail, hvalue⟩

theorem LoopInit.literalType_value {s : String} {i : LoopInit} (h : parse? s = some i) :
    literalType i.value.toList = .int ↔ IsWhole i.value.toList := by
  unfold parse? at h
  simp only at h
  split at h
  next type name value htyped =>
    cases h
    obtain ⟨⟨type', rest⟩, -, h⟩ := Option.bind_eq_some_iff.mp htyped
    obtain ⟨⟨name', value'⟩, hassign, h⟩ := Option.bind_eq_some_iff.mp h
    simp only at h
    split at h
    next => cases h
    next =>
      cases h
      obtain ⟨tail, htail⟩ := exists_tailText? hassign
      rw [String.toList_ofList]
      exact literalType_tailText? htail
  next =>
    obtain ⟨⟨name, value⟩, hassign, rfl⟩ := Option.map_eq_some_iff.mp h
    obtain ⟨tail, htail⟩ := exists_tailText? hassign
    rw [String.toList_ofList]
    exact literalType_tailText? htail

/-! ## Headers that cannot be read -/

theorem read_eq_error {d : List Char} {e : NumeralError} (h : Numeral.read d = .error e) :
    digitLimit < d.length ∧ e = .tooManyDigits d.length := by
  unfold Numeral.read at h
  split at h
  next hlong => cases h; exact ⟨hlong, rfl⟩
  next => cases h

theorem LoopStep.parse_eq_error {s : String} {e : NumeralError} (h : parse s = .error e) :
    ∃ w, read? s.toList = some w ∧ digitLimit < w.digits.length ∧
      e = .tooManyDigits w.digits.length := by
  unfold parse at h
  split at h
  next => cases h
  next w hw =>
    refine ⟨w, hw, ?_⟩
    cases hread : Numeral.read w.digits with
    | error e' =>
      rw [ofWritten, hread] at h
      cases h
      exact read_eq_error hread
    | ok n =>
      rw [ofWritten, hread] at h
      cases h

/-- A header with a number that has too many digits: the amount of its step, its bound, or what
comes after its bound. -/
inductive ExceedsLimit (init cond step : String) : Prop where
  | step {w : LoopStep.Written} : LoopStep.read? step.toList = some w →
      digitLimit < w.digits.length → ExceedsLimit init cond step
  | bound {i : LoopInit} {c : LoopCondition} {s : LoopStep} {delta : Int} {negative : Bool}
      {d : List Char} : Counts init cond step i c s → c.comparison.past? = some delta →
      c.bound.toList = signedDigits negative d → d.all isDigit = true →
      digitLimit < d.length ∨
        digitLimit < (Nat.toDigits 10 (signedValue negative (readDigits d) + delta).natAbs).length →
      ExceedsLimit init cond step

/-- A header that passes every test for a counter, and whose bound is included and is a minus sign,
blanks and digits. -/
structure HasSpacedBound (init cond step bound : String) : Prop where
  counts : ∃ i c s, Counts init cond step i c s ∧ c.comparison.past?.isSome = true ∧ c.bound = bound
  spaced : IsSpaced bound.toList

namespace Counter

variable {init cond step : String}

/-- A bound that is included is read and passed as a number, unless it has blanks after its sign, or
it is passed as the text of a sum. -/
theorem pastBound_cases {bound : String} (delta : Int)
    (hwhole : literalType bound.toList = .int ↔ IsWhole bound.toList) :
    (IsSpaced bound.toList ∧ pastBound bound delta = .error (.malformed bound)) ∨
      (∃ negative d, bound.toList = signedDigits negative d ∧ d ≠ [] ∧ d.all isDigit = true ∧
        pastBound bound delta =
          Numeral.read d >>= fun n => Numeral.write (signedValue negative n + delta)) ∨
      (literalType bound.toList ≠ .int ∧
        pastBound bound delta = .ok (bound ++ if 0 < delta then " + 1" else " - 1")) := by
  unfold pastBound
  split
  next hint =>
    rcases (hwhole.mp hint).cases with hspaced | ⟨negative, d, hd, hne, hdigits⟩
    · rw [hspaced.readSigned]
      exact Or.inl ⟨hspaced, rfl⟩
    · refine Or.inr (Or.inl ⟨negative, d, hd, hne, hdigits, ?_⟩)
      rw [readSigned_of_digits hd hdigits]
      cases Numeral.read d <;> rfl
  next hint => exact Or.inr (Or.inr ⟨hint, rfl⟩)

/-- A bound that is included cannot be passed for two reasons. -/
theorem pastBound_eq_error {bound : String} {delta : Int} {e : NumeralError}
    (hwhole : literalType bound.toList = .int ↔ IsWhole bound.toList)
    (h : pastBound bound delta = .error e) :
    (IsSpaced bound.toList ∧ e = .malformed bound) ∨
      ∃ negative d, bound.toList = signedDigits negative d ∧ d.all isDigit = true ∧
        (digitLimit < d.length ∨
          digitLimit <
            (Nat.toDigits 10 (signedValue negative (readDigits d) + delta).natAbs).length) ∧
        ∀ s, e ≠ .malformed s := by
  rcases pastBound_cases delta hwhole with
    ⟨hspaced, heq⟩ | ⟨negative, d, hd, -, hdigits, heq⟩ | ⟨-, heq⟩
  · cases h.symm.trans heq
    exact Or.inl ⟨hspaced, rfl⟩
  · refine Or.inr ⟨negative, d, hd, hdigits, ?_⟩
    rw [heq] at h
    cases hread : Numeral.read d with
    | error e' =>
      obtain ⟨hlong, rfl⟩ := read_eq_error hread
      rw [hread] at h
      cases h
      exact ⟨Or.inl hlong, by simp⟩
    | ok n =>
      rw [hread, (Numeral.read_eq_ok.mp hread).2] at h
      have hwrite : Numeral.write (signedValue negative (readDigits d) + delta) = .error e := h
      unfold Numeral.write at hwrite
      split at hwrite
      next hlong => cases hwrite; exact ⟨Or.inr hlong, by simp⟩
      next => cases hwrite
  · cases h.symm.trans heq

/-- A bound that is included is passed as a number, or as the text of a sum. -/
theorem pastBound_eq_ok {bound stop : String} {delta : Int}
    (hwhole : literalType bound.toList = .int ↔ IsWhole bound.toList)
    (h : pastBound bound delta = .ok stop) :
    (∃ negative d, bound.toList = signedDigits negative d ∧ d ≠ [] ∧ d.all isDigit = true ∧
        stop = Json.intString (signedValue negative (readDigits d) + delta)) ∨
      literalType bound.toList ≠ .int ∧ stop = bound ++ if 0 < delta then " + 1" else " - 1" := by
  rcases pastBound_cases delta hwhole with
    ⟨-, heq⟩ | ⟨negative, d, hd, hne, hdigits, heq⟩ | ⟨hint, heq⟩
  · cases h.symm.trans heq
  · refine Or.inl ⟨negative, d, hd, hne, hdigits, ?_⟩
    rw [heq] at h
    cases hread : Numeral.read d with
    | error e =>
      rw [hread] at h
      cases h
    | ok n =>
      rw [hread, (Numeral.read_eq_ok.mp hread).2] at h
      have hwrite : Numeral.write (signedValue negative (readDigits d) + delta) = .ok stop := h
      unfold Numeral.write at hwrite
      split at hwrite
      next => cases hwrite
      next => exact (Except.ok.inj hwrite).symm
  · cases h.symm.trans heq
    exact Or.inr ⟨hint, rfl⟩

/-- **A header that cannot be read has a bound with blanks in it or too many digits.** -/
theorem parse_eq_error {e : NumeralError} (h : parse init cond step = .error e) :
    (∃ bound, e = .malformed bound ∧ HasSpacedBound init cond step bound) ∨
      ((∀ bound, e ≠ .malformed bound) ∧ ExceedsLimit init cond step) := by
  rcases parse_eq_error_iff.mp h with hstep | ⟨i, c, s, hcounts, hstop⟩
  · obtain ⟨w, hw, hlong, rfl⟩ := LoopStep.parse_eq_error hstep
    exact Or.inr ⟨by simp, .step hw hlong⟩
  · unfold LoopCondition.stop at hstop
    split at hstop
    next => cases hstop
    next delta hpast =>
      rcases pastBound_eq_error (LoopCondition.literalType_bound hcounts.cond) hstop with
        ⟨hspaced, rfl⟩ | ⟨negative, d, hd, hdigits, hlong, hne⟩
      · exact Or.inl ⟨c.bound, rfl, ⟨i, c, s, hcounts, by simp [hpast], rfl⟩, hspaced⟩
      · exact Or.inr ⟨hne, .bound hcounts hpast hd hdigits hlong⟩

/-- **A bound with blanks after its sign cannot be read.** -/
theorem parse_of_spaced {bound : String} (h : HasSpacedBound init cond step bound) :
    parse init cond step = .error (.malformed bound) := by
  obtain ⟨⟨i, c, s, hcounts, hpast, rfl⟩, hspaced⟩ := h
  obtain ⟨delta, hpast⟩ := Option.isSome_iff_exists.mp hpast
  have hint := (LoopCondition.literalType_bound hcounts.cond).mpr hspaced.isWhole
  rw [parse_of_counts hcounts, LoopCondition.stop, hpast]
  simp only [pastBound, if_pos hint, hspaced.readSigned]
  rfl

end Counter

end Blockflow.Expression
