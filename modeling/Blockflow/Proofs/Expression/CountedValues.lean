import Blockflow.Proofs.Expression.Arithmetic
import Blockflow.Proofs.Expression.HeaderForms

/-!
# The values of a counter

A header that counts stands for a range: the numbers from its start on, by its amount, before its
stop. The loop that is written in the header sets its variable to the start, goes on as long as the
condition holds and adds the amount of the step after each turn (`Header.Turns`). What the three
parts say is read off their pieces, and the texts of numbers and bounds have the values that
`value?` computes, so none of this depends on how the header was recognised.

For a start that is a whole number and a bound that is a whole number or another variable, the loop
takes the values of a range, with its numbers as the language of the loop reads them. Those of the
counter they are where no number has zeros in front (`Counter.takes_range`).
-/

namespace Blockflow.Expression

open Text Token

/-! ## Comparisons -/

/-- Does the comparison hold between two numbers? -/
def Comparison.holds : Comparison → Int → Int → Bool
  | .less, x, y => x < y
  | .lessEqual, x, y => x ≤ y
  | .greater, x, y => y < x
  | .greaterEqual, x, y => y ≤ x

/-- Is the number still before `stop`, in the direction of the step? -/
def isBefore (x stop step : Int) : Bool :=
  if 0 < step then decide (x < stop) else decide (stop < x)

theorem Counter.ne_zero_of_leadsTo {comparison : Comparison} {amount : Int}
    (hleads : leadsTo comparison amount = true) : amount ≠ 0 := by
  unfold leadsTo at hleads
  split at hleads <;> simp only [decide_eq_true_eq] at hleads <;> omega

/-- With a step that leads towards the bound, the condition holds before the stop. -/
theorem Comparison.holds_eq_isBefore {comparison : Comparison} {amount : Int}
    (hleads : Counter.leadsTo comparison amount = true) (x n : Int) :
    comparison.holds x n = isBefore x (n + comparison.past?.getD 0) amount := by
  unfold isBefore
  cases comparison with
  | less | lessEqual =>
    have hup : 0 < amount := by simpa [Counter.leadsTo, isUpper] using hleads
    rw [if_pos hup]
    refine decide_eq_decide.mpr ?_
    simp only [past?, Option.getD_none, Option.getD_some]
    omega
  | greater | greaterEqual =>
    have hdown : amount < 0 := by simpa [Counter.leadsTo, isUpper] using hleads
    rw [if_neg (Int.not_lt.mpr (Int.le_of_lt hdown))]
    refine decide_eq_decide.mpr ?_
    simp only [past?, Option.getD_none, Option.getD_some]
    omega

/-! ## Ranges -/

/-- How many numbers there are from `start` on by `step` before `stop`. -/
def rangeLength (start stop step : Int) : Nat :=
  if 0 < step then ((stop - start + (step - 1)) / step).toNat
  else ((start - stop + (-step - 1)) / -step).toNat

/-- The numbers from `start` on by `step` before `stop`. -/
def range (start stop step : Int) : List Int :=
  (List.range (rangeLength start stop step)).map fun i : Nat => start + (i : Int) * step

theorem rangeLength_eq_zero {x stop step : Int} (hstep : step ≠ 0)
    (h : isBefore x stop step = false) : rangeLength x stop step = 0 := by
  unfold isBefore at h
  unfold rangeLength
  by_cases hup : 0 < step
  · simp only [hup, if_true, decide_eq_false_iff_not] at h ⊢
    have hlt : (stop - x + (step - 1)) / step < 1 := Int.ediv_lt_of_lt_mul hup (by omega)
    omega
  · simp only [hup, if_false, decide_eq_false_iff_not] at h ⊢
    have hlt : (x - stop + (-step - 1)) / -step < 1 := Int.ediv_lt_of_lt_mul (by omega) (by omega)
    omega

/-- One step further there is one number less. -/
theorem rangeLength_succ {x stop step : Int} (hstep : step ≠ 0)
    (h : isBefore x stop step = true) :
    rangeLength x stop step = rangeLength (x + step) stop step + 1 := by
  unfold isBefore at h
  unfold rangeLength
  by_cases hup : 0 < step
  · simp only [hup, if_true, decide_eq_true_eq] at h ⊢
    have hshift : (stop - x + (step - 1)) / step = (stop - (x + step) + (step - 1)) / step + 1 := by
      rw [← Int.add_mul_ediv_right _ 1 hstep]
      exact congrArg (· / step) (by omega)
    have hnonneg : 0 ≤ (stop - (x + step) + (step - 1)) / step :=
      Int.ediv_nonneg (by omega) (by omega)
    omega
  · simp only [hup, if_false, decide_eq_true_eq] at h ⊢
    have hshift :
        (x - stop + (-step - 1)) / -step = (x + step - stop + (-step - 1)) / -step + 1 := by
      rw [← Int.add_mul_ediv_right _ 1 (by omega : -step ≠ 0)]
      exact congrArg (· / -step) (by omega)
    have hnonneg : 0 ≤ (x + step - stop + (-step - 1)) / -step :=
      Int.ediv_nonneg (by omega) (by omega)
    omega

theorem range_eq_nil {x stop step : Int} (hstep : step ≠ 0) (h : isBefore x stop step = false) :
    range x stop step = [] := by
  rw [range, rangeLength_eq_zero hstep h]
  rfl

theorem range_eq_cons {x stop step : Int} (hstep : step ≠ 0) (h : isBefore x stop step = true) :
    range x stop step = x :: range (x + step) stop step := by
  rw [range, rangeLength_succ hstep h, List.range_succ_eq_map, List.map_cons, List.map_map, range]
  refine congrArg₂ List.cons (by simp) (List.map_congr_left fun i _ => ?_)
  show x + ((i + 1 : Nat) : Int) * step = x + step + i * step
  rw [Int.natCast_add, Int.add_mul]
  omega

/-! ## The loop that is written -/

/-- What a header says: the variable, the text of its first value, the comparison with the text of a
bound, and the digits of what is added after each turn or taken away. -/
structure Header where
  name : String
  start : String
  comparison : Comparison
  bound : String
  down : Bool
  digits : List Char

/-- The three texts say this. -/
structure Header.Written (h : Header) (init cond step : String) : Prop where
  isVariable : isVariable h.name.toList = true
  start : IsTail h.start.toList
  bound : IsTail h.bound.toList
  init : LoopInit.Spelled h.name.toList h.start.toList init.toList
  cond : Spaced [h.name.toList, h.comparison.sign, h.bound.toList] cond.toList
  step : LoopStep.Spells ⟨h.name.toList, h.down, h.digits⟩ step.toList

namespace Header

variable {h h' : Header} {init cond step : String} {zeros : Zeros} {env : Env} {amount : Int}

/-- Is there another turn? -/
def test? (h : Header) (zeros : Zeros) (env : Env) : Option Bool :=
  (value? zeros env h.bound).map (h.comparison.holds (env h.name))

/-- What is added to the variable after each turn. -/
def amount? (h : Header) (zeros : Zeros) : Option Int :=
  (zeros.read? h.digits).map fun n => signedValue h.down n

/-- The values of the variable in the turns of the loop, from this one on. -/
inductive Turns (h : Header) (zeros : Zeros) (env : Env) (amount : Int) :
    Int → List Int → Prop where
  | done {x : Int} : h.test? zeros (env.set h.name x) = some false → Turns h zeros env amount x []
  | turn {x : Int} {values : List Int} : h.test? zeros (env.set h.name x) = some true →
      Turns h zeros env amount (x + amount) values → Turns h zeros env amount x (x :: values)

/-- The loop ends, and its variable takes these values. -/
def Takes (h : Header) (zeros : Zeros) (env : Env) (values : List Int) : Prop :=
  ∃ first amount, value? zeros env h.start = some first ∧ h.amount? zeros = some amount ∧
    h.Turns zeros env amount first values

/-- The start, the bound and the amount have values where zeros in front of a number are refused. -/
structure IsPlain (h : Header) : Prop where
  start : ∀ env, (value? .refused env h.start).isSome = true
  bound : ∀ env, (value? .refused env h.bound).isSome = true
  digits : (Zeros.refused.read? h.digits).isSome = true

/-- The bound has the same value whatever the variable is set to. -/
def HasFreeBound (h : Header) : Prop :=
  ∀ zeros env x, value? zeros (env.set h.name x) h.bound = value? zeros env h.bound

/-- **Three texts say one thing at most.** -/
theorem Written.unique (hw : h.Written init cond step) (hw' : h'.Written init cond step) :
    h' = h := by
  obtain ⟨declared, hinit⟩ := LoopInit.parse?_of_spelled hw.isVariable hw.start hw.init
  obtain ⟨declared', hinit'⟩ := LoopInit.parse?_of_spelled hw'.isVariable hw'.start hw'.init
  have hcond : LoopCondition.parse? cond = some ⟨h.name, h.comparison, h.bound⟩ :=
    LoopCondition.parse?_of_spaced hw.isVariable hw.bound hw.cond
  have hcond' : LoopCondition.parse? cond = some ⟨h'.name, h'.comparison, h'.bound⟩ :=
    LoopCondition.parse?_of_spaced hw'.isVariable hw'.bound hw'.cond
  have hi := Option.some.inj (hinit.symm.trans hinit')
  have hc := Option.some.inj (hcond.symm.trans hcond')
  have hs := hw.step.unique hw'.step
  obtain ⟨name, start, comparison, bound, down, digits⟩ := h
  obtain ⟨name', start', comparison', bound', down', digits'⟩ := h'
  cases hi
  cases hc
  cases hs
  rfl

/-- The turns of a loop are determined. -/
theorem Turns.unique {x : Int} {values values' : List Int}
    (hturns : h.Turns zeros env amount x values)
    (hturns' : h.Turns zeros env amount x values') : values = values' := by
  induction hturns generalizing values' with
  | done htest =>
    cases hturns' with
    | done _ => rfl
    | turn htest' _ => cases htest.symm.trans htest'
  | turn htest _ ih =>
    cases hturns' with
    | done htest' => cases htest.symm.trans htest'
    | turn _ hrest => rw [ih hrest]

/-- In a loop that ends the bound has a value. -/
theorem Turns.exists_bound {x : Int} {values : List Int}
    (hturns : h.Turns zeros env amount x values) :
    ∃ n, value? zeros (env.set h.name x) h.bound = some n := by
  cases hturns with
  | done htest | turn htest _ =>
    obtain ⟨n, hn, -⟩ := Option.map_eq_some_iff.mp htest
    exact ⟨n, hn⟩

/-- **A loop that goes on before a stop takes the values of a range.** -/
theorem turns_range {stop : Int} (hamount : amount ≠ 0)
    (htest : ∀ x, h.test? zeros (env.set h.name x) = some (isBefore x stop amount)) (x : Int) :
    h.Turns zeros env amount x (range x stop amount) := by
  -- one number less is left after each turn
  induction hlength : rangeLength x stop amount generalizing x with
  | zero =>
    cases hbefore : isBefore x stop amount with
    | false =>
      rw [range_eq_nil hamount hbefore]
      exact .done (by rw [htest, hbefore])
    | true =>
      rw [rangeLength_succ hamount hbefore] at hlength
      cases hlength
  | succ n ih =>
    cases hbefore : isBefore x stop amount with
    | false =>
      rw [rangeLength_eq_zero hamount hbefore] at hlength
      cases hlength
    | true =>
      rw [range_eq_cons hamount hbefore]
      rw [rangeLength_succ hamount hbefore, Nat.add_right_cancel_iff] at hlength
      exact .turn (by rw [htest, hbefore]) (ih _ hlength)

end Header

/-! ## Counters -/

/-- The number that a step adds. -/
def LoopStep.Written.value (w : LoopStep.Written) : Int := signedValue w.down (readDigits w.digits)

/-- A step that is read adds the number that is written, which has not too many digits. -/
theorem LoopStep.parse_eq_some_iff {s : String} {step : LoopStep} :
    parse s = .ok (some step) ↔ ∃ w, Spells w s.toList ∧ w.digits.length ≤ digitLimit ∧
      step = ⟨String.ofList w.name, w.value⟩ := by
  have hwritten : ∀ w, (ofWritten w).map some = .ok (some step) ↔
      w.digits.length ≤ digitLimit ∧ step = ⟨String.ofList w.name, w.value⟩ := by
    intro w
    cases hread : Numeral.read w.digits with
    | error e =>
      rw [ofWritten, hread]
      have hlong := (read_eq_error hread).1
      simp only [bind, Except.bind, Except.map, reduceCtorEq, false_iff, not_and]
      omega
    | ok n =>
      obtain ⟨hlength, rfl⟩ := Numeral.read_eq_ok.mp hread
      rw [ofWritten, hread]
      simp only [bind, Except.bind, Except.map, pure, Except.pure, Except.ok.injEq,
        Option.some.injEq, hlength, true_and]
      exact eq_comm
  unfold parse
  constructor
  · intro h
    split at h
    next => cases h
    next w hw => exact ⟨w, spells_of_read? hw, (hwritten w).mp h⟩
  · rintro ⟨w, hspells, h⟩
    rw [read?_eq_some_iff.mpr hspells]
    exact (hwritten w).mpr h

/-- The header counts, and this is its counter. -/
structure Header.Counted (h : Header) (k : Counter) : Prop where
  name : k.name = h.name
  start : k.start = h.start
  amount : k.amount = signedValue h.down (readDigits h.digits)
  leads : Counter.leadsTo h.comparison k.amount = true
  stop : LoopCondition.stop ⟨h.name, h.comparison, h.bound⟩ = .ok k.stop
  bound : Stripped h.bound.toList

/-- The counter that is recognised in three texts is the one of what they say. -/
theorem Header.Written.counted {h : Header} {init cond step : String} {k : Counter}
    (hw : h.Written init cond step) (hk : Counter.parse init cond step = .ok (some k)) :
    h.Counted k := by
  obtain ⟨i, c, s, hcounts, hstop, hname, hstart, hamount⟩ := Counter.parse_eq_some_iff.mp hk
  obtain ⟨declared, hinit⟩ := LoopInit.parse?_of_spelled hw.isVariable hw.start hw.init
  have hcond : LoopCondition.parse? cond = some ⟨h.name, h.comparison, h.bound⟩ :=
    LoopCondition.parse?_of_spaced hw.isVariable hw.bound hw.cond
  obtain rfl := Option.some.inj (hinit.symm.trans hcounts.init)
  obtain rfl := Option.some.inj (hcond.symm.trans hcounts.cond)
  obtain ⟨w, hspells, -, rfl⟩ := LoopStep.parse_eq_some_iff.mp hcounts.step
  obtain rfl := hw.step.unique hspells
  exact ⟨hname, hstart, hamount, hamount ▸ hcounts.leads, hstop, hw.bound.stripped⟩

theorem IsTail.exists_solid {p : List Char} (hp : IsTail p) : ∃ c ∈ p, isBlank c = false := by
  obtain ⟨c, rest, rfl⟩ := List.exists_cons_of_ne_nil hp.ne_nil
  exact ⟨c, List.mem_cons_self, hp.stripped.head c rfl⟩

/-- The readers of the three parts find what is written. -/
theorem Header.written_of_parse {h : Header} {init cond step : String} {declared : Option String}
    (hinit : LoopInit.parse? init = some ⟨declared, h.name, h.start⟩)
    (hcond : LoopCondition.parse? cond = some ⟨h.name, h.comparison, h.bound⟩)
    (hstep : LoopStep.read? step.toList = some ⟨h.name.toList, h.down, h.digits⟩)
    (hstart : IsTail h.start.toList) (hbound : IsTail h.bound.toList) :
    h.Written init cond step := by
  obtain ⟨hvariable, -, hspelled⟩ := LoopInit.spelled_of_parse? hinit hstart.exists_solid
  obtain ⟨-, -, hspaced⟩ := LoopCondition.spaced_of_parse? hcond hbound.exists_solid
  exact ⟨hvariable, hstart, hbound, hspelled, hspaced, LoopStep.read?_eq_some_iff.mp hstep⟩

/-- What a header that counts says. -/
theorem Counts.exists_written {init cond step : String} {i : LoopInit} {c : LoopCondition}
    {s : LoopStep} (hc : Counts init cond step i c s) (hstart : IsWhole i.value.toList)
    (hbound : IsWhole c.bound.toList ∨ isName c.bound.toList = true) :
    ∃ down digits, Header.Written ⟨i.name, i.value, c.comparison, c.bound, down, digits⟩
      init cond step := by
  have htail : IsTail i.value.toList :=
    hstart.isTail (LoopInit.spelled_of_parse? hc.init hstart.exists_solid).2.1
  have htail' : IsTail c.bound.toList := by
    rcases hbound with hwhole | hname
    · exact hwhole.isTail (LoopCondition.spaced_of_parse? hc.cond hwhole.exists_solid).2.1
    · exact isTail_of_isName hname
  obtain ⟨w, hspells, -, rfl⟩ := LoopStep.parse_eq_some_iff.mp hc.step
  have hstep := LoopStep.read?_eq_some_iff.mpr hspells
  have hname : w.name = i.name.toList := by
    rw [hc.condName, hc.stepName, String.toList_ofList]
  refine ⟨w.down, w.digits, Header.written_of_parse hc.init ?_ ?_ htail htail'⟩
  · rw [hc.condName]
    exact hc.cond
  · rw [← hname]
    exact hstep

theorem Counter.leadsTo_signedValue_iff {comparison : Comparison} {down : Bool} {n : Nat} :
    leadsTo comparison (signedValue down n) = true ↔ n ≠ 0 ∧ comparison.isUpper = !down := by
  unfold leadsTo signedValue
  cases comparison.isUpper <;> cases down <;> simp <;> omega

/-- A whole number says the same whatever the variables are, and so does a variable as long as it is
not set itself. -/
theorem Header.hasFreeBound {h : Header}
    (hbound : IsWhole h.bound.toList ∨ isName h.bound.toList = true ∧ h.bound ≠ h.name) :
    h.HasFreeBound := by
  refine fun zeros env x => value?_congr zeros fun t ht hkind => Env.set_of_ne ?_ env x
  rcases hbound with hwhole | ⟨hname, hne⟩
  · -- no token of a whole number is a name
    have hsolid : t ∈ solid h.bound.toList :=
      List.mem_filter.mpr ⟨ht, by simp [isSolid, hkind]⟩
    rcases hwhole with ⟨hnil, hd⟩ | ⟨b, d, hs, hb, hnil, hd⟩
    · rw [solid, tokens_digits hnil hd] at hsolid
      cases List.mem_singleton.mp (List.mem_filter.mp hsolid).1
      cases hkind
    · rw [hs, solid_negative hb hnil hd] at hsolid
      rcases List.mem_cons.mp hsolid with rfl | hmem
      · cases hkind
      · cases List.mem_singleton.mp hmem
        cases hkind
  · have htokens : tokens (h.bound.toList ++ []) = _ := (leads_name hname (by simp)).tokens_eq
    rw [List.append_nil] at htokens
    rw [htokens] at ht
    cases List.mem_singleton.mp ht
    rw [String.ofList_toList]
    exact hne

namespace Header.Counted

variable {h : Header} {k : Counter} {zeros : Zeros} {env : Env} {amount n : Int}

/-- Whatever a language makes of its zeros, the step leads towards the bound. -/
theorem leads_amount (hc : h.Counted k) (hamount : h.amount? zeros = some amount) :
    Counter.leadsTo h.comparison amount = true := by
  obtain ⟨n, hn, rfl⟩ := Option.map_eq_some_iff.mp hamount
  have hleads := hc.leads
  rw [hc.amount, Counter.leadsTo_signedValue_iff] at hleads
  rw [Counter.leadsTo_signedValue_iff]
  exact ⟨mt (Zeros.read?_eq_zero_iff hn).mp hleads.1, hleads.2⟩

/-- The stop has the value of the bound, or one more or less if the bound is included. -/
theorem value?_stop (hc : h.Counted k) (hn : value? .refused env h.bound = some n) :
    value? .refused env k.stop = some (n + h.comparison.past?.getD 0) := by
  have hstop := hc.stop
  unfold LoopCondition.stop at hstop
  split at hstop
  next hpast =>
    rw [← Except.ok.inj hstop]
    simpa [hpast] using hn
  next delta hpast =>
    simp only at hpast
    rw [hpast, Option.getD_some]
    rcases Counter.pastBound_eq_ok (literalType_eq_int_iff hc.bound) hstop with
      ⟨negative, d, hd, hne, hdigits, hstop⟩ | ⟨-, hstop⟩
    · rw [value?_signedDigits .refused env hd hne hdigits] at hn
      obtain ⟨m, hm, rfl⟩ := Option.map_eq_some_iff.mp hn
      rw [hstop, value?_intString, (Zeros.read?_of_refused hm .refused).2]
    · obtain ⟨hplus, hminus⟩ := value?_append_one hc.bound hn
      rw [hstop]
      cases hcomparison : h.comparison with
      | less | greater =>
        rw [hcomparison] at hpast
        cases hpast
      | lessEqual =>
        rw [hcomparison] at hpast
        cases hpast
        exact hplus
      | greaterEqual =>
        rw [hcomparison] at hpast
        cases hpast
        exact hminus

theorem amount?_of_isPlain (hc : h.Counted k) (hp : h.IsPlain) (zeros : Zeros) :
    h.amount? zeros = some k.amount := by
  obtain ⟨n, hn⟩ := Option.isSome_iff_exists.mp hp.digits
  obtain ⟨hread, rfl⟩ := Zeros.read?_of_refused hn zeros
  rw [Header.amount?, hread, hc.amount]
  rfl

/-- **The values of a loop that counts** are those of a range, with the numbers as the language of
the loop reads them. -/
theorem takes_iff (hc : h.Counted k) (hfree : h.HasFreeBound) (zeros : Zeros) (env : Env)
    (values : List Int) :
    h.Takes zeros env values ↔ ∃ first bound amount, value? zeros env h.start = some first ∧
      value? zeros env h.bound = some bound ∧ h.amount? zeros = some amount ∧
      values = range first (bound + h.comparison.past?.getD 0) amount := by
  have hrange : ∀ {bound amount : Int} (first : Int), value? zeros env h.bound = some bound →
      h.amount? zeros = some amount → h.Turns zeros env amount first
        (range first (bound + h.comparison.past?.getD 0) amount) := by
    intro bound amount first hbound hamount
    have hleads := hc.leads_amount hamount
    refine Header.turns_range (Counter.ne_zero_of_leadsTo hleads) (fun x => ?_) first
    rw [Header.test?, hfree, hbound, Option.map_some, Env.set_self,
      Comparison.holds_eq_isBefore hleads]
  constructor
  · rintro ⟨first, amount, hfirst, hamount, hturns⟩
    obtain ⟨bound, hbound⟩ := hturns.exists_bound
    rw [hfree] at hbound
    exact ⟨first, bound, amount, hfirst, hbound, hamount,
      hturns.unique (hrange first hbound hamount)⟩
  · rintro ⟨first, bound, amount, hfirst, hbound, hamount, rfl⟩
    exact ⟨first, amount, hfirst, hamount, hrange first hbound hamount⟩

end Header.Counted

/-- **The values of a counter are those of its loop**, as long as no number has zeros in front. The
three texts of a header that was recognised as a counter say one thing. If the first value is a
whole number and the bound is a whole number or another variable, the loop that they say ends
whatever the values of the variables are, if its numbers can be read at all. Its variable takes the
values of the range from the start to the bound, as the language of the loop reads them. Where zeros
in front of a number would be refused, this is the range of the counter. -/
theorem Counter.takes_range {init cond step : String} {k : Counter} {c : LoopCondition}
    (hk : parse init cond step = .ok (some k)) (hc : LoopCondition.parse? cond = some c)
    (hstart : literalType k.start.toList = .int)
    (hbound : literalType c.bound.toList = .int ∨
      isName c.bound.toList = true ∧ c.bound ≠ k.name) :
    ∃ h : Header, h.Written init cond step ∧ (∀ h', h'.Written init cond step → h' = h) ∧
      h.name = k.name ∧ h.start = k.start ∧ h.comparison = c.comparison ∧ h.bound = c.bound ∧
      ∀ (zeros : Zeros) (env : Env),
        (∀ values, h.Takes zeros env values ↔
          ∃ first bound amount, value? zeros env k.start = some first ∧
            value? zeros env c.bound = some bound ∧ h.amount? zeros = some amount ∧
            values = range first (bound + c.comparison.past?.getD 0) amount) ∧
        (h.IsPlain → ∃ first stop, value? .refused env k.start = some first ∧
          value? .refused env k.stop = some stop ∧
          ∀ values, h.Takes zeros env values ↔ values = range first stop k.amount) := by
  obtain ⟨i, c', s, hcounts, -, hname, hvalue, -⟩ := parse_eq_some_iff.mp hk
  obtain rfl := Option.some.inj (hcounts.cond.symm.trans hc)
  rw [hvalue, LoopInit.literalType_value hcounts.init] at hstart
  rw [hname, LoopCondition.literalType_bound hcounts.cond] at hbound
  obtain ⟨down, digits, hw⟩ := hcounts.exists_written hstart (hbound.imp_right And.left)
  have hcounted := hw.counted hk
  refine ⟨_, hw, fun h' hw' => hw.unique hw', hname.symm, hvalue.symm, rfl, rfl, ?_⟩
  intro zeros env
  have htakes := hcounted.takes_iff (Header.hasFreeBound hbound) zeros env
  rw [hvalue]
  refine ⟨htakes, fun hplain => ?_⟩
  obtain ⟨first, hfirst⟩ := Option.isSome_iff_exists.mp (hplain.start env)
  obtain ⟨n, hn⟩ := Option.isSome_iff_exists.mp (hplain.bound env)
  have hamount := hcounted.amount?_of_isPlain hplain zeros
  refine ⟨first, _, hfirst, hcounted.value?_stop hn, fun values => ?_⟩
  rw [htakes]
  constructor
  · rintro ⟨first', bound, amount, hfirst', hbound', hamount', rfl⟩
    cases (value?_of_refused hfirst zeros).symm.trans hfirst'
    cases (value?_of_refused hn zeros).symm.trans hbound'
    cases hamount.symm.trans hamount'
    rfl
  · rintro rfl
    exact ⟨first, n, k.amount, value?_of_refused hfirst zeros, value?_of_refused hn zeros, hamount,
      rfl⟩

/-- The header `i = 10; i >= n; i = i - 3`. -/
def countdown : Header := ⟨"i", "10", .greaterEqual, "n", true, ['3']⟩

theorem written_countdown : countdown.Written "int i = 10" " i>= n" "i = i - 3 " := by
  refine @Header.written_of_parse countdown _ _ _ (some "int") ?_ ?_ ?_ ?_ ?_
  · decide
  · decide
  · decide
  · exact isTail_of_digits (by decide) (by decide)
  · exact isTail_of_isName (by decide)

theorem isPlain_countdown : countdown.IsPlain := by
  refine ⟨fun env => ?_, fun env => ?_, by decide⟩
  · have hten : value? .refused env "10" = some 10 := value?_intString .refused env 10
    rw [countdown, hten]
    rfl
  · rw [countdown, value?_name .refused env (by decide) (by decide)]
    rfl

theorem Counter.takes_range_countdown :
    parse "int i = 10" " i>= n" "i = i - 3 " = .ok (some ⟨"i", "10", "n - 1", -3⟩) ∧
      countdown.Written "int i = 10" " i>= n" "i = i - 3 " ∧
        ∀ zeros, countdown.Takes zeros (fun _ => 4) [10, 7, 4] ∧
          countdown.Takes zeros (fun _ => 11) [] := by
  have hk : parse "int i = 10" " i>= n" "i = i - 3 " = .ok (some ⟨"i", "10", "n - 1", -3⟩) := by
    decide
  have hc : LoopCondition.parse? " i>= n" = some ⟨"i", .greaterEqual, "n"⟩ := by decide
  obtain ⟨h, -, hunique, -, -, -, -, htakes⟩ :=
    takes_range hk hc (by decide) (Or.inr ⟨by decide, by decide⟩)
  obtain rfl := hunique _ written_countdown
  have hvalues : ∀ (zeros : Zeros) (x : Int) (values : List Int),
      value? .refused (fun _ => x) "10" = some 10 →
      value? .refused (fun _ => x) "n - 1" = some (x - 1) → range 10 (x - 1) (-3) = values →
        countdown.Takes zeros (fun _ => x) values := by
    rintro zeros x values hten hx rfl
    obtain ⟨first, stop, hfirst, hstop, hiff⟩ := (htakes zeros fun _ => x).2 isPlain_countdown
    cases hten.symm.trans hfirst
    cases hx.symm.trans hstop
    exact (hiff _).mpr rfl
  refine ⟨hk, written_countdown, fun zeros =>
    ⟨hvalues zeros 4 _ ?_ ?_ ?_, hvalues zeros 11 _ ?_ ?_ ?_⟩⟩
  all_goals decide

/-- The header `i = 0; i <= 010; i++`. -/
def toOctal : Header := ⟨"i", "0", .lessEqual, "010", false, ['1']⟩

theorem written_toOctal : toOctal.Written "i = 0" "i <= 010" "i++" := by
  refine @Header.written_of_parse toOctal _ _ _ none ?_ ?_ ?_ ?_ ?_
  · decide
  · decide
  · decide
  · exact isTail_of_digits (by decide) (by decide)
  · exact isTail_of_digits (by decide) (by decide)

/-- **The values of a counter need not be those of its loop.** Where zeros in front make a number
one of base eight, the loop `i = 0; i <= 010; i++` takes the values up to 8, and the range of its
counter goes up to 10. -/
theorem Counter.not_forall_takes_range :
    ¬ ∀ (init cond step : String) (k : Counter) (h : Header),
      parse init cond step = .ok (some k) → h.Written init cond step →
      literalType h.start.toList = .int → literalType h.bound.toList = .int →
      ∀ zeros env first stop, value? .refused env k.start = some first →
        value? .refused env k.stop = some stop →
        ∀ values, h.Takes zeros env values → values = range first stop k.amount := by
  intro hall
  have hk : parse "i = 0" "i <= 010" "i++" = .ok (some ⟨"i", "0", "11", 1⟩) := by decide
  have hwhole : IsWhole toOctal.bound.toList := Or.inl ⟨by decide, by decide⟩
  have htakes : toOctal.Takes .octal (fun _ => 0) (range 0 9 1) :=
    ((written_toOctal.counted hk).takes_iff (Header.hasFreeBound (.inl hwhole)) _ _ _).mpr
      ⟨0, 8, 1, by decide, by decide, by decide, rfl⟩
  have hrange := hall _ _ _ _ _ hk written_toOctal (by decide) (by decide)
    .octal (fun _ => 0) 0 11 (by decide) (by decide) _ htakes
  exact absurd hrange (by decide)

-- the spellings of a step by two
example : ∀ step ∈ ["i += 2", " i+=2", "i = i + 2", "i=i+02"],
    Counter.parse "i = 0" "i <= 9" step = .ok (some ⟨"i", "0", "10", 2⟩) := by
  decide

-- the spellings of a step by one, upwards and downwards
example : ∀ step ∈ ["i++", "++i", "i += 1", "i = i + 1"],
    Counter.parse "i = 0" "i < n" step = .ok (some ⟨"i", "0", "n", 1⟩) := by
  decide

example : ∀ step ∈ ["i--", "-- i", "i -= 1", "i = i - 1"],
    Counter.parse "i = - 2" "i > -9" step = .ok (some ⟨"i", "- 2", "-9", -1⟩) := by
  decide

end Blockflow.Expression
