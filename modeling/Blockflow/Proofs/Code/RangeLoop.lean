import Mathlib.Data.Nat.Find
import Blockflow.Code.Indented
import Blockflow.Proofs.Expression.CountedValues

/-!
# Loops over a range

A loop whose header counts can be run in two ways. The plain loop sets its variable, tests the
condition before every turn and makes the step after every turn (`Header.tested`). The loop over
the range of its counter looks at the start and the stop once, and gives the variable the next item
before every turn (`Counter.before`).

This is said of headers whose start and bound are sums and products of whole numbers and variables,
without zeros in front of a number (`Header.IsPlain`): there every language gives the texts the same
values, and the comparison applies to the bound as a whole. Where the body leaves the variable and
the value of the bound alone (`Steady`), both loops run the body in the same environments. They
never leave the variable with the same value if there was a turn: the plain loop ends at the first
item that the range does not have, the loop over the range one step before it. Where the body
changes the variable, the environments differ as well.
-/

namespace Blockflow.Expression

open Text

/-! ## The two ways to run a loop -/

namespace Header

variable (h : Header) (zeros : Zeros) (body : Env → Env) (env : Env)

/-- The step after a turn. -/
def advance? (e : Env) : Option Env :=
  (h.amount? zeros).map fun amount => e.set h.name (e h.name + amount)

/-- The environment in which the condition is tested for the `n`-th time. -/
def tested : Nat → Option Env
  | 0 => (value? zeros env h.start).map (env.set h.name)
  | n + 1 => (tested n).bind fun e =>
    if h.test? zeros e = some true then h.advance? zeros (body e) else none

/-- The environment in which the body is run for the `n`-th time. -/
def enters (n : Nat) : Option Env :=
  (h.tested zeros body env n).filter fun e => h.test? zeros e = some true

/-- The loop ends where the test fails. -/
def Ends (e : Env) : Prop :=
  ∃ n, h.tested zeros body env n = some e ∧ h.test? zeros e = some false

end Header

namespace Counter

variable (k : Counter) (first stop : Int) (body : Env → Env) (env : Env)

/-- The `n`-th number, counted from the first one. -/
def item (n : Nat) : Int := first + n * k.amount

/-- Does the range have an `n`-th item? -/
def hasItem (n : Nat) : Bool := isBefore (k.item first n) stop k.amount

/-- The environment after `n` turns. -/
def before : Nat → Env
  | 0 => env
  | n + 1 => body ((before n).set k.name (k.item first n))

/-- The environment in which the body is run for the `n`-th time. -/
def enters (n : Nat) : Option Env :=
  (value? .refused env k.start).bind fun first => (value? .refused env k.stop).bind fun stop =>
    if k.hasItem first stop n then some ((k.before first body env n).set k.name (k.item first n))
    else none

/-- The loop ends when there is no item left. -/
def Ends (e : Env) : Prop :=
  ∃ first stop, value? .refused env k.start = some first ∧ value? .refused env k.stop = some stop ∧
    ∃ n, (∀ j < n, k.hasItem first stop j = true) ∧ k.hasItem first stop n = false ∧
      e = k.before first body env n

theorem item_succ (n : Nat) : k.item first (n + 1) = k.item first n + k.amount := by
  simp only [item, Int.natCast_add, Int.add_mul, Int.natCast_one, Int.one_mul]
  omega

variable {k first stop body env}

/-- The items of a range are those before the stop, so none is left out. -/
theorem hasItem_of_succ {n : Nat} (h : k.hasItem first stop (n + 1) = true) :
    k.hasItem first stop n = true := by
  have hsucc := k.item_succ first n
  unfold hasItem isBefore at h ⊢
  split at h
  next hup => simp only [hup, if_true, decide_eq_true_eq] at h ⊢; omega
  next hdown => simp only [hdown, if_false, decide_eq_true_eq] at h ⊢; omega

/-- A range with an item has all the items before it. -/
theorem hasItem_of_le {i n : Nat} (hle : i ≤ n)
    (h : k.hasItem first stop n = true) : k.hasItem first stop i = true := by
  induction n, hle using Nat.le_induction with
  | base => exact h
  | succ n _ ih => exact ih (hasItem_of_succ h)

/-- A range ends: after as many items as numbers lie between the start and the stop, at the
latest. -/
theorem exists_hasItem_eq_false (hamount : k.amount ≠ 0) : ∃ n, k.hasItem first stop n = false := by
  refine ⟨(stop - first).natAbs, ?_⟩
  generalize hn : (stop - first).natAbs = n
  unfold hasItem isBefore item
  split
  next hup =>
    have hmul : (n : Int) * 1 ≤ n * k.amount := Int.mul_le_mul_of_nonneg_left (by omega) (by omega)
    simp only [decide_eq_false_iff_not]
    omega
  next hdown =>
    have hmul : (n : Int) * k.amount ≤ n * -1 := Int.mul_le_mul_of_nonneg_left (by omega) (by omega)
    simp only [decide_eq_false_iff_not]
    omega

/-- The number of turns. -/
theorem exists_turns (first stop : Int) (hamount : k.amount ≠ 0) :
    ∃ turns, ∀ n, k.hasItem first stop n = true ↔ n < turns := by
  have hend : ∃ n, k.hasItem first stop n = false := exists_hasItem_eq_false hamount
  refine ⟨Nat.find hend, fun n => ⟨fun h => ?_, fun h => ?_⟩⟩
  · refine Nat.lt_of_not_le fun hle => ?_
    exact absurd ((hasItem_of_le hle h).symm.trans (Nat.find_spec hend)) (by decide)
  · cases hitem : k.hasItem first stop n with
    | true => rfl
    | false => exact absurd hitem (Nat.find_min hend h)

end Counter

/-! ## Bodies that leave the header alone -/

/-- The body changes neither the variable nor the value of the bound, and the variable does not
occur in the bound. -/
structure Steady (h : Header) (body : Env → Env) : Prop where
  counter : ∀ e, body e h.name = e h.name
  bound : ∀ e, value? .refused (body e) h.bound = value? .refused e h.bound
  setting : ∀ e n, value? .refused (e.set h.name n) h.bound = value? .refused e h.bound

/-- The number before which a range with this bound ends. -/
def Header.stopAt (h : Header) (bound : Int) : Int := bound + h.comparison.past?.getD 0

/-- The header counts, this is its counter, and in this environment the start, the bound and the
amount have values on which all languages agree. -/
structure Ranges (h : Header) (k : Counter) (env : Env) (first bound : Int) : Prop where
  counted : h.Counted k
  plain : h.IsPlain
  start : value? .refused env h.start = some first
  bound : value? .refused env h.bound = some bound

section

variable {h : Header} {k : Counter} {zeros : Zeros} {body : Env → Env} {env : Env}
  {first bound : Int}

/-- The start and the bound of a plain header have values. -/
theorem Header.Counted.exists_ranges (hc : h.Counted k) (hp : h.IsPlain) (env : Env) :
    ∃ first bound, Ranges h k env first bound := by
  obtain ⟨first, hfirst⟩ := Option.isSome_iff_exists.mp (hp.start env)
  obtain ⟨bound, hbound⟩ := Option.isSome_iff_exists.mp (hp.bound env)
  exact ⟨first, bound, hc, hp, hfirst, hbound⟩

namespace Ranges

variable (hr : Ranges h k env first bound)
include hr

/-- The counter starts at the start of the header. -/
theorem value?_start : value? .refused env k.start = some first := by
  rw [hr.counted.start, hr.start]

/-- The counter stops where the header does. -/
theorem value?_stop : value? .refused env k.stop = some (h.stopAt bound) :=
  hr.counted.value?_stop hr.bound

theorem amount_ne_zero : k.amount ≠ 0 := Counter.ne_zero_of_leadsTo hr.counted.leads

/-- The loop over the range runs the body while there are items. -/
theorem enters_counter (body : Env → Env) (n : Nat) :
    k.enters body env n = if k.hasItem first (h.stopAt bound) n then
      some ((k.before first body env n).set k.name (k.item first n)) else none := by
  rw [Counter.enters, hr.value?_start, hr.value?_stop]
  rfl

variable (hs : Steady h body)
include hs

/-- A steady body leaves the bound as it was. -/
theorem bound_before (n : Nat) :
    value? .refused (k.before first body env n) h.bound = some bound := by
  induction n with
  | zero => exact hr.bound
  | succ n ih => rw [Counter.before, hs.bound, hr.counted.name, hs.setting, ih]

/-- The condition holds before a turn of the plain loop if the range has another item. -/
theorem test?_eq (n : Nat) :
    h.test? zeros ((k.before first body env n).set k.name (k.item first n)) =
      some (k.hasItem first (h.stopAt bound) n) := by
  have hbound : value? .refused ((k.before first body env n).set k.name (k.item first n)) h.bound =
      some bound := by
    rw [hr.counted.name, hs.setting, hr.bound_before hs]
  rw [Header.test?, value?_of_refused hbound zeros, Option.map_some, ← hr.counted.name,
    Env.set_self, Comparison.holds_eq_isBefore hr.counted.leads]
  rfl

/-- One turn: the body leaves the variable at its item, and the step sets it to the next one. -/
theorem advance?_eq (n : Nat) :
    h.advance? zeros (body ((k.before first body env n).set k.name (k.item first n))) =
      some ((k.before first body env (n + 1)).set k.name (k.item first (n + 1))) := by
  have hkept : body ((k.before first body env n).set k.name (k.item first n)) k.name =
      k.item first n := by
    have hcounter := hs.counter ((k.before first body env n).set k.name (k.item first n))
    rwa [← hr.counted.name, Env.set_self] at hcounter
  rw [Header.advance?, hr.counted.amount?_of_isPlain hr.plain, Option.map_some, ← hr.counted.name,
    hkept, ← k.item_succ first n, Counter.before]

/-- All turns: as long as the range has items, the plain loop tests its condition at them. -/
theorem tested_eq {n : Nat} (hall : ∀ j < n, k.hasItem first (h.stopAt bound) j = true) :
    h.tested zeros body env n =
      some ((k.before first body env n).set k.name (k.item first n)) := by
  induction n with
  | zero =>
    rw [Header.tested, value?_of_refused hr.start zeros, Option.map_some, ← hr.counted.name]
    simp [Counter.before, Counter.item]
  | succ n ih =>
    rw [Header.tested, ih fun j hj => hall j (by omega), Option.bind_some, hr.test?_eq hs,
      hall n (by omega), if_pos rfl, hr.advance?_eq hs]

end Ranges

/-- A loop that has ended does not test again. -/
theorem Header.tested_eq_none {n : Nat} (hend : h.enters zeros body env n = none) {i : Nat}
    (hlt : n < i) : h.tested zeros body env i = none := by
  induction i, hlt using Nat.le_induction with
  | base =>
    rw [Header.tested]
    cases htested : h.tested zeros body env n with
    | none => rfl
    | some e =>
      rw [Header.enters, htested, Option.filter_eq_none_iff] at hend
      have htest := hend e rfl
      rw [decide_eq_true_eq] at htest
      rw [Option.bind_some, if_neg htest]
  | succ i _ ih =>
    rw [Header.tested, ih]
    rfl

namespace Ranges

variable (hr : Ranges h k env first bound) (hs : Steady h body) {turns : Nat}
  (hturns : ∀ n, k.hasItem first (h.stopAt bound) n = true ↔ n < turns)
include hr hs hturns

/-- While there are items, the header tests the variable with the next item. -/
theorem tested_of_le {n : Nat} (hle : n ≤ turns) :
    h.tested zeros body env n =
      some ((k.before first body env n).set k.name (k.item first n)) :=
  hr.tested_eq hs fun j hj => (hturns j).mpr (Nat.lt_of_lt_of_le hj hle)

/-- Up to the last turn both loops run the body in the same environment. -/
theorem enters_of_le {n : Nat} (hle : n ≤ turns) :
    h.enters zeros body env n = k.enters body env n := by
  rw [Header.enters, hr.tested_of_le hs hturns hle, Option.filter_some, hr.test?_eq hs,
    hr.enters_counter]
  cases k.hasItem first (h.stopAt bound) n <;> rfl

/-- After the last turn the header does not run the body again. -/
theorem enters_turns : h.enters zeros body env turns = none := by
  rw [hr.enters_of_le hs hturns (Nat.le_refl turns), hr.enters_counter,
    if_neg fun hitem => Nat.lt_irrefl turns ((hturns turns).mp hitem)]

/-- **The plain loop and the loop over the range run the body in the same environments.** -/
theorem enters_eq (n : Nat) : h.enters zeros body env n = k.enters body env n := by
  by_cases hle : n ≤ turns
  · exact hr.enters_of_le hs hturns hle
  · have hnone : h.tested zeros body env n = none :=
      h.tested_eq_none (hr.enters_turns hs hturns) (Nat.lt_of_not_le hle)
    rw [Header.enters, hnone, hr.enters_counter,
      if_neg fun hitem => hle (Nat.le_of_lt ((hturns n).mp hitem))]
    rfl

/-- **The plain loop ends at the first item that the range does not have.** -/
theorem ends_iff (e : Env) : h.Ends zeros body env e ↔
    e = (k.before first body env turns).set k.name (k.item first turns) := by
  have hlast : k.hasItem first (h.stopAt bound) turns = false :=
    Bool.eq_false_iff.mpr fun hitem => Nat.lt_irrefl turns ((hturns turns).mp hitem)
  constructor
  · rintro ⟨n, htested, htest⟩
    have hle : n ≤ turns := by
      refine Nat.le_of_not_lt fun hlt => ?_
      rw [h.tested_eq_none (hr.enters_turns hs hturns) hlt] at htested
      cases htested
    rw [hr.tested_of_le hs hturns hle] at htested
    cases htested
    rw [hr.test?_eq hs, Option.some.injEq] at htest
    have hge : ¬ n < turns := fun hlt => absurd (((hturns n).mpr hlt).symm.trans htest) (by decide)
    rw [Nat.le_antisymm hle (Nat.le_of_not_lt hge)]
  · rintro rfl
    exact ⟨turns, hr.tested_of_le hs hturns (Nat.le_refl turns), by rw [hr.test?_eq hs, hlast]⟩

/-- After a turn, the loop over the range has left the variable one step before that item. -/
theorem before_name (hpos : 0 < turns) :
    k.before first body env turns k.name + k.amount = k.item first turns := by
  obtain ⟨n, rfl⟩ := Nat.exists_eq_add_of_lt hpos
  rw [Nat.zero_add, k.item_succ first n, Counter.before, hr.counted.name, hs.counter, Env.set_self]

end Ranges

/-- The loop over the range ends after its last item. -/
theorem Ranges.ends_counter_iff (hr : Ranges h k env first bound) {turns : Nat}
    (hturns : ∀ n, k.hasItem first (h.stopAt bound) n = true ↔ n < turns) (body : Env → Env)
    (e : Env) :
    k.Ends body env e ↔ e = k.before first body env turns := by
  constructor
  · rintro ⟨first', stop', hfirst, hstop, n, hall, hend, rfl⟩
    cases hr.value?_start.symm.trans hfirst
    cases hr.value?_stop.symm.trans hstop
    have hle : n ≤ turns :=
      Nat.le_of_not_lt fun hlt => Nat.lt_irrefl turns ((hturns turns).mp (hall turns hlt))
    have hge : ¬ n < turns := fun hlt => absurd (((hturns n).mpr hlt).symm.trans hend) (by decide)
    rw [Nat.le_antisymm hle (Nat.le_of_not_lt hge)]
  · rintro rfl
    exact ⟨first, h.stopAt bound, hr.value?_start, hr.value?_stop, turns,
      fun j hj => (hturns j).mpr hj,
      Bool.eq_false_iff.mpr fun hitem => Nat.lt_irrefl turns ((hturns turns).mp hitem), rfl⟩

end

/-! ## When the loop over the range stands for the plain loop -/

/-- Both loops run the body in the same environments, and leave a variable that was not declared by
the header with the same value. -/
structure SameRun (h : Header) (zeros : Zeros) (k : Counter) (declares : Bool) (body : Env → Env)
    (env : Env) : Prop where
  enters : ∀ n, h.enters zeros body env n = k.enters body env n
  last : declares = false →
    ∀ e e', h.Ends zeros body env e → k.Ends body env e' → e k.name = e' k.name

/-- The variable has the same value afterwards only where neither loop made a turn. -/
theorem Ranges.sameRun_iff {h : Header} {k : Counter} {body : Env → Env} {env : Env}
    {first bound : Int} (hr : Ranges h k env first bound) (hs : Steady h body) {turns : Nat}
    (hturns : ∀ n, k.hasItem first (h.stopAt bound) n = true ↔ n < turns) (zeros : Zeros)
    (declares : Bool) :
    SameRun h zeros k declares body env ↔
      declares = true ∨ turns = 0 ∧ env k.name = first := by
  have hplain : ∀ e, h.Ends zeros body env e ↔ _ := hr.ends_iff hs hturns
  have hrange := hr.ends_counter_iff hturns body
  constructor
  · intro hsame
    cases hdeclares : declares with
    | true => exact Or.inl rfl
    | false =>
      have hlast := hsame.last hdeclares _ _ ((hplain _).mpr rfl) ((hrange _).mpr rfl)
      rw [Env.set_self] at hlast
      rcases Nat.eq_zero_or_pos turns with rfl | hpos
      · refine Or.inr ⟨rfl, ?_⟩
        simpa [Counter.item, Counter.before] using hlast.symm
      · have hstep := hr.before_name hs hturns hpos
        exact absurd hr.amount_ne_zero (by omega)
  · intro hcase
    refine ⟨hr.enters_eq hs hturns, fun hdeclares e e' he he' => ?_⟩
    rcases hcase with htrue | ⟨rfl, hstart⟩
    · exact absurd (hdeclares.symm.trans htrue) (by decide)
    · rw [(hplain e).mp he, (hrange e').mp he', Env.set_self, Counter.before, hstart]
      simp [Counter.item]

end Blockflow.Expression

namespace Blockflow.Indented

open Expression

/-- The header `i = 1; i <= n; i++`. -/
def upTo : Header := ⟨"i", "1", .lessEqual, "n", false, ['1']⟩

/-- Add `i` to the total. -/
def addUp (e : Env) : Env := e.set "total" (e "total" + e "i")

theorem written_upTo : upTo.Written "i = 1" "i <= n" "i++" := by
  refine @Header.written_of_parse upTo _ _ _ none ?_ ?_ ?_ ?_ ?_
  · decide
  · decide
  · decide
  · exact isTail_of_digits (by decide) (by decide)
  · exact isTail_of_isName (by decide)

theorem value?_upTo (env : Env) : value? .refused env upTo.bound = some (env "n") :=
  value?_name .refused env (by decide) (by decide)

theorem isPlain_upTo : upTo.IsPlain := by
  refine ⟨fun env => ?_, fun env => ?_, by decide⟩
  · have hone : value? .refused env "1" = some 1 := value?_intString .refused env 1
    rw [upTo, hone]
    rfl
  · rw [value?_upTo]
    rfl

theorem steady_addUp : Steady upTo addUp where
  counter _ := rfl
  bound e := by rw [value?_upTo, value?_upTo]; rfl
  setting e n := by rw [value?_upTo, value?_upTo]; rfl

/-- The header `i = 0; i < 3; i++`. -/
def belowThree : Header := ⟨"i", "0", .less, "3", false, ['1']⟩

theorem written_belowThree : belowThree.Written "i = 0" "i < 3" "i++" := by
  refine @Header.written_of_parse belowThree _ _ _ none ?_ ?_ ?_ ?_ ?_
  · decide
  · decide
  · decide
  · exact isTail_of_digits (by decide) (by decide)
  · exact isTail_of_digits (by decide) (by decide)

theorem value?_belowThree (env : Env) : value? .refused env belowThree.bound = some 3 :=
  value?_intString .refused env 3

theorem isPlain_belowThree : belowThree.IsPlain := by
  refine ⟨fun env => ?_, fun env => ?_, by decide⟩
  · have hzero : value? .refused env "0" = some 0 := value?_intString .refused env 0
    rw [belowThree, hzero]
    rfl
  · rw [value?_belowThree]
    rfl

end Blockflow.Indented
