import Blockflow.Decimal.Shortest
import Blockflow.Proofs.Decimal.Rounding
import Mathlib.Data.List.TakeWhile
import Mathlib.Tactic.LinearCombination

/-!
# Shortest decimals are nearest to their number

The digits that are searched for a number of the format write a ratio that rounds to that number
(`Binary64.roundsTo_shortest`). One of the two neighbours of the number on the grid of decimals with
seventeen digits is always near enough, so the search finds digits for every number.
-/

namespace Blockflow.Binary64

/-! ## The decimal exponent -/

theorem ten_zpow_decimalExponent_le {num den : Nat} (hnum : 0 < num) (hden : 0 < den) :
    (10 : ℚ) ^ decimalExponent num den ≤ num / den := by
  have hpos : (0 : ℚ) < den := by exact_mod_cast hden
  unfold decimalExponent
  split
  next hle =>
    calc (10 : ℚ) ^ ((digitCount (num / den) : ℤ) - 1) ≤ ((num / den : ℕ) : ℚ) :=
          ten_zpow_digitCount_le (Nat.div_pos hle hden)
      _ ≤ num / den := Nat.cast_div_le
  next hlt =>
    have hdigits : (den - 1) / num < 10 ^ digitCount ((den - 1) / num) := by
      exact_mod_cast lt_ten_zpow_digitCount ((den - 1) / num)
    rw [Nat.div_lt_iff_lt_mul hnum] at hdigits
    have hle : den ≤ 10 ^ digitCount ((den - 1) / num) * num := by omega
    have hle : (den : ℚ) ≤ 10 ^ digitCount ((den - 1) / num) * num := by exact_mod_cast hle
    rw [zpow_neg, zpow_natCast, inv_le_iff_one_le_mul₀ (by positivity), div_mul_eq_mul_div,
      le_div_iff₀ hpos]
    linarith

/-! ## Grids

A grid holds the multiples of a power of ten. The test for a point of a grid multiplies everything
by the powers of ten and of two that stand in denominators. -/

/-- The part of a power that stands in the numerator. -/
def upper (base : Nat) (power : Int) : Nat := if 0 ≤ power then Nat.pow base power.toNat else 1

/-- The part of a power that stands in the denominator. -/
def lower (base : Nat) (power : Int) : Nat := if power < 0 then Nat.pow base (-power).toNat else 1

theorem cast_upper {base : Nat} (hbase : 0 < base) (power : Int) :
    (upper base power : ℚ) = (base : ℚ) ^ power * lower base power := by
  have hne : (base : ℚ) ≠ 0 := by exact_mod_cast hbase.ne'
  unfold upper lower
  by_cases h : 0 ≤ power
  · obtain ⟨k, rfl⟩ := Int.eq_ofNat_of_zero_le h
    simp
  · obtain ⟨k, hk⟩ := Int.eq_ofNat_of_zero_le (show 0 ≤ -power by omega)
    obtain rfl : power = -(k : ℤ) := by omega
    rw [if_neg h, if_pos (by omega)]
    simp [hne]

theorem lower_pos {base : Nat} (hbase : 0 < base) (power : Int) : 0 < lower base power := by
  unfold lower
  split
  · exact Nat.pow_pos hbase
  · exact Nat.one_pos

/-- The distance of two points of a grid. -/
def stepOf (exponent grid : Int) : Nat :=
  upper 10 grid * (if exponent - 2 < 0 then Nat.pow 2 (2 - exponent).toNat else 1)

/-- A quarter of a unit of the mantissa. -/
def quarterOf (exponent grid : Int) : Nat := upper 2 (exponent - 2) * lower 10 grid

/-- The factor by which the test multiplies. -/
def factorOf (exponent grid : Int) : ℚ := (lower 10 grid * lower 2 (exponent - 2) : ℕ)

theorem factorOf_pos (exponent grid : Int) : 0 < factorOf exponent grid := by
  have := Nat.mul_pos (lower_pos (show 0 < 10 by decide) grid)
    (lower_pos (show 0 < 2 by decide) (exponent - 2))
  unfold factorOf
  exact_mod_cast this

theorem cast_stepOf (exponent grid : Int) :
    (stepOf exponent grid : ℚ) = 10 ^ grid * factorOf exponent grid := by
  have hstep : stepOf exponent grid = upper 10 grid * lower 2 (exponent - 2) := by
    rw [stepOf, lower, neg_sub]
  rw [hstep, Nat.cast_mul, cast_upper (by decide), factorOf]
  push_cast
  ring

theorem stepOf_pos (exponent grid : Int) : 0 < stepOf exponent grid := by
  have h : (0 : ℚ) < stepOf exponent grid := by
    rw [cast_stepOf]
    exact mul_pos (zpow_pos (by norm_num) grid) (factorOf_pos exponent grid)
  exact_mod_cast h

theorem cast_quarterOf (exponent grid : Int) :
    4 * (quarterOf exponent grid : ℚ) = 2 ^ exponent * factorOf exponent grid := by
  have hpower : (2 : ℚ) ^ exponent = 4 * 2 ^ (exponent - 2) := by
    rw [show exponent = 2 + (exponent - 2) by ring, zpow_two_add,
      show 2 + (exponent - 2) - 2 = exponent - 2 by ring]
    norm_num
  rw [quarterOf, Nat.cast_mul, cast_upper (by decide), factorOf, hpower]
  push_cast
  ring

theorem cast_value (mantissa : Nat) (exponent grid : Int) :
    ((4 * mantissa * quarterOf exponent grid : ℕ) : ℚ) =
      mantissa * 2 ^ exponent * factorOf exponent grid := by
  push_cast
  linear_combination (mantissa : ℚ) * cast_quarterOf exponent grid

theorem cast_point (n : Nat) (exponent grid : Int) :
    ((n * stepOf exponent grid : ℕ) : ℚ) = n * 10 ^ grid * factorOf exponent grid := by
  rw [Nat.cast_mul, cast_stepOf, mul_assoc]

/-- Does a point of a grid read back as the number? -/
def isInside (mantissa : Nat) (exponent grid : Int) (n : Nat) : Bool :=
  let quarter := quarterOf exponent grid
  let value := 4 * mantissa * quarter
  let below := if mantissa = leastFull && -1074 < exponent then quarter else 2 * quarter
  let low := value - below
  let high := value + 2 * quarter
  if mantissa % 2 = 0 then low ≤ n * stepOf exponent grid && n * stepOf exponent grid ≤ high
  else low < n * stepOf exponent grid && n * stepOf exponent grid < high

/-- The point of a grid that is next to the number from below. -/
def floorOf (mantissa : Nat) (exponent grid : Int) : Nat :=
  4 * mantissa * quarterOf exponent grid / stepOf exponent grid

theorem readsBack?_eq (mantissa : Nat) (exponent point : Int) (count : Nat) :
    readsBack? mantissa exponent point count =
      let grid := point - count + 1
      let floor := floorOf mantissa exponent grid
      let value := 4 * mantissa * quarterOf exponent grid
      let left := value - floor * stepOf exponent grid
      let right := (floor + 1) * stepOf exponent grid - value
      match isInside mantissa exponent grid floor, isInside mantissa exponent grid (floor + 1) with
      | true, true =>
        if left < right || (left == right && floor % 2 == 0) then some floor else some (floor + 1)
      | true, false => some floor
      | false, true => some (floor + 1)
      | false, false => none :=
  rfl

section

variable {mantissa : Nat} {exponent : Int}

/-- The test finds the points that round to the number. -/
theorem isInside_iff (hmantissa : 0 < mantissa) {grid : Int} {n : Nat} :
    isInside mantissa exponent grid n = true ↔
      RoundsTo ((n : ℚ) * 10 ^ grid) mantissa exponent := by
  have hfactor := factorOf_pos exponent grid
  have hquarter := cast_quarterOf exponent grid
  set value := 4 * mantissa * quarterOf exponent grid with hvalue
  set distance := if mantissa = leastFull && -1074 < exponent then quarterOf exponent grid
    else 2 * quarterOf exponent grid with hdistance
  have hpoint := cast_point n exponent grid
  have hbelow :
      (distance : ℚ) = below mantissa exponent * 2 ^ exponent * factorOf exponent grid := by
    rw [hdistance, below]
    simp only [Bool.and_eq_true, decide_eq_true_eq]
    split
    · linarith
    · push_cast
      linarith
  have hle : distance ≤ value := by
    rw [hvalue, hdistance]
    split <;> nlinarith
  have hlow : ((value - distance : ℕ) : ℚ) =
      (mantissa - below mantissa exponent) * 2 ^ exponent * factorOf exponent grid := by
    rw [Nat.cast_sub hle, hbelow, hvalue, cast_value]
    ring
  have hhigh : ((value + 2 * quarterOf exponent grid : ℕ) : ℚ) =
      (mantissa + 1 / 2) * 2 ^ exponent * factorOf exponent grid := by
    rw [Nat.cast_add, hvalue, cast_value]
    push_cast
    linarith
  -- each comparison of the test is one of the two ratios, multiplied by the factor
  have hlow_le : value - distance ≤ n * stepOf exponent grid ↔
      (mantissa - below mantissa exponent) * 2 ^ exponent ≤ (n : ℚ) * 10 ^ grid := by
    rw [← Nat.cast_le (α := ℚ), hlow, hpoint, mul_le_mul_iff_left₀ hfactor]
  have hlow_lt : value - distance < n * stepOf exponent grid ↔
      (mantissa - below mantissa exponent) * 2 ^ exponent < (n : ℚ) * 10 ^ grid := by
    rw [← Nat.cast_lt (α := ℚ), hlow, hpoint, mul_lt_mul_iff_left₀ hfactor]
  have hhigh_le : n * stepOf exponent grid ≤ value + 2 * quarterOf exponent grid ↔
      (n : ℚ) * 10 ^ grid ≤ (mantissa + 1 / 2) * 2 ^ exponent := by
    rw [← Nat.cast_le (α := ℚ), hhigh, hpoint, mul_le_mul_iff_left₀ hfactor]
  have hhigh_lt : n * stepOf exponent grid < value + 2 * quarterOf exponent grid ↔
      (n : ℚ) * 10 ^ grid < (mantissa + 1 / 2) * 2 ^ exponent := by
    rw [← Nat.cast_lt (α := ℚ), hhigh, hpoint, mul_lt_mul_iff_left₀ hfactor]
  unfold isInside
  simp only [← hvalue, ← hdistance]
  split
  next heven =>
    rw [Bool.and_eq_true, decide_eq_true_eq, decide_eq_true_eq, hlow_le, hhigh_le]
    exact ⟨fun h => ⟨h.1, h.2, fun hodd => by omega⟩, fun h => ⟨h.low, h.high⟩⟩
  next hodd =>
    rw [Bool.and_eq_true, decide_eq_true_eq, decide_eq_true_eq, hlow_lt, hhigh_lt]
    exact ⟨fun h => ⟨h.1.le, h.2.le, fun _ => h⟩, fun h => h.odd (by omega)⟩

/-- What a grid gives rounds to the number. -/
theorem roundsTo_of_readsBack? (hmantissa : 0 < mantissa) {point : Int} {count n : Nat}
    (h : readsBack? mantissa exponent point count = some n) :
    RoundsTo ((n : ℚ) * 10 ^ (point - count + 1)) mantissa exponent := by
  rw [readsBack?_eq] at h
  simp only at h
  rw [← isInside_iff hmantissa]
  split at h
  next hfloor hnext =>
    split at h <;> cases h
    · exact hfloor
    · exact hnext
  next hfloor _ =>
    cases h
    exact hfloor
  next _ hnext =>
    cases h
    exact hnext
  next => cases h

/-- A grid whose points are nearer to each other than the midpoints around the number has a point
between them. -/
theorem isInside_of_lt (hmantissa : 0 < mantissa) {grid : Int}
    (hgrid : (10 : ℚ) ^ grid < (below mantissa exponent + 1 / 2) * 2 ^ exponent) :
    isInside mantissa exponent grid (floorOf mantissa exponent grid) = true ∨
      isInside mantissa exponent grid (floorOf mantissa exponent grid + 1) = true := by
  have hfactor := factorOf_pos exponent grid
  have hvalue := cast_value mantissa exponent grid
  set floor := floorOf mantissa exponent grid with hfloor
  have hleft : (floor : ℚ) * 10 ^ grid ≤ mantissa * 2 ^ exponent := by
    have h : floor * stepOf exponent grid ≤ 4 * mantissa * quarterOf exponent grid :=
      Nat.div_mul_le_self _ _
    rw [← Nat.cast_le (α := ℚ), hvalue, cast_point, mul_le_mul_iff_left₀ hfactor] at h
    exact h
  have hright : (mantissa : ℚ) * 2 ^ exponent < (floor + 1) * 10 ^ grid := by
    have h : 4 * mantissa * quarterOf exponent grid < (floor + 1) * stepOf exponent grid := by
      rw [hfloor, floorOf, add_mul, one_mul]
      exact Nat.lt_div_mul_add (stepOf_pos exponent grid)
    rw [← Nat.cast_lt (α := ℚ), hvalue, cast_point, mul_lt_mul_iff_left₀ hfactor] at h
    exact_mod_cast h
  have hpower := two_zpow_pos exponent
  have hbelow := mul_pos (below_pos mantissa exponent) hpower
  rw [isInside_iff hmantissa, isInside_iff hmantissa]
  -- one of the two neighbours is on the near side of its midpoint
  by_cases hnear : (mantissa - below mantissa exponent) * 2 ^ exponent < (floor : ℚ) * 10 ^ grid
  · have hhigh : (floor : ℚ) * 10 ^ grid < (mantissa + 1 / 2) * 2 ^ exponent := by linarith
    exact .inl ⟨hnear.le, hhigh.le, fun _ => ⟨hnear, hhigh⟩⟩
  · have hlow : (mantissa - below mantissa exponent) * 2 ^ exponent <
        ((floor + 1 : ℕ) : ℚ) * 10 ^ grid := by
      push_cast
      linarith
    have hhigh : ((floor + 1 : ℕ) : ℚ) * 10 ^ grid < (mantissa + 1 / 2) * 2 ^ exponent := by
      push_cast
      linarith
    exact .inr ⟨hlow.le, hhigh.le, fun _ => ⟨hlow, hhigh⟩⟩

/-- **Seventeen digits are enough.** -/
theorem readsBack?_seventeen (hfits : Fits mantissa exponent) (hmantissa : 0 < mantissa)
    {point : Int} (hpoint : (10 : ℚ) ^ point ≤ mantissa * 2 ^ exponent) :
    ∃ n, readsBack? mantissa exponent point 17 = some n := by
  have hpower := two_zpow_pos exponent
  have hgrid : (10 : ℚ) ^ (point - (17 : ℕ) + 1) <
      (below mantissa exponent + 1 / 2) * 2 ^ exponent := by
    have hsplit : (10 : ℚ) ^ (point - (17 : ℕ) + 1) = 10 ^ point * 10 ^ (-16 : ℤ) := by
      rw [← zpow_add₀ (by norm_num)]
      congr 1
      push_cast
      ring
    -- a mantissa has less than 10^16 units, and at a power of two not even half of them
    have hunits : (mantissa : ℚ) * 10 ^ (-16 : ℤ) < below mantissa exponent + 1 / 2 := by
      unfold below
      split
      next h =>
        rw [h.1]
        norm_num [leastFull]
      next =>
        have hshort : (mantissa : ℚ) < (2 * leastFull : ℕ) := by exact_mod_cast hfits.short
        have hfull : ((2 * leastFull : ℕ) : ℚ) < 10 ^ (16 : ℤ) := by norm_num [leastFull]
        rw [zpow_neg, ← div_eq_mul_inv, div_lt_iff₀ (by positivity)]
        linarith
    calc (10 : ℚ) ^ (point - (17 : ℕ) + 1) = 10 ^ point * 10 ^ (-16 : ℤ) := hsplit
      _ ≤ mantissa * 2 ^ exponent * 10 ^ (-16 : ℤ) :=
          mul_le_mul_of_nonneg_right hpoint (by positivity)
      _ = mantissa * 10 ^ (-16 : ℤ) * 2 ^ exponent := by ring
      _ < (below mantissa exponent + 1 / 2) * 2 ^ exponent :=
          mul_lt_mul_of_pos_right hunits hpower
  have hinside := isInside_of_lt hmantissa hgrid
  rw [readsBack?_eq]
  simp only
  split
  · split <;> exact ⟨_, rfl⟩
  · exact ⟨_, rfl⟩
  · exact ⟨_, rfl⟩
  next hfloor hnext =>
    rcases hinside with h | h
    · cases hfloor.symm.trans h
    · cases hnext.symm.trans h

end

/-! ## The digits -/

/-- The ratio that digits write, if the first of them has the given decimal exponent. -/
def decimalValue (digits : List Char) (point : Int) : ℚ :=
  Nat.ofDigitChars 10 digits 0 * 10 ^ (point + 1 - digits.length)

/-- Zeros are dropped at the end of the digits only. -/
theorem exists_dropZeros {digits : List Char} (h : ∃ c ∈ digits, c ≠ '0') :
    ∃ count, digits = dropZeros digits ++ List.replicate count '0' := by
  have hzeros : ∀ c ∈ digits.reverse.takeWhile (· == '0'), c = '0' := by
    intro c hc
    simpa using List.mem_takeWhile_imp hc
  have hsplit : digits.reverse.takeWhile (· == '0') ++ digits.reverse.dropWhile (· == '0') =
      digits.reverse := List.takeWhile_append_dropWhile
  have hrest : digits.reverse.dropWhile (· == '0') ≠ [] := by
    intro hnil
    obtain ⟨c, hc, hne⟩ := h
    rw [hnil, List.append_nil] at hsplit
    exact hne (hzeros c (by rw [hsplit]; exact List.mem_reverse.mpr hc))
  have hkept : dropZeros digits = (digits.reverse.dropWhile (· == '0')).reverse := by
    unfold dropZeros
    split
    next hnil => exact absurd (List.reverse_eq_nil_iff.mp hnil) hrest
    next => rfl
  refine ⟨(digits.reverse.takeWhile (· == '0')).length, ?_⟩
  calc digits
    _ = (digits.reverse.takeWhile (· == '0') ++ digits.reverse.dropWhile (· == '0')).reverse := by
        rw [hsplit, List.reverse_reverse]
    _ = dropZeros digits ++ (digits.reverse.takeWhile (· == '0')).reverse := by
        rw [List.reverse_append, hkept]
    _ = dropZeros digits ++ List.replicate (digits.reverse.takeWhile (· == '0')).length '0' := by
        rw [List.eq_replicate_iff.mpr
          ⟨List.length_reverse, fun c hc => hzeros c (List.mem_reverse.mp hc)⟩]

theorem decimalValue_dropZeros {digits : List Char} (h : ∃ c ∈ digits, c ≠ '0') (point : Int) :
    decimalValue (dropZeros digits) point = decimalValue digits point := by
  obtain ⟨count, hdigits⟩ := exists_dropZeros h
  have hvalue : Nat.ofDigitChars 10 digits 0 =
      10 ^ count * Nat.ofDigitChars 10 (dropZeros digits) 0 := by
    conv_lhs => rw [hdigits, Nat.ofDigitChars_append, Nat.ofDigitChars_replicate_zero]
  have hlength : (digits.length : ℤ) = (dropZeros digits).length + count := by
    conv_lhs => rw [hdigits, List.length_append, List.length_replicate]
    push_cast
    rfl
  rw [decimalValue, decimalValue, hvalue, hlength,
    show point + 1 - ((dropZeros digits).length : ℤ) =
      count + (point + 1 - ((dropZeros digits).length + count)) by ring,
    zpow_add₀ (by norm_num), zpow_natCast]
  push_cast
  ring

/-- Digits of which the first one is not zero. -/
def IsSignificant (digits : List Char) : Prop :=
  (∀ c ∈ digits, c.isDigit = true) ∧ ∃ first rest, digits = first :: rest ∧ first ≠ '0'

theorem exists_lead_toDigits {n : Nat} (hn : 0 < n) :
    ∃ first rest, Nat.toDigits 10 n = first :: rest ∧ first ≠ '0' := by
  induction n using Nat.strongRecOn with
  | _ n ih =>
    rw [Nat.toDigits_eq_if (by decide)]
    split
    next hlt =>
      have hdigit : ∀ d < 10, 0 < d → d.digitChar ≠ '0' := by decide
      exact ⟨n.digitChar, [], rfl, hdigit n hlt hn⟩
    next hge =>
      obtain ⟨first, rest, hdigits, hfirst⟩ := ih (n / 10) (by omega) (by omega)
      exact ⟨first, rest ++ [(n % 10).digitChar], by rw [hdigits, List.cons_append], hfirst⟩

theorem isSignificant_toDigits {n : Nat} (hn : 0 < n) : IsSignificant (Nat.toDigits 10 n) :=
  ⟨fun _ hc => Nat.isDigit_of_mem_toDigits (by decide) (by decide) hc, exists_lead_toDigits hn⟩

theorem IsSignificant.exists_ne {digits : List Char} (h : IsSignificant digits) :
    ∃ c ∈ digits, c ≠ '0' := by
  obtain ⟨-, first, rest, rfl, hfirst⟩ := h
  exact ⟨first, List.mem_cons_self, hfirst⟩

theorem IsSignificant.dropZeros {digits : List Char} (h : IsSignificant digits) :
    IsSignificant (dropZeros digits) := by
  obtain ⟨count, hdigits⟩ := exists_dropZeros h.exists_ne
  obtain ⟨hdigit, first, rest, hlead, hfirst⟩ := h
  refine ⟨fun c hc => hdigit c (hdigits ▸ List.mem_append_left _ hc), ?_⟩
  generalize Binary64.dropZeros digits = kept at hdigits
  cases kept with
  | nil =>
    -- the first digit would be among the zeros
    rw [hlead, List.nil_append] at hdigits
    have := List.eq_of_mem_replicate
      (hdigits ▸ List.mem_cons_self : first ∈ List.replicate count '0')
    exact absurd this hfirst
  | cons c rest' =>
    rw [hlead, List.cons_append, List.cons.injEq] at hdigits
    exact ⟨c, rest', rfl, hdigits.1 ▸ hfirst⟩

/-- The search finds digits. -/
theorem exists_shortest {mantissa : Nat} {exponent : Int} (hfits : Fits mantissa exponent)
    (hmantissa : 0 < mantissa) :
    ∃ (n : Nat) (point : Int) (count : Nat),
      RoundsTo ((n : ℚ) * 10 ^ (point - count + 1)) mantissa exponent ∧
      shortest mantissa exponent =
        (dropZeros (Nat.toDigits 10 n), point + (Nat.toDigits 10 n).length - count) := by
  generalize hratio : scaled mantissa 1 (-exponent) = ratio
  generalize hpoint : decimalExponent ratio.1 ratio.2 = point
  have hle : (10 : ℚ) ^ point ≤ mantissa * 2 ^ exponent := by
    have hvalue := scaled_div mantissa Nat.one_pos (-exponent)
    have hden := scaled_pos mantissa Nat.one_pos (-exponent)
    rw [hratio] at hvalue hden
    have hnum : 0 < ratio.1 := by
      rw [← hratio, scaled]
      split
      · exact hmantissa
      · exact Nat.mul_pos hmantissa (Nat.pow_pos (by decide))
    calc (10 : ℚ) ^ point ≤ ratio.1 / ratio.2 := hpoint ▸ ten_zpow_decimalExponent_le hnum hden
      _ = mantissa * 2 ^ exponent := by
          rw [hvalue, Nat.cast_one, div_one, zpow_neg, div_inv_eq_mul]
  unfold shortest
  rw [if_neg hmantissa.ne']
  simp only [hratio, hpoint]
  split
  next n count hfound =>
    obtain ⟨i, -, hi⟩ := List.exists_of_findSome?_eq_some hfound
    obtain ⟨m, hm, heq⟩ := Option.map_eq_some_iff.mp hi
    obtain ⟨rfl, rfl⟩ := Prod.mk.inj heq
    exact ⟨m, point, i + 1, roundsTo_of_readsBack? hmantissa hm, rfl⟩
  next hnone =>
    obtain ⟨n, hn⟩ := readsBack?_seventeen hfits hmantissa hle
    have := List.findSome?_eq_none_iff.mp hnone 16 (by decide)
    rw [hn] at this
    cases this

theorem RoundsTo.pos {q : ℚ} {mantissa : Nat} {exponent : Int} (h : RoundsTo q mantissa exponent)
    (hmantissa : 0 < mantissa) : 0 < q := by
  have hone : (1 : ℚ) ≤ mantissa := by exact_mod_cast hmantissa
  refine lt_of_lt_of_le (mul_pos ?_ (two_zpow_pos exponent)) h.low
  linarith [below_le mantissa exponent]

/-- **The digits that are searched for a number write a ratio that rounds to it**, and the first of
them is not zero. -/
theorem roundsTo_shortest {mantissa : Nat} {exponent : Int} (hfits : Fits mantissa exponent)
    (hmantissa : 0 < mantissa) :
    IsSignificant (shortest mantissa exponent).1 ∧
      RoundsTo (decimalValue (shortest mantissa exponent).1 (shortest mantissa exponent).2)
        mantissa exponent := by
  obtain ⟨n, point, count, hrounds, hshortest⟩ := exists_shortest hfits hmantissa
  have hn : 0 < n := by
    refine Nat.pos_of_ne_zero fun hzero => ?_
    have := hrounds.pos hmantissa
    simp [hzero] at this
  have hsignificant := isSignificant_toDigits hn
  have hvalue : decimalValue (Nat.toDigits 10 n) (point + (Nat.toDigits 10 n).length - count) =
      n * 10 ^ (point - count + 1) := by
    rw [decimalValue, Nat.ofDigitChars_ten_toDigits]
    congr 2
    ring
  rw [hshortest]
  refine ⟨hsignificant.dropZeros, ?_⟩
  rw [decimalValue_dropZeros hsignificant.exists_ne, hvalue]
  exact hrounds

end Blockflow.Binary64
