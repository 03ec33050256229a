import Blockflow.Decimal.Binary
import Mathlib.Algebra.Order.Field.Power
import Mathlib.Algebra.Order.Field.Rat
import Mathlib.Data.Nat.Cast.Order.Field
import Mathlib.Tactic.FieldSimp
import Mathlib.Tactic.Linarith
import Mathlib.Tactic.NormNum
import Mathlib.Tactic.Positivity
import Mathlib.Tactic.Ring

/-!
# Rounding to binary numbers

A number of the format stands for all ratios that are nearer to it than to any other number of the
format (`Binary64.RoundsTo`). Every such ratio is rounded to it, whichever numerator and denominator
the ratio is given with (`Binary64.ofRatio_eq`), and so is every decimal (`Binary64.ofDecimal_eq`).
What comes out of rounding is a number of the format (`Binary64.isProper_ofDecimal`).
-/

namespace Blockflow.Binary64

/-! ## Numbers of the format -/

/-- The mantissa and the power of two are those of a number of the format. -/
structure Fits (mantissa : Nat) (exponent : Int) : Prop where
  short : mantissa < 2 * leastFull
  least : -1074 ≤ exponent
  greatest : exponent ≤ 971
  /-- the exponent is as small as the mantissa allows -/
  full : leastFull ≤ mantissa ∨ exponent = -1074

/-- Is a finite number one of the format? -/
def IsProper : Binary64 → Prop
  | .finite _ mantissa exponent => Fits mantissa exponent
  | .infinite _ | .undefined => True

/-- How far below a number, in units of its mantissa, the midpoint to its lower neighbour lies. The
lower neighbour of a power of two is half as far as the upper one. -/
def below (mantissa : Nat) (exponent : Int) : ℚ :=
  if mantissa = leastFull ∧ -1074 < exponent then 1 / 4 else 1 / 2

/-- The ratio lies between the midpoints to the two neighbours of a number. The midpoints themselves
go to the number whose mantissa is even. -/
structure RoundsTo (q : ℚ) (mantissa : Nat) (exponent : Int) : Prop where
  low : (mantissa - below mantissa exponent) * 2 ^ exponent ≤ q
  high : q ≤ (mantissa + 1 / 2) * 2 ^ exponent
  odd : mantissa % 2 = 1 →
    (mantissa - below mantissa exponent) * 2 ^ exponent < q ∧ q < (mantissa + 1 / 2) * 2 ^ exponent

theorem cast_leastFull : (leastFull : ℚ) = 2 ^ (52 : ℤ) := by
  norm_num [leastFull]

theorem two_zpow_pos (e : ℤ) : (0 : ℚ) < 2 ^ e := zpow_pos (by norm_num) e

theorem zpow_two_add (a b : ℤ) : (2 : ℚ) ^ (a + b) = 2 ^ a * 2 ^ b := zpow_add₀ (by norm_num) a b

theorem below_pos (mantissa : Nat) (exponent : Int) : 0 < below mantissa exponent := by
  unfold below
  split <;> norm_num

theorem below_le (mantissa : Nat) (exponent : Int) : below mantissa exponent ≤ 1 / 2 := by
  unfold below
  split <;> norm_num

/-! ## Quotients -/

/-- The nearest natural number is the one within a half, and in the middle the even one. -/
theorem roundDiv_eq {num den k : Nat} (hden : 0 < den) (hlow : 2 * (k * den) ≤ 2 * num + den)
    (hhigh : 2 * num ≤ 2 * (k * den) + den)
    (hodd : k % 2 = 1 → 2 * (k * den) < 2 * num + den ∧ 2 * num < 2 * (k * den) + den) :
    roundDiv num den = k := by
  have hdiv : num / den * den + num % den = num := Nat.div_add_mod' num den
  have hmod : num % den < den := Nat.mod_lt num hden
  have hge : num / den ≤ k := by
    by_contra hlt
    have := Nat.mul_le_mul_right den (show k + 1 ≤ num / den by omega)
    rw [Nat.add_mul] at this
    omega
  have hle : k ≤ num / den + 1 := by
    by_contra hlt
    have := Nat.mul_le_mul_right den (show num / den + 2 ≤ k by omega)
    rw [Nat.add_mul] at this
    omega
  -- the remainder decides between the quotient and its successor
  rcases Nat.eq_or_lt_of_le hge with rfl | hlt
  · unfold roundDiv
    simp only [Bool.or_eq_true, decide_eq_true_eq, Bool.and_eq_true, beq_iff_eq]
    rw [if_pos (by omega)]
  · obtain rfl : k = num / den + 1 := by omega
    rw [Nat.add_mul] at hlow hhigh hodd
    unfold roundDiv
    simp only [Bool.or_eq_true, decide_eq_true_eq, Bool.and_eq_true, beq_iff_eq]
    rw [if_neg (by omega)]

theorem roundDiv_of_near {num den k : Nat} (hden : 0 < den) (hlow : (k : ℚ) - 1 / 2 ≤ num / den)
    (hhigh : (num : ℚ) / den ≤ k + 1 / 2)
    (hodd : k % 2 = 1 → (k : ℚ) - 1 / 2 < num / den ∧ (num : ℚ) / den < k + 1 / 2) :
    roundDiv num den = k := by
  have hpos : (0 : ℚ) < den := by exact_mod_cast hden
  refine roundDiv_eq hden ?_ ?_ fun hk => ⟨?_, ?_⟩
  · rw [le_div_iff₀ hpos] at hlow
    have : (2 * (k * den) : ℚ) ≤ 2 * num + den := by linarith
    exact_mod_cast this
  · rw [div_le_iff₀ hpos] at hhigh
    have : (2 * num : ℚ) ≤ 2 * (k * den) + den := by linarith
    exact_mod_cast this
  · have hlt := (hodd hk).1
    rw [lt_div_iff₀ hpos] at hlt
    have : (2 * (k * den) : ℚ) < 2 * num + den := by linarith
    exact_mod_cast this
  · have hlt := (hodd hk).2
    rw [div_lt_iff₀ hpos] at hlt
    have : (2 * num : ℚ) < 2 * (k * den) + den := by linarith
    exact_mod_cast this

theorem div_le_roundDiv (num den : Nat) : num / den ≤ roundDiv num den := by
  unfold roundDiv
  simp only
  split <;> omega

theorem roundDiv_le_succ (num den : Nat) : roundDiv num den ≤ num / den + 1 := by
  unfold roundDiv
  simp only
  split <;> omega

theorem scaled_pos (num : Nat) {den : Nat} (hden : 0 < den) (power : Int) :
    0 < (scaled num den power).2 := by
  unfold scaled
  split
  · exact Nat.mul_pos hden (Nat.pow_pos (by decide))
  · exact hden

theorem scaled_div (num : Nat) {den : Nat} (hden : 0 < den) (power : Int) :
    ((scaled num den power).1 : ℚ) / (scaled num den power).2 = num / den / 2 ^ power := by
  have hpos : (0 : ℚ) < den := by exact_mod_cast hden
  unfold scaled
  split
  next h =>
    obtain ⟨k, rfl⟩ := Int.eq_ofNat_of_zero_le h
    simp [div_div]
  next h =>
    obtain ⟨k, hk⟩ := Int.eq_ofNat_of_zero_le (show 0 ≤ -power by omega)
    obtain rfl : power = -(k : ℤ) := by omega
    simp [zpow_neg]
    ring

/-! ## The power of a ratio -/

/-- The power of two with which the mantissa of a ratio has full length. -/
def fullPower (num den : Nat) : Int :=
  let magnitude : Int := (num.log2 : Int) - (den.log2 : Int)
  let high := scaled num den (magnitude - 52)
  if high.1 / high.2 < leastFull then magnitude - 53 else magnitude - 52

/-- The mantissa of a ratio, rounded. -/
def mantissaAt (num den : Nat) (power : Int) : Nat :=
  roundDiv (scaled num den power).1 (scaled num den power).2

theorem ofRatio_of_ne_zero (negative : Bool) {num : Nat} (hnum : num ≠ 0) (den : Nat) :
    ofRatio negative num den =
      let power := max (fullPower num den) (-1074)
      if mantissaAt num den power = 2 * leastFull then pack negative leastFull (power + 1)
      else pack negative (mantissaAt num den power) power := by
  unfold ofRatio
  rw [if_neg hnum]
  rfl

theorem two_pow_log2_le {n : Nat} (h : 0 < n) : (2 : ℚ) ^ (n.log2 : ℤ) ≤ n := by
  have := Nat.log2_self_le (n := n) (by omega)
  rw [zpow_natCast]
  exact_mod_cast this

theorem lt_two_pow_log2 (n : Nat) : (n : ℚ) < 2 ^ ((n.log2 : ℤ) + 1) := by
  have h : n < 2 ^ (n.log2 + 1) := Nat.lt_log2_self
  have hcast : ((n.log2 : ℤ) + 1) = ((n.log2 + 1 : ℕ) : ℤ) := by push_cast; rfl
  rw [hcast, zpow_natCast]
  exact_mod_cast h

theorem floor_lt_iff {a b c : Nat} (hb : 0 < b) : a / b < c ↔ (a : ℚ) / b < c := by
  have hpos : (0 : ℚ) < b := by exact_mod_cast hb
  rw [Nat.div_lt_iff_lt_mul hb, div_lt_iff₀ hpos]
  exact_mod_cast Iff.rfl

section

variable {num den : Nat} (hnum : 0 < num) (hden : 0 < den)

include hnum hden

theorem fullPower_spec :
    (2 : ℚ) ^ (fullPower num den + 52) ≤ num / den ∧
      (num : ℚ) / den < 2 ^ (fullPower num den + 53) := by
  have hpos : (0 : ℚ) < den := by exact_mod_cast hden
  set magnitude : ℤ := (num.log2 : ℤ) - (den.log2 : ℤ) with hm
  -- the logarithms give the magnitude of the ratio up to a factor of two on each side
  have hlow : (2 : ℚ) ^ (magnitude - 1) ≤ num / den := by
    rw [le_div_iff₀ hpos]
    calc (2 : ℚ) ^ (magnitude - 1) * den
        ≤ 2 ^ (magnitude - 1) * 2 ^ ((den.log2 : ℤ) + 1) :=
          mul_le_mul_of_nonneg_left (lt_two_pow_log2 den).le (two_zpow_pos _).le
      _ = 2 ^ (num.log2 : ℤ) := by rw [← zpow_two_add, hm]; congr 1; ring
      _ ≤ num := two_pow_log2_le hnum
  have hhigh : (num : ℚ) / den < 2 ^ (magnitude + 1) := by
    rw [div_lt_iff₀ hpos]
    calc (num : ℚ) < 2 ^ ((num.log2 : ℤ) + 1) := lt_two_pow_log2 num
      _ = 2 ^ (magnitude + 1) * 2 ^ (den.log2 : ℤ) := by
          rw [← zpow_two_add, hm]; congr 1; ring
      _ ≤ 2 ^ (magnitude + 1) * den :=
          mul_le_mul_of_nonneg_left (two_pow_log2_le hden) (two_zpow_pos _).le
  have htest :
      (scaled num den (magnitude - 52)).1 / (scaled num den (magnitude - 52)).2 < leastFull ↔
      (num : ℚ) / den < 2 ^ magnitude := by
    rw [floor_lt_iff (scaled_pos num hden _), scaled_div num hden, cast_leastFull,
      div_lt_iff₀ (two_zpow_pos _), ← zpow_two_add]
    rw [show (52 : ℤ) + (magnitude - 52) = magnitude by ring]
  unfold fullPower
  simp only [← hm]
  split
  next h =>
    rw [show magnitude - 53 + 52 = magnitude - 1 by ring,
      show magnitude - 53 + 53 = magnitude by ring]
    exact ⟨hlow, htest.mp h⟩
  next h =>
    rw [show magnitude - 52 + 52 = magnitude by ring,
      show magnitude - 52 + 53 = magnitude + 1 by ring]
    exact ⟨not_lt.mp fun hlt => h (htest.mpr hlt), hhigh⟩

/-- There is one power only. -/
theorem fullPower_eq {e : Int} (hlow : (2 : ℚ) ^ (e + 52) ≤ num / den)
    (hhigh : (num : ℚ) / den < 2 ^ (e + 53)) : fullPower num den = e := by
  obtain ⟨hlow', hhigh'⟩ := fullPower_spec hnum hden
  have h₁ := (zpow_lt_zpow_iff_right₀ (by norm_num : (1 : ℚ) < 2)).mp (hlow.trans_lt hhigh')
  have h₂ := (zpow_lt_zpow_iff_right₀ (by norm_num : (1 : ℚ) < 2)).mp (hlow'.trans_lt hhigh)
  omega

end

/-! ## Rounding a ratio -/

/-- A mantissa is the one of a ratio if it is nearest to it. -/
theorem mantissaAt_eq {num den k : Nat} {power : Int} (hden : 0 < den)
    (hlow : ((k : ℚ) - 1 / 2) * 2 ^ power ≤ num / den)
    (hhigh : (num : ℚ) / den ≤ (k + 1 / 2) * 2 ^ power)
    (hodd : k % 2 = 1 → ((k : ℚ) - 1 / 2) * 2 ^ power < num / den ∧
      (num : ℚ) / den < (k + 1 / 2) * 2 ^ power) : mantissaAt num den power = k := by
  have hpower := two_zpow_pos power
  refine roundDiv_of_near (scaled_pos num hden power) ?_ ?_ fun hk => ⟨?_, ?_⟩ <;>
    rw [scaled_div num hden]
  · exact (le_div_iff₀ hpower).mpr hlow
  · exact (div_le_iff₀ hpower).mpr hhigh
  · exact (lt_div_iff₀ hpower).mpr (hodd hk).1
  · exact (div_lt_iff₀ hpower).mpr (hodd hk).2

theorem Fits.lt_of_roundsTo {q : ℚ} {m : Nat} {e : Int} (hfits : Fits m e) (h : RoundsTo q m e) :
    q < 2 ^ (e + 53) := by
  have hm : (m : ℚ) + 1 ≤ 2 * leastFull := by exact_mod_cast hfits.short
  rw [cast_leastFull] at hm
  have hpower := two_zpow_pos e
  calc q ≤ (m + 1 / 2) * 2 ^ e := h.high
    _ < 2 ^ (53 : ℤ) * 2 ^ e := by
        refine mul_lt_mul_of_pos_right ?_ hpower
        norm_num at hm ⊢
        linarith
    _ = 2 ^ (e + 53) := by rw [add_comm, zpow_two_add]

section

variable {num den m : Nat} {e : Int} (negative : Bool) (hnum : 0 < num) (hden : 0 < den)
  (hfits : Fits m e) (h : RoundsTo ((num : ℚ) / den) m e)

include hnum hden hfits h

/-- A ratio that is not below the powers of two of the number is rounded with the same power. -/
theorem ofRatio_eq_of_le (hexponent : e = -1074 ∨ (2 : ℚ) ^ (e + 52) ≤ num / den) :
    ofRatio negative num den = .finite negative m e := by
  have hlt := hfits.lt_of_roundsTo h
  have hshort := hfits.short
  have hleast := hfits.least
  have hgreatest := hfits.greatest
  have hmax : max (fullPower num den) (-1074) = e := by
    rcases hexponent with rfl | hle
    · have hspec := (fullPower_spec hnum hden).1.trans_lt hlt
      have := (zpow_lt_zpow_iff_right₀ (by norm_num : (1 : ℚ) < 2)).mp hspec
      omega
    · rw [fullPower_eq hnum hden hle hlt]
      omega
  have hbelow : ((m : ℚ) - 1 / 2) * 2 ^ e ≤ (m - below m e) * 2 ^ e := by
    refine mul_le_mul_of_nonneg_right ?_ (two_zpow_pos e).le
    linarith [below_le m e]
  have hmantissa : mantissaAt num den e = m :=
    mantissaAt_eq hden (hbelow.trans h.low) h.high fun hk =>
      ⟨hbelow.trans_lt (h.odd hk).1, (h.odd hk).2⟩
  rw [ofRatio_of_ne_zero negative hnum.ne']
  simp only [hmax, hmantissa]
  rw [if_neg (by omega), pack, if_neg (by omega)]

/-- A ratio just below a power of two has the power below, and its mantissa is rounded up. -/
theorem ofRatio_eq_of_lt (hne : e ≠ -1074) (hsmall : (num : ℚ) / den < 2 ^ (e + 52)) :
    ofRatio negative num den = .finite negative m e := by
  have hleast := hfits.least
  have hgreatest := hfits.greatest
  have hfull : leastFull ≤ m := hfits.full.resolve_right hne
  have hm : m = leastFull := by
    have hlow := h.low.trans_lt hsmall
    rw [add_comm, zpow_two_add, mul_lt_mul_iff_left₀ (two_zpow_pos e), ← cast_leastFull] at hlow
    have : (m : ℚ) < leastFull + 1 := by linarith [below_le m e]
    have : m < leastFull + 1 := by exact_mod_cast this
    omega
  have hbelow : below m e = 1 / 4 := if_pos ⟨hm, by omega⟩
  have hhalf : (2 : ℚ) ^ e = 2 * 2 ^ (e - 1) := by
    rw [show e = 1 + (e - 1) by ring, zpow_two_add, zpow_one,
      show 1 + (e - 1) - 1 = e - 1 by ring]
  have hhalfpos := two_zpow_pos (e - 1)
  have hlow := h.low
  rw [hbelow, hm, hhalf] at hlow
  rw [add_comm, zpow_two_add, ← cast_leastFull, hhalf] at hsmall
  have hmantissa : mantissaAt num den (e - 1) = 2 * leastFull := by
    refine mantissaAt_eq hden ?_ ?_ fun hk => absurd hk (by decide)
    · push_cast
      linarith
    · push_cast
      linarith
  have hmax : max (fullPower num den) (-1074) = e - 1 := by
    have hge : (2 : ℚ) ^ (e - 1 + 52) ≤ num / den := by
      rw [add_comm, zpow_two_add, ← cast_leastFull]
      have : (1 : ℚ) ≤ leastFull := by norm_num [leastFull]
      nlinarith
    have hlt' : (num : ℚ) / den < 2 ^ (e - 1 + 53) := by
      rw [show e - 1 + 53 = 52 + e by ring, zpow_two_add, ← cast_leastFull, hhalf]
      exact hsmall
    rw [fullPower_eq hnum hden hge hlt']
    omega
  rw [ofRatio_of_ne_zero negative hnum.ne']
  simp only [hmax, hmantissa, if_true]
  rw [pack, if_neg (by omega), hm, show e - 1 + 1 = e by ring]

/-- **A ratio is rounded to the number that it is nearest to.** -/
theorem ofRatio_eq : ofRatio negative num den = .finite negative m e := by
  by_cases hexponent : e = -1074 ∨ (2 : ℚ) ^ (e + 52) ≤ num / den
  · exact ofRatio_eq_of_le negative hnum hden hfits h hexponent
  · obtain ⟨hne, hsmall⟩ := not_or.mp hexponent
    exact ofRatio_eq_of_lt negative hnum hden hfits h hne (not_le.mp hsmall)

end

/-- What comes out of rounding is a number of the format. -/
theorem isProper_ofRatio (negative : Bool) (num : Nat) {den : Nat} (hden : 0 < den) :
    (ofRatio negative num den).IsProper := by
  rcases Nat.eq_zero_or_pos num with rfl | hnum
  · exact ⟨by decide, by decide, by decide, .inr rfl⟩
  obtain ⟨hlow, hhigh⟩ := fullPower_spec hnum hden
  have hproper : ∀ {m : Nat} {e : Int}, m < 2 * leastFull → -1074 ≤ e →
      (leastFull ≤ m ∨ e = -1074) → (pack negative m e).IsProper := by
    intro m e hshort hleast hfull
    unfold pack
    split
    · trivial
    · exact ⟨hshort, hleast, by omega, hfull⟩
  rw [ofRatio_of_ne_zero negative hnum.ne']
  generalize hpower : max (fullPower num den) (-1074) = power
  -- the quotient has full length unless the power is the least one, and rounding adds at most one
  have hquotient : (scaled num den power).1 / (scaled num den power).2 < 2 * leastFull := by
    rw [floor_lt_iff (scaled_pos num hden power), scaled_div num hden,
      div_lt_iff₀ (two_zpow_pos power)]
    calc (num : ℚ) / den < 2 ^ (fullPower num den + 53) := hhigh
      _ ≤ 2 ^ (53 + power) := zpow_le_zpow_right₀ (by norm_num) (by omega)
      _ = ((2 * leastFull : ℕ) : ℚ) * 2 ^ power := by
          rw [zpow_two_add]
          norm_num [leastFull]
  have hfull : leastFull ≤ mantissaAt num den power ∨ power = -1074 := by
    by_cases hle : fullPower num den ≤ -1074
    · exact .inr (by omega)
    · obtain rfl : power = fullPower num den := by omega
      refine .inl (le_trans ?_ (div_le_roundDiv _ _))
      rw [← not_lt, floor_lt_iff (scaled_pos num hden _), scaled_div num hden, not_lt,
        le_div_iff₀ (two_zpow_pos _), cast_leastFull, ← zpow_two_add, add_comm]
      exact hlow
  have hle : mantissaAt num den power ≤ 2 * leastFull := (roundDiv_le_succ _ _).trans hquotient
  simp only
  split
  · exact hproper (by decide) (by omega) (.inl (le_refl _))
  · exact hproper (by omega) (by omega) hfull

/-! ## Rounding a decimal -/

theorem lt_ten_zpow_digitCount (n : Nat) : (n : ℚ) < 10 ^ (digitCount n : ℤ) := by
  have h : n < 10 ^ digitCount n :=
    (Nat.length_toDigits_le_iff (by decide) Nat.length_toDigits_pos).mp (le_refl _)
  rw [zpow_natCast]
  exact_mod_cast h

theorem ten_zpow_digitCount_le {n : Nat} (hn : 0 < n) :
    (10 : ℚ) ^ ((digitCount n : ℤ) - 1) ≤ n := by
  obtain ⟨k, hk⟩ : ∃ k, digitCount n = k + 1 := Nat.exists_eq_add_one.mpr Nat.length_toDigits_pos
  have h : 10 ^ k ≤ n := by
    rcases Nat.eq_zero_or_pos k with rfl | hpos
    · exact hn
    · by_contra hlt
      have := (Nat.length_toDigits_le_iff (by decide) hpos).mpr (not_le.mp hlt)
      unfold digitCount at hk
      omega
  rw [hk, show (((k + 1 : ℕ) : ℤ) - 1) = (k : ℤ) by push_cast; ring, zpow_natCast]
  exact_mod_cast h

/-- The cutoffs for decimals lie outside of the range of the format. -/
theorem two_zpow_lt_ten_zpow : (2 : ℚ) ^ (1200 : ℤ) < 10 ^ (400 : ℤ) := by
  calc (2 : ℚ) ^ (1200 : ℤ) = (2 ^ (3 : ℤ)) ^ (400 : ℤ) := by rw [← zpow_mul]; rfl
    _ < 10 ^ (400 : ℤ) := zpow_lt_zpow_left₀ (by norm_num) (by norm_num) (by norm_num)

section

variable {digits m : Nat} {exponent e : Int} (hfits : Fits m e)
  (h : RoundsTo ((digits : ℚ) * 10 ^ exponent) m e)

include hfits h

/-- A decimal that is rounded to a number of the format is below the first cutoff, because numbers
of the format are below 2^1024. -/
theorem digitCount_add_le (hdigits : 0 < digits) : (digitCount digits : ℤ) + exponent ≤ 400 := by
  have hten : (0 : ℚ) < 10 ^ exponent := zpow_pos (by norm_num) exponent
  have hlt : (10 : ℚ) ^ ((digitCount digits : ℤ) - 1 + exponent) < 10 ^ (400 : ℤ) := by
    calc (10 : ℚ) ^ ((digitCount digits : ℤ) - 1 + exponent)
        = 10 ^ ((digitCount digits : ℤ) - 1) * 10 ^ exponent := zpow_add₀ (by norm_num) _ _
      _ ≤ digits * 10 ^ exponent :=
          mul_le_mul_of_nonneg_right (ten_zpow_digitCount_le hdigits) hten.le
      _ < 2 ^ (e + 53) := hfits.lt_of_roundsTo h
      _ ≤ 2 ^ (1200 : ℤ) := zpow_le_zpow_right₀ (by norm_num) (by have := hfits.greatest; omega)
      _ < 10 ^ (400 : ℤ) := two_zpow_lt_ten_zpow
  have := (zpow_lt_zpow_iff_right₀ (by norm_num : (1 : ℚ) < 10)).mp hlt
  omega

/-- It is above the second cutoff, because positive numbers of the format are at least 2^(-1074). -/
theorem le_digitCount_add (hm : 0 < m) : -400 ≤ (digitCount digits : ℤ) + exponent := by
  have hten : (0 : ℚ) < 10 ^ exponent := zpow_pos (by norm_num) exponent
  have hhalf : (1 : ℚ) / 2 ≤ m - below m e := by
    have : (1 : ℚ) ≤ m := by exact_mod_cast hm
    linarith [below_le m e]
  have hlt : (10 : ℚ) ^ (-400 : ℤ) < 10 ^ ((digitCount digits : ℤ) + exponent) := by
    calc (10 : ℚ) ^ (-400 : ℤ) < 2 ^ (-1200 : ℤ) := by
          rw [zpow_neg, zpow_neg]
          exact inv_strictAnti₀ (two_zpow_pos _) two_zpow_lt_ten_zpow
      _ ≤ 2 ^ (-1 + -1074 : ℤ) := zpow_le_zpow_right₀ (by norm_num) (by norm_num)
      _ = 1 / 2 * 2 ^ (-1074 : ℤ) := by rw [zpow_two_add, zpow_neg_one, one_div]
      _ ≤ (m - below m e) * 2 ^ e :=
          mul_le_mul hhalf (zpow_le_zpow_right₀ (by norm_num) hfits.least)
            (two_zpow_pos _).le (by linarith)
      _ ≤ digits * 10 ^ exponent := h.low
      _ < 10 ^ (digitCount digits : ℤ) * 10 ^ exponent :=
          mul_lt_mul_of_pos_right (lt_ten_zpow_digitCount digits) hten
      _ = 10 ^ ((digitCount digits : ℤ) + exponent) := (zpow_add₀ (by norm_num) _ _).symm
  have := (zpow_lt_zpow_iff_right₀ (by norm_num : (1 : ℚ) < 10)).mp hlt
  omega

end

/-- **A decimal is rounded to the number that it is nearest to.** -/
theorem ofDecimal_eq {digits m : Nat} {exponent e : Int} (negative : Bool) (hdigits : 0 < digits)
    (hm : 0 < m) (hfits : Fits m e) (h : RoundsTo ((digits : ℚ) * 10 ^ exponent) m e) :
    ofDecimal negative digits exponent = .finite negative m e := by
  have hlarge := digitCount_add_le hfits h hdigits
  have hsmall := le_digitCount_add hfits h hm
  unfold ofDecimal
  rw [if_neg hdigits.ne', if_neg (by omega), if_neg (by omega)]
  split
  next hexponent =>
    obtain ⟨k, rfl⟩ := Int.eq_ofNat_of_zero_le hexponent
    refine ofRatio_eq negative (Nat.mul_pos hdigits (Nat.pow_pos (by decide))) Nat.one_pos hfits ?_
    simpa using h
  next hexponent =>
    obtain ⟨k, hk⟩ := Int.eq_ofNat_of_zero_le (show 0 ≤ -exponent by omega)
    obtain rfl : exponent = -(k : ℤ) := by omega
    refine ofRatio_eq negative hdigits (Nat.pow_pos (by decide)) hfits ?_
    simpa [zpow_neg, div_eq_mul_inv] using h

theorem isProper_ofDecimal (negative : Bool) (digits : Nat) (exponent : Int) :
    (ofDecimal negative digits exponent).IsProper := by
  have hzero : (Binary64.finite negative 0 (-1074)).IsProper :=
    ⟨by decide, by decide, by decide, .inr rfl⟩
  unfold ofDecimal
  split
  · exact hzero
  split
  · trivial
  split
  · exact hzero
  split
  · exact isProper_ofRatio negative _ Nat.one_pos
  · exact isProper_ofRatio negative _ (Nat.pow_pos (by decide))

end Blockflow.Binary64
