import CommandScript.Number.Shortest
import Mathlib.Algebra.Order.Field.Power
import Mathlib.Data.Rat.Floor
import Mathlib.Tactic.FieldSimp
import Mathlib.Tactic.Linarith
import Mathlib.Tactic.Positivity
import Mathlib.Tactic.Ring

/-!
# Rounding intervals

The rounding interval of a binary number is a set of rationals. The intervals of two numbers
have no rational in common: between two neighbours lies one rational that is an end of both
intervals, and it belongs to the one with the even significand. What is written for a number
lies in its interval, because the interval is longer than the steps between decimals with 17
digits.

* `Binary.Encloses`: a rational lies in the interval of a number.
* `contains_interval`: the test on numerators and denominators.
* `Encloses.unique`: a rational lies in one interval only.
* `encloses_shortest`: the shortest decimal lies in the interval.
-/

namespace CommandScript.Number

namespace Binary

/-- Numbers are written with the largest significand that they can have. -/
structure Canonical (b : Binary) : Prop where
  significand : b.significand < 2 ^ 53
  exponent : -1074 ≤ b.exponent
  full : b.exponent = -1074 ∨ 2 ^ 52 ≤ b.significand

/-- A quarter of the step between numbers. -/
def quarter (b : Binary) : ℚ := 2 ^ (b.exponent - 2)

/-- The number of quarter steps from the lower end of the interval up to the number. -/
def below (b : Binary) : Nat :=
  if b.significand = 2 ^ 52 ∧ -1074 < b.exponent then 1 else 2

def value (b : Binary) : ℚ := (4 * b.significand : Nat) * b.quarter

def lower (b : Binary) : ℚ := (4 * b.significand - b.below : Nat) * b.quarter

def upper (b : Binary) : ℚ := (4 * b.significand + 2 : Nat) * b.quarter

/-- The rational lies in the rounding interval. The ends belong to the interval if the
significand is even. -/
structure Encloses (b : Binary) (q : ℚ) : Prop where
  lower : b.lower ≤ q
  upper : q ≤ b.upper
  inside : b.significand % 2 = 1 → b.lower < q ∧ q < b.upper

theorem quarter_pos (b : Binary) : 0 < b.quarter := zpow_pos (by norm_num) _

theorem below_mem (b : Binary) : 1 ≤ b.below ∧ b.below ≤ 2 := by
  unfold below
  split <;> omega

theorem lower_pos {b : Binary} (h : b.significand ≠ 0) : 0 < b.lower := by
  have hbelow := b.below_mem
  exact mul_pos (Nat.cast_pos.mpr (by omega)) b.quarter_pos

/-! ## The test -/

/-- A power is the quotient of two natural numbers, one of which is 1. -/
theorem zpow_eq_div {base : Nat} (hbase : 0 < base) (power : Int) :
    (base : ℚ) ^ power =
      (if 0 ≤ power then Nat.pow base power.toNat else 1 : Nat) /
        (if 0 ≤ power then 1 else Nat.pow base (-power).toNat : Nat) := by
  have hne : (base : ℚ) ≠ 0 := by positivity
  split
  · rename_i h
    obtain ⟨n, rfl⟩ := Int.eq_ofNat_of_zero_le h
    simp
  · rename_i h
    obtain ⟨n, rfl⟩ : ∃ n : Nat, power = -n := ⟨(-power).toNat, by omega⟩
    simp [zpow_neg]

theorem denominator_pos {base : Nat} (hbase : 0 < base) (power : Int) :
    0 < (if 0 ≤ power then 1 else Nat.pow base (-power).toNat) := by
  split
  · exact Nat.one_pos
  · exact Nat.pow_pos hbase

end Binary

namespace Binary.Interval

theorem den_pos (b : Binary) : 0 < b.interval.den :=
  denominator_pos Nat.two_pos (b.exponent - 2)

/-- The decimal as a quotient, with the denominator of the interval in it. -/
theorem decimal_eq (i : Interval) (count : Nat) (power : Int) :
    ((if 0 ≤ power then count * Nat.pow 10 power.toNat * i.den else count * i.den : Nat) : ℚ) =
      count * 10 ^ power *
        ((if 0 ≤ power then 1 else Nat.pow 10 (-power).toNat : Nat) * i.den) := by
  have hpower := zpow_eq_div (show 0 < 10 by norm_num) power
  have hscale := denominator_pos (show 0 < 10 by norm_num) power
  rw [Nat.cast_ofNat] at hpower
  rw [hpower]
  have hne : (((if 0 ≤ power then 1 else Nat.pow 10 (-power).toNat : Nat)) : ℚ) ≠ 0 := by
    exact_mod_cast hscale.ne'
  field_simp
  split <;> push_cast <;> ring

section Scaled

variable {point scale den : Nat} {q : ℚ}

theorem scaled_le_iff (hscale : 0 < scale) (hden : 0 < den) (h : (point : ℚ) = q * (scale * den))
    (n : Nat) : n * scale ≤ point ↔ (n / den : ℚ) ≤ q := by
  have hden' : (0 : ℚ) < den := by exact_mod_cast hden
  have hscale' : (0 : ℚ) < scale := by exact_mod_cast hscale
  rw [div_le_iff₀ hden', ← mul_le_mul_iff_left₀ hscale', ← Nat.cast_le (α := ℚ)]
  push_cast
  rw [h]
  ring_nf

theorem le_scaled_iff (hscale : 0 < scale) (hden : 0 < den) (h : (point : ℚ) = q * (scale * den))
    (n : Nat) : point ≤ n * scale ↔ q ≤ (n / den : ℚ) := by
  have hden' : (0 : ℚ) < den := by exact_mod_cast hden
  have hscale' : (0 : ℚ) < scale := by exact_mod_cast hscale
  rw [le_div_iff₀ hden', ← mul_le_mul_iff_left₀ hscale', ← Nat.cast_le (α := ℚ)]
  push_cast
  rw [h]
  ring_nf

end Scaled

/-- The test compares the decimal with the ends of the interval. -/
theorem contains_iff (i : Interval) (hden : 0 < i.den) (count : Nat) (power : Int) :
    i.contains count power = true ↔
      if i.closed = true then
        (i.low / i.den : ℚ) ≤ count * 10 ^ power ∧ (count * 10 ^ power : ℚ) ≤ i.high / i.den
      else (i.low / i.den : ℚ) < count * 10 ^ power ∧ (count * 10 ^ power : ℚ) < i.high / i.den := by
  have hdecimal := decimal_eq i count power
  have hscale := denominator_pos (show 0 < 10 by norm_num) power
  have hle := scaled_le_iff hscale hden hdecimal
  have hge := le_scaled_iff hscale hden hdecimal
  unfold contains
  dsimp only
  split
  · rw [Bool.and_eq_true, decide_eq_true_eq, decide_eq_true_eq, hle, hge]
  · rw [Bool.and_eq_true, decide_eq_true_eq, decide_eq_true_eq, lt_iff_lt_of_le_iff_le (hge _),
      lt_iff_lt_of_le_iff_le (hle _)]

/-- The factor and the denominator of the interval make a quarter step. -/
theorem factor_div_den (b : Binary) (count : Nat) :
    ((count * (if 0 ≤ b.exponent - 2 then Nat.pow 2 (b.exponent - 2).toNat else 1) : Nat) : ℚ) /
      b.interval.den = count * b.quarter := by
  have hquarter := zpow_eq_div (show 0 < 2 by norm_num) (b.exponent - 2)
  rw [Nat.cast_ofNat] at hquarter
  rw [quarter, hquarter, Nat.cast_mul, mul_div_assoc]
  rfl

theorem low_div_den (b : Binary) : (b.interval.low / b.interval.den : ℚ) = b.lower :=
  factor_div_den b _

theorem value_div_den (b : Binary) : (b.interval.value / b.interval.den : ℚ) = b.value :=
  factor_div_den b _

theorem high_div_den (b : Binary) : (b.interval.high / b.interval.den : ℚ) = b.upper :=
  factor_div_den b _

end Binary.Interval

open Binary.Interval

namespace Binary

/-- The test says whether a decimal lies in the interval. -/
theorem contains_interval (b : Binary) (count : Nat) (power : Int) :
    b.interval.contains count power = true ↔ b.Encloses (count * 10 ^ power) := by
  have hclosed : (b.interval.closed = true) ↔ b.significand % 2 = 0 := by simp [interval]
  rw [contains_iff _ (den_pos b), low_div_den, high_div_den]
  split
  · rename_i heven
    rw [hclosed] at heven
    exact ⟨fun h => ⟨h.1, h.2, fun hodd => by omega⟩, fun h => ⟨h.lower, h.upper⟩⟩
  · rename_i hodd
    have hodd : b.significand % 2 = 1 := by
      rw [hclosed] at hodd
      omega
    exact ⟨fun h => ⟨h.1.le, h.2.le, fun _ => h⟩, fun h => h.inside hodd⟩

/-! ## Two intervals -/

/-- The first number is less than the second. -/
def Precedes (b c : Binary) : Prop :=
  b.exponent < c.exponent ∨ b.exponent = c.exponent ∧ b.significand < c.significand

theorem quarter_of_lt {b c : Binary} (h : b.exponent < c.exponent) :
    2 * b.quarter ≤ c.quarter := by
  have hstep : (2 : ℚ) * 2 ^ (b.exponent - 2) = 2 ^ (b.exponent - 2 + 1) := by
    rw [zpow_add_one₀ (by norm_num)]
    ring
  rw [quarter, quarter, hstep]
  exact zpow_le_zpow_right₀ (by norm_num) (by omega)

/-- Above a larger exponent there is room for all significands of the smaller one. -/
theorem le_lower_of_lt {b c : Binary} (hb : b.Canonical) (hc : c.Canonical)
    (h : b.exponent < c.exponent) : (2 ^ 55 - 2 : Nat) * b.quarter ≤ c.lower := by
  have hpositive := b.quarter_pos
  have hexponent := hb.exponent
  have hfull : 2 ^ 52 ≤ c.significand := hc.full.resolve_left (by omega)
  have hbelow : 2 ^ 54 - 1 ≤ 4 * c.significand - c.below := by
    unfold below
    split
    · omega
    · rename_i hmore
      have hne : c.significand ≠ 2 ^ 52 := fun hsame => hmore ⟨hsame, by omega⟩
      omega
  calc ((2 ^ 55 - 2 : Nat) : ℚ) * b.quarter = (2 ^ 54 - 1 : Nat) * (2 * b.quarter) := by
        norm_num
        ring
    _ ≤ (4 * c.significand - c.below : Nat) * c.quarter :=
        mul_le_mul (Nat.cast_le.mpr hbelow) (quarter_of_lt h) (by positivity) (Nat.cast_nonneg _)

/-- The lower end of the second number, in quarter steps of the first. Only next to an odd
significand can it be the upper end of the first. -/
theorem exists_low {b c : Binary} (hb : b.Canonical) (hc : c.Canonical) (h : b.Precedes c) :
    ∃ low : Nat, 4 * b.significand + 2 ≤ low ∧ low * b.quarter ≤ c.lower ∧
      (4 * b.significand + 2 = low → b.significand % 2 = 1 ∨ c.significand % 2 = 1) := by
  obtain hlt | ⟨heq, hlt⟩ := h
  · have hbound := hb.significand
    exact ⟨2 ^ 55 - 2, by omega, le_lower_of_lt hb hc hlt, by omega⟩
  · have hbelow := c.below_mem
    refine ⟨4 * c.significand - c.below, by omega, ?_, by omega⟩
    rw [lower, quarter, quarter, heq]

/-- The intervals of two numbers meet at most in one rational, which is an end of both. The
significand of one of the two is odd then. -/
theorem upper_le_lower {b c : Binary} (hb : b.Canonical) (hc : c.Canonical) (h : b.Precedes c) :
    b.upper ≤ c.lower ∧
      (b.upper = c.lower → b.significand % 2 = 1 ∨ c.significand % 2 = 1) := by
  have hquarter := b.quarter_pos
  obtain ⟨low, hupper, hlower, hodd⟩ := exists_low hb hc h
  refine ⟨(mul_le_mul_of_nonneg_right (Nat.cast_le.mpr hupper) hquarter.le).trans hlower, ?_⟩
  intro heq
  refine hodd (Nat.le_antisymm hupper (Nat.cast_le.mp (le_of_mul_le_mul_right ?_ hquarter)))
  exact hlower.trans heq.symm.le

theorem precedes_or_eq (b c : Binary) : b.Precedes c ∨ c.Precedes b ∨ b = c := by
  obtain ⟨significand, exponent⟩ := b
  obtain ⟨significand', exponent'⟩ := c
  simp only [Precedes, Binary.mk.injEq]
  omega

/-- A rational lies in the interval of one number only. -/
theorem Encloses.unique {b c : Binary} (hb : b.Canonical) (hc : c.Canonical) {q : ℚ}
    (h : b.Encloses q) (hother : c.Encloses q) : b = c := by
  have hnot {b c : Binary} (hb : b.Canonical) (hc : c.Canonical) (h : b.Encloses q)
      (hother : c.Encloses q) : ¬ b.Precedes c := by
    intro hprecedes
    obtain ⟨hle, hodd⟩ := upper_le_lower hb hc hprecedes
    have hupper : b.upper = q := le_antisymm (hle.trans hother.lower) h.upper
    have hlower : c.lower = q := le_antisymm hother.lower (h.upper.trans hle)
    obtain hfirst | hsecond := hodd (hupper.trans hlower.symm)
    · exact absurd hupper (h.inside hfirst).2.ne'
    · exact absurd hlower (hother.inside hsecond).1.ne
  obtain hlt | hgt | heq := precedes_or_eq b c
  · exact absurd hlt (hnot hb hc h hother)
  · exact absurd hgt (hnot hc hb hother h)
  · exact heq

/-! ## Decimals in the interval -/

theorem Encloses.convex {b : Binary} {first q last : ℚ} (hfirst : b.Encloses first)
    (hlast : b.Encloses last) (hle : first ≤ q) (hge : q ≤ last) : b.Encloses q where
  lower := hfirst.lower.trans hle
  upper := hge.trans hlast.upper
  inside hodd := ⟨(hfirst.inside hodd).1.trans_le hle, hge.trans_lt (hlast.inside hodd).2⟩

theorem encloses_of_between {b : Binary} {q : ℚ} (hlower : b.lower < q) (hupper : q < b.upper) :
    b.Encloses q :=
  ⟨hlower.le, hupper.le, fun _ => ⟨hlower, hupper⟩⟩

theorem encloses_value {b : Binary} (h : b.significand ≠ 0) : b.Encloses b.value := by
  have hbelow := b.below_mem
  refine encloses_of_between ?_ ?_ <;>
    refine mul_lt_mul_of_pos_right (Nat.cast_lt.mpr ?_) b.quarter_pos <;> omega

/-- The interval is longer than the last of 17 digits counts. -/
theorem value_lt_width {b : Binary} (hb : b.Canonical) (h : b.significand ≠ 0) :
    b.value < 10 ^ 16 * (b.upper - b.lower) := by
  have hwidth : b.upper - b.lower = (2 + b.below : Nat) * b.quarter := by
    have hbelow := b.below_mem
    rw [upper, lower, ← sub_mul, Nat.cast_sub (by omega)]
    push_cast
    ring
  have hcount : 4 * b.significand < 10 ^ 16 * (2 + b.below) := by
    have hbound := hb.significand
    unfold below
    split <;> omega
  calc b.value < (10 ^ 16 * (2 + b.below) : Nat) * b.quarter :=
        mul_lt_mul_of_pos_right (Nat.cast_lt.mpr hcount) b.quarter_pos
    _ = 10 ^ 16 * (b.upper - b.lower) := by
        rw [hwidth]
        push_cast
        ring

/-- Some multiple of every step that is shorter than the interval lies in it. -/
theorem exists_multiple {b : Binary} {step : ℚ} (hstep : 0 < step)
    (h : step < b.upper - b.lower) : ∃ count : Nat, b.Encloses (count * step) := by
  have hlower : 0 ≤ b.lower / step :=
    div_nonneg (mul_nonneg (Nat.cast_nonneg _) b.quarter_pos.le) hstep.le
  refine ⟨⌊b.lower / step⌋₊ + 1, encloses_of_between ?_ ?_⟩
  · rw [← div_lt_iff₀ hstep]
    exact_mod_cast Nat.lt_floor_add_one (b.lower / step)
  · have hfloor := (le_div_iff₀ hstep).mp (Nat.floor_le hlower)
    push_cast
    linarith

end Binary

namespace Binary.Interval

/-- The lower neighbour is the integer part of a quotient that stands for the value. -/
theorem exists_quotient (i : Interval) (hden : 0 < i.den) (power : Int) : ∃ num den : Nat,
    (i.neighbours power).1 = num / den ∧ (i.neighbours power).2.1 = num / den + 1 ∧ 0 < den ∧
      (num / den : ℚ) * 10 ^ power = i.value / i.den := by
  refine ⟨_, _, rfl, rfl, ?_, ?_⟩
  · split
    · exact Nat.mul_pos hden (Nat.pow_pos (by norm_num))
    · exact hden
  · split
    · rename_i h
      obtain ⟨n, rfl⟩ := Int.eq_ofNat_of_zero_le h
      rw [zpow_natCast]
      push_cast
      field_simp
      simp
    · rename_i h
      obtain ⟨n, rfl⟩ : ∃ n : Nat, power = -n := ⟨(-power).toNat, by omega⟩
      rw [zpow_neg, zpow_natCast, neg_neg]
      push_cast
      field_simp
      simp

/-- The neighbours on the grid stand below and above the value. -/
theorem neighbours_spec (i : Interval) (hden : 0 < i.den) (power : Int) :
    ((i.neighbours power).1 * 10 ^ power : ℚ) ≤ i.value / i.den ∧
      (i.value / i.den : ℚ) < (i.neighbours power).2.1 * 10 ^ power := by
  obtain ⟨num, den, hbelow, habove, hpos, heq⟩ := exists_quotient i hden power
  have hpower : (0 : ℚ) < 10 ^ power := zpow_pos (by norm_num) _
  have hden' : (0 : ℚ) < den := by exact_mod_cast hpos
  rw [hbelow, habove, ← heq]
  constructor
  · refine mul_le_mul_of_nonneg_right ((le_div_iff₀ hden').mpr ?_) hpower.le
    exact_mod_cast Nat.div_mul_le_self num den
  · refine mul_lt_mul_of_pos_right ((div_lt_iff₀ hden').mpr ?_) hpower
    exact_mod_cast (Nat.div_lt_iff_lt_mul hpos).mp (Nat.lt_succ_self (num / den))

theorem contains_of_onGrid? {i : Interval} {power : Int} {count : Nat}
    (h : i.onGrid? power = some count) : i.contains count power = true := by
  unfold onGrid? at h
  dsimp only at h
  split at h
  · rename_i hbelow habove
    obtain rfl := Option.some.inj h
    split
    · exact hbelow
    · exact habove
  · rename_i hbelow _
    exact Option.some.inj h ▸ hbelow
  · rename_i _ habove
    exact Option.some.inj h ▸ habove
  · cases h

end Binary.Interval

namespace Binary

/-- If any point of the grid lies in the interval then so does a neighbour of the value. -/
theorem isSome_onGrid? {b : Binary} (h : b.significand ≠ 0) {power : Int} {count : Nat}
    (hcount : b.Encloses (count * 10 ^ power)) : (b.interval.onGrid? power).isSome := by
  obtain ⟨hbelow, habove⟩ := neighbours_spec b.interval (den_pos b) power
  rw [value_div_den] at hbelow habove
  have hvalue := encloses_value h
  have hpower : (0 : ℚ) < 10 ^ power := zpow_pos (by norm_num) _
  have hnext : (b.interval.neighbours power).2.1 = (b.interval.neighbours power).1 + 1 := rfl
  unfold onGrid?
  generalize b.interval.neighbours power = found at hbelow habove hnext ⊢
  obtain ⟨below, above, nearer⟩ := found
  dsimp only at hbelow habove hnext ⊢
  have hone : b.Encloses (below * 10 ^ power) ∨ b.Encloses (above * 10 ^ power) := by
    obtain hle | hlt := Nat.lt_or_ge below count
    · refine .inr (hvalue.convex hcount habove.le ?_)
      exact mul_le_mul_of_nonneg_right (Nat.cast_le.mpr (by omega)) hpower.le
    · refine .inl (hcount.convex hvalue ?_ hbelow)
      exact mul_le_mul_of_nonneg_right (Nat.cast_le.mpr (by omega)) hpower.le
  rw [← contains_interval, ← contains_interval] at hone
  split
  · rfl
  · rfl
  · rfl
  · simp_all

/-! ## The shortest decimal -/

/-- The first digit of a positive number is not zero. -/
theorem exists_places {n : Nat} (h : 1 ≤ n) :
    ∃ places, (Nat.toDigits 10 n).length = places + 1 ∧ 10 ^ places ≤ n := by
  refine ⟨_, (Nat.sub_add_cancel Nat.length_toDigits_pos).symm, Nat.not_lt.mp fun hlt => ?_⟩
  obtain hzero | hpositive := Nat.eq_zero_or_pos ((Nat.toDigits 10 n).length - 1)
  · rw [hzero] at hlt
    omega
  · have hshort := (Nat.length_toDigits_le_iff (by norm_num) hpositive).mpr hlt
    omega

/-- Lifted by enough powers of ten, a quotient is at least one. -/
theorem one_le_lifted {value den : Nat} (hvalue : value ≠ 0) (hden : 0 < den) :
    1 ≤ value * Nat.pow 10 (den.log2 + 1 - value.log2) / den := by
  rw [Nat.one_le_div_iff hden]
  calc den ≤ 2 ^ (den.log2 + 1) := Nat.lt_log2_self.le
    _ ≤ 2 ^ value.log2 * 2 ^ (den.log2 + 1 - value.log2) := by
        rw [← Nat.pow_add]
        exact Nat.pow_le_pow_right (by norm_num) (by omega)
    _ ≤ value * Nat.pow 10 (den.log2 + 1 - value.log2) :=
        Nat.mul_le_mul (Nat.log2_self_le hvalue) (Nat.pow_le_pow_left (by norm_num) _)

theorem interval_value_ne_zero {b : Binary} (h : b.significand ≠ 0) : b.interval.value ≠ 0 := by
  intro hzero
  have hpositive : 0 < b.value := mul_pos (Nat.cast_pos.mpr (by omega)) b.quarter_pos
  rw [← value_div_den, hzero, Nat.cast_zero, zero_div] at hpositive
  exact lt_irrefl _ hpositive

/-- The power of ten above the value is not too large. -/
theorem magnitude_le {b : Binary} (h : b.significand ≠ 0) :
    (10 : ℚ) ^ (b.interval.magnitude - 1) ≤ b.value := by
  have hden := den_pos b
  have hleading := one_le_lifted (interval_value_ne_zero h) hden
  rw [← value_div_den]
  unfold magnitude
  dsimp only
  generalize b.interval.den.log2 + 1 - b.interval.value.log2 = lift at hleading ⊢
  have hscaled : b.interval.value * Nat.pow 10 lift / b.interval.den * b.interval.den ≤
      b.interval.value * Nat.pow 10 lift := Nat.div_mul_le_self _ _
  generalize b.interval.value * Nat.pow 10 lift / b.interval.den = leading at hleading hscaled ⊢
  obtain ⟨places, hplaces, hdigits⟩ := exists_places hleading
  have hpower : (10 : ℚ) ^ ((places + 1 : Nat) - (lift : Int) - 1) = 10 ^ places / 10 ^ lift := by
    rw [← zpow_natCast, ← zpow_natCast, ← zpow_sub₀ (by norm_num)]
    congr 1
    push_cast
    ring
  rw [hplaces, hpower, div_le_div_iff₀ (by positivity) (Nat.cast_pos.mpr hden)]
  exact_mod_cast (Nat.mul_le_mul_right b.interval.den hdigits).trans hscaled

/-- Seventeen digits are enough. -/
theorem exists_seventeen {b : Binary} (hb : b.Canonical) (h : b.significand ≠ 0) :
    ∃ count : Nat, b.Encloses (count * 10 ^ (b.interval.magnitude - 17)) := by
  refine exists_multiple (zpow_pos (by norm_num) _) ?_
  have hvalue := (magnitude_le h).trans_lt (value_lt_width hb h)
  have hpower : (10 : ℚ) ^ (b.interval.magnitude - 1) =
      10 ^ 16 * 10 ^ (b.interval.magnitude - 17) := by
    rw [← zpow_natCast, ← zpow_add₀ (by norm_num)]
    congr 1
    push_cast
    ring
  rw [hpower] at hvalue
  exact lt_of_mul_lt_mul_left hvalue (by norm_num)

/-- The shortest decimal lies in the interval. -/
theorem encloses_shortest {b : Binary} (hb : b.Canonical) (h : b.significand ≠ 0) :
    b.Encloses (b.shortest.1 * 10 ^ b.shortest.2) := by
  obtain ⟨count, hcount⟩ := exists_seventeen hb h
  have hsome := isSome_onGrid? h hcount
  unfold Binary.shortest Interval.shortest
  dsimp only
  generalize b.interval.magnitude = top at hsome ⊢
  cases hfound : (List.range 17).findSome? fun (extra : Nat) =>
      (b.interval.onGrid? (top - 1 - extra)).map fun count => (count, top - 1 - (extra : Int)) with
  | none =>
    have hlast := List.findSome?_eq_none_iff.mp hfound 16 (by decide)
    rw [Option.map_eq_none_iff, show top - 1 - ((16 : Nat) : Int) = top - 17 by omega] at hlast
    rw [hlast] at hsome
    cases hsome
  | some found =>
    obtain ⟨extra, -, hextra⟩ := List.exists_of_findSome?_eq_some hfound
    obtain ⟨digits, hdigits, rfl⟩ := Option.map_eq_some_iff.mp hextra
    exact (contains_interval b digits _).mp (contains_of_onGrid? hdigits)

end Binary

end CommandScript.Number
