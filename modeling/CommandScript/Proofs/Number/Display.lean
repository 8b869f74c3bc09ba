import CommandScript.Number.Text
import CommandScript.Proofs.Number.Bits
import Mathlib.Data.List.TakeWhile

/-!
# The texts of numbers

The text of a finite number is a numeral: a sign if the number is negative, digits, and perhaps
a point with more digits. The decimal that it denotes lies in the rounding interval of the
number. Since intervals have nothing in common, finite numbers with the same text are the same.

* `numeralValue`: the rational that a numeral denotes.
* `IsNumeral`: the texts of finite numbers.
* `text_injective`: a finite number is known from its text.
* `ofText?`: the finite number with a text.
-/

namespace CommandScript.Number

/-! ## Numerals -/

/-- The rational that digits with an optional point denote. -/
def numeralValue (text : List Char) : ℚ :=
  let places := (text.dropWhile (· ≠ '.')).tail
  Nat.ofDigitChars 10 (text.takeWhile (· ≠ '.') ++ places) 0 / 10 ^ places.length

theorem ne_point_of_isDigit {c : Char} (h : c.isDigit = true) : c ≠ '.' := by
  rintro rfl
  cases h

section Numerals

variable {whole places : List Char}

theorem numeralValue_whole (h : ∀ c ∈ whole, c.isDigit = true) :
    numeralValue whole = Nat.ofDigitChars 10 whole 0 := by
  have hnone : ∀ c ∈ whole, decide (c ≠ '.') = true := fun c hc =>
    decide_eq_true (ne_point_of_isDigit (h c hc))
  rw [numeralValue, List.takeWhile_eq_self_iff.mpr hnone, List.dropWhile_eq_nil_iff.mpr hnone]
  simp

theorem numeralValue_point (h : ∀ c ∈ whole, c.isDigit = true) :
    numeralValue (whole ++ '.' :: places) =
      Nat.ofDigitChars 10 (whole ++ places) 0 / 10 ^ places.length := by
  have hnone : ∀ c ∈ whole, decide (c ≠ '.') = true := fun c hc =>
    decide_eq_true (ne_point_of_isDigit (h c hc))
  rw [numeralValue, List.takeWhile_append_of_pos hnone, List.dropWhile_append_of_pos hnone]
  simp

end Numerals

/-- The trailing zeros have become powers of ten. -/
theorem trimZeros_spec (digits : List Char) (power : Int) :
    ∃ count : Nat, digits = (trimZeros digits power).1 ++ List.replicate count '0' ∧
      (trimZeros digits power).2 = power + count := by
  let isZero : Char → Bool := fun c => decide (c = '0')
  have hcut : digits = (digits.reverse.dropWhile isZero).reverse ++
      (digits.reverse.takeWhile isZero).reverse := by
    rw [← List.reverse_append, List.takeWhile_append_dropWhile, List.reverse_reverse]
  have hzeros : (digits.reverse.takeWhile isZero).reverse =
      List.replicate (digits.reverse.takeWhile isZero).length '0' := by
    rw [List.eq_replicate_iff]
    refine ⟨List.length_reverse, fun c hc => ?_⟩
    have hzero : isZero c = true := List.mem_takeWhile_imp (List.mem_reverse.mp hc)
    exact of_decide_eq_true hzero
  refine ⟨(digits.reverse.takeWhile isZero).length, hcut.trans (congrArg _ hzeros), ?_⟩
  have hlength := congrArg List.length hcut
  rw [List.length_append, @List.length_reverse _ (digits.reverse.takeWhile isZero)] at hlength
  change power + ((digits.length - (digits.reverse.dropWhile isZero).reverse.length : Nat) : Int) = _
  omega

section Positional

variable {digits : List Char} {power : Int}

/-- Digits that stand for `digits * 10 ^ power`. -/
def placed (digits : List Char) (power : Int) : List Char :=
  if 0 ≤ power then digits ++ List.replicate power.toNat '0'
  else if digits.length + power ≤ 0 then
    '0' :: '.' :: List.replicate (-(digits.length + power)).toNat '0' ++ digits
  else
    digits.take (digits.length + power).toNat ++ '.' :: digits.drop (digits.length + power).toNat

theorem toList_positional (count : Nat) (power : Int) :
    (positional count power).toList =
      placed (trimZeros (Nat.toDigits 10 count) power).1
        (trimZeros (Nat.toDigits 10 count) power).2 := by
  unfold positional placed
  dsimp only
  split_ifs <;> exact String.toList_ofList

theorem zpow_of_neg {power : Int} (h : ¬ 0 ≤ power) : (10 : ℚ) ^ power = 1 / 10 ^ (-power).toNat := by
  obtain ⟨n, rfl⟩ : ∃ n : Nat, power = -n := ⟨(-power).toNat, by omega⟩
  simp

theorem numeralValue_placed (h : ∀ c ∈ digits, c.isDigit = true) :
    numeralValue (placed digits power) = Nat.ofDigitChars 10 digits 0 * 10 ^ power := by
  have hzero : ('0').isDigit = true := by decide
  unfold placed
  split_ifs with hwhole hsmall
  · have hall : ∀ c ∈ digits ++ List.replicate power.toNat '0', c.isDigit = true := by
      intro c hc
      obtain hc | hc := List.mem_append.mp hc
      · exact h c hc
      · exact (List.mem_replicate.mp hc).2 ▸ hzero
    obtain ⟨n, rfl⟩ := Int.eq_ofNat_of_zero_le hwhole
    rw [numeralValue_whole hall, Nat.ofDigitChars_append, Nat.ofDigitChars_replicate_zero]
    push_cast
    rw [zpow_natCast, mul_comm]
    rfl
  · have hpoint := @numeralValue_point ['0']
      (List.replicate (-(digits.length + power)).toNat '0' ++ digits) (by simp)
    rw [List.singleton_append] at hpoint
    have hplaces : (-(digits.length + power)).toNat + digits.length = (-power).toNat := by omega
    have hzeros : Nat.ofDigitChars 10 (['0'] ++
        (List.replicate (-(digits.length + power)).toNat '0' ++ digits)) 0 =
        Nat.ofDigitChars 10 digits 0 := by
      rw [Nat.ofDigitChars_append, Nat.ofDigitChars_append]
      exact congrArg _ (Nat.ofDigitChars_replicate_zero.trans (Nat.mul_zero _))
    rw [List.cons_append, List.cons_append, hpoint, zpow_of_neg hwhole, List.length_append,
      List.length_replicate, hplaces, hzeros, mul_one_div]
  · have hpoint := @numeralValue_point (digits.take (digits.length + power).toNat)
      (digits.drop (digits.length + power).toNat) fun c hc => h c (List.mem_of_mem_take hc)
    have hplaces : digits.length - (digits.length + power).toNat = (-power).toNat := by omega
    rw [hpoint, List.take_append_drop, List.length_drop, zpow_of_neg hwhole, hplaces, mul_one_div]

/-- What is left of the digits of a number when its trailing zeros are dropped. -/
theorem trimmed_spec (count : Nat) (power : Int) :
    ∃ kept places, (positional count power).toList = placed kept places ∧
      (∀ c ∈ kept, c.isDigit = true) ∧
      (Nat.ofDigitChars 10 kept 0 : ℚ) * 10 ^ places = count * 10 ^ power := by
  have hdigits : ∀ c ∈ Nat.toDigits 10 count, c.isDigit = true := fun c hc =>
    Nat.isDigit_of_mem_toDigits (by norm_num) (by norm_num) hc
  have hvalue : Nat.ofDigitChars 10 (Nat.toDigits 10 count) 0 = count :=
    Nat.ofDigitChars_ten_toDigits
  obtain ⟨zeros, hcut, hpower⟩ := trimZeros_spec (Nat.toDigits 10 count) power
  refine ⟨_, _, toList_positional count power, ?_, ?_⟩
  · exact fun c hc => hdigits c (hcut ▸ List.mem_append_left _ hc)
  · rw [hcut, Nat.ofDigitChars_append, Nat.ofDigitChars_replicate_zero] at hvalue
    have hcast : (count : ℚ) = 10 ^ zeros *
        Nat.ofDigitChars 10 (trimZeros (Nat.toDigits 10 count) power).1 0 := by
      exact_mod_cast hvalue.symm
    rw [hpower, zpow_add₀ (by norm_num), zpow_natCast, hcast]
    ring

/-- A positional numeral denotes the decimal. -/
theorem numeralValue_positional (count : Nat) (power : Int) :
    numeralValue (positional count power).toList = count * 10 ^ power := by
  obtain ⟨kept, places, hplaced, hdigits, hvalue⟩ := trimmed_spec count power
  rw [hplaced, numeralValue_placed hdigits, hvalue]

/-- What is placed begins with a digit, and there are only digits and points behind it. -/
theorem placed_form (h : ∀ c ∈ digits, c.isDigit = true) (hne : digits ≠ []) :
    ∃ c more, placed digits power = c :: more ∧ c.isDigit = true ∧
      ∀ d ∈ more, d.isDigit = true ∨ d = '.' := by
  obtain ⟨first, rest, rfl⟩ := List.exists_cons_of_ne_nil hne
  obtain ⟨hfirst, hrest⟩ := List.forall_mem_cons.mp h
  have hzeros (count : Nat) : ∀ d ∈ List.replicate count '0', d.isDigit = true ∨ d = '.' :=
    fun d hd => .inl ((List.mem_replicate.mp hd).2 ▸ by decide)
  have hdigits {some : List Char} (hsome : some ⊆ rest) :
      ∀ d ∈ some, d.isDigit = true ∨ d = '.' := fun d hd => .inl (hrest d (hsome hd))
  unfold placed
  split_ifs with hwhole hsmall
  · exact ⟨first, _, rfl, hfirst,
      List.forall_mem_append.mpr ⟨hdigits (List.Subset.refl _), hzeros _⟩⟩
  · refine ⟨'0', _, rfl, by decide, List.forall_mem_cons.mpr ⟨.inr rfl, ?_⟩⟩
    exact List.forall_mem_append.mpr ⟨hzeros _, fun d hd => .inl (h d hd)⟩
  · obtain ⟨point, hpoint⟩ : ∃ point, ((first :: rest).length + power).toNat = point + 1 :=
      ⟨((first :: rest).length + power).toNat - 1, by omega⟩
    rw [hpoint]
    refine ⟨first, _, rfl, hfirst, List.forall_mem_append.mpr ⟨?_, ?_⟩⟩
    · exact hdigits (List.take_subset _ _)
    · exact List.forall_mem_cons.mpr ⟨.inr rfl, hdigits (List.drop_subset point rest)⟩

end Positional

/-! ## Texts -/

/-- How finite numbers are written: a sign, a digit, and then digits and points. -/
def IsNumeral (text : List Char) : Prop :=
  ∃ sign c more, text = sign ++ c :: more ∧ (sign = [] ∨ sign = ['-']) ∧ c.isDigit = true ∧
    ∀ d ∈ more, d.isDigit = true ∨ d = '.'

/-- The digits of the magnitude of a number. -/
def body (x : Float) : List Char :=
  let magnitude := Binary.ofBits x.toBits
  if magnitude.significand = 0 then ['0']
  else (positional magnitude.shortest.1 magnitude.shortest.2).toList

theorem toList_text {x : Float} (h : x.isFinite = true) :
    (text x).toList = (if x.toBits.toNat < 2 ^ 63 then [] else ['-']) ++ body x := by
  obtain ⟨hnan, hinf⟩ := not_isNaN_of_isFinite h
  unfold text body
  simp only [hnan, hinf, Bool.false_eq_true, if_false, Nat.pow_eq]
  split_ifs <;> simp

theorem body_form (x : Float) : ∃ c more, body x = c :: more ∧ c.isDigit = true ∧
    ∀ d ∈ more, d.isDigit = true ∨ d = '.' := by
  have hcanonical := Binary.canonical_ofBits x.toBits
  unfold body
  generalize Binary.ofBits x.toBits = magnitude at hcanonical ⊢
  dsimp only
  split_ifs with hzero
  · exact ⟨'0', [], rfl, by decide, List.forall_mem_nil _⟩
  · obtain ⟨kept, places, hplaced, hdigits, hvalue⟩ :=
      trimmed_spec magnitude.shortest.1 magnitude.shortest.2
    rw [hplaced]
    refine placed_form hdigits ?_
    rintro rfl
    rw [Nat.ofDigitChars_nil, Nat.cast_zero, zero_mul] at hvalue
    have hlower := (Binary.encloses_shortest hcanonical hzero).lower
    rw [← hvalue] at hlower
    exact absurd hlower (not_le.mpr (Binary.lower_pos hzero))

theorem isNumeral_text {x : Float} (h : x.isFinite = true) : IsNumeral (text x).toList := by
  obtain ⟨c, more, hbody, hc, hmore⟩ := body_form x
  rw [toList_text h, hbody]
  refine ⟨_, c, more, rfl, ?_, hc, hmore⟩
  split
  · exact .inl rfl
  · exact .inr rfl

/-- What is written for a number lies in its interval. -/
theorem encloses_body (x : Float) : (Binary.ofBits x.toBits).Encloses (numeralValue (body x)) := by
  have hcanonical := Binary.canonical_ofBits x.toBits
  unfold body
  generalize Binary.ofBits x.toBits = magnitude at hcanonical ⊢
  dsimp only
  split_ifs with hzero
  · have hnone : numeralValue ['0'] = 0 := by simp [numeralValue, Nat.ofDigitChars]
    rw [hnone]
    refine ⟨?_, mul_nonneg (Nat.cast_nonneg _) magnitude.quarter_pos.le, fun hodd => by omega⟩
    simp [Binary.lower, hzero]
  · rw [numeralValue_positional]
    exact Binary.encloses_shortest hcanonical hzero

/-- **A finite number is known from its text.** -/
theorem text_injective {x y : Float} (hx : x.isFinite = true) (hy : y.isFinite = true)
    (h : text x = text y) : x = y := by
  have htext := congrArg String.toList h
  rw [toList_text hx, toList_text hy] at htext
  have hdigit (z : Float) (rest : List Char) : body z ≠ '-' :: rest := by
    obtain ⟨c, more, hbody, hc, -⟩ := body_form z
    rw [hbody]
    rintro ⟨⟩
    cases hc
  have hsame : (x.toBits.toNat < 2 ^ 63 ↔ y.toBits.toNat < 2 ^ 63) ∧ body x = body y := by
    split_ifs at htext with hfirst hsecond hsecond
    · exact ⟨iff_of_true hfirst hsecond, htext⟩
    · exact absurd htext (hdigit x _)
    · exact absurd htext.symm (hdigit y _)
    · exact ⟨iff_of_false hfirst hsecond, (List.cons.inj htext).2⟩
  have hmagnitude := Binary.Encloses.unique (Binary.canonical_ofBits x.toBits)
    (Binary.canonical_ofBits y.toBits) (encloses_body x) (hsame.2 ▸ encloses_body y)
  exact toBits_inj (Binary.ofBits_inj hsame.1 hmagnitude)

open Classical in
/-- The finite number with the text. -/
noncomputable def ofText? (text : String) : Option Float :=
  if h : ∃ x : Float, x.isFinite = true ∧ Number.text x = text then some h.choose else none

theorem ofText?_text {x : Float} (h : x.isFinite = true) : ofText? (text x) = some x := by
  have hsome : ∃ y : Float, y.isFinite = true ∧ text y = text x := ⟨x, h, rfl⟩
  rw [ofText?, dif_pos hsome]
  exact congrArg _ (text_injective hsome.choose_spec.1 h hsome.choose_spec.2)

theorem ofText?_eq_none {text : String} (h : ¬ IsNumeral text.toList) : ofText? text = none := by
  refine dif_neg ?_
  rintro ⟨x, hx, rfl⟩
  exact h (isNumeral_text hx)

end CommandScript.Number
