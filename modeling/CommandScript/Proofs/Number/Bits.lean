import CommandScript.Number.Reading
import CommandScript.Proofs.Number.Interval

/-!
# The bits of numbers

A number is known from its bits, and a finite one from its sign and its magnitude. The numbers
that sources write are finite unless they overflow: bits below those of infinity leave out the
exponent that infinities and what is no number have.

* `Binary.canonical_ofBits`, `Binary.ofBits_inj`: the magnitude of bits.
* `toBits_inj`: a number is known from its bits.
* `isFinite_ofBits`: bits below those of infinity.
* `readPlain_cases`: a number that is written plainly is finite or infinity.
-/

namespace CommandScript.Number

/-! ## Magnitudes -/

namespace Binary

theorem canonical_ofBits (bits : UInt64) : (ofBits bits).Canonical := by
  unfold ofBits
  have hlow : bits.toNat % Nat.pow 2 52 < 2 ^ 52 := Nat.mod_lt _ (by norm_num)
  dsimp only
  generalize bits.toNat % Nat.pow 2 52 = low at hlow ⊢
  generalize (bits.toNat / Nat.pow 2 52) % Nat.pow 2 11 = field
  split
  · exact ⟨hlow.trans (by norm_num), le_rfl, .inl rfl⟩
  · refine ⟨?_, ?_, .inr ?_⟩
    · exact Nat.add_lt_add_left hlow _
    · dsimp only
      omega
    · exact Nat.le_add_right _ _

/-- Bits are known from the magnitude and the sign. -/
theorem ofBits_inj {bits other : UInt64}
    (hsign : bits.toNat < 2 ^ 63 ↔ other.toNat < 2 ^ 63) (h : ofBits bits = ofBits other) :
    bits = other := by
  have hbits := bits.toNat_lt
  have hother := other.toNat_lt
  apply UInt64.toNat_inj.mp
  generalize hn : bits.toNat = n at hbits hsign
  generalize hm : other.toNat = m at hother hsign
  have hfields : n / 2 ^ 52 % 2 ^ 11 = m / 2 ^ 52 % 2 ^ 11 ∧ n % 2 ^ 52 = m % 2 ^ 52 := by
    rw [ofBits, ofBits, hn, hm] at h
    simp only [Nat.pow_eq] at h
    split at h <;> split at h <;> simp only [Binary.mk.injEq] at h <;> omega
  omega

end Binary

/-! ## Finite numbers -/

theorem toBits_inj {x y : Float} (h : x.toBits = y.toBits) : x = y := by
  obtain ⟨bits, hvalid⟩ := x
  obtain ⟨other, hother⟩ := y
  obtain rfl : bits = other := h
  rfl

theorem not_isNaN_of_isFinite {x : Float} (h : x.isFinite = true) :
    x.isNaN = false ∧ x.isInf = false := by
  change x.toModel.unpack.isFinite = true at h
  change x.toModel.unpack.isNaN = false ∧ x.toModel.unpack.isInf = false
  generalize x.toModel.unpack = unpacked at h ⊢
  cases unpacked with
  | infinity | notANumber => cases h
  | zero | finite => exact ⟨rfl, rfl⟩

section Exponents

open Float.Model UnpackedFloat

variable {bits : BitVec Format.binary64.numBits}

/-- Zero, or a number that is not too large to be packed. -/
def IsPackable : UnpackedFloat → Prop
  | .zero _ => True
  | .finite _ _ exponent _ => exponent < 972
  | .infinity _ | .notANumber => False

theorem isPackable_unpack (h : unpackExponent bits ≠ (-1#_)) :
    IsPackable (UnpackedFloat.unpack Format.binary64 bits) := by
  have hlt : (unpackExponent bits).toNat < 2047 := by
    have hbound : (unpackExponent bits).toNat < 2048 := (unpackExponent bits).isLt
    refine Nat.lt_of_le_of_ne (Nat.le_of_lt_succ hbound) fun hmax => h ?_
    exact BitVec.eq_of_toNat_eq hmax
  have hbias : (Format.binary64.exponentBias : Int) +
      (Format.binary64.mantissaBitsWithoutImplicit : Int) = 1075 := rfl
  unfold UnpackedFloat.unpack
  dsimp only
  rw [if_neg h]
  by_cases hzero : unpackExponent bits = 0#_
  · rw [if_pos hzero]
    by_cases hnone : unpackMantissa bits = 0#_
    · rw [dif_pos hnone]
      trivial
    · have hfield : (unpackExponent bits).toNat = 0 := by
        rw [hzero]
        rfl
      rw [dif_neg hnone]
      change ((unpackExponent bits).toNat : Int) - _ + 1 < 972
      rw [hbias, hfield]
      omega
  · rw [if_neg hzero]
    change ((unpackExponent bits).toNat : Int) - _ < 972
    rw [hbias]
    omega

theorem isFinite_unpack (h : unpackExponent bits ≠ (-1#_)) :
    (UnpackedFloat.unpack Format.binary64 bits).isFinite = true := by
  have hpackable := isPackable_unpack h
  generalize UnpackedFloat.unpack Format.binary64 bits = unpacked at hpackable ⊢
  cases unpacked with
  | zero | finite => rfl
  | infinity | notANumber => exact hpackable.elim

/-- What is packable is not packed as infinity. -/
theorem IsPackable.exponent_pack {unpacked : UnpackedFloat} (h : IsPackable unpacked) :
    @unpackExponent Format.binary64 (UnpackedFloat.pack Format.binary64 unpacked) ≠ (-1#_) := by
  cases unpacked with
  | infinity | notANumber => exact h.elim
  | zero sign =>
    change @unpackExponent Format.binary64 (packComponents _ _ _ _) ≠ _
    rw [unpackExponent_packComponents]
    decide
  | finite sign mantissa exponent hmantissa =>
    have hbound : exponent < 972 := h
    have hbiased : (exponent + (Format.binary64.exponentBias : Int) +
        (Format.binary64.mantissaBitsWithoutImplicit : Int)).toNat = (exponent + 1075).toNat := by
      change (exponent + 1023 + 52).toNat = _
      omega
    unfold UnpackedFloat.pack
    dsimp only
    rw [hbiased, if_neg (by change ¬ 2048 ≤ _; omega)]
    split
    · rw [unpackExponent_packComponents]
      intro hones
      have hnat := congrArg BitVec.toNat hones
      rw [BitVec.toNat_ofNat] at hnat
      change (exponent + 1075).toNat % 2048 = 2047 at hnat
      omega
    · rw [unpackExponent_packComponents]
      decide

end Exponents

/-- Bits below those of infinity are those of a finite number. -/
theorem isFinite_ofBits {n : Nat} (h : n < 0x7FF0000000000000) :
    (Float.ofBits (UInt64.ofNat n)).isFinite = true := by
  refine isFinite_unpack (isPackable_unpack fun hones => ?_).exponent_pack
  have hfield := congrArg BitVec.toNat hones
  change (UInt64.ofNat n).toBitVec.toNat >>> 52 % 2 ^ 11 = 2047 at hfield
  rw [Nat.shiftRight_eq_div_pow] at hfield
  change n % 2 ^ 64 / 2 ^ 52 % 2 ^ 11 = 2047 at hfield
  omega

theorem isFinite_zero : (0 : Float).isFinite = true := by rfl

/-! ## Numbers in sources -/

theorem nearest_cases (num den : Nat) :
    (nearest num den).isFinite = true ∨ nearest num den = infinity := by
  unfold nearest
  dsimp only
  split_ifs with hzero hbits
  · exact .inl isFinite_zero
  · exact .inl (isFinite_ofBits hbits)
  · exact .inr rfl

theorem ofDecimal_cases (digits : Nat) (exponent : Int) :
    (ofDecimal digits exponent).isFinite = true ∨ ofDecimal digits exponent = infinity := by
  unfold ofDecimal
  dsimp only
  split_ifs
  · exact .inl isFinite_zero
  · exact .inr rfl
  · exact .inl isFinite_zero
  · exact nearest_cases _ _
  · exact nearest_cases _ _

/-- A number that is written plainly is finite or infinity. -/
theorem readPlain_cases {text : List Char} {x : Float} (h : readPlain? text = some x) :
    x.isFinite = true ∨ x = infinity := by
  unfold readPlain? at h
  dsimp only at h
  split_ifs at h
  split at h
  · obtain rfl := Option.some.inj h
    exact ofDecimal_cases _ _
  · split_ifs at h
    obtain ⟨power, -, rfl⟩ := Option.map_eq_some_iff.mp h
    exact ofDecimal_cases _ _

end CommandScript.Number
