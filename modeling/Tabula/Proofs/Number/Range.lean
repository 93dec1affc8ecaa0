import Mathlib
import Tabula.Number.Basic

/-!
# Integers as doubles

An integer between `-2 ^ 64` and `2 ^ 64` has a nearest double, which is finite
(`isFinite_ofInt`). What is rounded to a double stays far below the greatest one: rounding raises
an exponent by little more than twice the length of the mantissa (`upTo_roundWithAccuracy`), and a
double is finite as long as its exponent is at most `971` (`upTo_unpack_pack`).
-/

set_option autoImplicit false

namespace Tabula.Double

open Float.Model Float.Model.UnpackedFloat

/-- Whether a double is zero, or finite with an exponent up to a bound. -/
def UpTo (bound : ℤ) : UnpackedFloat → Prop
  | .zero _ => True
  | .finite _ _ e _ => e ≤ bound
  | .infinity _ | .notANumber => False

theorem isFinite_of_upTo {bound : ℤ} {u : UnpackedFloat} (h : UpTo bound u) :
    u.isFinite = true := by
  cases u with
  | zero | finite => rfl
  | infinity | notANumber => exact absurd h id

theorem UpTo.mono {a b : ℤ} {u : UnpackedFloat} (h : UpTo a u) (hab : a ≤ b) : UpTo b u := by
  cases u with
  | finite s m e hm => exact le_trans h hab
  | zero | infinity | notANumber => exact h

theorem UpTo.neg {bound : ℤ} {u : UnpackedFloat} (h : UpTo bound u) : UpTo bound u.neg := by
  cases u with
  | zero | finite | infinity | notANumber => exact h

/-! ## Rounding -/

section Rounding

variable {m k : ℕ} {e : ℤ}

/-- Digits that are cut off leave a mantissa that is not greater. -/
theorem mantissa_shiftRight_le (em : ExtendedMantissa) (n : ℕ) :
    (em >>> n).mantissa ≤ em.mantissa := by
  show (n.repeat ExtendedMantissa.shiftRightOne em).mantissa ≤ em.mantissa
  induction n with
  | zero => exact le_rfl
  | succ n ih => exact le_trans (Nat.div_le_self _ 2) ih

theorem roundedMantissa_le (em : ExtendedMantissa) : em.roundedMantissa ≤ em.mantissa + 1 := by
  unfold ExtendedMantissa.roundedMantissa Accuracy.roundToNearestEven
  split
  all_goals omega

theorem totalExponent_le (hm : m < 2 ^ k) (hk : 1 ≤ k) : totalExponent m e ≤ e + k := by
  have hlog : m.log2 < k := by
    rcases Nat.eq_zero_or_pos m with rfl | hpos
    · exact hk
    · exact (Nat.log2_lt hpos.ne').mpr hm
  unfold totalExponent
  omega

/-- A mantissa is cut to what a double holds: the exponent grows by no more than its length. -/
theorem shiftToTargetExponent_le (hm : m < 2 ^ k) (hk : 1 ≤ k) (hlow : -1074 ≤ e + k)
    (accuracy : Accuracy) :
    e ≤ (shiftToTargetExponent Format.binary64 m e accuracy).2
      ∧ (shiftToTargetExponent Format.binary64 m e accuracy).2 ≤ e + k
      ∧ (shiftToTargetExponent Format.binary64 m e accuracy).1.mantissa ≤ m := by
  have htarget : Format.binary64.targetExponent (totalExponent m e) ≤ e + k := by
    have htotal := @totalExponent_le m k e hm hk
    have hmin : Format.binary64.minExponent = -1074 := rfl
    rw [Format.targetExponent, hmin]
    omega
  refine ⟨?_, ?_, ?_⟩
  · rw [shiftToTargetExponent, shiftToExponent]
    omega
  · rw [shiftToTargetExponent, shiftToExponent]
    omega
  · refine le_trans (mantissa_shiftRight_le _ _) ?_
    unfold ExtendedMantissa.ofMantissaAndAccuracy
    split
    all_goals exact le_rfl

/-- **Rounding raises an exponent by little more than twice the length of the mantissa**: once to
cut the mantissa, and once more when it was rounded up to the next length. -/
theorem upTo_roundWithAccuracy (hm : m < 2 ^ k) (hk : 1 ≤ k) (hlow : -1074 ≤ e + k) (s : Sign)
    (accuracy : Accuracy) :
    UpTo (e + 2 * k + 1) (roundWithAccuracy Format.binary64 s m e accuracy) := by
  obtain ⟨hge, hle, hmantissa⟩ := shiftToTargetExponent_le hm hk hlow accuracy
  unfold roundWithAccuracy
  set first := shiftToTargetExponent Format.binary64 m e accuracy
  have hrounded : first.1.roundedMantissa < 2 ^ (k + 1) := by
    have hnext := roundedMantissa_le first.1
    have hpow : 2 ^ (k + 1) = 2 * 2 ^ k := by ring
    have hone : 1 ≤ 2 ^ k := Nat.one_le_two_pow
    omega
  obtain ⟨-, hagain, -⟩ := @shiftToTargetExponent_le _ (k + 1) first.2 hrounded (by omega)
    (by omega) .exact
  dsimp only
  split
  next => trivial
  next =>
      show (shiftToTargetExponent Format.binary64 first.1.roundedMantissa first.2 .exact).2 ≤ _
      omega

end Rounding

/-! ## Bits -/

/-- The bits of an exponent count from the least exponent. -/
theorem bias_eq : (Format.binary64.exponentBias : ℤ) + Format.binary64.mantissaBitsWithoutImplicit
    = 1075 := rfl

/-- What is unpacked has the exponent of its bits, unless these stand for infinity. -/
theorem upTo_unpack_packComponents {bound : ℤ} (hlow : -1074 ≤ bound) (s : Sign) {x : BitVec 11}
    (hx : x.toNat < 2047) (hbound : (x.toNat : ℤ) - 1075 ≤ bound) (tail : BitVec 52) :
    UpTo bound
      (UnpackedFloat.unpack Format.binary64 (packComponents Format.binary64 s x tail)) := by
  have hexponent : unpackExponent (packComponents Format.binary64 s x tail) = x :=
    unpackExponent_packComponents
  unfold UnpackedFloat.unpack
  dsimp only
  split
  next hall =>
      obtain rfl : x = -1#11 := hexponent.symm.trans hall
      exact absurd hx (by decide)
  next =>
      split
      next hzero =>
          split
          next => trivial
          next =>
              show ((unpackExponent (packComponents Format.binary64 s x tail)).toNat : ℤ)
                - (_ + _) + 1 ≤ bound
              rw [hzero, bias_eq]
              exact hlow
      next =>
          show ((unpackExponent (packComponents Format.binary64 s x tail)).toNat : ℤ)
            - (_ + _) ≤ bound
          rw [hexponent, bias_eq]
          exact hbound

/-- **A double is finite when its exponent is small enough.** -/
theorem upTo_unpack_pack {bound : ℤ} (hlow : -1074 ≤ bound) (hhigh : bound ≤ 971)
    {u : UnpackedFloat} (h : UpTo bound u) :
    UpTo bound (UnpackedFloat.unpack Format.binary64 (UnpackedFloat.pack Format.binary64 u)) := by
  have hleast : ((0#11).toNat : ℤ) - 1075 ≤ bound := by
    show (0 : ℤ) - 1075 ≤ bound
    omega
  cases u with
  | infinity | notANumber => exact absurd h id
  | zero s => exact upTo_unpack_packComponents hlow s (by decide) hleast _
  | finite s m e hpos =>
      have he : e ≤ bound := h
      have hplace : (e + Format.binary64.exponentBias
          + Format.binary64.mantissaBitsWithoutImplicit).toNat = (e + 1075).toNat := by
        rw [add_assoc, bias_eq]
      unfold UnpackedFloat.pack
      dsimp only
      -- the exponent is far from that of infinity
      have hbelow : ¬ 2 ^ Format.binary64.exponentBits ≤ (e + 1075).toNat + 1 := by
        show ¬ 2048 ≤ (e + 1075).toNat + 1
        omega
      rw [hplace, if_neg hbelow]
      split
      next =>
          have hexponent : (BitVec.ofNat 11 (e + 1075).toNat).toNat = (e + 1075).toNat := by
            rw [BitVec.toNat_ofNat]
            exact Nat.mod_eq_of_lt (by omega)
          exact upTo_unpack_packComponents hlow s (by omega) (by omega) _
      next => exact upTo_unpack_packComponents hlow s (by decide) hleast _

/-- The mantissa and the exponent of what is unpacked are those of a double. -/
theorem lt_of_unpack_eq {bits : BitVec 64} {s : Sign} {m : ℕ} {e : ℤ} {hm : 0 < m}
    (h : UnpackedFloat.unpack Format.binary64 bits = .finite s m e hm) :
    m < 2 ^ 53 ∧ -1074 ≤ e := by
  unfold UnpackedFloat.unpack at h
  dsimp only at h
  split at h
  next => split at h <;> cases h
  next =>
      -- an exponent of zero marks a mantissa without its leading one
      split at h
      next =>
          split at h
          next => cases h
          next =>
              injection h with _ hmantissa hexponent
              rw [bias_eq] at hexponent
              have hlt : (@unpackMantissa Format.binary64 bits).toNat < 2 ^ 52 := BitVec.isLt _
              omega
      next hzero =>
          injection h with _ hmantissa hexponent
          rw [bias_eq] at hexponent
          have hlt : (1#1 ++ @unpackMantissa Format.binary64 bits).toNat < 2 ^ 53 := BitVec.isLt _
          have hpos : (@unpackExponent Format.binary64 bits).toNat ≠ 0 :=
            fun hnat => hzero (BitVec.eq_of_toNat_eq hnat)
          omega

/-! ## Integers -/

theorem shiftLeft_lt {n k shift more : ℕ} (hn : n < 2 ^ k) (hshift : shift ≤ more) :
    n <<< shift < 2 ^ (k + more) := by
  rw [Nat.shiftLeft_eq]
  calc
    n * 2 ^ shift < 2 ^ k * 2 ^ shift := Nat.mul_lt_mul_of_pos_right hn (by positivity)
    _ = 2 ^ (k + shift) := (pow_add 2 k shift).symm
    _ ≤ 2 ^ (k + more) := Nat.pow_le_pow_right (by decide) (by omega)

theorem upTo_round {n : ℕ} (hn : n < 2 ^ 64) (s : Sign) :
    UpTo 233 (UnpackedFloat.round Format.binary64 s n 0) := by
  rw [UnpackedFloat.round, decreaseExponent]
  set shift := (0 - Format.binary64.targetExponent (totalExponent n 0)).toNat with hshift
  have hle : shift ≤ 52 := by
    have htotal : 1 ≤ totalExponent n 0 := by
      unfold totalExponent
      omega
    have hbits : (Format.binary64.mantissaBits : ℤ) = 53 := rfl
    rw [hshift, Format.targetExponent, hbits]
    omega
  have hround := upTo_roundWithAccuracy (shiftLeft_lt hn hle) (by decide)
    (show -1074 ≤ (0 : ℤ) - shift + (64 + 52 : ℕ) by omega) s .exact
  exact hround.mono (by omega)

theorem upTo_ofNat {n : ℕ} (hn : n < 2 ^ 64) :
    UpTo 233 (UnpackedFloat.ofNat Format.binary64 n) := by
  rw [UnpackedFloat.ofNat, UnpackedFloat.ofInt, UnpackedFloat.normalize]
  split
  next hlt => exact absurd (compare_lt_iff_lt.mp hlt) (by omega)
  next => trivial
  next => exact upTo_round hn .positive

theorem unpack_one : (Float.ofBits 4607182418800017408).toModel.unpack
    = .finite .positive (2 ^ 52) (-52) (by decide) := rfl

/-- A short integer times the power `10 ^ 0`. -/
theorem upTo_mul_one {n : ℕ} (hn : n < 2 ^ 64) :
    UpTo 500 (n.toUInt64.toFloat * Float.ofBits 4607182418800017408).toModel.unpack := by
  have hint : n.toUInt64.toNat = n := UInt64.toNat_ofNat_of_lt hn
  have hfactor : UpTo 233 n.toUInt64.toFloat.toModel.unpack :=
    upTo_unpack_pack (by decide) (by decide) (upTo_ofNat (hint.symm ▸ hn))
  refine upTo_unpack_pack (by decide) (by decide) ?_
  show UpTo 500 (UnpackedFloat.mul Format.binary64 n.toUInt64.toFloat.toModel.unpack
    (Float.ofBits 4607182418800017408).toModel.unpack)
  rw [unpack_one]
  cases hu : n.toUInt64.toFloat.toModel.unpack with
  | infinity | notANumber =>
      rw [hu] at hfactor
      exact absurd hfactor id
  | zero => trivial
  | finite s m e hpos =>
      rw [hu] at hfactor
      have he : e ≤ 233 := hfactor
      obtain ⟨hm, hlow⟩ := lt_of_unpack_eq hu
      have hlt : m * 2 ^ 52 < 2 ^ 105 := by omega
      have hround := upTo_roundWithAccuracy hlt (by decide)
        (show -1074 ≤ e + -52 + (105 : ℕ) by omega) (s * .positive) .exact
      exact hround.mono (by omega)

/-- A long integer times the power `10 ^ 0`. -/
theorem upTo_ofScientific {n : ℕ} (hn : n < 2 ^ 64) :
    UpTo 500 (UnpackedFloat.ofScientific Format.binary64 n 0) := by
  have hlarge : (0 : ℤ) < 2 ^ Format.binary64.exponentBits := by positivity
  unfold UnpackedFloat.ofScientific
  split
  next => trivial
  next =>
      split
      next h => omega
      next =>
          split
          next => trivial
          next =>
              rw [if_pos le_rfl, UnpackedFloat.mul]
              have hlt : n <<< 53 * 10 ^ Int.toNat 0 < 2 ^ (64 + 53) := by
                rw [Int.toNat_zero, pow_zero, mul_one]
                exact shiftLeft_lt hn le_rfl
              show UpTo 500 (roundWithAccuracy Format.binary64 (.positive * .positive)
                (n <<< 53 * 10 ^ Int.toNat 0) (-(53 : ℕ) + 0) .exact)
              generalize n <<< 53 * 10 ^ Int.toNat 0 = mantissa at hlt ⊢
              have hround := @upTo_roundWithAccuracy mantissa (64 + 53) (-(53 : ℕ) + 0) hlt
                (by decide) (by decide) (.positive * .positive) .exact
              exact hround.mono (by decide)

/-- An integer is rounded to a double that is far from infinity. -/
theorem upTo_unpack_ofNat {n : ℕ} (hn : n < 2 ^ 64) : UpTo 500 (Float.ofNat n).toModel.unpack := by
  unfold Float.ofNat OfScientific.ofScientific instOfScientificFloat Float.ofScientific
  dsimp only
  split
  next => exact upTo_mul_one hn
  next => exact upTo_unpack_pack (by decide) (by decide) (upTo_ofScientific hn)

/-- **Integers of 64 bits are finite as doubles**, with a sign or without. -/
theorem isFinite_ofInt {i : ℤ} (hlow : -2 ^ 64 < i) (hhigh : i < 2 ^ 64) :
    (Float.ofInt i).isFinite = true := by
  cases i with
  | ofNat n =>
      have hn : n < 2 ^ 64 := Int.ofNat_lt.mp hhigh
      exact isFinite_of_upTo (upTo_unpack_ofNat hn)
  | negSucc n =>
      have hn : n.succ < 2 ^ 64 := by omega
      have hup := (upTo_unpack_ofNat hn).neg
      exact isFinite_of_upTo (upTo_unpack_pack (by decide) (by decide) hup)

end Tabula.Double

namespace Tabula.Number

/-- Whether a number is an integer of 64 bits, with a sign or without, or a finite double. -/
def isProper : Number → Bool
  | int i => -2 ^ 63 ≤ i && i < 2 ^ 64
  | float x => x.isFinite

/-- **The double of a number is finite.** -/
theorem isFinite_toFloat {n : Number} (h : n.isProper = true) : n.toFloat.isFinite = true := by
  cases n with
  | int i =>
      simp only [isProper, Bool.and_eq_true, decide_eq_true_eq] at h
      exact Double.isFinite_ofInt (by omega) h.2
  | float x => exact h

end Tabula.Number
