import Mathlib.Data.Nat.Cast.Order.Field
import Mathlib.Tactic.FieldSimp
import Mathlib.Tactic.Positivity
import Tabula.Number.Shortest
import Tabula.Proofs.Number.Places

/-!
# Shortest decimals

The shortest decimal of a double rounds to it. Whatever is found on a grid of decimals lies within
the reach of the double (`Reach.within_of_search`), which is all that rounds to it
(`Reach.within_ofPlace`). Something is always found: the reach is longer than the distance between
two decimals of seventeen digits (`Reach.wide_ofPlace`), so one of the two decimals around the
double lies in it (`Reach.nearest?_isSome`).
-/

set_option autoImplicit false

namespace Tabula

def Decimal.value (d : Decimal) : ℚ := d.digits * 10 ^ d.exponent

open Binary (ofPlace middle Rounds)

namespace Reach

/-! ## Within a reach -/

def Within (r : Reach) (q : ℚ) : Prop :=
  if r.closed then (r.low : ℚ) / r.unit ≤ q ∧ q ≤ (r.high : ℚ) / r.unit
  else (r.low : ℚ) / r.unit < q ∧ q < (r.high : ℚ) / r.unit

theorem within_of_lt {r : Reach} {q : ℚ} (hlow : (r.low : ℚ) / r.unit < q)
    (hhigh : q < (r.high : ℚ) / r.unit) : r.Within q := by
  unfold Within
  split
  next => exact ⟨hlow.le, hhigh.le⟩
  next => exact ⟨hlow, hhigh⟩

theorem holds_iff {r : Reach} (hunit : 0 < r.unit) {d : ℕ} : r.holds d = true ↔ r.Within d := by
  have hpos : (0 : ℚ) < r.unit := by exact_mod_cast hunit
  unfold holds Within
  split
  next =>
      rw [decide_eq_true_eq, div_le_iff₀ hpos, le_div_iff₀ hpos]
      norm_cast
  next =>
      rw [decide_eq_true_eq, div_lt_iff₀ hpos, lt_div_iff₀ hpos]
      norm_cast

/-- In a unit of another length, the reach is that many times shorter. -/
theorem ends_rescale (r : Reach) (e : ℤ) :
    ((r.rescale e).low : ℚ) / (r.rescale e).unit = r.low / r.unit / 10 ^ e
      ∧ ((r.rescale e).value : ℚ) / (r.rescale e).unit = r.value / r.unit / 10 ^ e
      ∧ ((r.rescale e).high : ℚ) / (r.rescale e).unit = r.high / r.unit / 10 ^ e := by
  unfold rescale
  split
  next h =>
      have hpow : (10 : ℚ) ^ e = 10 ^ e.toNat := by
        rw [← zpow_natCast, Int.toNat_of_nonneg h]
      rw [hpow]
      push_cast [Nat.pow_eq]
      exact ⟨(div_div _ _ _).symm, (div_div _ _ _).symm, (div_div _ _ _).symm⟩
  next h =>
      have hpow : (10 : ℚ) ^ e = (10 ^ (-e).toNat)⁻¹ := by
        rw [← zpow_natCast, Int.toNat_of_nonneg (by omega), zpow_neg, inv_inv]
      rw [hpow]
      push_cast [Nat.pow_eq]
      refine ⟨?_, ?_, ?_⟩ <;> rw [div_inv_eq_mul, div_mul_eq_mul_div]

theorem unit_rescale {r : Reach} (hunit : 0 < r.unit) (e : ℤ) : 0 < (r.rescale e).unit := by
  unfold rescale
  split
  next => exact Nat.mul_pos hunit (Nat.pow_pos (by decide))
  next => exact hunit

theorem closed_rescale (r : Reach) (e : ℤ) : (r.rescale e).closed = r.closed := by
  unfold rescale
  split <;> rfl

theorem within_rescale {r : Reach} {e : ℤ} {q : ℚ} :
    (r.rescale e).Within q ↔ r.Within (q * 10 ^ e) := by
  have hpos : (0 : ℚ) < 10 ^ e := zpow_pos (by norm_num) e
  obtain ⟨hlow, -, hhigh⟩ := ends_rescale r e
  rw [Within, Within, closed_rescale, hlow, hhigh, div_le_iff₀ hpos, le_div_iff₀ hpos,
    div_lt_iff₀ hpos, lt_div_iff₀ hpos]

/-! ## Searching -/

theorem holds_of_nearest? {r : Reach} {tie : Tie} {d : ℕ} (h : r.nearest? tie = some d) :
    r.holds d = true := by
  simp only [nearest?] at h
  split at h
  next hlower hupper =>
      split at h
      next => exact Option.some.inj h ▸ hlower
      next =>
          split at h
          next => exact Option.some.inj h ▸ hupper
          next =>
              cases tie with
              | up => exact Option.some.inj h ▸ hupper
              | toEven =>
                  rw [← Option.some.inj h]
                  split
                  next => exact hlower
                  next => exact hupper
  next hlower _ => exact Option.some.inj h ▸ hlower
  next hupper => exact Option.some.inj h ▸ hupper
  next => cases h

/-- **A reach that is longer than the unit holds an integer** next to its value. -/
theorem nearest?_isSome {r : Reach} (hunit : 0 < r.unit) (tie : Tie)
    (hlow : (r.low : ℚ) / r.unit < r.value / r.unit)
    (hhigh : (r.value : ℚ) / r.unit < r.high / r.unit)
    (hlong : 1 < (r.high : ℚ) / r.unit - r.low / r.unit) : ∃ d, r.nearest? tie = some d := by
  have hpos : (0 : ℚ) < r.unit := by exact_mod_cast hunit
  have hle : ((r.value / r.unit : ℕ) : ℚ) ≤ r.value / r.unit := Nat.cast_div_le
  have hlt : (r.value : ℚ) / r.unit < (r.value / r.unit : ℕ) + 1 := by
    rw [div_lt_iff₀ hpos, add_mul, one_mul]
    exact_mod_cast Nat.lt_div_mul_add hunit
  have hsome : r.holds (r.value / r.unit) = true ∨ r.holds (r.value / r.unit + 1) = true := by
    by_contra hnone
    rw [not_or, holds_iff hunit, holds_iff hunit] at hnone
    -- the integers on both sides lie outside, so the reach fits between them
    have hbelow : ((r.value / r.unit : ℕ) : ℚ) ≤ r.low / r.unit := by
      by_contra hin
      exact hnone.1 (within_of_lt (not_le.mp hin) (hle.trans_lt hhigh))
    have habove : (r.high : ℚ) / r.unit ≤ ((r.value / r.unit + 1 : ℕ) : ℚ) := by
      by_contra hin
      refine hnone.2 (within_of_lt (hlow.trans ?_) (not_le.mp hin))
      push_cast
      exact hlt
    push_cast at habove
    linarith
  simp only [nearest?]
  split
  next =>
      split
      next => exact ⟨_, rfl⟩
      next =>
          split
          next => exact ⟨_, rfl⟩
          next => cases tie <;> exact ⟨_, rfl⟩
  next => exact ⟨_, rfl⟩
  next => exact ⟨_, rfl⟩
  next hlower hupper => simp [hlower, hupper] at hsome

theorem within_of_search {r : Reach} (hunit : 0 < r.unit) {tie : Tie} {e : ℤ} {more : ℕ} {n : ℤ}
    {d : Decimal} (h : r.search tie e more n = some d) : r.Within d.value := by
  induction more generalizing n with
  | zero => cases h
  | succ more ih =>
      rw [search] at h
      split at h
      next digits hfound =>
          obtain rfl := Option.some.inj h
          have hheld := (holds_iff (unit_rescale hunit _)).mp (holds_of_nearest? hfound)
          exact within_rescale.mp hheld
      next => exact ih h

/-- Something is found when there is something on the last grid. -/
theorem search_isSome {r : Reach} {tie : Tie} {e : ℤ} {more : ℕ} {n : ℤ}
    (h : ∃ d, (r.rescale (e - (n + more) + 1)).nearest? tie = some d) :
    ∃ d, r.search tie e (more + 1) n = some d := by
  induction more generalizing n with
  | zero =>
      obtain ⟨d, hd⟩ := h
      rw [Nat.cast_zero, add_zero] at hd
      rw [search, hd]
      exact ⟨_, rfl⟩
  | succ more ih =>
      rw [search]
      split
      next => exact ⟨_, rfl⟩
      next =>
          refine ih ?_
          have heq : n + 1 + (more : ℤ) = n + ((more + 1 : ℕ) : ℤ) := by
            push_cast
            ring
          rwa [heq]

/-! ## The reach of a double -/

/-- The unit of a number as a fraction of integers. -/
theorem unit_eq_div (e : ℤ) :
    (2 : ℚ) ^ e = ((if 0 ≤ e then Nat.pow 2 e.toNat else 1 : ℕ) : ℚ)
      / ((if 0 ≤ e then 1 else Nat.pow 2 (-e).toNat : ℕ) : ℚ) := by
  by_cases h : 0 ≤ e
  · rw [if_pos h, if_pos h, Nat.cast_one, div_one, Nat.pow_eq, Nat.cast_pow, Nat.cast_ofNat,
      ← zpow_natCast, Int.toNat_of_nonneg h]
  · rw [if_neg h, if_neg h, Nat.cast_one, one_div, Nat.pow_eq, Nat.cast_pow, Nat.cast_ofNat,
      ← zpow_natCast, Int.toNat_of_nonneg (by omega), zpow_neg, inv_inv]

theorem unit_ofBinary (b : Binary) : 0 < (ofBinary b).unit := by
  show 0 < 4 * (if 0 ≤ b.exponent then 1 else Nat.pow 2 (-b.exponent).toNat)
  split
  next => decide
  next => exact Nat.mul_pos (by decide) (Nat.pow_pos (by decide))

/-- How far the reach of a number goes down, in quarters of its unit. -/
def below (b : Binary) : ℕ := if b.mantissa = Nat.pow 2 52 ∧ -1074 < b.exponent then 1 else 2

/-- The ends of a reach, by the magnitude and the unit of the number. -/
theorem ends_ofBinary {b : Binary} (hb : 0 < b.mantissa) :
    ((ofBinary b).low : ℚ) / (ofBinary b).unit = b.magnitude - below b / 4 * 2 ^ b.exponent
      ∧ ((ofBinary b).value : ℚ) / (ofBinary b).unit = b.magnitude
      ∧ ((ofBinary b).high : ℚ) / (ofBinary b).unit = b.magnitude + 2 ^ b.exponent / 2 := by
  have hunit := unit_eq_div b.exponent
  have hpos : (0 : ℚ) < (ofBinary b).unit := by exact_mod_cast unit_ofBinary b
  have hbelow : below b ≤ 4 * b.mantissa := by
    unfold below
    split <;> omega
  have hlow : (ofBinary b).low = (4 * b.mantissa - below b)
    * (if 0 ≤ b.exponent then Nat.pow 2 b.exponent.toNat else 1) := rfl
  have hvalue : (ofBinary b).value = 4 * b.mantissa
    * (if 0 ≤ b.exponent then Nat.pow 2 b.exponent.toNat else 1) := rfl
  have hhigh : (ofBinary b).high = (4 * b.mantissa + 2)
    * (if 0 ≤ b.exponent then Nat.pow 2 b.exponent.toNat else 1) := rfl
  have hwhole : (ofBinary b).unit
    = 4 * (if 0 ≤ b.exponent then 1 else Nat.pow 2 (-b.exponent).toNat) := rfl
  -- with a common denominator the three are integers in quarters of the last place
  rw [hwhole] at hpos ⊢
  rw [hlow, hvalue, hhigh, Binary.magnitude, hunit]
  generalize (if 0 ≤ b.exponent then Nat.pow 2 b.exponent.toNat else 1) = scale
  generalize (if 0 ≤ b.exponent then 1 else Nat.pow 2 (-b.exponent).toNat) = parts at hpos ⊢
  have hparts : (parts : ℚ) ≠ 0 := by
    rintro hzero
    rw [Nat.cast_mul, hzero, mul_zero] at hpos
    exact lt_irrefl _ hpos
  push_cast [Nat.cast_sub hbelow]
  refine ⟨?_, ?_, ?_⟩
  · field_simp
  · field_simp
  · field_simp
    ring

/-- A reach goes down half as far where the unit is twice that of the place before. -/
theorem below_ofPlace (n : ℕ) :
    below (ofPlace (n + 1)) = 1 ∧ (ofPlace (n + 1)).exponent = (ofPlace n).exponent + 1
      ∨ below (ofPlace (n + 1)) = 2 ∧ (ofPlace (n + 1)).exponent = (ofPlace n).exponent := by
  have hmantissa : (ofPlace (n + 1)).mantissa
    = if (n + 1) / 2 ^ 52 = 0 then n + 1 else 2 ^ 52 + (n + 1) % 2 ^ 52 := rfl
  have hexponent (k : ℕ) : (ofPlace k).exponent
    = if k / 2 ^ 52 = 0 then -1074 else ((k / 2 ^ 52 : ℕ) : ℤ) - 1075 := rfl
  rw [below, hmantissa, hexponent, hexponent, Nat.pow_eq]
  by_cases hfirst : (n + 1) % 2 ^ 52 = 0 ∧ 1 < (n + 1) / 2 ^ 52
  · left
    have hraw : ¬ (n + 1) / 2 ^ 52 = 0 := by omega
    have hbefore : ¬ n / 2 ^ 52 = 0 := by omega
    rw [if_neg hraw, if_neg hraw, if_neg hbefore, if_pos (by omega)]
    omega
  · right
    by_cases hraw : (n + 1) / 2 ^ 52 = 0
    · rw [if_pos hraw, if_pos hraw, if_neg (by omega), if_pos (by omega)]
      exact ⟨rfl, rfl⟩
    · rw [if_neg hraw, if_neg hraw, if_neg (by omega)]
      split <;> omega

/-- The ends of the reach of the number at a place are half way to the places beside it. -/
theorem ends_ofPlace (n : ℕ) :
    ((ofBinary (ofPlace (n + 1))).low : ℚ) / (ofBinary (ofPlace (n + 1))).unit = middle n
      ∧ ((ofBinary (ofPlace (n + 1))).value : ℚ) / (ofBinary (ofPlace (n + 1))).unit
        = (ofPlace (n + 1)).magnitude
      ∧ ((ofBinary (ofPlace (n + 1))).high : ℚ) / (ofBinary (ofPlace (n + 1))).unit
        = middle (n + 1) := by
  have hmantissa : 0 < (ofPlace (n + 1)).mantissa := by
    show 0 < if (n + 1) / 2 ^ 52 = 0 then n + 1 else 2 ^ 52 + (n + 1) % 2 ^ 52
    split <;> omega
  obtain ⟨hlow, hvalue, hhigh⟩ := ends_ofBinary hmantissa
  refine ⟨?_, hvalue, hhigh⟩
  rw [hlow, middle, Binary.magnitude_ofPlace_succ]
  rcases below_ofPlace n with ⟨hbelow, hexp⟩ | ⟨hbelow, hexp⟩
  · rw [hbelow, hexp, Binary.mul_unit_succ]
    push_cast
    ring
  · rw [hbelow, hexp]
    push_cast
    ring

theorem closed_ofPlace (n : ℕ) : (ofBinary (ofPlace (n + 1))).closed = decide (n % 2 = 1) := by
  show decide ((ofPlace (n + 1)).mantissa % 2 = 0) = _
  have hmantissa : (ofPlace (n + 1)).mantissa
    = if (n + 1) / 2 ^ 52 = 0 then n + 1 else 2 ^ 52 + (n + 1) % 2 ^ 52 := rfl
  rw [hmantissa]
  refine decide_eq_decide.mpr ?_
  split <;> omega

/-- **The reach of a double is what rounds to it.** -/
theorem within_ofPlace {n : ℕ} {q : ℚ} :
    (ofBinary (ofPlace (n + 1))).Within q ↔ Rounds n q := by
  obtain ⟨hlow, -, hhigh⟩ := ends_ofPlace n
  rw [Within, Rounds, hlow, hhigh, closed_ofPlace]
  by_cases hodd : n % 2 = 1
  · rw [if_pos (decide_eq_true hodd), if_pos hodd]
  · rw [if_neg (by simpa using hodd), if_neg hodd]

/-! ## Seventeen digits -/

/-- A fraction is not below the power of ten of the leading digit that it has when it is cut off
after some decimal places. -/
theorem pow_length_le {v u k : ℕ} (hu : 0 < u) (h : 1 ≤ (v : ℚ) / u * 10 ^ k) :
    (10 : ℚ) ^ (((Nat.toDigits 10 (v * Nat.pow 10 k / u)).length : ℤ) - (k + 1)) ≤ v / u := by
  have hpos : (0 : ℚ) < u := by exact_mod_cast hu
  have hcut : ((v * Nat.pow 10 k / u : ℕ) : ℚ) ≤ v / u * 10 ^ k := by
    refine Nat.cast_div_le.trans (le_of_eq ?_)
    rw [Nat.cast_mul, Nat.pow_eq, Nat.cast_pow, Nat.cast_ofNat, div_mul_eq_mul_div]
  have hone : 1 ≤ v * Nat.pow 10 k / u := by
    rw [Nat.le_div_iff_mul_le hu, one_mul, Nat.pow_eq]
    rw [div_mul_eq_mul_div, le_div_iff₀ hpos, one_mul] at h
    exact_mod_cast h
  generalize v * Nat.pow 10 k / u = scaled at hcut hone ⊢
  have hlength : 0 < (Nat.toDigits 10 scaled).length := Nat.length_toDigits_pos
  have hdigits : 10 ^ ((Nat.toDigits 10 scaled).length - 1) ≤ scaled := by
    by_cases hsingle : (Nat.toDigits 10 scaled).length = 1
    · rw [hsingle]
      exact hone
    · by_contra hlt
      have := (Nat.length_toDigits_le_iff (by decide) (by omega)).mpr (not_le.mp hlt)
      omega
  have hexp : ((Nat.toDigits 10 scaled).length : ℤ) - (k + 1)
      = ((Nat.toDigits 10 scaled).length - 1 : ℕ) - (k : ℤ) := by omega
  rw [hexp, zpow_sub₀ (by norm_num), zpow_natCast, zpow_natCast, div_le_iff₀ (by positivity)]
  refine le_trans ?_ hcut
  exact_mod_cast hdigits

/-- The leading digit stands at the exponent that is told, or above. -/
theorem pow_leadingExponent_le {r : Reach} (hunit : 0 < r.unit)
    (h : 1 ≤ (r.value : ℚ) / r.unit * 10 ^ 400) :
    (10 : ℚ) ^ r.leadingExponent ≤ r.value / r.unit := by
  have hplaces : ((400 : ℕ) : ℤ) + 1 = 401 := rfl
  have hbound := @pow_length_le r.value r.unit 400 hunit h
  rw [hplaces] at hbound
  rw [leadingExponent]
  exact hbound

/-- The least magnitude above zero has its digits within the first four hundred places. -/
theorem one_le_magnitude (n : ℕ) : 1 ≤ (ofPlace (n + 1)).magnitude * 10 ^ 400 := by
  have hleast : (2 ^ 1074 : ℚ)⁻¹ ≤ (ofPlace (n + 1)).magnitude := by
    have hmono := Binary.strictMono_magnitude.monotone (Nat.le_add_left 1 n)
    refine le_trans (le_of_eq ?_) hmono
    have hone : (ofPlace 1).magnitude = (1 : ℕ) * 2 ^ (-((1074 : ℕ) : ℤ)) := rfl
    show _ = (ofPlace 1).magnitude
    rw [hone, Nat.cast_one, one_mul, zpow_neg, zpow_natCast]
  have hpow : (2 ^ 1074 : ℚ) ≤ 10 ^ 400 := by
    calc (2 ^ 1074 : ℚ) = (2 ^ 3) ^ 358 := by rw [← pow_mul]
      _ ≤ 10 ^ 358 := pow_le_pow_left₀ (by norm_num) (by norm_num) 358
      _ ≤ 10 ^ 400 := pow_le_pow_right₀ (by norm_num) (by norm_num)
  have hpos : (0 : ℚ) < 2 ^ 1074 := pow_pos (by norm_num) 1074
  calc (1 : ℚ) = (2 ^ 1074)⁻¹ * 2 ^ 1074 := (inv_mul_cancel₀ hpos.ne').symm
    _ ≤ (ofPlace (n + 1)).magnitude * 10 ^ 400 :=
        mul_le_mul hleast hpow hpos.le ((inv_pos.mpr hpos).le.trans hleast)

theorem mantissa_lt (n : ℕ) : (ofPlace n).mantissa < 2 ^ 53 := by
  show (if n / 2 ^ 52 = 0 then n else 2 ^ 52 + n % 2 ^ 52) < 2 ^ 53
  split <;> omega

/-- **The reach of a double is longer than one step between decimals of seventeen digits.** -/
theorem wide_ofPlace {n : ℕ} {e : ℤ} (h : (10 : ℚ) ^ e ≤ (ofPlace (n + 1)).magnitude) :
    (10 : ℚ) ^ (e - 16) < middle (n + 1) - middle n := by
  have hunit := Binary.unit_pos (ofPlace (n + 1)).exponent
  have hstep : (10 : ℚ) ^ (e - 16) = 10 ^ e / 10 ^ 16 := by
    rw [zpow_sub₀ (by norm_num)]
    rfl
  have hwidth : middle (n + 1) - middle n
      = 2 ^ (ofPlace (n + 1)).exponent / 2 + 2 ^ (ofPlace n).exponent / 2 := by
    rw [middle, middle, Binary.magnitude_ofPlace_succ]
    ring
  rw [hstep, hwidth]
  rw [Binary.magnitude] at h
  rcases below_ofPlace n with ⟨hbelow, hexp⟩ | ⟨-, hexp⟩
  · -- above a power of two the mantissa is the least one
    have hmantissa : (ofPlace (n + 1)).mantissa = 2 ^ 52 := by
      unfold below at hbelow
      split at hbelow
      next hfirst => exact hfirst.1
      next => cases hbelow
    have hhalf : (2 : ℚ) ^ (ofPlace (n + 1)).exponent = 2 * 2 ^ (ofPlace n).exponent := by
      rw [hexp, zpow_add_one₀ (by norm_num), mul_comm]
    rw [hmantissa] at h
    push_cast at h
    linarith
  · have hmantissa : ((ofPlace (n + 1)).mantissa : ℚ) ≤ 2 ^ 53 := by
      exact_mod_cast (mantissa_lt (n + 1)).le
    have hbound := h.trans (mul_le_mul_of_nonneg_right hmantissa hunit.le)
    rw [← hexp]
    linarith

/-- **Seventeen digits always suffice.** -/
theorem search_ofPlace (n : ℕ) (tie : Tie) :
    ∃ d, (ofBinary (ofPlace (n + 1))).search tie (ofBinary (ofPlace (n + 1))).leadingExponent 17 1
      = some d := by
  generalize hr : ofBinary (ofPlace (n + 1)) = r
  have hunit : 0 < r.unit := hr ▸ unit_ofBinary _
  obtain ⟨hlow, hvalue, hhigh⟩ := hr ▸ ends_ofPlace n
  have hleading : (10 : ℚ) ^ r.leadingExponent ≤ (ofPlace (n + 1)).magnitude := by
    rw [← hvalue]
    exact pow_leadingExponent_le hunit (by rw [hvalue]; exact one_le_magnitude n)
  have hwide := wide_ofPlace hleading
  have hpos : (0 : ℚ) < 10 ^ (r.leadingExponent - 16) := zpow_pos (by norm_num) _
  refine search_isSome ?_
  have hgrid : r.leadingExponent - (1 + ((16 : ℕ) : ℤ)) + 1 = r.leadingExponent - 16 := by
    push_cast
    ring
  rw [hgrid]
  obtain ⟨hlow', hvalue', hhigh'⟩ := ends_rescale r (r.leadingExponent - 16)
  -- the reach is wider than the last grid
  refine nearest?_isSome (unit_rescale hunit _) tie ?_ ?_ ?_
  · rw [hlow', hvalue', hlow, hvalue]
    exact div_lt_div_of_pos_right (Binary.middle_lt_magnitude n) hpos
  · rw [hvalue', hhigh', hvalue, hhigh]
    exact div_lt_div_of_pos_right (Binary.magnitude_lt_middle (n + 1)) hpos
  · rw [hlow', hhigh', hlow, hhigh, ← sub_div, lt_div_iff₀ hpos, one_mul]
    exact hwide

end Reach

namespace Decimal

theorem value_trim (fuel : ℕ) (d : Decimal) : (trim fuel d).value = d.value := by
  induction fuel generalizing d with
  | zero => rfl
  | succ fuel ih =>
      rw [trim]
      split
      next h =>
          have hdigits : (d.digits : ℚ) = 10 * (d.digits / 10 : ℕ) := by
            exact_mod_cast (Nat.mul_div_cancel' (Nat.dvd_of_mod_eq_zero h.2)).symm
          rw [ih, value, value, zpow_add_one₀ (by norm_num), hdigits]
          ring
      next => rfl

/-- **The shortest decimal of a double rounds to it.** -/
theorem rounds_shortest {x : Float} {n : ℕ} (h : Double.place x = n + 1) (tie : Tie) :
    Rounds n (shortest x tie).value := by
  have hofFloat := Double.ofFloat_eq x
  rw [h] at hofFloat
  have hmantissa : ¬ (Binary.ofFloat x).mantissa = 0 := by
    rw [hofFloat]
    show ¬ (if (n + 1) / 2 ^ 52 = 0 then n + 1 else 2 ^ 52 + (n + 1) % 2 ^ 52) = 0
    split <;> omega
  have hreach : Reach.ofBinary (Binary.ofFloat x) = Reach.ofBinary (ofPlace (n + 1)) := by
    rw [hofFloat]
    rfl
  obtain ⟨d, hd⟩ := Reach.search_ofPlace n tie
  simp only [shortest, if_neg hmantissa, hreach, hd, Option.getD_some]
  rw [value_trim, ← Reach.within_ofPlace]
  exact Reach.within_of_search (Reach.unit_ofBinary _) hd

end Decimal

end Tabula
