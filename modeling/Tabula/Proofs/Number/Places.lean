import Mathlib.Algebra.Order.Field.Power
import Mathlib.Algebra.Order.Field.Rat
import Mathlib.Data.Int.ConditionallyCompleteOrder
import Mathlib.Data.Rat.Cast.Order
import Mathlib.Tactic.Linarith
import Mathlib.Tactic.Ring
import Tabula.Number.Basic

/-!
# Places of doubles

The doubles from zero on stand one after another on the number line, and their places count them:
each step goes up by the distance that the exponent tells (`Binary.magnitude_ofPlace_succ`). So
places are in the order of the exact values (`Double.orderKey_lt_iff`), and half way between each
two neighbours (`Binary.middle`) the numbers that round to the one end and those that round to the
other begin. What stands for a double by rounding to it stands for no other one
(`Binary.Rounds.unique`).
-/

set_option autoImplicit false

namespace Tabula

namespace Binary

/-! ## Exact values -/

def magnitude (b : Binary) : ℚ := b.mantissa * 2 ^ b.exponent

def value (b : Binary) : ℚ := if b.negative then -b.magnitude else b.magnitude

/-- The number at a place, counted from zero. -/
def ofPlace (n : ℕ) : Binary where
  negative := false
  mantissa := if n / 2 ^ 52 = 0 then n else 2 ^ 52 + n % 2 ^ 52
  exponent := if n / 2 ^ 52 = 0 then -1074 else (n / 2 ^ 52 : ℕ) - 1075

theorem unit_pos (e : ℤ) : (0 : ℚ) < 2 ^ e := zpow_pos (by norm_num) e

/-- A number with twice the mantissa and half the unit. -/
theorem mul_unit_succ (m : ℚ) (e : ℤ) : m * 2 ^ (e + 1) = 2 * m * 2 ^ e := by
  rw [zpow_add_one₀ (by norm_num)]
  ring

/-- **From one place to the next**, magnitudes go up by the unit of the first. -/
theorem magnitude_ofPlace_succ (n : ℕ) :
    (ofPlace (n + 1)).magnitude = (ofPlace n).magnitude + 2 ^ (ofPlace n).exponent := by
  simp only [magnitude, ofPlace]
  by_cases hlast : n % 2 ^ 52 = 2 ^ 52 - 1
  · -- the mantissa is full, and the next exponent begins
    have hdiv : (n + 1) / 2 ^ 52 = n / 2 ^ 52 + 1 := by omega
    have hmod : (n + 1) % 2 ^ 52 = 0 := by omega
    rw [hdiv, hmod, if_neg (Nat.succ_ne_zero _), if_neg (Nat.succ_ne_zero _)]
    by_cases hraw : n / 2 ^ 52 = 0
    · have hn : n = 2 ^ 52 - 1 := by omega
      have hexp : ((0 + 1 : ℕ) : ℤ) - 1075 = -1074 := by norm_num
      rw [if_pos hraw, if_pos hraw, hraw, hn, hexp]
      generalize (2 : ℚ) ^ (-1074 : ℤ) = unit
      push_cast
      ring
    · rw [if_neg hraw, if_neg hraw, hlast]
      have hexp : ((n / 2 ^ 52 + 1 : ℕ) : ℤ) - 1075 = ((n / 2 ^ 52 : ℕ) : ℤ) - 1075 + 1 := by
        push_cast
        ring
      rw [hexp, mul_unit_succ]
      push_cast
      ring
  · have hdiv : (n + 1) / 2 ^ 52 = n / 2 ^ 52 := by omega
    have hmod : (n + 1) % 2 ^ 52 = n % 2 ^ 52 + 1 := by omega
    rw [hdiv, hmod]
    by_cases hraw : n / 2 ^ 52 = 0
    · rw [if_pos hraw, if_pos hraw, if_pos hraw]
      generalize (2 : ℚ) ^ (-1074 : ℤ) = unit
      push_cast
      ring
    · rw [if_neg hraw, if_neg hraw, if_neg hraw]
      push_cast
      ring

theorem magnitude_ofPlace_zero : (ofPlace 0).magnitude = 0 := by
  simp [magnitude, ofPlace]

theorem strictMono_magnitude : StrictMono fun n => (ofPlace n).magnitude :=
  strictMono_nat_of_lt_succ fun n => by
    have := unit_pos (ofPlace n).exponent
    rw [magnitude_ofPlace_succ]
    linarith

/-! ## Rounding -/

def middle (n : ℕ) : ℚ := (ofPlace n).magnitude + 2 ^ (ofPlace n).exponent / 2

theorem magnitude_lt_middle (n : ℕ) : (ofPlace n).magnitude < middle n := by
  have := unit_pos (ofPlace n).exponent
  rw [middle]
  linarith

theorem middle_lt_magnitude (n : ℕ) : middle n < (ofPlace (n + 1)).magnitude := by
  have := unit_pos (ofPlace n).exponent
  rw [middle, magnitude_ofPlace_succ]
  linarith

theorem strictMono_middle : StrictMono middle :=
  strictMono_nat_of_lt_succ fun n => (middle_lt_magnitude n).trans (magnitude_lt_middle (n + 1))

/-- Whether a number rounds to the one at the place after `n`: it lies between the two middles
beside it, and half way it goes to the even one. -/
def Rounds (n : ℕ) (q : ℚ) : Prop :=
  if n % 2 = 1 then middle n ≤ q ∧ q ≤ middle (n + 1) else middle n < q ∧ q < middle (n + 1)

theorem Rounds.le {n : ℕ} {q : ℚ} (h : Rounds n q) : middle n ≤ q ∧ q ≤ middle (n + 1) := by
  unfold Rounds at h
  split at h
  next => exact h
  next => exact ⟨h.1.le, h.2.le⟩

/-- Only positive numbers round to the places after zero. -/
theorem Rounds.pos {n : ℕ} {q : ℚ} (h : Rounds n q) : 0 < q := by
  have hzero : (ofPlace 0).magnitude ≤ (ofPlace n).magnitude :=
    strictMono_magnitude.monotone (Nat.zero_le n)
  rw [magnitude_ofPlace_zero] at hzero
  exact (hzero.trans_lt (magnitude_lt_middle n)).trans_le h.le.1

theorem rounds_magnitude (n : ℕ) : Rounds n (ofPlace (n + 1)).magnitude := by
  have hbelow := middle_lt_magnitude n
  have habove := magnitude_lt_middle (n + 1)
  unfold Rounds
  split
  next => exact ⟨hbelow.le, habove.le⟩
  next => exact ⟨hbelow, habove⟩

/-- **A number rounds to one place only.** -/
theorem Rounds.unique {n k : ℕ} {q : ℚ} (h : Rounds n q) (h' : Rounds k q) : n = k := by
  -- of two places the first one ends where, or before, the second one begins
  have apart {n k : ℕ} (h : Rounds n q) (h' : Rounds k q) : ¬ n < k := by
    intro hlt
    have hmid : middle (n + 1) ≤ middle k := strictMono_middle.monotone hlt
    have heq : middle (n + 1) = middle k := le_antisymm hmid (h'.le.1.trans h.le.2)
    have hnext : n + 1 = k := strictMono_middle.injective heq
    subst hnext
    have hle := h.le.2
    have hge := h'.le.1
    -- neighbours do not both take the number between them
    unfold Rounds at h h'
    by_cases hodd : n % 2 = 1
    · rw [if_neg (by omega)] at h'
      exact absurd hle (not_le.mpr h'.1)
    · rw [if_neg hodd] at h
      exact absurd hge (not_le.mpr h.2)
  rcases Nat.lt_trichotomy n k with hlt | heq | hgt
  · exact absurd hlt (apart h h')
  · exact heq
  · exact absurd hgt (apart h' h)

/-- What is not greater rounds to a place that is not greater. -/
theorem Rounds.le_of_le {n k : ℕ} {p q : ℚ} (hn : Rounds n p) (hk : Rounds k q) (h : p ≤ q) :
    n ≤ k := by
  by_contra hlt
  -- then the smaller number would lie above a middle below which the greater one lies
  have hmiddle : middle (k + 1) ≤ middle n := strictMono_middle.monotone (Nat.lt_of_not_le hlt)
  obtain rfl : p = q := le_antisymm h (hk.le.2.trans (hmiddle.trans hn.le.1))
  exact hlt (hn.unique hk).le

end Binary

namespace Double

open Binary (ofPlace)

/-! ## The number line -/

/-- The place of the magnitude of a double. -/
def place (x : Float) : ℕ := x.toBits.toNat % 2 ^ 63

/-- The exact value of a finite double. -/
def value (x : Float) : ℚ := (Binary.ofFloat x).value

theorem ofFloat_eq (x : Float) :
    Binary.ofFloat x = { ofPlace (place x) with negative := 2 ^ 63 ≤ x.toBits.toNat } := by
  have hlt := x.toBits.toNat_lt
  have hraw : x.toBits.toNat / 2 ^ 52 % 2 ^ 11 = place x / 2 ^ 52 := by
    rw [place]
    omega
  have htail : x.toBits.toNat % 2 ^ 52 = place x % 2 ^ 52 := by
    rw [place]
    omega
  have hsmall (h : place x / 2 ^ 52 = 0) : place x % 2 ^ 52 = place x := by omega
  simp only [Binary.ofFloat, ofPlace, Nat.pow_eq, hraw, htail]
  congr 1
  split
  next h => exact hsmall h
  next => rfl

theorem orderKey_eq (x : Float) :
    orderKey x = if (Binary.ofFloat x).negative then -(place x : ℤ) else place x := by
  have hlt := x.toBits.toNat_lt
  rw [ofFloat_eq, orderKey, place]
  simp only [Nat.pow_eq, decide_eq_true_eq]
  split
  next h =>
      rw [if_neg (by omega)]
      omega
  next h =>
      rw [if_pos (by omega)]
      omega

/-- The exact value at a place on either side of zero. -/
def valueAt (k : ℤ) : ℚ :=
  if k < 0 then -(ofPlace k.natAbs).magnitude else (ofPlace k.natAbs).magnitude

theorem strictMono_valueAt : StrictMono valueAt := by
  intro k l hkl
  have hpos (n : ℕ) : 0 ≤ (ofPlace n).magnitude := by
    rw [← Binary.magnitude_ofPlace_zero]
    exact Binary.strictMono_magnitude.monotone (Nat.zero_le n)
  have hlt {n m : ℕ} (h : n < m) : (ofPlace n).magnitude < (ofPlace m).magnitude :=
    Binary.strictMono_magnitude h
  unfold valueAt
  by_cases hk : k < 0
  · by_cases hl : l < 0
    · rw [if_pos hk, if_pos hl]
      exact neg_lt_neg (hlt (by omega))
    · rw [if_pos hk, if_neg hl]
      have hk : 0 < (ofPlace k.natAbs).magnitude := (hpos 0).trans_lt (hlt (by omega))
      linarith [hpos l.natAbs]
  · rw [if_neg hk, if_neg (by omega)]
    exact hlt (by omega)

theorem value_eq (x : Float) : value x = valueAt (orderKey x) := by
  rw [value, Binary.value, valueAt, orderKey_eq]
  have hmagnitude : (Binary.ofFloat x).magnitude = (ofPlace (place x)).magnitude := by
    rw [ofFloat_eq]
    rfl
  rw [hmagnitude]
  by_cases hzero : place x = 0
  · simp [hzero, Binary.magnitude_ofPlace_zero]
  · cases (Binary.ofFloat x).negative with
    | true =>
        have hneg : -(place x : ℤ) < 0 := by omega
        simp only [if_true, if_pos hneg, Int.natAbs_neg, Int.natAbs_natCast]
    | false =>
        have hpos : ¬ (place x : ℤ) < 0 := by omega
        simp only [Bool.false_eq_true, if_false, if_neg hpos, Int.natAbs_natCast]

/-- **Places are in the order of the exact values.** -/
theorem orderKey_lt_iff {x y : Float} : orderKey x < orderKey y ↔ value x < value y := by
  rw [value_eq, value_eq, strictMono_valueAt.lt_iff_lt]

theorem orderKey_eq_iff {x y : Float} : orderKey x = orderKey y ↔ value x = value y := by
  rw [value_eq, value_eq, strictMono_valueAt.injective.eq_iff]

end Double

end Tabula
