import Mathlib.Algebra.Order.Field.Rat
import Mathlib.Algebra.Order.Floor.Semiring
import Mathlib.Data.Rat.Encodable
import Mathlib.Data.Rat.Floor
import Mathlib.Tactic.Linarith
import Tabula.Edge.Steps
import Tabula.Search.Aggregation

/-!
# Ranges in exact arithmetic

The arithmetic of a range is stated for any numbers. Here it is that of the rationals, with any way
to write them as numbers that can be read back (`Numeration`). A range is accepted when its
partitions have a width, its bounds are in order and there are not too many partitions
(`Steps.fault?_eq_none_iff`). The partition of a number is then told by its distance from the
beginning, in widths (`Steps.offset`): it is the floor of it (`Steps.within_iff`), and the number of
partitions is the ceiling for the end.
-/

set_option autoImplicit false

namespace Tabula

/-! ## The rationals -/

/-- A way to write rationals as numbers, by which none is lost. -/
class Numeration where
  write : ℚ → Number
  read : Number → ℚ
  read_write : ∀ q, read (write q) = q

namespace Numeration

/-- The first integer that stands for a rational by its place in a list of all. -/
def listed : ℤ := 9000000000000000

/-- The integer for a rational: itself, as long as it is one below those of the list. -/
def toInteger (q : ℚ) : ℤ :=
  if q.den = 1 ∧ q.num < listed then q.num else listed + Encodable.encode q

def ofInteger (i : ℤ) : ℚ :=
  if i < listed then i else (Encodable.decode (i - listed).toNat).getD 0

theorem ofInteger_toInteger (q : ℚ) : ofInteger (toInteger q) = q := by
  by_cases h : q.den = 1 ∧ q.num < listed
  · rw [toInteger, if_pos h, ofInteger, if_pos h.2]
    exact Rat.coe_int_num_of_den_eq_one h.1
  · have hbeyond : ¬ listed + (Encodable.encode q : ℤ) < listed := by omega
    rw [toInteger, if_neg h, ofInteger, if_neg hbeyond, add_sub_cancel_left, Int.toNat_natCast,
      Encodable.encodek, Option.getD_some]

/-- One such way, which examples use: rationals are written as integers. -/
instance : Numeration where
  write q := .int (toInteger q)
  read
    | .int i => ofInteger i
    | .float _ => 0
  read_write := ofInteger_toInteger

end Numeration

def nearest (x : ℚ) : ℤ := if 0 ≤ x then ⌊x + 1 / 2⌋ else ⌈x - 1 / 2⌉

theorem nearest_natCast (n : ℕ) : nearest n = n := by
  have hn : (0 : ℚ) ≤ n := Nat.cast_nonneg n
  rw [nearest, if_pos hn, Int.floor_eq_iff]
  constructor
  · push_cast
    linarith
  · push_cast
    linarith

instance [Numeration] : Scale ℚ where
  ofNat n := n
  add := (· + ·)
  sub := (· - ·)
  mul := (· * ·)
  div := (· / ·)
  lt a b := a < b
  ceil x := some ⌈x⌉
  round x := some (nearest x)
  ofJson?
    | .num n => some (Numeration.read n)
    | _ => none
  toJson q := .num (Numeration.write q)

/-- What is written is read back. -/
theorem Scale.ofJson?_toJson [Numeration] (q : ℚ) :
    (Scale.ofJson? (Scale.toJson q) : Option ℚ) = some q :=
  congrArg some (Numeration.read_write q)

/-! ## Intervals -/

namespace Interval

/-- A number lies in an interval from the lower bound on, and below the upper bound. -/
def Contains (i : Interval ℚ) (x : ℚ) : Prop :=
  (∀ l ∈ i.lower, l ≤ x) ∧ ∀ u ∈ i.upper, x < u

/-- Some number lies in both of two intervals. -/
def Meets (i j : Interval ℚ) : Prop := ∃ x, i.Contains x ∧ j.Contains x

/-- Two intervals that begin somewhere, and end later or never, meet when each begins before the
other ends: the later beginning lies in both. -/
theorem meets_iff {x l u : ℚ} {stop : Option ℚ} (hstop : ∀ y ∈ stop, x < y) (hlu : l < u) :
    Meets { lower := some x, upper := stop } { lower := some l, upper := some u }
      ↔ x < u ∧ ∀ y ∈ stop, l < y := by
  constructor
  · rintro ⟨z, ⟨hx, hy⟩, ⟨hl, hu⟩⟩
    exact ⟨(hx x rfl).trans_lt (hu u rfl), fun y hmem => (hl l rfl).trans_lt (hy y hmem)⟩
  · rintro ⟨hxu, hly⟩
    refine ⟨max x l, ⟨?_, fun y hmem => max_lt (hstop y hmem) (hly y hmem)⟩, ?_, ?_⟩
    · rintro _ ⟨⟩
      exact le_max_left x l
    · rintro _ ⟨⟩
      exact le_max_right x l
    · rintro _ ⟨⟩
      exact max_lt hxu hlu

end Interval

namespace Steps

variable (s : Steps ℚ)

/-- The distance of a number from the beginning of a range, in widths of its partitions. -/
def offset (x : ℚ) : ℚ := (x - s.min) / s.interval

section

variable {s} (hs : 0 < s.interval)
include hs

theorem offset_lt_offset_iff {x y : ℚ} : s.offset x < s.offset y ↔ x < y := by
  rw [offset, offset, div_lt_div_iff_of_pos_right hs, sub_lt_sub_iff_right]

theorem offset_nonneg_iff {x : ℚ} : 0 ≤ s.offset x ↔ s.min ≤ x := by
  rw [offset, le_div_iff₀ hs, zero_mul, sub_nonneg]

end

variable [Numeration]

/-! ## Bounds -/

theorem count_eq : s.count = ⌈s.offset s.max⌉₊ := Int.ceil_toNat _

theorem lower_eq (i : ℕ) : s.lower i = s.min + i * s.interval := rfl

theorem upper_eq (i : ℕ) : s.upper i = (s.lower i + s.interval) ⊓ s.max := by
  show (if decide (s.lower i + s.interval < s.max) = true then s.lower i + s.interval else s.max)
    = _
  by_cases h : s.lower i + s.interval < s.max
  · rw [if_pos (decide_eq_true h), inf_eq_left.mpr h.le]
  · rw [if_neg (by simpa using h), inf_eq_right.mpr (not_lt.mp h)]

/-- A range is accepted when its partitions have a width, its bounds are in order and there are not
too many partitions. -/
theorem fault?_eq_none_iff {limit : ℕ} :
    s.fault? limit = none ↔ 0 < s.interval ∧ s.min ≤ s.max ∧ s.count ≤ limit := by
  have hcount : ((limit : ℤ) < ⌈s.width⌉) ↔ ¬ s.count ≤ limit := by
    show _ ↔ ¬ ⌈s.width⌉.toNat ≤ limit
    omega
  have hbounds : (!decide ((0 : ℕ) < s.interval) || decide (s.max < s.min)) = true
      ↔ ¬ (0 < s.interval ∧ s.min ≤ s.max) := by
    rw [Bool.or_eq_true, Bool.not_eq_true', decide_eq_false_iff_not, decide_eq_true_iff,
      Nat.cast_zero, not_and_or, not_le]
  show (if (!decide ((0 : ℕ) < s.interval) || decide (s.max < s.min)) = true
      then some StepsFault.empty
      else if (limit : ℤ) < ⌈s.width⌉ then some StepsFault.tooMany else none) = none ↔ _
  by_cases h : 0 < s.interval ∧ s.min ≤ s.max
  · rw [if_neg (by rw [hbounds]; exact not_not.mpr h), ← and_assoc]
    by_cases hlimit : s.count ≤ limit
    · rw [if_neg (by rw [hcount]; exact not_not.mpr hlimit)]
      exact iff_of_true rfl ⟨h, hlimit⟩
    · rw [if_pos (hcount.mpr hlimit)]
      exact iff_of_false (by simp) fun hall => hlimit hall.2
  · rw [if_pos (hbounds.mpr h), ← and_assoc]
    exact iff_of_false (by simp) fun hall => h hall.1

/-! ## The partition of a number -/

section

variable {s} (hs : 0 < s.interval)
include hs

theorem lower_le_iff {i : ℕ} {x : ℚ} : s.lower i ≤ x ↔ (i : ℚ) ≤ s.offset x := by
  rw [lower_eq, offset, le_div_iff₀ hs, le_sub_iff_add_le']

theorem lt_next_iff {i : ℕ} {x : ℚ} : x < s.lower i + s.interval ↔ s.offset x < i + 1 := by
  rw [lower_eq, offset, div_lt_iff₀ hs, sub_lt_iff_lt_add', add_mul, one_mul, add_assoc]

/-- **A number lies in the partition that the floor of its distance names**, unless it lies beyond
the end. -/
theorem within_iff {i : ℕ} {x : ℚ} :
    s.lower i ≤ x ∧ x < s.upper i ↔ ⌊s.offset x⌋ = i ∧ x < s.max := by
  rw [upper_eq, lt_inf_iff, lower_le_iff hs, lt_next_iff hs, ← and_assoc, Int.floor_eq_iff,
    Int.cast_natCast]

theorem offset_lower (i : ℕ) : s.offset (s.lower i) = i := by
  rw [offset, lower_eq, add_sub_cancel_left, mul_div_cancel_right₀ _ hs.ne']

/-- The floor of the distance names a partition exactly when the number lies inside the range. -/
theorem exists_floor_iff {x : ℚ} :
    (∃ k, k < s.count ∧ ⌊s.offset x⌋ = (k : ℤ) ∧ x < s.max)
      ↔ s.min ≤ x ∧ x < s.max := by
  rw [← offset_nonneg_iff hs]
  constructor
  · rintro ⟨k, -, hfloor, hmax⟩
    have hnonneg : 0 ≤ ⌊s.offset x⌋ := by omega
    exact ⟨Int.floor_nonneg.mp hnonneg, hmax⟩
  · rintro ⟨hnonneg, hmax⟩
    have hlt : s.offset x < s.offset s.max :=
      (offset_lt_offset_iff hs).mpr hmax
    have hcount : ⌊s.offset x⌋₊ < s.count := by
      rw [count_eq, Nat.lt_ceil]
      exact (Nat.floor_le hnonneg).trans_lt hlt
    exact ⟨⌊s.offset x⌋₊, hcount, (Int.natCast_floor_eq_floor hnonneg).symm, hmax⟩

theorem lower_lt_max_iff {i : ℕ} : s.lower i < s.max ↔ i < s.count := by
  rw [count_eq, Nat.lt_ceil, ← offset_lower hs, offset_lt_offset_iff hs]

theorem lower_lt_upper {i : ℕ} (hi : i < s.count) : s.lower i < s.upper i := by
  rw [upper_eq, lt_inf_iff, lower_lt_max_iff hs]
  exact ⟨lt_add_of_pos_right _ hs, hi⟩

theorem lower_mono : Monotone s.lower := by
  intro i j h
  have hij : (i : ℚ) * s.interval ≤ j * s.interval :=
    mul_le_mul_of_nonneg_right (by exact_mod_cast h) hs.le
  rw [lower_eq, lower_eq]
  linarith

theorem upper_mono : Monotone s.upper := by
  intro i j h
  have hij := lower_mono hs h
  rw [upper_eq, upper_eq]
  exact inf_le_inf_right _ (by linarith)

theorem upper_le_lower {i j : ℕ} (h : i < j) : s.upper i ≤ s.lower j := by
  calc s.upper i ≤ s.lower i + s.interval := by
        rw [upper_eq]
        exact inf_le_left
    _ = s.lower (i + 1) := by
        rw [lower_eq, lower_eq, Nat.cast_add_one, add_mul, one_mul, add_assoc]
    _ ≤ s.lower j := lower_mono hs h

/-- **The beginning of a partition gives back its index.** -/
theorem indexOf_lower {i : ℕ} (hi : i < s.count) : s.indexOf (s.lower i) = some i := by
  have hround : nearest (s.offset (s.lower i)) = i := by rw [offset_lower hs, nearest_natCast]
  show (if 0 ≤ nearest (s.offset (s.lower i)) ∧ (nearest (s.offset (s.lower i))).toNat < s.count
    then some (nearest (s.offset (s.lower i))).toNat else none) = some i
  rw [hround, Int.toNat_natCast, if_pos ⟨Int.natCast_nonneg i, hi⟩]

end

end Steps

end Tabula
