import Tabula.Edge.Decoder

/-!
# Where buckets belong

Every kind of edge places a bucket in one of its partitions or in none (`slot_lt`), whatever the
bucket holds, and the partition of a row is within the domain of its decoder (`place?_lt`). With
a settled domain and enough steps the partition of a row can always be told (`index?_eq`).
Counting needs enough steps only (`count_eq`) and leaves them as they are.
-/

set_option autoImplicit false

namespace Tabula

/-! ## Slots -/

theorem SetEdge.getElem?_of_lastPlace? {key : String} {keys : List String} {start i : Nat}
    (h : lastPlace? key start keys = some i) : start ≤ i ∧ keys[i - start]? = some key := by
  induction keys generalizing start with
  | nil => cases h
  | cons k keys ih =>
      simp only [lastPlace?, Option.or_eq_some_iff] at h
      rcases h with h | ⟨-, h⟩
      · obtain ⟨hle, hkey⟩ := ih h
        have hplace : i - start = i - (start + 1) + 1 := by omega
        exact ⟨by omega, by rw [hplace, List.getElem?_cons_succ, hkey]⟩
      · split at h
        next heq =>
            cases h
            rw [Nat.sub_self, List.getElem?_cons_zero, heq]
            exact ⟨Nat.le_refl _, rfl⟩
        next => cases h

theorem SetEdge.lastPlace?_eq_none {key : String} {keys : List String} {start : Nat}
    (h : lastPlace? key start keys = none) : key ∉ keys := by
  induction keys generalizing start with
  | nil => simp
  | cons k keys ih =>
      simp only [lastPlace?, Option.or_eq_none_iff, ite_eq_right_iff, reduceCtorEq,
        imp_false] at h
      rw [List.mem_cons, not_or]
      exact ⟨fun heq => h.2 heq.symm, ih h.1⟩

theorem SetEdge.slot_lt {e : SetEdge} {part : Part} {i : Nat}
    (h : e.slot part = .partition i) : i < e.partitions.length := by
  cases part with
  | matched n bucket =>
      simp only [SetEdge.slot] at h
      split at h
      next j hj =>
          cases h
          -- there is one key for each partition
          have hlt := (List.getElem?_eq_some_iff.mp (getElem?_of_lastPlace? hj).2).1
          rw [SetEdge.keys, List.length_map] at hlt
          omega
      next => cases h
  | missing bucket => cases h
  | other => cases h
  | join j bucket =>
      simp only [SetEdge.slot] at h
      split at h
      next hlt =>
          cases h
          exact hlt
      next => cases h

theorem Steps.indexOf_lt {α : Type} [Scale α] {s : Steps α} {start : α} {i : Nat}
    (h : s.indexOf start = some i) : i < s.count := by
  unfold Steps.indexOf at h
  split at h
  next =>
      split at h
      next hlt =>
          cases h
          exact hlt.2
      next => cases h
  next => cases h

theorem RangeEdge.slot_lt {e : RangeEdge} {part : Part} {i : Nat}
    (h : e.slot part = .partition i) : i < e.steps.count := by
  cases part with
  | matched n bucket =>
      simp only [RangeEdge.slot] at h
      split at h
      next j hj =>
          cases h
          split at hj
          next => exact Steps.indexOf_lt hj
          next =>
              split at hj
              next hlt =>
                  cases hj
                  exact hlt
              next => cases hj
      next => cases h
  | missing bucket => cases h
  | other => cases h
  | join j bucket => cases h

theorem SpanEdge.slot_lt {e : SpanEdge} {part : Part} {i : Nat}
    (h : e.slot part = .partition i) : i < e.steps.count := by
  cases part with
  | join j bucket =>
      simp only [SpanEdge.slot] at h
      split at h
      next hlt =>
          cases h
          exact hlt
      next => cases h
  | matched n bucket => cases h
  | missing bucket => cases h
  | other => cases h

theorem Tally.slot_lt {t : Tally} {key : String} {policy : Overflow} {i : Nat}
    (h : t.slot key policy = .partition i) : i < t.size := by
  unfold Tally.slot at h
  unfold Tally.size
  split at h
  next => cases h
  next f hf =>
      rw [hf]
      split at h
      next j hj =>
          cases h
          exact List.findIdx?_eq_some_iff_findIdx_eq.mp hj |>.1
      next => split at h <;> cases h

theorem ValueEdge.slot_lt {e : ValueEdge} {part : Part} {i : Nat}
    (h : e.slot part = .partition i) : i < e.tally.size := by
  cases part with
  | matched n bucket => exact Tally.slot_lt h
  | missing bucket => cases h
  | other => cases h
  | join j bucket => cases h

theorem TupleEdge.slot_lt {e : TupleEdge} {parts : List Part} {i : Nat}
    (h : e.slot parts = .partition i) : i < e.tally.size := by
  unfold TupleEdge.slot at h
  split at h
  next => exact Tally.slot_lt h
  next => cases h

namespace EdgeKind

theorem slot_tuple (e : TupleEdge) (parts : List Part) : (tuple e).slot parts = e.slot parts := by
  cases parts <;> rfl

theorem count_tuple (e : TupleEdge) (parts : List Part) :
    (tuple e).count parts = tuple (e.count parts) := by
  cases parts <;> rfl

/-- **A bucket belongs to one of the partitions**, or to none. -/
theorem slot_lt {kind : EdgeKind} {parts : List Part} {i : Nat}
    (h : kind.slot parts = .partition i) : i < kind.partitionCount := by
  cases kind with
  | tuple e => exact TupleEdge.slot_lt h
  | set e =>
      cases parts with
      | nil => cases h
      | cons part parts => exact SetEdge.slot_lt h
  | range e =>
      cases parts with
      | nil => cases h
      | cons part parts => exact RangeEdge.slot_lt h
  | span e =>
      cases parts with
      | nil => cases h
      | cons part parts => exact SpanEdge.slot_lt h
  | value e =>
      cases parts with
      | nil => cases h
      | cons part parts => exact ValueEdge.slot_lt h

/-! ## Counting -/

theorem levels_count (kind : EdgeKind) (parts : List Part) :
    (kind.count parts).levels = kind.levels := by
  cases kind with
  | tuple e =>
      show (e.count parts).fields.length = e.fields.length
      unfold TupleEdge.count
      split
      next => rfl
      next => rfl
  | set e => cases parts <;> rfl
  | range e => cases parts <;> rfl
  | span e => cases parts <;> rfl
  | value e => cases parts <;> rfl

theorem levels_doneCount (kind : EdgeKind) : kind.doneCount.levels = kind.levels := by
  cases kind <;> rfl

theorem isFrozen_doneCount (kind : EdgeKind) : kind.doneCount.isFrozen = true := by
  cases kind <;> rfl

theorem count_of_not_discovery {kind : EdgeKind} (h : kind.isDiscovery = false)
    (parts : List Part) : kind.count parts = kind := by
  cases kind with
  | tuple e => cases h
  | value e => cases h
  | set e => cases parts <;> rfl
  | range e => cases parts <;> rfl
  | span e => cases parts <;> rfl

end EdgeKind

/-! ## Decoders -/

namespace Decoder

variable {d : Decoder} {parts : List Part}

def own (d : Decoder) (parts : List Part) : List Part := (parts.drop d.start).take d.levels

theorem length_own (h : d.start + d.levels ≤ parts.length) : (d.own parts).length = d.levels := by
  rw [own, List.length_take, List.length_drop]
  omega

/-- The decoder finds its part in a row that is wide enough. -/
theorem ownParts_eq (h : d.start + d.levels ≤ parts.length) :
    d.ownParts parts = .ok (d.own parts) :=
  if_pos h

theorem ownParts_eq_ok {own : List Part} :
    d.ownParts parts = .ok own ↔ d.start + d.levels ≤ parts.length ∧ own = d.own parts := by
  rw [ownParts]
  split
  next h => simp [h, Decoder.own, eq_comm]
  next h => simp [h]

/-- **A row that is wide enough can be counted.** -/
theorem count_eq (h : d.start + d.levels ≤ parts.length) :
    d.count parts = .ok { d with kind := d.kind.count (d.own parts) } := by
  rw [Decoder.count, ownParts_eq h]
  rfl

/-- The partition of a row that is wide enough, none when the row is dropped. -/
def place? (d : Decoder) (parts : List Part) : Option Nat :=
  match d.kind.slot (d.own parts) with
  | .partition i => some i
  | .null => if d.allowNulls then some d.partitionCount else none
  | .unknown => none

/-- **A row that is wide enough can be placed** in a settled domain. -/
theorem index?_eq (hf : d.kind.isFrozen = true) (h : d.start + d.levels ≤ parts.length) :
    d.index? parts = .ok (d.place? parts) := by
  unfold Decoder.index?
  rw [hf, ownParts_eq h]
  simp only [Bool.not_true, Bool.false_eq_true, if_false, place?]
  show (match d.kind.slot (d.own parts) with
    | .partition i => Except.ok (some i)
    | .null => .ok (if d.allowNulls then some d.partitionCount else none)
    | .unknown => .ok none : QueryResult (Option Nat)) = _
  cases d.kind.slot (d.own parts) with
  | partition i => rfl
  | null => rfl
  | unknown => rfl

/-- **The partition of a row is within the domain**, that of missing values included. -/
theorem place?_lt {i : Nat} (h : d.place? parts = some i) : i < d.size := by
  unfold place? at h
  unfold Decoder.size
  split at h
  -- a bucket of a partition, one of the missing values, or none that is known
  next j hj =>
      cases h
      have := EdgeKind.slot_lt hj
      unfold Decoder.partitionCount
      omega
  next =>
      split at h
      next hnulls =>
          cases h
          rw [if_pos hnulls]
          omega
      next => cases h
  next => cases h

end Decoder

end Tabula
