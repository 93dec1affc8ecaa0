import Mathlib
import Tabula.Proofs.Edge.Frequency

/-!
# Freezing keeps the first values

Whatever was added to a tally, and in whatever order, freezing it keeps the values that come first
in the order asked for, up to the limit, and accounts for all others (`top_freeze`): each key that
was added leads to its partition or to where the policy sends what is beyond the limit, and the
documents of the partitions and of the overflow are all documents that were added. The order is told
by the values and by what was added (`compareBy`), not by the entries of the tally, which agree with
it (`Ranked.compareEntries_eq`).

What was added is added up as the tally does, in 64 bits (`docsOf`), for a count wraps around beyond
them. As long as all documents together fit, the same holds of their exact numbers (`TopOf.exact`).
-/

set_option autoImplicit false

namespace Tabula.Tally

/-- The order of values that is asked for: by value in a direction, else by the documents of their
keys, the most frequent first, and by value where these are equal. -/
def compareBy {α : Type} [Ord α] (docs : (String → Bool) → α) (sort : Option Direction)
    (v w : Json) : Ordering :=
  match sort with
  | some .asc => compareValues v w
  | some .desc => compareValues w v
  | none => (compare (docs (· = valueKey w)) (docs (· = valueKey v))).then (compareValues v w)

/-- A frozen tally of values with their documents, by what can be asked of it. The documents of some
keys, and those of the overflow, are told by sums of any kind. -/
structure TopOf {α : Type} [Ord α] [Add α] (met : List (Json × UInt64))
    (docs : (String → Bool) → α) (overflow : α) (sort : Option Direction) (limit : Nat)
    (t : Tally) : Prop where
  /-- There are as many partitions as keys, up to the limit. -/
  length : t.partitions.length = min limit (met.map fun m => valueKey m.1).dedup.length
  /-- Partitions have different keys, and the first value of each. -/
  nodup : (t.partitions.map valueKey).Nodup
  first : ∀ w ∈ t.partitions, firstMet (met.map (·.1)) (valueKey w) = some w
  /-- Partitions are in order. -/
  ordered : t.partitions.Pairwise fun v w => (compareBy docs sort v w).isLE
  /-- A key that was met belongs to the partition of the key, or else where the policy sends what is
  beyond the limit. -/
  met_slot : ∀ m ∈ met, ∀ policy,
    (∃ i w, t.slot (valueKey m.1) policy = .partition i ∧ t.partitions[i]? = some w
        ∧ valueKey w = valueKey m.1)
      ∨ (valueKey m.1 ∉ t.partitions.map valueKey
        ∧ t.slot (valueKey m.1) policy = if policy = .other then .null else .unknown)
  /-- No value beyond the limit comes before a partition. -/
  beyond : ∀ key v, firstMet (met.map (·.1)) key = some v → key ∉ t.partitions.map valueKey →
    ∀ w ∈ t.partitions, compareBy docs sort v w ≠ .lt
  /-- A key that was not met belongs nowhere. -/
  other_slot : ∀ key, key ∉ met.map (fun m => valueKey m.1) → ∀ policy, t.slot key policy = .unknown
  /-- Every document is in a partition or in the overflow. -/
  all_docs : docs (· ∈ t.partitions.map valueKey) + overflow = docs fun _ => true

/-- What holds of the sums in 64 bits holds of the exact ones, when these have 64 bits. -/
theorem TopOf.exact {met : List (Json × UInt64)} {overflow : UInt64} {sort : Option Direction}
    {limit : Nat} {t : Tally} (h : TopOf met (docsOf · met) overflow sort limit t)
    (hfit : exactDocs (fun _ => true) met < 2 ^ 64) :
    TopOf met (exactDocs · met) overflow.toNat sort limit t := by
  have hcompare : compareBy (docsOf · met) sort = compareBy (exactDocs · met) sort := by
    funext v w
    match sort with
    | some .asc => rfl
    | some .desc => rfl
    | none =>
        rw [compareBy, compareBy, UInt64.compare_eq_toNat_compare_toNat,
          toNat_docsOf_of_lt _ hfit, toNat_docsOf_of_lt _ hfit]
  have hall : exactDocs (· ∈ t.partitions.map valueKey) met + overflow.toNat
      = exactDocs (fun _ => true) met := by
    have hle := exactDocs_le_all (· ∈ t.partitions.map valueKey) met
    have hlt : overflow.toNat < 2 ^ 64 := overflow.toNat_lt
    have hsum := congrArg UInt64.toNat h.all_docs
    rw [UInt64.toNat_add, toNat_docsOf_of_lt _ hfit, toNat_docsOf_of_lt _ hfit] at hsum
    -- the sum of the two does not wrap around, for it is that of all documents
    omega
  exact {
    length := h.length
    nodup := h.nodup
    first := h.first
    ordered := hcompare ▸ h.ordered
    met_slot := h.met_slot
    beyond := hcompare ▸ h.beyond
    other_slot := h.other_slot
    all_docs := hall }

namespace Settled

variable {met : List Json} {sort : Option Direction} {t : Tally} {f : Frozen}

theorem value?_eq_getElem? (h : Settled met sort t f) (i : Nat) :
    t.value? i = t.partitions[i]? := by
  rw [h.value?_eq, partitions, h.frozen, List.getElem?_map]

/-- A key that was met belongs where the policy sends what is beyond the limit, when no partition
has it. -/
theorem slot_of_beyond (h : Settled met sort t f) {v : Json} (hv : v ∈ met)
    (hbeyond : valueKey v ∉ t.partitions.map valueKey) (policy : Overflow) :
    t.slot (valueKey v) policy = if policy = .other then .null else .unknown := by
  have hnone : ∀ i w, t.value? i = some w → valueKey w ≠ valueKey v := by
    intro i w hw hkey
    rw [h.value?_eq_getElem?] at hw
    exact hbeyond (List.mem_map.mpr ⟨w, List.mem_of_getElem? hw, hkey⟩)
  cases hslot : t.slot (valueKey v) policy with
  | partition i =>
      obtain ⟨w, hw, hkey⟩ := h.slot_eq_partition_iff.mp hslot
      exact absurd hkey (hnone i w hw)
  | unknown =>
      obtain ⟨rfl, -⟩ := (h.slot_eq_unknown_iff hv).mp hslot
      rfl
  | null =>
      cases policy with
      | other => rfl
      | drop =>
          have hunknown := (h.slot_eq_unknown_iff hv).mpr ⟨rfl, hnone⟩
          rw [hslot] at hunknown
          cases hunknown

theorem slot_of_not_met (h : Settled met sort t f) {key : String}
    (hkey : key ∉ met.map valueKey) (policy : Overflow) : t.slot key policy = .unknown := by
  have hentries : ∀ e ∈ f.retained ++ f.beyond, e.key ≠ key := by
    rintro e he rfl
    exact hkey (h.records.mem_keys_iff.mp (List.mem_map_of_mem he))
  have hretained : f.retained.findIdx? (·.key == key) = none := by
    refine List.findIdx?_eq_none_iff.mpr fun e he => ?_
    exact beq_false_of_ne (hentries e (List.mem_append_left _ he))
  have hbeyond : f.beyond.any (·.key == key) = false := by
    refine List.any_eq_false.mpr fun e he => ?_
    simpa using hentries e (List.mem_append_right _ he)
  rw [h.slot_eq, hretained, hbeyond, Bool.and_false]
  rfl

end Settled

namespace Ranked

variable {met : List (Json × UInt64)} {sort : Option Direction} {t : Tally} {f : Frozen}

theorem compareEntries_eq (h : Ranked met sort t f) {a b : TallyEntry}
    (ha : a ∈ f.retained ++ f.beyond) (hb : b ∈ f.retained ++ f.beyond) :
    compareEntries sort a b = compareBy (docsOf · met) sort a.value b.value := by
  match sort with
  | some .asc => rfl
  | some .desc => rfl
  | none => rw [compareEntries, compareBy, h.docs_entry ha, h.docs_entry hb]

theorem sorted_met (h : Ranked met sort t f) : (f.retained ++ f.beyond).Pairwise fun a b =>
    (compareBy (docsOf · met) sort a.value b.value).isLE := by
  refine h.sorted.imp_of_mem fun {a b} ha hb hab => ?_
  rwa [h.compareEntries_eq ha hb] at hab

/-- No value that was met comes before a partition, when no partition has its key. -/
theorem compareBy_ne_lt (h : Ranked met sort t f) {key : String} {v : Json}
    (hv : firstMet (met.map (·.1)) key = some v) (hkey : key ∉ t.partitions.map valueKey)
    {w : Json} (hw : w ∈ t.partitions) : compareBy (docsOf · met) sort v w ≠ .lt := by
  rw [h.keys_eq] at hkey
  rw [h.partitions_eq] at hw
  obtain ⟨a, ha, rfl⟩ := List.mem_map.mp hw
  have hmet : key ∈ (met.map (·.1)).map valueKey := by
    rw [← valueKey_of_firstMet hv]
    exact List.mem_map_of_mem (mem_of_firstMet hv)
  obtain ⟨e, he, rfl⟩ := List.mem_map.mp (h.records.mem_keys_iff.mpr hmet)
  have hvalue : e.value = v := by
    have hfirst := h.records.first e he
    rw [hv] at hfirst
    exact (Option.some.inj hfirst).symm
  have hbeyond : e ∈ f.beyond :=
    (List.mem_append.mp he).resolve_left fun hmem => hkey (List.mem_map_of_mem hmem)
  have hle : (compareEntries sort a e).isLE := (List.pairwise_append.mp h.sorted).2.2 a ha e hbeyond
  rw [← hvalue, ← h.compareEntries_eq he (List.mem_append_left _ ha)]
  intro hlt
  rw [Std.OrientedCmp.gt_of_lt hlt] at hle
  cases hle

end Ranked

theorem length_partitions_freeze (t : Tally) (sort : Option Direction) (limit : Nat) :
    (t.freeze sort limit).partitions.length = min limit t.pending.length := by
  show (((t.pending.mergeSort (entryLe sort)).take limit).map (·.value)).length = _
  rw [List.length_map, List.length_take, List.length_mergeSort]

/-- What was met under some keys and what was met under all others is all that was met. -/
theorem docsOf_add_docsOf_not (P : String → Prop) [DecidablePred P] (met : List (Json × UInt64)) :
    docsOf (fun key => P key) met + docsOf (fun key => ¬ P key) met
      = docsOf (fun _ => true) met := by
  induction met with
  | nil => rfl
  | cons m met ih =>
      rw [docsOf_cons, docsOf_cons, docsOf_cons, ← ih, if_pos rfl]
      by_cases h : P (valueKey m.1)
      · simp only [h, decide_true, not_true, decide_false, if_true, Bool.false_eq_true, if_false]
        rw [zero_add, add_assoc]
      · simp only [h, decide_false, not_false_iff, decide_true, if_true, Bool.false_eq_true,
          if_false]
        rw [zero_add, add_left_comm]

theorem topOf_freeze (met : List (Json × UInt64)) (sort : Option Direction) (limit : Nat) :
    let t := (empty.addAll met).freeze sort limit
    TopOf met (docsOf · met) ((t.overflow .other).getD 0) sort limit t := by
  have hrecords : Records (met.map (·.1)) (empty.addAll met).pending :=
    @records_addAll [] empty records_nil met
  obtain ⟨f, hf⟩ := ranked_freeze (t := empty) rfl met sort limit
  generalize ht : (empty.addAll met).freeze sort limit = t at hf ⊢
  have hkeys : met.map (fun m => valueKey m.1) = (met.map (·.1)).map valueKey := by
    rw [List.map_map]
    rfl
  constructor
  · rw [← ht, length_partitions_freeze, hrecords.length_eq, hkeys]
  · rw [hf.keys_eq]
    exact hf.nodup_retained
  · intro w hw
    rw [hf.partitions_eq] at hw
    obtain ⟨e, he, rfl⟩ := List.mem_map.mp hw
    have hmem := List.mem_append_left f.beyond he
    rw [← hf.records.keyed e hmem]
    exact hf.records.first e hmem
  · rw [hf.partitions_eq, List.pairwise_map]
    exact (List.pairwise_append.mp hf.sorted_met).1
  · intro m hm policy
    have hmem : m.1 ∈ met.map (·.1) := List.mem_map_of_mem hm
    -- a key has a partition, or lies beyond the limit
    by_cases hkey : valueKey m.1 ∈ t.partitions.map valueKey
    · left
      obtain ⟨w, hw, heq⟩ := List.mem_map.mp hkey
      obtain ⟨i, hi⟩ := List.mem_iff_getElem?.mp hw
      have hvalue : t.value? i = some w := (hf.value?_eq_getElem? i).trans hi
      exact ⟨i, w, hf.slot_eq_partition_iff.mpr ⟨w, hvalue, heq⟩, hi, heq⟩
    · right
      exact ⟨hkey, hf.slot_of_beyond hmem hkey policy⟩
  · intro key v hv hkey w hw
    exact hf.compareBy_ne_lt hv hkey hw
  · intro key hkey policy
    rw [hkeys] at hkey
    exact hf.slot_of_not_met hkey policy
  · rw [hf.overflow_eq]
    exact docsOf_add_docsOf_not (· ∈ t.partitions.map valueKey) met

/-- **Freezing keeps the first values.** However values were added to an empty tally, freezing it
keeps those that come first in the order asked for, one for each key, up to the limit, and accounts
for every other key and for every document. Documents are added up in 64 bits; their numbers are
exact when all of them together fit. -/
theorem top_freeze (met : List (Json × UInt64)) (sort : Option Direction) (limit : Nat) :
    let t := (empty.addAll met).freeze sort limit
    let overflow := (t.overflow .other).getD 0
    TopOf met (docsOf · met) overflow sort limit t
      ∧ (exactDocs (fun _ => true) met < 2 ^ 64 →
        TopOf met (exactDocs · met) overflow.toNat sort limit t) := by
  intro t overflow
  have htop : TopOf met (docsOf · met) overflow sort limit t := topOf_freeze met sort limit
  exact ⟨htop, htop.exact⟩

def tallied : List (Json × UInt64) :=
  [(.str "a", 2), (.str "b", 3), (.str "c", 1), (.str "a", 2)]

theorem overflow_tallied : ((empty.addAll tallied).freeze none 2).overflow .other = some 1 := by
  cbv

theorem top_freeze_tallied :
    exactDocs (fun _ => true) tallied = 8
      ∧ TopOf tallied (exactDocs · tallied) 1 none 2 ((empty.addAll tallied).freeze none 2) := by
  have htop := (top_freeze tallied none 2).2 (by decide)
  rw [overflow_tallied] at htop
  exact ⟨by decide, htop⟩

-- a value with 2 ^ 64 documents counts as one without any
example : ((empty.addAll [(.str "a", 18446744073709551615), (.str "a", 1), (.str "b", 1)]).freeze
    none 1).partitions = [.str "b"] := by cbv

end Tabula.Tally
