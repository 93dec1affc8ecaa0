import Mathlib.Data.List.Dedup
import Tabula.Edge.Tally
import Tabula.Proofs.Edge.Value

/-!
# What a tally settles

The entries of a tally record the values that were met: one entry for each key, filed under the
first value of that key (`Records`). One more value keeps this up (`records_addTo`), and so does a
whole response (`records_addAll`). Freezing sorts the entries and cuts them at the limit
(`settled_freeze`), after which a key belongs to the partition whose value has it
(`Settled.slot_eq_partition_iff`), and a value that was met belongs nowhere only when the policy
drops it and no partition has its key (`Settled.slot_eq_unknown_iff`).
-/

set_option autoImplicit false

namespace Tabula.Tally

/-! ## Counting -/

def firstMet (met : List Json) (key : String) : Option Json := met.find? (valueKey · == key)

theorem mem_of_firstMet {met : List Json} {key : String} {v : Json}
    (h : firstMet met key = some v) : v ∈ met := List.mem_of_find?_eq_some h

theorem valueKey_of_firstMet {met : List Json} {key : String} {v : Json}
    (h : firstMet met key = some v) : valueKey v = key := by
  have hkey : (valueKey v == key) = true := List.find?_some (p := fun w => valueKey w == key) h
  exact eq_of_beq hkey

/-- Whether entries record the values that were met: each key with its first value. -/
structure Records (met : List Json) (entries : List TallyEntry) : Prop where
  nodup : (entries.map (·.key)).Nodup
  first : ∀ e ∈ entries, firstMet met e.key = some e.value
  key_mem : ∀ v ∈ met, valueKey v ∈ entries.map (·.key)

theorem records_nil : Records [] [] where
  nodup := List.nodup_nil
  first := by simp
  key_mem := by simp

namespace Records

variable {met : List Json} {entries entries' : List TallyEntry}

theorem keyed (h : Records met entries) : ∀ e ∈ entries, e.key = valueKey e.value :=
  fun e he => (valueKey_of_firstMet (h.first e he)).symm

theorem value_mem (h : Records met entries) : ∀ e ∈ entries, e.value ∈ met :=
  fun e he => mem_of_firstMet (h.first e he)

theorem mem_keys_iff (h : Records met entries) {key : String} :
    key ∈ entries.map (·.key) ↔ key ∈ met.map valueKey := by
  constructor
  · intro hkey
    obtain ⟨e, he, rfl⟩ := List.mem_map.mp hkey
    rw [h.keyed e he]
    exact List.mem_map_of_mem (h.value_mem e he)
  · intro hkey
    obtain ⟨v, hv, rfl⟩ := List.mem_map.mp hkey
    exact h.key_mem v hv

theorem length_eq (h : Records met entries) :
    entries.length = (met.map valueKey).dedup.length := by
  have hperm : (entries.map (·.key)).Perm (met.map valueKey).dedup := by
    refine (List.perm_ext_iff_of_nodup h.nodup (List.nodup_dedup _)).mpr fun key => ?_
    rw [List.mem_dedup, h.mem_keys_iff]
  rw [← hperm.length_eq, List.length_map]

theorem perm (h : Records met entries) (hp : entries'.Perm entries) : Records met entries' where
  nodup := (hp.map _).nodup_iff.mpr h.nodup
  first e he := h.first e (hp.mem_iff.mp he)
  key_mem v hv := (hp.map _).mem_iff.mpr (h.key_mem v hv)

end Records

theorem keys_addTo (key : String) (value : Json) (docs : UInt64) (entries : List TallyEntry) :
    (addTo key value docs entries).map (·.key)
      = if key ∈ entries.map (·.key) then entries.map (·.key)
        else entries.map (·.key) ++ [key] := by
  induction entries with
  | nil => rfl
  | cons e entries ih =>
      by_cases h : e.key = key
      · simp [addTo, h]
      · simp only [addTo, h, if_false, List.map_cons, ih, List.mem_cons, Ne.symm h, false_or]
        split
        next => rfl
        next => rfl

/-- An entry after adding to a key is an old one, perhaps with more documents, or that of a new
key. -/
theorem mem_addTo {key : String} {value : Json} {docs : UInt64} {entries : List TallyEntry}
    {e : TallyEntry} (h : e ∈ addTo key value docs entries) :
    (∃ old ∈ entries, e.key = old.key ∧ e.value = old.value)
      ∨ e = { key, value, docs } ∧ key ∉ entries.map (·.key) := by
  induction entries with
  | nil => exact Or.inr ⟨List.mem_singleton.mp h, List.not_mem_nil⟩
  | cons old entries ih =>
      rw [addTo] at h
      split at h
      next =>
          rcases List.mem_cons.mp h with rfl | h
          · exact Or.inl ⟨old, by simp, rfl, rfl⟩
          · exact Or.inl ⟨e, by simp [h], rfl, rfl⟩
      next hne =>
          rcases List.mem_cons.mp h with rfl | h
          · exact Or.inl ⟨e, by simp, rfl, rfl⟩
          · rcases ih h with ⟨old', hold, heq⟩ | ⟨heq, hnew⟩
            · exact Or.inl ⟨old', by simp [hold], heq⟩
            · refine Or.inr ⟨heq, ?_⟩
              rw [List.map_cons, List.mem_cons, not_or]
              exact ⟨Ne.symm hne, hnew⟩

/-- **One more value is recorded** under its key. -/
theorem records_addTo {met : List Json} {entries : List TallyEntry} (h : Records met entries)
    (v : Json) (docs : UInt64) : Records (met ++ [v]) (addTo (valueKey v) v docs entries) where
  nodup := by
    rw [keys_addTo]
    split
    next => exact h.nodup
    next hnew => exact List.nodup_append.mpr ⟨h.nodup, by simp, by simpa using hnew⟩
  first e he := by
    rw [firstMet, List.find?_append]
    -- an old entry keeps the value that it was made with
    rcases mem_addTo he with ⟨old, hold, hkey, hvalue⟩ | ⟨rfl, hnew⟩
    · have hold : met.find? (valueKey · == old.key) = some old.value := h.first old hold
      rw [hkey, hvalue, hold]
      rfl
    · have hnone : met.find? (valueKey · == valueKey v) = none := by
        refine List.find?_eq_none.mpr fun w hw hkey => hnew ?_
        exact eq_of_beq hkey ▸ h.key_mem w hw
      rw [hnone]
      simp
  key_mem w hw := by
    rw [keys_addTo]
    rcases List.mem_append.mp hw with hw | hw
    · have hkey := h.key_mem w hw
      split
      next => exact hkey
      next => exact List.mem_append_left _ hkey
    · rw [List.mem_singleton.mp hw]
      split
      next hkey => exact hkey
      next => simp

/-- Counts values one after another, each with the number of its documents. -/
def addAll (t : Tally) (met : List (Json × UInt64)) : Tally :=
  met.foldl (fun t m => t.add m.1 m.2) t

/-- **The values of a response are recorded**, after those that were met before. -/
theorem records_addAll {before : List Json} {t : Tally} (h : Records before t.pending)
    (met : List (Json × UInt64)) : Records (before ++ met.map (·.1)) (t.addAll met).pending := by
  induction met generalizing t before with
  | nil =>
      rw [List.map_nil, List.append_nil]
      exact h
  | cons m met ih =>
      have hstep : Records (before ++ [m.1]) (t.add m.1 m.2).pending := records_addTo h m.1 m.2
      have hrest := ih hstep
      rwa [List.append_assoc] at hrest

/-! ## Sorting -/

/-- The order of entries: by value in a direction, else the most frequent first. -/
def compareEntries (sort : Option Direction) (a b : TallyEntry) : Ordering :=
  match sort with
  | some .asc => compareValues a.value b.value
  | some .desc => compareValues b.value a.value
  | none => (compare b.docs a.docs).then (compareValues a.value b.value)

theorem entryLe_eq (sort : Option Direction) :
    entryLe sort = fun a b => (compareEntries sort a b).isLE := by
  funext a b
  cases sort with
  | none => rfl
  | some dir => cases dir <;> rfl

instance (sort : Option Direction) : Std.TransCmp (compareEntries sort) :=
  have values : Std.TransCmp fun a b : TallyEntry => compareValues a.value b.value :=
    Lists.transCmp_on TallyEntry.value
  have docs : Std.TransCmp fun a b : TallyEntry => compare a.docs b.docs :=
    Lists.transCmp_on TallyEntry.docs
  match sort with
  | some .asc => values
  | some .desc => values.opposite
  | none =>
      have : Std.TransCmp fun a b : TallyEntry => compare b.docs a.docs := docs.opposite
      inferInstanceAs (Std.TransCmp (compareLex (fun a b : TallyEntry => compare b.docs a.docs)
        fun a b => compareValues a.value b.value))

/-- What freezing settles: the values that were met, in order, in partitions and beyond. -/
structure Settled (met : List Json) (sort : Option Direction) (t : Tally) (f : Frozen) : Prop where
  frozen : t.frozen = some f
  records : Records met (f.retained ++ f.beyond)
  sorted : (f.retained ++ f.beyond).Pairwise fun a b => (compareEntries sort a b).isLE

/-- **Freezing settles what was counted.** -/
theorem settled_freeze {met : List Json} {t : Tally} (h : Records met t.pending)
    (sort : Option Direction) (limit : Nat) : ∃ f, Settled met sort (t.freeze sort limit) f := by
  let entries := t.pending.mergeSort (entryLe sort)
  have happend : entries.take limit ++ entries.drop limit = entries := List.take_append_drop _ _
  refine ⟨{ retained := entries.take limit, beyond := entries.drop limit }, rfl, ?_, ?_⟩
  · rw [happend]
    exact h.perm (List.mergeSort_perm _ _)
  · have hsorted : entries.Pairwise fun a b => (compareEntries sort a b).isLE := by
      show (t.pending.mergeSort (entryLe sort)).Pairwise _
      rw [entryLe_eq]
      exact Lists.pairwise_mergeSort t.pending
    rw [happend]
    exact hsorted

/-! ## Slots -/

/-- Under distinct keys the entry at a place is the first of its key. -/
theorem findIdx?_key {entries : List TallyEntry} (hn : (entries.map (·.key)).Nodup) {i : Nat}
    {key : String} : entries.findIdx? (·.key == key) = some i
      ↔ ∃ e, entries[i]? = some e ∧ e.key = key := by
  rw [List.findIdx?_eq_some_iff_getElem]
  constructor
  · rintro ⟨hlt, hkey, -⟩
    exact ⟨entries[i], List.getElem?_eq_getElem hlt, by simpa using hkey⟩
  · rintro ⟨e, he, rfl⟩
    obtain ⟨hlt, rfl⟩ := List.getElem?_eq_some_iff.mp he
    refine ⟨hlt, by simp, ?_⟩
    intro j hji hkey
    -- an earlier entry of the key would be a repetition
    have hne := List.pairwise_iff_getElem.mp hn j i (by simp; omega) (by simpa using hlt) hji
    simp only [List.getElem_map] at hne
    exact hne (by simpa using hkey)

variable {met : List Json} {sort : Option Direction} {t : Tally} {f : Frozen}

namespace Settled

theorem value?_eq (h : Settled met sort t f) (i : Nat) :
    t.value? i = (f.retained[i]?).map (·.value) := by
  rw [value?, h.frozen]
  rfl

theorem size_eq (h : Settled met sort t f) : t.size = f.retained.length := by
  rw [size, h.frozen]

theorem slot_eq (h : Settled met sort t f) (key : String) (policy : Overflow) :
    t.slot key policy = match f.retained.findIdx? (·.key == key) with
      | some i => .partition i
      | none =>
          if policy = .other && f.beyond.any (·.key == key) then .null else .unknown := by
  obtain ⟨pending, frozen⟩ := t
  obtain rfl : frozen = some f := h.frozen
  rfl

theorem nodup_retained (h : Settled met sort t f) : (f.retained.map (·.key)).Nodup := by
  have hn := h.records.nodup
  rw [List.map_append] at hn
  exact (List.nodup_append.mp hn).1

theorem value?_of_lt (h : Settled met sort t f) {i : Nat} (hi : i < f.retained.length) :
    t.value? i = some (f.retained[i]).value ∧ (f.retained[i]).value ∈ met := by
  refine ⟨?_, h.records.value_mem _ (List.mem_append_left _ (List.getElem_mem hi))⟩
  rw [h.value?_eq, List.getElem?_eq_getElem hi]
  rfl

theorem valueKey_ne (h : Settled met sort t f) {i j : Nat} (hij : i < j)
    (hj : j < f.retained.length) :
    valueKey (f.retained[i]).value ≠ valueKey (f.retained[j]).value := by
  have hkeyed (e : TallyEntry) (he : e ∈ f.retained) : e.key = valueKey e.value :=
    h.records.keyed e (List.mem_append_left _ he)
  have hne := List.pairwise_iff_getElem.mp (List.pairwise_map.mp h.nodup_retained) i j
    (Nat.lt_trans hij hj) hj hij
  rwa [hkeyed _ (List.getElem_mem _), hkeyed _ (List.getElem_mem _)] at hne

/-- The entry of a partition is filed under the key of its value. -/
theorem retained_iff (h : Settled met sort t f) {i : Nat} {key : String} :
    (∃ e, f.retained[i]? = some e ∧ e.key = key) ↔ ∃ w, t.value? i = some w ∧ valueKey w = key := by
  have hkeyed {e : TallyEntry} (he : f.retained[i]? = some e) : e.key = valueKey e.value :=
    h.records.keyed e (List.mem_append_left _ (List.mem_of_getElem? he))
  rw [h.value?_eq]
  constructor
  · rintro ⟨e, he, rfl⟩
    exact ⟨e.value, by rw [he]; rfl, (hkeyed he).symm⟩
  · rintro ⟨w, hw, rfl⟩
    obtain ⟨e, he, rfl⟩ := Option.map_eq_some_iff.mp hw
    exact ⟨e, he, hkeyed he⟩

/-- **A key belongs to the partition whose value has it.** -/
theorem slot_eq_partition_iff (h : Settled met sort t f) {key : String} {policy : Overflow}
    {i : Nat} : t.slot key policy = .partition i ↔ ∃ w, t.value? i = some w ∧ valueKey w = key := by
  rw [← h.retained_iff, ← findIdx?_key h.nodup_retained, h.slot_eq]
  split
  next j hj => simp [hj]
  next hnone =>
      rw [hnone]
      split
      next => simp
      next => simp

/-- **A value that was met belongs nowhere** only when no partition has its key and the policy
drops it. -/
theorem slot_eq_unknown_iff (h : Settled met sort t f) {v : Json} (hv : v ∈ met)
    {policy : Overflow} : t.slot (valueKey v) policy = .unknown
      ↔ policy = .drop ∧ ∀ i w, t.value? i = some w → valueKey w ≠ valueKey v := by
  by_cases hpartition : ∃ i, t.slot (valueKey v) policy = .partition i
  · obtain ⟨i, hi⟩ := hpartition
    obtain ⟨w, hw, hkey⟩ := h.slot_eq_partition_iff.mp hi
    rw [hi]
    constructor
    · intro h
      cases h
    · rintro ⟨-, hnone⟩
      exact absurd hkey (hnone i w hw)
  · have hnone : ∀ i w, t.value? i = some w → valueKey w ≠ valueKey v := by
      intro i w hw hkey
      exact hpartition ⟨i, h.slot_eq_partition_iff.mpr ⟨w, hw, hkey⟩⟩
    have hfind : f.retained.findIdx? (·.key == valueKey v) = none := by
      refine Option.eq_none_iff_forall_ne_some.mpr fun i hi => ?_
      obtain ⟨w, hw, hkey⟩ := h.retained_iff.mp ((findIdx?_key h.nodup_retained).mp hi)
      exact hnone i w hw hkey
    -- the value was met, so its key is beyond the limit
    have hbeyond : f.beyond.any (·.key == valueKey v) = true := by
      obtain ⟨e, he, hkey⟩ := List.mem_map.mp (h.records.key_mem v hv)
      rcases List.mem_append.mp he with he | he
      · have hne := List.findIdx?_eq_none_iff.mp hfind e he
        simp [hkey] at hne
      · exact List.any_eq_true.mpr ⟨e, he, by simp [hkey]⟩
    rw [h.slot_eq, hfind, hbeyond]
    cases policy with
    | drop => simpa using hnone
    | other => simp

end Settled

end Tabula.Tally
