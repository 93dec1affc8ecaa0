import Mathlib.Algebra.BigOperators.Group.List.Basic
import Mathlib.Data.UInt
import Tabula.Proofs.Edge.Tally

/-!
# Frequencies

A tally adds up the documents of the values that it meets, whatever their keys are
(`docsAt_addAll`), and freezing keeps the sums (`ranked_freeze`). So the overflow is what was added
under the keys beyond the limit (`Ranked.overflow_eq`). Without a direction to sort by, the
partitions come by the documents that were added under their keys, the most frequent first
(`Ranked.descending`), and no value beyond the limit has more of them (`Ranked.beyond_le`).

All sums here are those of the tally, in 64 bits (`docsOf`). They are the exact numbers of documents
(`exactDocs`) up to wrapping around (`toNat_docsOf`), hence equal to them when all documents
together fit (`toNat_docsOf_of_lt`).
-/

set_option autoImplicit false

namespace Tabula.Tally

/-! ## Sums of documents -/

/-- The documents of the values that were met under some keys. -/
def docsOf (p : String → Bool) (met : List (Json × UInt64)) : UInt64 :=
  ((met.filter fun m => p (valueKey m.1)).map (·.2)).sum

def docsAt (p : String → Bool) (entries : List TallyEntry) : UInt64 :=
  ((entries.filter fun e => p e.key).map (·.docs)).sum

variable (p : String → Bool)

theorem docsOf_cons (m : Json × UInt64) (met : List (Json × UInt64)) :
    docsOf p (m :: met) = (if p (valueKey m.1) then m.2 else 0) + docsOf p met := by
  simp only [docsOf, List.filter_cons]
  split
  next => rw [List.map_cons, List.sum_cons]
  next => rw [zero_add]

theorem docsOf_append (met more : List (Json × UInt64)) :
    docsOf p (met ++ more) = docsOf p met + docsOf p more := by
  simp only [docsOf, List.filter_append, List.map_append, List.sum_append]

theorem docsAt_cons (e : TallyEntry) (entries : List TallyEntry) :
    docsAt p (e :: entries) = (if p e.key then e.docs else 0) + docsAt p entries := by
  simp only [docsAt, List.filter_cons]
  split
  next => rw [List.map_cons, List.sum_cons]
  next => rw [zero_add]

theorem docsAt_append (entries more : List TallyEntry) :
    docsAt p (entries ++ more) = docsAt p entries + docsAt p more := by
  simp only [docsAt, List.filter_append, List.map_append, List.sum_append]

theorem docsAt_perm {entries entries' : List TallyEntry} (h : entries.Perm entries') :
    docsAt p entries = docsAt p entries' :=
  ((h.filter _).map _).sum_eq

theorem docsAt_addTo (key : String) (value : Json) (docs : UInt64) (entries : List TallyEntry) :
    docsAt p (addTo key value docs entries)
      = docsAt p entries + if p key then docs else 0 := by
  induction entries with
  | nil => rw [addTo, docsAt_cons, add_comm]
  | cons e entries ih =>
      rw [addTo]
      split
      next hkey =>
          simp only [docsAt_cons, hkey]
          split
          next => exact add_right_comm _ _ _
          next => rw [add_zero]
      next => rw [docsAt_cons, docsAt_cons, ih, add_assoc]

/-- **What is met is added up**, to what was counted before. -/
theorem docsAt_addAll (t : Tally) (met : List (Json × UInt64)) :
    docsAt p (t.addAll met).pending = docsAt p t.pending + docsOf p met := by
  induction met generalizing t with
  | nil => exact (add_zero _).symm
  | cons m met ih =>
      have hstep : docsAt p (t.add m.1 m.2).pending
          = docsAt p t.pending + if p (valueKey m.1) then m.2 else 0 :=
        docsAt_addTo p (valueKey m.1) m.1 m.2 t.pending
      show docsAt p ((t.add m.1 m.2).addAll met).pending = _
      rw [ih, hstep, docsOf_cons, add_assoc]

theorem docsAt_eq_zero {p : String → Bool} {entries : List TallyEntry}
    (h : ∀ e ∈ entries, p e.key = false) : docsAt p entries = 0 := by
  have hnone : entries.filter (fun e => p e.key) = [] :=
    List.filter_eq_nil_iff.mpr fun e he => by simp [h e he]
  rw [docsAt, hnone]
  rfl

theorem docsAt_eq_sum {p : String → Bool} {entries : List TallyEntry}
    (h : ∀ e ∈ entries, p e.key = true) : docsAt p entries = (entries.map (·.docs)).sum := by
  rw [docsAt, List.filter_eq_self.mpr h]

/-- Under distinct keys an entry holds all documents of its key. -/
theorem docsAt_key {entries : List TallyEntry} (hn : (entries.map (·.key)).Nodup)
    {e : TallyEntry} (he : e ∈ entries) : docsAt (· = e.key) entries = e.docs := by
  induction entries with
  | nil => cases he
  | cons e' entries ih =>
      obtain ⟨hnew, hn⟩ := List.nodup_cons.mp hn
      rw [docsAt_cons]
      rcases List.mem_cons.mp he with rfl | he
      · have hrest : docsAt (· = e.key) entries = 0 := by
          refine docsAt_eq_zero fun e' he' => decide_eq_false fun heq => ?_
          exact hnew (List.mem_map.mpr ⟨e', he', heq⟩)
        rw [hrest, if_pos (decide_eq_true rfl), add_zero]
      · have hne : e'.key ≠ e.key := fun heq => hnew (List.mem_map.mpr ⟨e, he, heq.symm⟩)
        rw [decide_eq_false hne, ih hn he]
        exact zero_add _

/-! ## Exact numbers -/

/-- The exact number of documents of the values that were met under some keys. -/
def exactDocs (p : String → Bool) (met : List (Json × UInt64)) : Nat :=
  ((met.filter fun m => p (valueKey m.1)).map (·.2.toNat)).sum

theorem exactDocs_cons (m : Json × UInt64) (met : List (Json × UInt64)) :
    exactDocs p (m :: met) = (if p (valueKey m.1) then m.2.toNat else 0) + exactDocs p met := by
  simp only [exactDocs, List.filter_cons]
  split
  next => rw [List.map_cons, List.sum_cons]
  next => rw [Nat.zero_add]

theorem exactDocs_le_all (met : List (Json × UInt64)) :
    exactDocs p met ≤ exactDocs (fun _ => true) met := by
  induction met with
  | nil => exact Nat.le_refl 0
  | cons m met ih =>
      rw [exactDocs_cons, exactDocs_cons, if_pos rfl]
      split
      next => omega
      next => omega

/-- **The sums are exact up to wrapping around.** -/
theorem toNat_docsOf (met : List (Json × UInt64)) :
    (docsOf p met).toNat = exactDocs p met % 2 ^ 64 := by
  induction met with
  | nil => rfl
  | cons m met ih =>
      rw [docsOf_cons, exactDocs_cons, UInt64.toNat_add, ih, Nat.add_mod_mod]
      split
      next => rfl
      next => rfl

/-- **The sums are exact** when all documents together can be counted in 64 bits. -/
theorem toNat_docsOf_of_lt {met : List (Json × UInt64)}
    (h : exactDocs (fun _ => true) met < 2 ^ 64) : (docsOf p met).toNat = exactDocs p met := by
  rw [toNat_docsOf]
  exact Nat.mod_eq_of_lt (Nat.lt_of_le_of_lt (exactDocs_le_all p met) h)

/-! ## Ranks -/

/-- What freezing settles, with entries that hold the documents that were met. -/
structure Ranked (met : List (Json × UInt64)) (sort : Option Direction) (t : Tally) (f : Frozen) :
    Prop extends Settled (met.map (·.1)) sort t f where
  docs_eq : ∀ p, docsAt p (f.retained ++ f.beyond) = docsOf p met

/-- **Freezing ranks what was counted.** -/
theorem ranked_freeze {t : Tally} (h : t.pending = []) (met : List (Json × UInt64))
    (sort : Option Direction) (limit : Nat) :
    ∃ f, Ranked met sort ((t.addAll met).freeze sort limit) f := by
  have hrecords : Records (met.map (·.1)) (t.addAll met).pending := by
    have hempty : Records [] t.pending := h ▸ records_nil
    exact records_addAll hempty met
  obtain ⟨f, hf⟩ := settled_freeze hrecords sort limit
  refine ⟨f, hf, fun p => ?_⟩
  have hperm : (f.retained ++ f.beyond).Perm (t.addAll met).pending := by
    obtain rfl := Option.some.inj hf.frozen
    rw [List.take_append_drop]
    exact List.mergeSort_perm _ _
  rw [docsAt_perm p hperm, docsAt_addAll, h]
  exact zero_add _

namespace Ranked

variable {met : List (Json × UInt64)} {sort : Option Direction} {t : Tally} {f : Frozen}

theorem partitions_eq (h : Ranked met sort t f) : t.partitions = f.retained.map (·.value) := by
  rw [partitions, h.frozen]

theorem keys_eq (h : Ranked met sort t f) :
    t.partitions.map valueKey = f.retained.map (·.key) := by
  rw [h.partitions_eq, List.map_map]
  refine List.map_congr_left fun e he => ?_
  exact (h.records.keyed e (List.mem_append_left _ he)).symm

theorem docs_entry (h : Ranked met sort t f) {e : TallyEntry} (he : e ∈ f.retained ++ f.beyond) :
    docsOf (· = valueKey e.value) met = e.docs := by
  rw [← h.records.keyed e he, ← h.docs_eq, docsAt_key h.records.nodup he]

theorem docs_le (h : Ranked met none t f) :
    (f.retained ++ f.beyond).Pairwise fun a b => b.docs ≤ a.docs := by
  refine h.sorted.imp fun {a b} hab => ?_
  by_contra hlt
  have hcompare : compareEntries none a b = .gt := by
    rw [compareEntries, Std.compare_eq_gt.mpr (UInt64.not_le.mp hlt)]
    rfl
  rw [hcompare] at hab
  cases hab

/-- **The partitions come by the documents that were met under their keys**, the most frequent
first. -/
theorem descending (h : Ranked met none t f) : t.partitions.Pairwise fun v w =>
    docsOf (· = valueKey w) met ≤ docsOf (· = valueKey v) met := by
  rw [h.partitions_eq, List.pairwise_map]
  refine (List.pairwise_append.mp h.docs_le).1.imp_of_mem fun {a b} ha hb hle => ?_
  rw [h.docs_entry (List.mem_append_left _ ha), h.docs_entry (List.mem_append_left _ hb)]
  exact hle

/-- **No key beyond the limit is more frequent than a partition.** -/
theorem beyond_le (h : Ranked met none t f) {key : String}
    (hkey : key ∉ t.partitions.map valueKey) {v : Json} (hv : v ∈ t.partitions) :
    docsOf (· = key) met ≤ docsOf (· = valueKey v) met := by
  rw [h.keys_eq] at hkey
  rw [h.partitions_eq] at hv
  obtain ⟨a, ha, rfl⟩ := List.mem_map.mp hv
  rw [h.docs_entry (List.mem_append_left _ ha), ← h.docs_eq, docsAt_append]
  have hretained : docsAt (· = key) f.retained = 0 := by
    refine docsAt_eq_zero fun e he => decide_eq_false fun heq => ?_
    exact hkey (heq ▸ List.mem_map_of_mem he)
  rw [hretained, zero_add]
  by_cases hbeyond : ∃ e ∈ f.beyond, e.key = key
  · obtain ⟨e, he, rfl⟩ := hbeyond
    have hn : (f.beyond.map (·.key)).Nodup := by
      have hn := h.records.nodup
      rw [List.map_append] at hn
      exact (List.nodup_append.mp hn).2.1
    rw [docsAt_key hn he]
    exact (List.pairwise_append.mp h.docs_le).2.2 a ha e he
  · rw [docsAt_eq_zero fun e he => decide_eq_false fun heq => hbeyond ⟨e, he, heq⟩]
    exact UInt64.zero_le

/-- **The overflow is what was met beyond the limit.** -/
theorem overflow_eq (h : Ranked met sort t f) :
    (t.overflow .other).getD 0 = docsOf (· ∉ t.partitions.map valueKey) met := by
  have hretained : docsAt (· ∉ t.partitions.map valueKey) f.retained = 0 := by
    rw [h.keys_eq]
    exact docsAt_eq_zero fun e he => decide_eq_false fun hnot => hnot (List.mem_map_of_mem he)
  have hbeyond : docsAt (· ∉ t.partitions.map valueKey) f.beyond = (f.beyond.map (·.docs)).sum := by
    rw [h.keys_eq]
    refine docsAt_eq_sum fun e he => decide_eq_true fun hmem => ?_
    have hn := h.records.nodup
    rw [List.map_append] at hn
    exact (List.nodup_append.mp hn).2.2 _ hmem _ (List.mem_map_of_mem he) rfl
  rw [← h.docs_eq, docsAt_append, hretained, hbeyond, zero_add]
  simp only [overflow, h.frozen]
  cases hempty : f.beyond.isEmpty with
  | true =>
      rw [List.isEmpty_iff.mp hempty]
      rfl
  | false => rfl

end Ranked

end Tabula.Tally
