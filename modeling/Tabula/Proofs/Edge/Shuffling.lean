import Tabula.Proofs.Edge.Freezing
import Tabula.Proofs.Edge.Keys

/-!
# Domains do not depend on the order of buckets

When the values of two responses are atomic and the one response holds the same values with the same
documents as the other, in whatever order, then freezing settles the same domain
(`sameDomain_freeze_of_perm`). The entries may hold different values, such as `1` and `1.0`, and may
be sorted from different beginnings, but their keys are the same, the order of entries is an order
of keys (`KeyLe`) in which no two keys are tied (`Ranked.key_antisymm`), and a list in such an order
is determined by what it holds (`Ranked.keys_eq_of_perm`).
-/

set_option autoImplicit false

namespace Tabula.Tally

/-! ## The order of keys -/

section Order

variable {met met' : List (Json × UInt64)} {sort : Option Direction}

theorem docsOf_perm (p : String → Bool) (h : met.Perm met') : docsOf p met = docsOf p met' :=
  ((h.filter _).map _).sum_eq

theorem compareBy_perm (h : met.Perm met') (v w : Json) :
    compareBy (docsOf · met) sort v w = compareBy (docsOf · met') sort v w := by
  have hdocs : (docsOf · met) = (docsOf · met') := funext fun p => docsOf_perm p h
  rw [hdocs]

theorem compareBy_congr {v v' w w' : Json} (hv : v.isAtomic = true) (hv' : v'.isAtomic = true)
    (hw : w.isAtomic = true) (hw' : w'.isAtomic = true) (hkeyv : valueKey v = valueKey v')
    (hkeyw : valueKey w = valueKey w') :
    compareBy (docsOf · met) sort v w = compareBy (docsOf · met) sort v' w' := by
  have heqv : compareValues v v' = .eq := (valueKey_eq_iff hv hv').mp hkeyv
  have heqw : compareValues w w' = .eq := (valueKey_eq_iff hw hw').mp hkeyw
  have hvalues : compareValues v w = compareValues v' w' :=
    (Std.TransCmp.congr_left heqv).trans (Std.TransCmp.congr_right heqw)
  have hswapped : compareValues w v = compareValues w' v' :=
    (Std.TransCmp.congr_left heqw).trans (Std.TransCmp.congr_right heqv)
  cases sort with
  | none => rw [compareBy, compareBy, hkeyv, hkeyw, hvalues]
  | some dir =>
      cases dir with
      | asc => exact hvalues
      | desc => exact hswapped

/-- Whether values of a key do not come after those of another one. -/
def KeyLe (met : List (Json × UInt64)) (sort : Option Direction) (key key' : String) : Prop :=
  ∀ v w : Json, v.isAtomic = true → w.isAtomic = true → valueKey v = key → valueKey w = key' →
    (compareBy (docsOf · met) sort v w).isLE

theorem keyLe_perm (h : met.Perm met') {key key' : String} :
    KeyLe met sort key key' ↔ KeyLe met' sort key key' := by
  unfold KeyLe
  simp only [compareBy_perm h]

/-- Values that the order does not put one before the other have one key. -/
theorem valueKey_eq_of_compareBy {v w : Json} (hv : v.isAtomic = true)
    (h : compareBy (docsOf · met) sort v w = .eq) : valueKey v = valueKey w := by
  cases sort with
  | none => exact valueKey_eq_of_eq hv (Ordering.then_eq_eq.mp h).2
  | some dir =>
      cases dir with
      | asc => exact valueKey_eq_of_eq hv h
      | desc => exact valueKey_eq_of_eq hv (Std.OrientedCmp.eq_symm h)

end Order

/-! ## Settled domains -/

/-- Two frozen tallies with the same domain, as far as keys tell. -/
structure SameDomain (t t' : Tally) : Prop where
  size : t.size = t'.size
  keys : t.partitions.map valueKey = t'.partitions.map valueKey
  slot : ∀ key policy, t.slot key policy = t'.slot key policy
  overflow : ∀ policy, t.overflow policy = t'.overflow policy

namespace Ranked

variable {met met' : List (Json × UInt64)} {sort : Option Direction} {t t' : Tally} {f f' : Frozen}

theorem isAtomic_value (h : Ranked met sort t f) (hv : ∀ m ∈ met, m.1.isAtomic = true)
    {e : TallyEntry} (he : e ∈ f.retained ++ f.beyond) : e.value.isAtomic = true := by
  obtain ⟨m, hm, hvalue⟩ := List.mem_map.mp (h.records.value_mem e he)
  rw [← hvalue]
  exact hv m hm

theorem pairwise_keyLe (h : Ranked met sort t f) (hv : ∀ m ∈ met, m.1.isAtomic = true) :
    ((f.retained ++ f.beyond).map (·.key)).Pairwise (KeyLe met sort) := by
  rw [List.pairwise_map]
  refine h.sorted_met.imp_of_mem fun {a b} ha hb hab => ?_
  intro v w hatomicv hatomicw hkeyv hkeyw
  rw [h.records.keyed a ha] at hkeyv
  rw [h.records.keyed b hb] at hkeyw
  rw [compareBy_congr hatomicv (h.isAtomic_value hv ha) hatomicw (h.isAtomic_value hv hb)
    hkeyv hkeyw]
  exact hab

/-- **No two keys are tied.** -/
theorem key_antisymm (h : Ranked met sort t f) (hv : ∀ m ∈ met, m.1.isAtomic = true)
    {a b : TallyEntry} (ha : a ∈ f.retained ++ f.beyond) (hb : b ∈ f.retained ++ f.beyond)
    (hab : KeyLe met sort a.key b.key) (hba : KeyLe met sort b.key a.key) : a.key = b.key := by
  have hatomica := h.isAtomic_value hv ha
  have hatomicb := h.isAtomic_value hv hb
  have hkeya := h.records.keyed a ha
  have hkeyb := h.records.keyed b hb
  have hle := hab a.value b.value hatomica hatomicb hkeya.symm hkeyb.symm
  have hge := hba b.value a.value hatomicb hatomica hkeyb.symm hkeya.symm
  rw [← h.compareEntries_eq ha hb] at hle
  rw [← h.compareEntries_eq hb ha] at hge
  have heq : compareEntries sort a b = .eq := Std.OrientedCmp.isLE_antisymm hle hge
  rw [h.compareEntries_eq ha hb] at heq
  rw [hkeya, hkeyb, valueKey_eq_of_compareBy hatomica heq]

theorem keys_perm (h : Ranked met sort t f) (h' : Ranked met' sort t' f') (hp : met.Perm met') :
    ((f.retained ++ f.beyond).map (·.key)).Perm ((f'.retained ++ f'.beyond).map (·.key)) := by
  refine (List.perm_ext_iff_of_nodup h.records.nodup h'.records.nodup).mpr fun key => ?_
  rw [h.records.mem_keys_iff, h'.records.mem_keys_iff]
  exact ((hp.map _).map _).mem_iff

/-- **The same values come in the same order of keys.** -/
theorem keys_eq_of_perm (h : Ranked met sort t f) (h' : Ranked met' sort t' f')
    (hp : met.Perm met') (hv : ∀ m ∈ met, m.1.isAtomic = true) :
    (f.retained ++ f.beyond).map (·.key) = (f'.retained ++ f'.beyond).map (·.key) := by
  have hv' : ∀ m ∈ met', m.1.isAtomic = true := fun m hm => hv m (hp.mem_iff.mpr hm)
  have hkeys := h.keys_perm h' hp
  have hordered' : ((f'.retained ++ f'.beyond).map (·.key)).Pairwise (KeyLe met sort) :=
    (h'.pairwise_keyLe hv').imp (keyLe_perm hp).mpr
  refine List.Perm.eq_of_pairwise ?_ (h.pairwise_keyLe hv) hordered' hkeys
  intro key key' hkey hkey' hle hge
  obtain ⟨a, ha, rfl⟩ := List.mem_map.mp hkey
  obtain ⟨b, hb, rfl⟩ := List.mem_map.mp (hkeys.mem_iff.mpr hkey')
  exact h.key_antisymm hv ha hb hle hge

theorem docs_eq_map (h : Ranked met sort t f) {entries : List TallyEntry}
    (hsub : ∀ e ∈ entries, e ∈ f.retained ++ f.beyond) :
    entries.map (·.docs) = (entries.map (·.key)).map fun key => docsOf (· = key) met := by
  rw [List.map_map]
  refine List.map_congr_left fun e he => ?_
  rw [Function.comp_apply, h.records.keyed e (hsub e he), h.docs_entry (hsub e he)]

/-- Tallies with the same keys, in partitions and beyond, have the same domain. -/
theorem sameDomain (h : Ranked met sort t f) (h' : Ranked met' sort t' f') (hp : met.Perm met')
    (hretained : f.retained.map (·.key) = f'.retained.map (·.key))
    (hbeyond : f.beyond.map (·.key) = f'.beyond.map (·.key)) : SameDomain t t' where
  size := by
    rw [h.size_eq, h'.size_eq, ← List.length_map (·.key), hretained, List.length_map]
  keys := by rw [h.keys_eq, h'.keys_eq, hretained]
  slot key policy := by
    have hfind (entries : List TallyEntry) : entries.findIdx? (·.key == key)
        = (entries.map (·.key)).findIdx? (· == key) := by
      rw [List.findIdx?_map]
      rfl
    have hany (entries : List TallyEntry) : entries.any (·.key == key)
        = (entries.map (·.key)).any (· == key) := by
      rw [List.any_map]
      rfl
    rw [h.slot_eq, h'.slot_eq, hfind, hfind, hany, hany, hretained, hbeyond]
  overflow policy := by
    have hempty : f.beyond.isEmpty = f'.beyond.isEmpty := by
      have hmaps := congrArg List.isEmpty hbeyond
      rwa [List.isEmpty_map, List.isEmpty_map] at hmaps
    -- a sum does not depend on the order in which values were met
    have hdocs : f.beyond.map (·.docs) = f'.beyond.map (·.docs) := by
      rw [h.docs_eq_map fun e he => List.mem_append_right _ he,
        h'.docs_eq_map fun e he => List.mem_append_right _ he, hbeyond]
      simp only [docsOf_perm _ hp]
    unfold Tally.overflow
    rw [h.frozen, h'.frozen]
    cases policy with
    | drop => rfl
    | other => simp only [hempty, hdocs]

end Ranked

/-- There are as many partitions as keys, up to the limit. -/
theorem size_freeze (met : List (Json × UInt64)) (sort : Option Direction) (limit : Nat) :
    ((empty.addAll met).freeze sort limit).size
      = min limit (met.map fun m => valueKey m.1).dedup.length := by
  have hrecords : Records (met.map (·.1)) (empty.addAll met).pending :=
    @records_addAll [] empty records_nil met
  have hlength := hrecords.length_eq
  rw [List.map_map, Function.comp_def] at hlength
  rw [← hlength, ← length_partitions_freeze]
  exact (List.length_map _).symm

/-- **Domains do not depend on the order of buckets.** -/
theorem sameDomain_freeze_of_perm {met met' : List (Json × UInt64)} (hp : met.Perm met')
    (hv : ∀ m ∈ met, m.1.isAtomic = true) (sort : Option Direction) (limit : Nat) :
    SameDomain ((empty.addAll met).freeze sort limit) ((empty.addAll met').freeze sort limit) := by
  obtain ⟨f, hf⟩ := @ranked_freeze empty rfl met sort limit
  obtain ⟨f', hf'⟩ := @ranked_freeze empty rfl met' sort limit
  have hlength : (f.retained.map (·.key)).length = (f'.retained.map (·.key)).length := by
    rw [List.length_map, List.length_map, ← hf.size_eq, ← hf'.size_eq, size_freeze, size_freeze]
    rw [((hp.map fun m => valueKey m.1).dedup).length_eq]
  have hkeys := hf.keys_eq_of_perm hf' hp hv
  rw [List.map_append, List.map_append] at hkeys
  obtain ⟨hretained, hbeyond⟩ := List.append_inj hkeys hlength
  exact hf.sameDomain hf' hp hretained hbeyond

/-- Values of all kinds, with `1` and zero written in two ways, and all of them equally frequent. -/
def mixed : List (Json × UInt64) :=
  [(.int 1, 2), (.str "b", 3), (.float (Float.ofBits 0x8000000000000000), 1),
    (.float (Float.ofBits 0x3ff0000000000000), 1), (.null, 3), (.int 0, 2), (.bool true, 3)]

theorem sameDomain_freeze_of_perm_mixed :
    mixed.Perm mixed.reverse ∧ (∀ m ∈ mixed, m.1.isAtomic = true)
      ∧ SameDomain ((empty.addAll mixed).freeze none 3)
        ((empty.addAll mixed.reverse).freeze none 3) := by
  have hperm : mixed.Perm mixed.reverse := (List.reverse_perm mixed).symm
  have hatomic : ∀ m ∈ mixed, m.1.isAtomic = true := by decide
  exact ⟨hperm, hatomic, sameDomain_freeze_of_perm hperm hatomic none 3⟩

end Tabula.Tally
