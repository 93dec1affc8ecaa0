import Mathlib.Data.List.Basic

/-!
# Sorted lists and lists of parts

A list that is sorted by a comparison is in its order (`pairwise_mergeSort`), and elements of one
key stay in theirs (`filter_mergeSort`). Elements that are tied stay in their order as well, which
leaves one list that sorting can yield (`arranges_iff`). A list in the order of its keys is made of
the parts of its keys, one after another (`flatMap_filter_of_sorted`).
-/

set_option autoImplicit false

namespace Tabula.Lists

/-! ## Sorting by a comparison -/

section Comparison

variable {α β : Type} {cmp : β → β → Ordering} [Std.TransCmp cmp]

/-- Comparing by a key is transitive when comparing keys is. -/
theorem transCmp_on (key : α → β) : Std.TransCmp fun a b => cmp (key a) (key b) where
  eq_swap := Std.OrientedCmp.eq_swap
  isLE_trans := Std.TransCmp.isLE_trans

theorem isLE_total (a b : β) : ((cmp a b).isLE || (cmp b a).isLE) = true := by
  have hswap : cmp b a = (cmp a b).swap := Std.OrientedCmp.eq_swap
  rw [hswap]
  cases cmp a b with
  | lt => rfl
  | eq => rfl
  | gt => rfl

theorem pairwise_mergeSort (xs : List β) :
    (xs.mergeSort fun a b => (cmp a b).isLE).Pairwise fun a b => (cmp a b).isLE :=
  List.pairwise_mergeSort (fun _ _ _ => Std.TransCmp.isLE_trans) isLE_total xs

/-- A list that is sorted backwards is in the opposite order. -/
theorem pairwise_mergeSort_swap (xs : List β) :
    (xs.mergeSort fun a b => (cmp b a).isLE).Pairwise fun a b => (cmp b a).isLE := by
  have trans (a b c : β) (hab : (cmp b a).isLE) (hbc : (cmp c b).isLE) : (cmp c a).isLE :=
    Std.TransCmp.isLE_trans hbc hab
  exact List.pairwise_mergeSort trans (fun a b => isLE_total b a) xs

/-- Sorting by a key keeps the order of the elements of one key. -/
theorem filter_mergeSort [Std.LawfulEqCmp cmp] [DecidableEq β] {key : α → β} (xs : List α) (k : β) :
    (xs.mergeSort fun a b => (cmp (key a) (key b)).isLE).filter (key · = k)
      = xs.filter (key · = k) := by
  have : Std.TransCmp fun a b : α => cmp (key a) (key b) := transCmp_on key
  have hsame : (xs.filter (key · = k)).Pairwise fun a b => (cmp (key a) (key b)).isLE := by
    refine List.pairwise_of_forall_mem_list fun a ha b hb => ?_
    have hself : cmp k k = .eq := Std.ReflCmp.compare_self
    rw [of_decide_eq_true (List.mem_filter.mp ha).2, of_decide_eq_true (List.mem_filter.mp hb).2,
      hself]
    rfl
  have hsub : (xs.filter (key · = k)).Sublist
      (xs.mergeSort fun a b => (cmp (key a) (key b)).isLE) :=
    List.sublist_mergeSort (fun _ _ _ => Std.TransCmp.isLE_trans) isLE_total hsame
      List.filter_sublist
  -- the elements of the key come in the same order, and there are no others of it
  have hfilter := hsub.filter (key · = k)
  rw [List.filter_filter] at hfilter
  simp only [Bool.and_self] at hfilter
  exact (hfilter.eq_of_length ((List.mergeSort_perm _ _).filter _).length_eq.symm).symm

/-- Whether a list arranges another one: it holds the same elements in order, and those that are
tied in the order that they had. -/
structure Arranges (cmp : β → β → Ordering) (xs ys : List β) : Prop where
  perm : ys.Perm xs
  sorted : ys.Pairwise fun a b => (cmp a b).isLE
  stable : ∀ a, ys.filter (cmp a · == .eq) = xs.filter (cmp a · == .eq)

theorem arranges_mergeSort (xs : List β) :
    Arranges cmp xs (xs.mergeSort fun a b => (cmp a b).isLE) where
  perm := List.mergeSort_perm _ _
  sorted := pairwise_mergeSort xs
  stable a := by
    have htied : (xs.filter (cmp a · == .eq)).Pairwise fun b c => (cmp b c).isLE := by
      refine List.pairwise_of_forall_mem_list fun b hb c hc => ?_
      have hab : cmp a b = .eq := eq_of_beq (List.mem_filter.mp hb).2
      have hac : cmp a c = .eq := eq_of_beq (List.mem_filter.mp hc).2
      rw [← Std.TransCmp.congr_left hab, hac]
      rfl
    have hsub : (xs.filter (cmp a · == .eq)).Sublist
        (xs.mergeSort fun a b => (cmp a b).isLE) :=
      List.sublist_mergeSort (fun _ _ _ => Std.TransCmp.isLE_trans) isLE_total htied
        List.filter_sublist
    have hfilter := hsub.filter (cmp a · == .eq)
    rw [List.filter_filter] at hfilter
    simp only [Bool.and_self] at hfilter
    exact (hfilter.eq_of_length ((List.mergeSort_perm _ _).filter _).length_eq.symm).symm

/-- Lists in order are the same when they hold the same of what is tied with each element. -/
theorem eq_of_tied {ys zs : List β} (hys : ys.Pairwise fun a b => (cmp a b).isLE)
    (hzs : zs.Pairwise fun a b => (cmp a b).isLE)
    (htied : ∀ a, ys.filter (cmp a · == .eq) = zs.filter (cmp a · == .eq)) : ys = zs := by
  have hself (a : β) : (cmp a a == .eq) = true := beq_iff_eq.mpr Std.ReflCmp.compare_self
  -- what stands in the one list stands in the other one
  have hmem {xs xs' : List β}
      (h : ∀ a, xs.filter (cmp a · == .eq) = xs'.filter (cmp a · == .eq)) {a : β} (ha : a ∈ xs) :
      a ∈ xs' :=
    (List.mem_filter.mp (h a ▸ List.mem_filter.mpr ⟨ha, hself a⟩)).1
  have hfirst {x : β} {xs : List β} (h : (x :: xs).Pairwise fun a b => (cmp a b).isLE) {a : β}
      (ha : a ∈ x :: xs) : (cmp x a).isLE := by
    rcases List.mem_cons.mp ha with rfl | ha
    · rw [eq_of_beq (hself a)]
      rfl
    · exact (List.pairwise_cons.mp h).1 a ha
  induction ys generalizing zs with
  | nil =>
      refine (List.eq_nil_iff_forall_not_mem.mpr fun a ha => ?_).symm
      exact List.not_mem_nil (hmem (fun a => (htied a).symm) ha)
  | cons y ys ih =>
      cases zs with
      | nil => exact absurd (hmem htied List.mem_cons_self) List.not_mem_nil
      | cons z zs =>
          -- the first elements are tied, and so the same
          have hle : (cmp y z).isLE :=
            hfirst hys (hmem (fun a => (htied a).symm) List.mem_cons_self)
          have hge : (cmp z y).isLE := hfirst hzs (hmem htied List.mem_cons_self)
          have hyz : (cmp y z == .eq) = true :=
            beq_iff_eq.mpr (Std.OrientedCmp.isLE_antisymm hle hge)
          have hheads := htied y
          rw [List.filter_cons, List.filter_cons, if_pos (hself y), if_pos hyz] at hheads
          obtain rfl : y = z := (List.cons.inj hheads).1
          obtain ⟨-, hys⟩ := List.pairwise_cons.mp hys
          obtain ⟨-, hzs⟩ := List.pairwise_cons.mp hzs
          refine congrArg (y :: ·) (ih hys hzs fun a => ?_)
          have htails := htied a
          simp only [List.filter_cons] at htails
          split at htails
          next => exact (List.cons.inj htails).2
          next => exact htails

/-- **Sorting yields the one list that arranges another one.** -/
theorem arranges_iff {xs ys : List β} :
    Arranges cmp xs ys ↔ ys = xs.mergeSort fun a b => (cmp a b).isLE := by
  have hsorted := @arranges_mergeSort _ cmp _ xs
  constructor
  · intro h
    exact eq_of_tied h.sorted hsorted.sorted fun a => (h.stable a).trans (hsorted.stable a).symm
  · rintro rfl
    exact hsorted

end Comparison

/-! ## Parts by key -/

section Parts

variable {α β : Type} [BEq β] [LawfulBEq β] {cmp : β → β → Ordering} [Std.TransCmp cmp]
  [Std.LawfulEqCmp cmp]

/-- In a list in the order of its keys, the elements of a least key go first. -/
theorem filter_append_of_sorted {key : α → β} {k : β} {xs : List α}
    (hs : xs.Pairwise fun a b => (cmp (key a) (key b)).isLE)
    (hk : ∀ x ∈ xs, (cmp k (key x)).isLE) :
    xs.filter (key · == k) ++ xs.filter (key · != k) = xs := by
  induction xs with
  | nil => rfl
  | cons x xs ih =>
      obtain ⟨hx, hxs⟩ := List.pairwise_cons.mp hs
      have ih := ih hxs fun y hy => hk y (by simp [hy])
      by_cases h : key x = k
      · simp only [h, List.filter_cons, bne_self_eq_false, BEq.rfl, if_true, Bool.false_eq_true,
          if_false, List.cons_append, ih]
      · -- a key above the least one: none of the rest can be the least
        have hnone : xs.filter (key · == k) = [] := by
          rw [List.filter_eq_nil_iff]
          intro y hy heq
          have hyk : key y = k := by simpa using heq
          have h1 : (cmp (key x) k).isLE := hyk ▸ hx y hy
          have h2 : (cmp k (key x)).isLE := hk x (by simp)
          exact h (Std.LawfulEqCmp.eq_of_compare (Std.OrientedCmp.isLE_antisymm h1 h2))
        rw [hnone, List.nil_append] at ih
        simp [h, hnone, ih]

/-- A list in the order of its keys is made of the parts of its keys. -/
theorem flatMap_filter_of_sorted {key : α → β} {keys : List β} {xs : List α}
    (hkeys : keys.Pairwise fun a b => cmp a b = .lt)
    (hs : xs.Pairwise fun a b => (cmp (key a) (key b)).isLE) (hmem : ∀ x ∈ xs, key x ∈ keys) :
    (keys.flatMap fun k => xs.filter (key · == k)) = xs := by
  induction keys generalizing xs with
  | nil =>
      have : xs = [] := List.eq_nil_iff_forall_not_mem.mpr fun x hx => by simpa using hmem x hx
      simp [this]
  | cons k keys ih =>
      obtain ⟨hk, hkeys⟩ := List.pairwise_cons.mp hkeys
      -- the first key is the least one
      have hle : ∀ x ∈ xs, (cmp k (key x)).isLE := by
        intro x hx
        rcases List.mem_cons.mp (hmem x hx) with heq | hin
        · have hself : cmp k k = .eq := Std.ReflCmp.compare_self
          rw [heq, hself]
          rfl
        · rw [hk _ hin]
          rfl
      have hrest : (keys.flatMap fun q => (xs.filter (key · != k)).filter (key · == q))
          = xs.filter (key · != k) := by
        refine ih hkeys (hs.filter _) ?_
        intro x hx
        obtain ⟨hx, hne⟩ := List.mem_filter.mp hx
        exact (List.mem_cons.mp (hmem x hx)).resolve_left (by simpa using hne)
      have hsame : (keys.flatMap fun q => xs.filter (key · == q))
          = keys.flatMap fun q => (xs.filter (key · != k)).filter (key · == q) := by
        refine List.flatMap_congr fun q hq => ?_
        rw [List.filter_filter]
        refine List.filter_congr fun x _ => ?_
        have hne : k ≠ q := by
          rintro rfl
          have hself : cmp k k = .eq := Std.ReflCmp.compare_self
          have hlt := hk k hq
          rw [hself] at hlt
          cases hlt
        by_cases h : key x = q
        · simp [h, Ne.symm hne]
        · simp [h]
      rw [List.flatMap_cons, hsame, hrest, filter_append_of_sorted hs hle]

end Parts

/-! ## Places -/

/-- Distinct members of a list, and after them the others, are the whole list. -/
theorem append_filter_notMem_perm {α : Type} [DecidableEq α] {xs all : List α} (hxs : xs.Nodup)
    (hall : all.Nodup) (hsub : ∀ x ∈ xs, x ∈ all) :
    (xs ++ all.filter fun x => decide (x ∉ xs)).Perm all := by
  have hmem : xs.Perm (all.filter fun x => decide (x ∈ xs)) := by
    refine (List.perm_ext_iff_of_nodup hxs (hall.filter _)).mpr fun x => ?_
    rw [List.mem_filter, decide_eq_true_eq]
    exact ⟨fun hx => ⟨hsub x hx, hx⟩, fun hx => hx.2⟩
  have hnot : (all.filter fun x => decide (x ∉ xs)) = all.filter fun x => !decide (x ∈ xs) :=
    List.filter_congr fun x _ => decide_not
  rw [hnot]
  exact (hmem.append_right _).trans (List.filter_append_perm _ all)

/-- Under distinct keys, the entry of a key is the one that is found. -/
theorem find?_key {α β : Type} [BEq α] [LawfulBEq α] {entries : List (α × β)}
    (hn : (entries.map (·.1)).Nodup) {key : α} {value : β} (h : (key, value) ∈ entries) :
    entries.find? (·.1 == key) = some (key, value) := by
  induction entries with
  | nil => simp at h
  | cons entry entries ih =>
      obtain ⟨hentry, hn⟩ := List.nodup_cons.mp hn
      rcases List.mem_cons.mp h with heq | h
      · rw [← heq, List.find?_cons_of_pos (by simp)]
      · have hne : entry.1 ≠ key := by
          rintro rfl
          exact hentry (List.mem_map.mpr ⟨_, h, rfl⟩)
        rw [List.find?_cons_of_neg (by simpa using hne), ih hn h]

/-- A list is what stands at its places. -/
theorem filterMap_range_getElem? {α : Type} (xs : List α) :
    ((List.range xs.length).filterMap fun i => xs[i]?) = xs := by
  induction xs with
  | nil => rfl
  | cons x xs ih =>
      rw [List.length_cons, List.range_succ_eq_map, List.filterMap_cons, List.getElem?_cons_zero,
        List.filterMap_map]
      exact congrArg (x :: ·) ih

end Tabula.Lists
