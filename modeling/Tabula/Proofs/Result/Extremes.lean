import Tabula.Proofs.Edge.Keys
import Tabula.Proofs.Number.Rounding
import Tabula.Proofs.Result.Merging

/-!
# Cells that hold extremes

Of numbers, or of texts, a cell keeps the least or the greatest, and null counts for nothing
(`Best`). Which one is kept depends on the order in which they are merged only where two of them
compare equal (`Best.order?_eq`). Numbers are compared by their doubles, so what is kept is an
extreme of the numbers themselves but for integers that share a double (`merged_extreme`).
-/

set_option autoImplicit false

namespace Tabula

/-! ## Values that are compared -/

/-- Values of which one is an extreme: numbers, or texts, and null among them. -/
def Alike (values : List Json) : Prop :=
  (∀ v ∈ values, v = .null ∨ ∃ n : Number, n.isProper = true ∧ v = .num n)
    ∨ (∀ v ∈ values, v = .null ∨ ∃ s, v = .str s)

/-- Whether a number is at most another one, or has the same double; a text goes by its
characters. -/
def AtMost : Json → Json → Prop
  | .num m, .num n => m.value ≤ n.value ∨ Double.value m.toFloat = Double.value n.toFloat
  | .str s, .str t => s ≤ t
  | _, _ => False

namespace Aggregate

def extremes : List Aggregate := [.min, .max]

/-- The order in which the value that is kept comes first. -/
def preference (a : Aggregate) (v w : Json) : Ordering :=
  if a = .max then compareValues w v else compareValues v w

theorem preference_min (v w : Json) : preference .min v w = compareValues v w := rfl

theorem preference_max (v w : Json) : preference .max v w = compareValues w v := rfl

instance (a : Aggregate) : Std.TransCmp a.preference := by
  unfold preference
  split
  · exact Std.TransCmp.opposite
  · infer_instance

/-- Whether a value is at most the other one, for the greatest at least. -/
def Prefers (a : Aggregate) (v w : Json) : Prop := if a = .max then AtMost w v else AtMost v w

end Aggregate

/-- What a cell keeps of some values. -/
structure Extreme (a : Aggregate) (values : List Json) (v : Json) : Prop where
  null_iff : v = .null ↔ ∀ w ∈ values, w = .null
  mem : v ∈ values
  prefers : ∀ w ∈ values, w ≠ .null → a.Prefers v w

section Comparing

variable {a : Aggregate} {values : List Json} {v w : Json}

theorem Alike.subset {more : List Json} (h : Alike more) (hsub : values ⊆ more) : Alike values :=
  h.imp (fun hnum u hu => hnum u (hsub hu)) fun hstr u hu => hstr u (hsub hu)

theorem Alike.order?_eq (h : Alike values) (hv : v ∈ values) (hw : w ∈ values) (hnv : v ≠ .null)
    (hnw : w ≠ .null) : Aggregate.order? v w = some (compareValues v w) := by
  rcases h with hnum | hstr
  · obtain ⟨m, -, rfl⟩ := (hnum v hv).resolve_left hnv
    obtain ⟨n, -, rfl⟩ := (hnum w hw).resolve_left hnw
    rfl
  · obtain ⟨s, rfl⟩ := (hstr v hv).resolve_left hnv
    obtain ⟨t, rfl⟩ := (hstr w hw).resolve_left hnw
    rfl

theorem Alike.atMost (h : Alike values) (hv : v ∈ values) (hw : w ∈ values) (hnv : v ≠ .null)
    (hnw : w ≠ .null) (hle : (compareValues v w).isLE) : AtMost v w := by
  rcases h with hnum | hstr
  · obtain ⟨m, hm, rfl⟩ := (hnum v hv).resolve_left hnv
    obtain ⟨n, hn, rfl⟩ := (hnum w hw).resolve_left hnw
    rw [compareValues_num] at hle
    have hle : Double.value m.toFloat ≤ Double.value n.toFloat :=
      compare_le_iff_le.mp (Ordering.isLE_iff_ne_gt.mp hle)
    -- rounding turns no order round, it only makes numbers equal
    rcases le_total m.value n.value with hmn | hnm
    · exact Or.inl hmn
    · exact Or.inr (le_antisymm hle (Number.toFloat_mono hn hm hnm))
  · obtain ⟨s, rfl⟩ := (hstr v hv).resolve_left hnv
    obtain ⟨t, rfl⟩ := (hstr w hw).resolve_left hnw
    exact compare_le_iff_le.mp (Ordering.isLE_iff_ne_gt.mp hle)

/-- Numbers that are doubles are compared exactly. -/
theorem atMost_num_iff {m n : Number} (hm : m.isProper = true) (hn : n.isProper = true)
    (hem : m.isExact = true) (hen : n.isExact = true) :
    AtMost (.num m) (.num n) ↔ m.value ≤ n.value := by
  refine ⟨fun h => ?_, Or.inl⟩
  rcases h with hle | heq
  · exact hle
  · rw [Number.value_toFloat_of_isExact hm hem, Number.value_toFloat_of_isExact hn hen] at heq
    exact heq.le

/-- Of two values the preferred one is kept, the older one when they are equal. -/
theorem combine_extreme (ha : a ∈ Aggregate.extremes) (h : Alike values) (hv : v ∈ values)
    (hw : w ∈ values) (hnv : v ≠ .null) (hnw : w ≠ .null) :
    a.combine v w = if (a.preference v w).isLE then v else w := by
  have hbetter (wanted : Ordering) :
      (if v.isNull then w else if w.isNull then v else Aggregate.better wanted v w)
        = if compareValues v w = wanted ∨ compareValues v w = .eq then v else w := by
    rw [Json.isNull_eq_false hnv, Json.isNull_eq_false hnw, Aggregate.better,
      h.order?_eq hv hw hnv hnw]
    rfl
  simp only [Aggregate.extremes, List.mem_cons, List.not_mem_nil, or_false] at ha
  rcases ha with rfl | rfl
  · refine (hbetter .lt).trans ?_
    rw [Aggregate.preference_min]
    cases compareValues v w <;> rfl
  · refine (hbetter .gt).trans ?_
    rw [Aggregate.preference_max, swap_compareValues w v]
    cases compareValues v w <;> rfl

end Comparing

/-! ## Merging one after another -/

/-- Whether a value is what merging some values leaves: null while there was none, else one of them
to which no other is preferred. -/
structure Best (a : Aggregate) (values : List Json) (v : Json) : Prop where
  null_iff : v = .null ↔ ∀ w ∈ values, w = .null
  mem : v ≠ .null → v ∈ values
  isLE : ∀ w ∈ values, w ≠ .null → (a.preference v w).isLE

section Merging

variable {a : Aggregate} {values before : List Json} {v w : Json}

theorem best_nil (a : Aggregate) : Best a [] .null where
  null_iff := by simp
  mem h := absurd rfl h
  isLE w hw := absurd hw List.not_mem_nil

theorem Best.combine (ha : a ∈ Aggregate.extremes) (halike : Alike (values ++ [w]))
    (h : Best a values v) : Best a (values ++ [w]) (a.combine v w) := by
  have hlast : w ∈ values ++ [w] := List.mem_append_right _ (List.mem_singleton_self w)
  have hself : (a.preference w w).isLE := by
    have heq : a.preference w w = .eq := Std.ReflCmp.compare_self
    rw [heq]
    rfl
  by_cases hnw : w = .null
  · subst hnw
    rw [combine_null_right]
    refine ⟨?_, fun hv => List.mem_append_left _ (h.mem hv), ?_⟩
    · rw [h.null_iff, List.forall_mem_append, List.forall_mem_singleton, and_iff_left rfl]
    · exact List.forall_mem_append.mpr
        ⟨h.isLE, List.forall_mem_singleton.mpr fun hnw => absurd rfl hnw⟩
  have hnotAll : ¬ ∀ u ∈ values ++ [w], u = .null := fun hall => hnw (hall w hlast)
  by_cases hnv : v = .null
  · -- nothing but nulls were merged before
    have hall := h.null_iff.mp hnv
    rw [hnv, combine_null_left]
    refine ⟨iff_of_false hnw hnotAll, fun _ => hlast, List.forall_mem_append.mpr ⟨?_, ?_⟩⟩
    · exact fun u hu hnu => absurd (hall u hu) hnu
    · exact List.forall_mem_singleton.mpr fun _ => hself
  have hv : v ∈ values ++ [w] := List.mem_append_left _ (h.mem hnv)
  rw [combine_extreme ha halike hv hlast hnv hnw]
  split
  next hvw =>
      refine ⟨iff_of_false hnv hnotAll, fun _ => hv, List.forall_mem_append.mpr ⟨h.isLE, ?_⟩⟩
      exact List.forall_mem_singleton.mpr fun _ => hvw
  next hvw =>
      -- what comes before the one that is there comes before all that were merged
      have htotal : (a.preference v w).isLE ∨ (a.preference w v).isLE := by
        rw [← Bool.or_eq_true]
        exact Lists.isLE_total v w
      have hwv := htotal.resolve_left hvw
      refine ⟨iff_of_false hnw hnotAll, fun _ => hlast, List.forall_mem_append.mpr ⟨?_, ?_⟩⟩
      · exact fun u hu hnu => Std.TransCmp.isLE_trans hwv (h.isLE u hu hnu)
      · exact List.forall_mem_singleton.mpr fun _ => hself

/-- **Merging keeps the best value**, whatever their number. -/
theorem Best.foldl_combine (ha : a ∈ Aggregate.extremes) (halike : Alike (before ++ values))
    (h : Best a before v) : Best a (before ++ values) (values.foldl a.combine v) := by
  induction values generalizing before v with
  | nil => rwa [List.append_nil]
  | cons w values ih =>
      have hassoc : before ++ w :: values = before ++ [w] ++ values := by simp
      rw [hassoc] at halike ⊢
      rw [List.foldl_cons]
      exact ih halike (h.combine ha (halike.subset (List.subset_append_left _ _)))

theorem best_foldl_combine (ha : a ∈ Aggregate.extremes) (halike : Alike values) :
    Best a values (values.foldl a.combine .null) := by
  have hconcat : Alike ([] ++ values) := halike
  exact (best_nil a).foldl_combine ha hconcat

theorem Best.extreme (halike : Alike values) (hne : values ≠ []) (h : Best a values v) :
    Extreme a values v := by
  refine ⟨h.null_iff, ?_, fun w hw hnw => ?_⟩
  · by_cases hnv : v = .null
    · obtain ⟨w, hw⟩ := List.exists_mem_of_ne_nil values hne
      rwa [hnv, ← h.null_iff.mp hnv w hw]
    · exact h.mem hnv
  · have hnv : v ≠ .null := fun hnv => hnw (h.null_iff.mp hnv w hw)
    have hle := h.isLE w hw hnw
    unfold Aggregate.preference at hle
    unfold Aggregate.Prefers
    split
    next hmax =>
        rw [if_pos hmax] at hle
        exact halike.atMost hw (h.mem hnv) hnw hnv hle
    next hmin =>
        rw [if_neg hmin] at hle
        exact halike.atMost (h.mem hnv) hw hnv hnw hle

/-- **In another order the same values leave an equal one.** -/
theorem Best.order?_eq {values' : List Json} {v' : Json} (halike : Alike values)
    (hperm : values.Perm values') (h : Best a values v) (h' : Best a values' v') :
    v = .null ∧ v' = .null ∨ Aggregate.order? v v' = some .eq := by
  have hnull : v = .null ↔ v' = .null := by
    rw [h.null_iff, h'.null_iff]
    exact ⟨fun hall w hw => hall w (hperm.mem_iff.mpr hw),
      fun hall w hw => hall w (hperm.mem_iff.mp hw)⟩
  by_cases hnv : v = .null
  · exact Or.inl ⟨hnv, hnull.mp hnv⟩
  · have hnv' : v' ≠ .null := mt hnull.mpr hnv
    have hv := h.mem hnv
    have hv' := hperm.mem_iff.mpr (h'.mem hnv')
    -- neither is preferred to the other
    have heq : a.preference v v' = .eq := Std.OrientedCmp.isLE_antisymm
      (h.isLE v' hv' hnv') (h'.isLE v (hperm.mem_iff.mp hv) hnv)
    refine Or.inr ?_
    rw [halike.order?_eq hv hv' hnv hnv']
    unfold Aggregate.preference at heq
    split at heq
    next => rw [swap_compareValues, heq, Ordering.swap_eq]
    next => rw [heq]

end Merging

/-! ## Cells -/

/-- **A cell keeps an extreme of its values**, of which each is null or a number, or each null or a
text: null when all are null, else one that is at most (for the greatest, at least) every other.
Numbers with one double count as equal there, so that doubles and integers up to `2 ^ 53` are
compared exactly. In another order the same values leave an equal one. -/
theorem merged_extreme {a : Aggregate} (ha : a ∈ Aggregate.extremes) (dims : List Nat) (fill : Json)
    {writes : List (List Nat × Json)}
    (hwrites : ∀ write ∈ writes, Matrix.inside dims write.1 = true) :
    (∃ m, Matrix.mergeAll a writes (Matrix.filled dims fill) = .ok m
      ∧ ∀ coord, Matrix.inside dims coord = true → Matrix.valuesAt writes coord ≠ [] →
        Alike (Matrix.valuesAt writes coord) →
        ∃ v, m.get coord = .ok v ∧ Extreme a (Matrix.valuesAt writes coord) v
          ∧ ∀ others : List (List Nat × Json),
            (∀ write ∈ others, Matrix.inside dims write.1 = true) →
            (Matrix.valuesAt writes coord).Perm (Matrix.valuesAt others coord) →
            ∃ m' v', Matrix.mergeAll a others (Matrix.filled dims fill) = .ok m'
              ∧ m'.get coord = .ok v'
              ∧ (v = .null ∧ v' = .null ∨ Aggregate.order? v v' = some .eq))
      ∧ ∀ m n : Number, m.isProper = true → n.isProper = true → m.isExact = true →
        n.isExact = true → (AtMost (.num m) (.num n) ↔ m.value ≤ n.value) := by
  refine ⟨?_, fun m n hm hn hem hen => atMost_num_iff hm hn hem hen⟩
  obtain ⟨m, hm, hget⟩ := Matrix.mergeAll_filled a fill hwrites
  refine ⟨m, hm, fun coord hcoord hne halike => ?_⟩
  -- combining one after another keeps the best so far
  have hbest := best_foldl_combine ha halike
  refine ⟨_, by rw [hget coord hcoord, if_neg hne], hbest.extreme halike hne, ?_⟩
  intro others hothers hperm
  obtain ⟨m', hm', hget'⟩ := Matrix.mergeAll_filled a fill hothers
  have hne' : Matrix.valuesAt others coord ≠ [] := fun hnil => hne (hnil ▸ hperm).eq_nil
  refine ⟨m', _, hm', by rw [hget' coord hcoord, if_neg hne'], ?_⟩
  have halike' : Alike (Matrix.valuesAt others coord) := halike.subset hperm.symm.subset
  exact hbest.order?_eq halike hperm (best_foldl_combine ha halike')

/-- Delays and names, the greatest of which is asked for. -/
def delaysAndNames : List (List Nat × Json) :=
  [([0], .nat 2), ([1], .str "b"), ([0], .null), ([0], .nat 9), ([1], .str "c"), ([0], .nat 4)]

theorem merged_extreme_delaysAndNames : Aggregate.max ∈ Aggregate.extremes
    ∧ (∀ write ∈ delaysAndNames, Matrix.inside [2] write.1 = true)
    ∧ Alike (Matrix.valuesAt delaysAndNames [0]) ∧ Alike (Matrix.valuesAt delaysAndNames [1])
    ∧ ∃ m, Matrix.mergeAll .max delaysAndNames (Matrix.filled [2] .null) = .ok m
      ∧ m.get [0] = .ok (.nat 9) ∧ m.get [1] = .ok (.str "c")
      ∧ Extreme .max (Matrix.valuesAt delaysAndNames [0]) (.nat 9)
      ∧ Extreme .max (Matrix.valuesAt delaysAndNames [1]) (.str "c") := by
  have ha : Aggregate.max ∈ Aggregate.extremes := by decide
  have hinside : ∀ write ∈ delaysAndNames, Matrix.inside [2] write.1 = true := by
    simp [delaysAndNames, Matrix.inside]
  have hdelays : Matrix.valuesAt delaysAndNames [0] = [.nat 2, .null, .nat 9, .nat 4] := rfl
  have hnames : Matrix.valuesAt delaysAndNames [1] = [.str "b", .str "c"] := rfl
  have hnumbers : Alike (Matrix.valuesAt delaysAndNames [0]) := by
    rw [hdelays]
    refine Or.inl ?_
    simp [Json.nat, Number.isProper]
  have htexts : Alike (Matrix.valuesAt delaysAndNames [1]) := by
    rw [hnames]
    exact Or.inr (by simp)
  refine ⟨ha, hinside, hnumbers, htexts, ?_⟩
  obtain ⟨m, hm, hcells⟩ := (merged_extreme ha [2] .null hinside).1
  obtain ⟨delay, hdelay, hextreme, -⟩ := hcells [0] rfl (by rw [hdelays]; simp) hnumbers
  obtain ⟨name, hname, hextreme', -⟩ := hcells [1] rfl (by rw [hnames]; simp) htexts
  have hmerged : Matrix.mergeAll .max delaysAndNames (Matrix.filled [2] .null) = .ok _ := rfl
  obtain rfl := Except.ok.inj (hm.symm.trans hmerged)
  obtain rfl : delay = .nat 9 := Except.ok.inj (hdelay.symm.trans rfl)
  obtain rfl : name = .str "c" := Except.ok.inj (hname.symm.trans rfl)
  exact ⟨_, hm, hdelay, hname, hextreme, hextreme'⟩

/-- Of two integers that share a double the older one is kept, although it is not the least. -/
theorem merged_not_least :
    ∃ m, Matrix.mergeAll .min [([0], .int 9007199254740993), ([0], .int 9007199254740992)]
        (Matrix.filled [1] .null) = .ok m
      ∧ m.get [0] = .ok (.int 9007199254740993)
      ∧ Number.value (.int 9007199254740992) < Number.value (.int 9007199254740993) := by
  refine ⟨_, rfl, rfl, ?_⟩
  norm_num [Number.value]

end Tabula
