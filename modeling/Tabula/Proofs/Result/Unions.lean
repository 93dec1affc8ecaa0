import Mathlib.Data.List.Induction
import Tabula.Proofs.Json.Same
import Tabula.Proofs.Result.Merging

/-!
# Unions

A union holds each of its items once, in the order in which they are first seen (`firstOnes`). So
adding items that were united before is adding the items themselves (`addDistinct_addDistinct`), and
unions are merged in any grouping: `combine_union_assoc` for two after another, `unions_agree` for
the cells of a matrix. All of it rests on equality being an equivalence, which it is for objects
that hold their members under distinct names.
-/

set_option autoImplicit false

namespace Tabula

open Json (same)

/-! ## One item -/

def addNew (out : List Json) (x : Json) : List Json :=
  if x.containedIn out then out else out ++ [x]

section OneItem

variable {out xs ys : List Json} {x v : Json}

theorem subset_addNew (out : List Json) (x : Json) : out ⊆ addNew out x := by
  unfold addNew
  split
  next => exact List.Subset.refl out
  next => exact List.subset_append_left out [x]

theorem mem_of_mem_addNew (h : v ∈ addNew out x) : v ∈ out ∨ v = x := by
  unfold addNew at h
  split at h
  next => exact Or.inl h
  next =>
      rcases List.mem_append.mp h with hout | hx
      · exact Or.inl hout
      · exact Or.inr (List.mem_singleton.mp hx)

theorem containedIn_of_subset (hsub : xs ⊆ ys) (h : v.containedIn xs = true) :
    v.containedIn ys = true := by
  obtain ⟨w, hw, hsame⟩ := Json.containedIn_iff.mp h
  exact Json.containedIn_iff.mpr ⟨w, hsub hw, hsame⟩

theorem containedIn_trans (h : ∀ x ∈ xs, x.containedIn ys = true) (hv : v.containedIn xs = true) :
    v.containedIn ys = true := by
  obtain ⟨w, hw, hsame⟩ := Json.containedIn_iff.mp hv
  obtain ⟨z, hz, hsame'⟩ := Json.containedIn_iff.mp (h w hw)
  exact Json.containedIn_iff.mpr ⟨z, hz, Json.same_trans hsame' hsame⟩

theorem containedIn_addNew (hx : x.namesDistinct = true) : x.containedIn (addNew out x) = true := by
  unfold addNew
  split
  next hin => exact hin
  next =>
      have hlast : x ∈ out ++ [x] := List.mem_append_right _ (List.mem_singleton_self x)
      exact Json.containedIn_iff.mpr ⟨x, hlast, Json.same_refl hx⟩

/-- No item is added of which there is the same. -/
theorem pairwise_addNew (h : out.Pairwise fun x y => same x y = false) (x : Json) :
    (addNew out x).Pairwise fun x y => same x y = false := by
  unfold addNew
  split
  next => exact h
  next hnew =>
      refine List.pairwise_append.mpr ⟨h, List.pairwise_singleton _ _, fun y hy z hz => ?_⟩
      rw [List.mem_singleton.mp hz]
      refine Bool.eq_false_iff.mpr fun hsame => hnew ?_
      exact Json.containedIn_iff.mpr ⟨y, hy, hsame⟩

end OneItem

/-! ## Several items -/

section SeveralItems

variable {out xs : List Json} {x v : Json}

theorem addDistinct_append (out xs ys : List Json) :
    addDistinct out (xs ++ ys) = addDistinct (addDistinct out xs) ys :=
  List.foldl_append

theorem addDistinct_cons (out : List Json) (x : Json) (xs : List Json) :
    addDistinct out (x :: xs) = addDistinct (addNew out x) xs := rfl

theorem addDistinct_concat (out xs : List Json) (x : Json) :
    addDistinct out (xs ++ [x]) = addNew (addDistinct out xs) x := by
  rw [addDistinct_append]
  rfl

theorem subset_addDistinct (out xs : List Json) : out ⊆ addDistinct out xs := by
  induction xs generalizing out with
  | nil => exact List.Subset.refl out
  | cons x xs ih => exact List.Subset.trans (subset_addNew out x) (ih _)

theorem mem_of_mem_addDistinct (h : v ∈ addDistinct out xs) : v ∈ out ∨ v ∈ xs := by
  induction xs generalizing out with
  | nil => exact Or.inl h
  | cons x xs ih =>
      rw [addDistinct_cons] at h
      rcases ih h with hnew | hxs
      · rw [List.mem_cons, ← or_assoc]
        exact Or.inl (mem_of_mem_addNew hnew)
      · exact Or.inr (List.mem_cons_of_mem x hxs)

/-- **Every item that is added is there**, or one that is the same. -/
theorem containedIn_addDistinct (hxs : ∀ x ∈ xs, x.namesDistinct = true) (h : x ∈ xs) :
    x.containedIn (addDistinct out xs) = true := by
  induction xs generalizing out with
  | nil => exact absurd h List.not_mem_nil
  | cons y xs ih =>
      obtain ⟨hy, hxs⟩ := List.forall_mem_cons.mp hxs
      rw [addDistinct_cons]
      rcases List.mem_cons.mp h with rfl | hmem
      · exact containedIn_of_subset (subset_addDistinct _ xs) (containedIn_addNew hy)
      · exact ih hxs hmem

theorem containedIn_addDistinct_nil (hxs : ∀ x ∈ xs, x.namesDistinct = true) (v : Json) :
    v.containedIn (addDistinct [] xs) = v.containedIn xs := by
  refine Bool.eq_iff_iff.mpr
    ⟨containedIn_of_subset fun w hw => ?_, containedIn_trans fun x hx => ?_⟩
  · exact (mem_of_mem_addDistinct hw).resolve_left List.not_mem_nil
  · exact containedIn_addDistinct hxs hx

/-- **No two items of a union are the same.** -/
theorem pairwise_addDistinct (h : out.Pairwise fun x y => same x y = false) (xs : List Json) :
    (addDistinct out xs).Pairwise fun x y => same x y = false := by
  induction xs generalizing out with
  | nil => exact h
  | cons x xs ih => exact ih (pairwise_addNew h x)

/-- Items that are added to some before all of them are added to others. -/
theorem addDistinct_addDistinct_of {acc : List Json} (hacc : ∀ x ∈ acc, x.namesDistinct = true)
    (hxs : ∀ x ∈ xs, x.namesDistinct = true) (out : List Json) :
    addDistinct out (addDistinct acc xs) = addDistinct (addDistinct out acc) xs := by
  induction xs generalizing acc with
  | nil => rfl
  | cons x xs ih =>
      obtain ⟨hx, hxs⟩ := List.forall_mem_cons.mp hxs
      rw [addDistinct_cons, addDistinct_cons]
      by_cases hin : x.containedIn acc = true
      · -- the others hold it as well
        have hin' : x.containedIn (addDistinct out acc) = true :=
          containedIn_trans (fun y hy => containedIn_addDistinct hacc hy) hin
        rw [addNew, if_pos hin, addNew, if_pos hin', ih hacc hxs]
      · have hacc' : ∀ y ∈ acc ++ [x], y.namesDistinct = true :=
          List.forall_mem_append.mpr ⟨hacc, List.forall_mem_singleton.mpr hx⟩
        rw [addNew, if_neg hin, ih hacc' hxs, addDistinct_concat]

/-- **Adding united items is adding the items.** -/
theorem addDistinct_addDistinct (hxs : ∀ x ∈ xs, x.namesDistinct = true) (out : List Json) :
    addDistinct out (addDistinct [] xs) = addDistinct out xs :=
  addDistinct_addDistinct_of (by simp) hxs out

/-! ## First occurrences -/

/-- The items of which none before is the same. -/
def firstOnes (items : List Json) : List Json :=
  (items.zipIdx.filter fun p => !p.1.containedIn (items.take p.2)).map (·.1)

theorem firstOnes_concat (xs : List Json) (x : Json) :
    firstOnes (xs ++ [x]) = if x.containedIn xs then firstOnes xs else firstOnes xs ++ [x] := by
  -- what stands before an item is not changed by what comes after it
  have hbefore : (xs.zipIdx.filter fun p => !p.1.containedIn ((xs ++ [x]).take p.2))
      = xs.zipIdx.filter fun p => !p.1.containedIn (xs.take p.2) := by
    refine List.filter_congr fun p hp => ?_
    obtain ⟨-, hlt, -⟩ := List.mem_zipIdx hp
    rw [List.take_append_of_le_length (by omega)]
  rw [firstOnes, List.zipIdx_append, List.filter_append, hbefore, List.map_append, Nat.zero_add]
  show firstOnes xs ++ _ = _
  rw [List.zipIdx_singleton, List.filter_singleton, List.take_left]
  cases x.containedIn xs with
  | true => exact List.append_nil _
  | false => rfl

/-- **A union holds its items in the order in which they are first seen.** -/
theorem addDistinct_eq_firstOnes (hxs : ∀ x ∈ xs, x.namesDistinct = true) :
    addDistinct [] xs = firstOnes xs := by
  induction xs using List.reverseRecOn with
  | nil => rfl
  | append_singleton xs x ih =>
      have hxs' : ∀ y ∈ xs, y.namesDistinct = true := (List.forall_mem_append.mp hxs).1
      rw [addDistinct_concat, addNew, containedIn_addDistinct_nil hxs', ih hxs', firstOnes_concat]

end SeveralItems

/-! ## Merging unions -/

section Merging

variable {a b c : Json} {values : List Json}

theorem namesDistinct_elementsOf {v : Json} (h : v.namesDistinct = true) :
    ∀ x ∈ elementsOf v, x.namesDistinct = true := by
  cases v with
  | null => simp [elementsOf]
  | arr items => exact Json.namesDistinct_arr.mp h
  | _ => exact List.forall_mem_singleton.mpr h

theorem namesDistinct_elements (h : ∀ v ∈ values, v.namesDistinct = true) :
    ∀ x ∈ values.flatMap elementsOf, x.namesDistinct = true := by
  intro x hx
  obtain ⟨v, hv, hx⟩ := List.mem_flatMap.mp hx
  exact namesDistinct_elementsOf (h v hv) x hx

theorem combine_union_of_present (ha : a ≠ .null) (hb : b ≠ .null) :
    Aggregate.combine .union a b = unionOf [a, b] := by
  unfold Aggregate.combine
  rw [Json.isNull_eq_false ha, Json.isNull_eq_false hb]
  rfl

/-- A union among other values stands for the values that it unites. -/
theorem unionOf_union (before after : List Json) (h : ∀ v ∈ values, v.namesDistinct = true) :
    unionOf (before ++ unionOf values :: after) = unionOf (before ++ values ++ after) := by
  have helements : elementsOf (unionOf values) = addDistinct [] (values.flatMap elementsOf) := rfl
  unfold unionOf at helements ⊢
  simp only [List.flatMap_append, List.flatMap_cons, helements, addDistinct_append]
  rw [addDistinct_addDistinct (namesDistinct_elements h)]

/-- **Unions are merged in any grouping**, to the same items in the same order. -/
theorem combine_union_assoc (ha : a.namesDistinct = true) (hb : b.namesDistinct = true)
    (hc : c.namesDistinct = true) : Aggregate.combine .union (Aggregate.combine .union a b) c
      = Aggregate.combine .union a (Aggregate.combine .union b c) := by
  by_cases hna : a = .null
  · rw [hna, combine_null_left, combine_null_left]
  by_cases hnb : b = .null
  · rw [hnb, combine_null_right, combine_null_left]
  by_cases hnc : c = .null
  · rw [hnc, combine_null_right, combine_null_right]
  have hunion (values : List Json) : unionOf values ≠ .null := fun hnull => nomatch hnull
  have hab : ∀ v ∈ [a, b], v.namesDistinct = true := by simp [ha, hb]
  have hbc : ∀ v ∈ [b, c], v.namesDistinct = true := by simp [hb, hc]
  calc
    Aggregate.combine .union (Aggregate.combine .union a b) c
        = unionOf [unionOf [a, b], c] := by
          rw [combine_union_of_present hna hnb, combine_union_of_present (hunion _) hnc]
    _ = unionOf [a, b, c] := unionOf_union [] [c] hab
    _ = unionOf [a, unionOf [b, c]] := (unionOf_union [a] [] hbc).symm
    _ = Aggregate.combine .union a (Aggregate.combine .union b c) := by
          rw [combine_union_of_present hnb hnc, combine_union_of_present hna (hunion _)]

/-- Unions that are merged one after another are one union. -/
theorem foldl_combine_union (hvalues : ∀ v ∈ values, v.namesDistinct = true)
    {parts : List (List Json)} (hparts : ∀ part ∈ parts, ∀ v ∈ part, v.namesDistinct = true) :
    (parts.map unionOf).foldl (Aggregate.combine .union) (unionOf values)
      = unionOf (values ++ parts.flatten) := by
  induction parts generalizing values with
  | nil => rw [List.map_nil, List.foldl_nil, List.flatten_nil, List.append_nil]
  | cons part parts ih =>
      obtain ⟨hpart, hparts⟩ := List.forall_mem_cons.mp hparts
      have hmerged : Aggregate.combine .union (unionOf values) (unionOf part)
          = unionOf (values ++ part) :=
        calc
          Aggregate.combine .union (unionOf values) (unionOf part)
              = unionOf [unionOf values, unionOf part] := rfl
          _ = unionOf (values ++ [unionOf part]) := unionOf_union [] [unionOf part] hvalues
          _ = unionOf (values ++ part ++ []) := unionOf_union values [] hpart
          _ = unionOf (values ++ part) := by rw [List.append_nil]
      rw [List.map_cons, List.foldl_cons, hmerged,
        ih (List.forall_mem_append.mpr ⟨hvalues, hpart⟩) hparts, List.flatten_cons,
        List.append_assoc]

/-- **Merging partial unions cell by cell** is taking one union over all values of each cell. -/
theorem Matrix.mergeAll_unions {dims : List Nat} (fill : Json)
    {writes : List (List Nat × List Json)}
    (hwrites : ∀ write ∈ writes, inside dims write.1 = true)
    (hvalues : ∀ write ∈ writes, ∀ v ∈ write.2, v.namesDistinct = true) :
    ∃ m, mergeAll .union (writes.map fun write => (write.1, unionOf write.2)) (filled dims fill)
        = .ok m
      ∧ ∀ coord, inside dims coord = true → m.get coord
        = .ok (if writes.filter (·.1 = coord) = [] then fill
          else unionOf ((writes.filter (·.1 = coord)).flatMap (·.2))) := by
  have hinside : ∀ write ∈ writes.map fun write => (write.1, unionOf write.2),
      inside dims write.1 = true := List.forall_mem_map.mpr hwrites
  obtain ⟨m, hm, hget⟩ := mergeAll_filled .union fill hinside
  refine ⟨m, hm, fun coord hcoord => ?_⟩
  -- what is written at a coordinate are the unions of its parts
  have hat : valuesAt (writes.map fun write => (write.1, unionOf write.2)) coord
      = ((writes.filter (·.1 = coord)).map (·.2)).map unionOf := by
    rw [valuesAt, List.filter_map, List.map_map, List.map_map]
    rfl
  have hparts : ∀ part ∈ (writes.filter (·.1 = coord)).map (·.2),
      ∀ v ∈ part, v.namesDistinct = true :=
    List.forall_mem_map.mpr fun write hwrite => hvalues write (List.mem_filter.mp hwrite).1
  rw [hget coord hcoord, hat, List.flatMap_def]
  generalize hfound : writes.filter (·.1 = coord) = found at hparts ⊢
  cases found with
  | nil => rfl
  | cons write found =>
      obtain ⟨hpart, hparts⟩ := List.forall_mem_cons.mp hparts
      rw [if_neg (by simp), if_neg (by simp), List.map_cons, List.map_cons, List.foldl_cons,
        combine_null_left, foldl_combine_union hpart hparts, List.flatten_cons]

end Merging

/-! ## Laws of unions -/

/-- **Unions are sets in the order of their items.** They are merged in any grouping, with null for
none; they hold an item for each of the elements, no two the same and none besides, in the order in
which they are first seen, where the same is an equivalence that leaves the order of members out of
account; and merging them cell by cell is one union over the values of each cell. The objects are
those of documents, which hold their members under distinct names. -/
theorem unions_agree :
    (∀ a b c : Json, a.namesDistinct = true → b.namesDistinct = true → c.namesDistinct = true →
        Aggregate.combine .union (Aggregate.combine .union a b) c
          = Aggregate.combine .union a (Aggregate.combine .union b c))
      ∧ (∀ a, Aggregate.combine .union .null a = a ∧ Aggregate.combine .union a .null = a)
      ∧ (∀ values : List Json, (∀ v ∈ values, v.namesDistinct = true) →
        ∃ items, unionOf values = .arr items
          ∧ items.Pairwise (fun x y => same x y = false ∧ same y x = false)
          ∧ (∀ x ∈ values.flatMap elementsOf, ∃ y ∈ items, same y x = true)
          ∧ (∀ y ∈ items, y ∈ values.flatMap elementsOf)
          ∧ items = firstOnes (values.flatMap elementsOf))
      ∧ ((∀ v : Json, v.namesDistinct = true → same v v = true)
        ∧ (∀ v w : Json, v.namesDistinct = true → w.namesDistinct = true → same v w = true →
          same w v = true)
        ∧ (∀ u v w : Json, same u v = true → same v w = true → same u w = true)
        ∧ ∀ fs gs : Fields, (Json.obj fs).namesDistinct = true → fs.Perm gs →
          same (.obj fs) (.obj gs) = true)
      ∧ ∀ (dims : List Nat) (fill : Json) (writes : List (List Nat × List Json)),
        (∀ write ∈ writes, Matrix.inside dims write.1 = true) →
        (∀ write ∈ writes, ∀ v ∈ write.2, v.namesDistinct = true) →
        ∃ m, Matrix.mergeAll .union (writes.map fun write => (write.1, unionOf write.2))
            (Matrix.filled dims fill) = .ok m
          ∧ ∀ coord, Matrix.inside dims coord = true → m.get coord
            = .ok (if writes.filter (·.1 = coord) = [] then fill
              else unionOf ((writes.filter (·.1 = coord)).flatMap (·.2))) := by
  refine ⟨fun a b c ha hb hc => combine_union_assoc ha hb hc,
    fun a => ⟨combine_null_left .union a, combine_null_right .union a⟩, fun values hvalues => ?_,
    ⟨fun v hv => Json.same_refl hv, fun v w hv hw h => Json.same_symm hv hw h,
      fun u v w huv hvw => Json.same_trans huv hvw,
      fun fs gs hfs hperm => Json.same_of_perm hfs hperm⟩,
    fun dims fill writes hwrites hvalues => Matrix.mergeAll_unions fill hwrites hvalues⟩
  have helements := namesDistinct_elements hvalues
  have hmem {y : Json} (hy : y ∈ addDistinct [] (values.flatMap elementsOf)) :
      y ∈ values.flatMap elementsOf :=
    (mem_of_mem_addDistinct hy).resolve_left List.not_mem_nil
  refine ⟨_, rfl, ?_, ?_, fun y hy => hmem hy, addDistinct_eq_firstOnes helements⟩
  · refine (pairwise_addDistinct List.Pairwise.nil _).imp_of_mem fun hx hy hne => ⟨hne, ?_⟩
    -- the later one is not the same as the earlier one either
    refine Bool.eq_false_iff.mpr fun hsame => ?_
    rw [Json.same_symm (helements _ (hmem hy)) (helements _ (hmem hx)) hsame] at hne
    cases hne
  · exact fun x hx => Json.containedIn_iff.mp (containedIn_addDistinct helements hx)

/-- Points of two documents, one of them with its members the other way round. -/
def points : List (List Nat × List Json) :=
  [([0], [.arr [.obj [("x", .nat 1), ("y", .nat 2)], .str "p"], .null]),
    ([0], [.str "q", .obj [("y", .nat 2), ("x", .nat 1)]])]

theorem unions_agree_points : (∀ write ∈ points, Matrix.inside [1] write.1 = true)
    ∧ (∀ write ∈ points, ∀ v ∈ write.2, v.namesDistinct = true)
    ∧ ∃ m, Matrix.mergeAll .union (points.map fun write => (write.1, unionOf write.2))
        (Matrix.filled [1] .null) = .ok m
      ∧ m.get [0] = .ok (.arr [.obj [("x", .nat 1), ("y", .nat 2)], .str "p", .str "q"]) := by
  have hinside : ∀ write ∈ points, Matrix.inside [1] write.1 = true := by
    simp [points, Matrix.inside]
  have hnames : ∀ write ∈ points, ∀ v ∈ write.2, v.namesDistinct = true := by
    simp [points, Json.namesDistinct, Json.namesDistinctItems, Json.namesDistinctFields, Json.nat]
  obtain ⟨-, -, -, -, hmerged⟩ := unions_agree
  obtain ⟨m, hm, hget⟩ := hmerged [1] .null points hinside hnames
  refine ⟨hinside, hnames, m, hm, ?_⟩
  rw [hget [0] rfl]
  rfl

end Tabula
