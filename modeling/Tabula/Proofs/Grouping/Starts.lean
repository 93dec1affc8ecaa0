import Mathlib.Algebra.GroupWithZero.Nat
import Tabula.Grouping.Rows
import Tabula.Proofs.Lists
import Tabula.Proofs.Path.Order

/-!
# The steps that decoders own

`assignStarts` gives the decoders their steps from the outermost to the innermost, so that the
steps of one begin where those of the one before end (`tiled_outer`), and nothing is left of a
row that is as long as all of them (`levels_decoders`). Cutting a row that was put together from
the parts of the decoders gives back the part of each (`Tiled.slices`).
-/

set_option autoImplicit false

namespace Tabula.Grouping

/-! ## Tiles -/

/-- Each decoder owns the steps that follow those of the one before, from a first one on. -/
def Tiled : Nat → List Decoder → Prop
  | _, [] => True
  | start, d :: rest => d.start = start ∧ Tiled (start + d.levels) rest

def totalLevels (decoders : List Decoder) : Nat := (decoders.map (·.levels)).sum

@[simp] theorem totalLevels_nil : totalLevels [] = 0 := rfl

@[simp] theorem totalLevels_cons (d : Decoder) (ds : List Decoder) :
    totalLevels (d :: ds) = d.levels + totalLevels ds := rfl

/-- Tiles end where the next would begin. -/
theorem Tiled.foldl_levels {start : Nat} {ds : List Decoder} (h : Tiled start ds) :
    ds.foldl (fun n d => max n (d.start + d.levels)) start = start + totalLevels ds := by
  induction ds generalizing start with
  | nil => rfl
  | cons d ds ih =>
      obtain ⟨hd, h⟩ := h
      have hmax : max start (d.start + d.levels) = start + d.levels := by
        rw [hd]
        exact Nat.max_eq_right (Nat.le_add_right _ _)
      rw [List.foldl_cons, hmax, ih h, totalLevels_cons, Nat.add_assoc]

/-- **A row of parts cuts into its parts**: a decoder finds the part that was put at its place. -/
theorem Tiled.slices {start : Nat} {ds : List Decoder} (h : Tiled start ds)
    {parts : List (List Part)} (hl : List.Forall₂ (fun d ps => ps.length = d.levels) ds parts)
    {before : List Part} (hb : before.length = start) :
    List.Forall₂ (fun d ps => d.ownParts (before ++ parts.flatten) = .ok ps) ds parts := by
  induction hl generalizing start before with
  | nil => exact .nil
  | cons hp _ ih =>
      rename_i d ps ds parts _
      obtain ⟨hd, h⟩ := h
      refine .cons ?_ ?_
      · have hlen : d.start + d.levels ≤ (before ++ (ps :: parts).flatten).length := by
          simp only [List.flatten_cons, List.length_append, hb, hp, hd]
          omega
        rw [Decoder.ownParts, if_pos hlen, hd, ← hb, List.drop_left, List.flatten_cons, ← hp,
          List.take_left]
      · -- the rest of the decoders cut what comes behind this one's part
        have hlen : (before ++ ps).length = start + d.levels := by rw [List.length_append, hb, hp]
        have hnext := ih h hlen
        rwa [List.append_assoc] at hnext

/-! ## Assigning steps -/

/-- The steps of the decoders that are not named stay. -/
theorem getElem?_assignStarts_of_not_mem {order : List Nat} {i : Nat} (h : i ∉ order)
    (start : Nat) (ds : List Decoder) : (assignStarts order start ds)[i]? = ds[i]? := by
  induction order generalizing start ds with
  | nil => rfl
  | cons j order ih =>
      have hij : j ≠ i := fun heq => h (by simp [heq])
      have hi : i ∉ order := fun hmem => h (by simp [hmem])
      unfold assignStarts
      cases hj : ds[j]? with
      | none => exact ih hi _ _
      | some d => rw [ih hi, List.getElem?_set_ne hij]

/-- Whatever does not read the steps of a decoder is as it was before. -/
theorem map_assignStarts {α : Type} (f : Decoder → α)
    (hf : ∀ (d : Decoder) (start : Nat), f { d with start } = f d) (order : List Nat)
    (start : Nat) (ds : List Decoder) : (assignStarts order start ds).map f = ds.map f := by
  induction order generalizing start ds with
  | nil => rfl
  | cons j order ih =>
      unfold assignStarts
      cases hj : ds[j]? with
      | none => exact ih _ _
      | some d =>
          -- one assignment changes one decoder, and there nothing that `f` reads
          have hset : (ds.set j { d with start }).map f = ds.map f := by
            obtain ⟨hlt, hd⟩ := List.getElem?_eq_some_iff.mp hj
            rw [List.map_set, hf, ← hd]
            refine List.ext_getElem (by simp) fun i h1 h2 => ?_
            simp only [List.getElem_set, List.getElem_map]
            split
            next heq => simp only [heq]
            next => rfl
          rw [ih, hset]

theorem length_assignStarts (order : List Nat) (start : Nat) (ds : List Decoder) :
    (assignStarts order start ds).length = ds.length := by
  have := congrArg List.length (map_assignStarts (fun _ => ()) (fun _ _ => rfl) order start ds)
  simpa using this

theorem tiled_assignStarts {order : List Nat} (h : order.Nodup) (start : Nat)
    (ds : List Decoder) :
    Tiled start (order.filterMap fun i => (assignStarts order start ds)[i]?) := by
  induction order generalizing start ds with
  | nil => trivial
  | cons j order ih =>
      obtain ⟨hj, hnodup⟩ := List.nodup_cons.mp h
      unfold assignStarts
      cases hd : ds[j]? with
      | none =>
          rw [List.filterMap_cons, getElem?_assignStarts_of_not_mem hj, hd]
          exact ih hnodup _ _
      | some d =>
          have hlt : j < ds.length := (List.getElem?_eq_some_iff.mp hd).1
          have hown : (ds.set j { d with start })[j]? = some { d with start } :=
            List.getElem?_set_self hlt
          -- each place is assigned once, so later assignments leave this decoder as it is
          rw [List.filterMap_cons, getElem?_assignStarts_of_not_mem hj, hown]
          exact ⟨rfl, ih hnodup _ _⟩

/-! ## From the outermost to the innermost -/

/-- The order of the places of decoders: by depth, then by place. -/
def comparePlace (place : Nat → String) (i j : Nat) : Ordering :=
  (Path.compareDepth (place i) (place j)).then (compare i j)

instance (place : Nat → String) : Std.TransCmp (comparePlace place) :=
  have : Std.TransCmp fun i j => Path.compareDepth (place i) (place j) :=
    Lists.transCmp_on place
  inferInstanceAs (Std.TransCmp (compareLex (fun i j => Path.compareDepth (place i) (place j))
    (compare : Nat → Nat → Ordering)))

def placeDepth (ds : List Decoder) (i : Nat) : String :=
  ((ds[i]?).map (·.depth)).getD Path.root

theorem outerOrder_eq (ds : List Decoder) :
    outerOrder ds
      = (List.range ds.length).mergeSort fun i j => (comparePlace (placeDepth ds) i j).isLE := rfl

theorem outerOrder_perm (ds : List Decoder) : (outerOrder ds).Perm (List.range ds.length) := by
  rw [outerOrder_eq]
  exact List.mergeSort_perm _ _

/-- Shallow decoders go before deep ones. -/
theorem outerOrder_sorted (ds : List Decoder) :
    (outerOrder ds).Pairwise fun i j =>
      (Path.compareDepth (placeDepth ds i) (placeDepth ds j)).isLE := by
  have hsorted : (outerOrder ds).Pairwise fun i j => (comparePlace (placeDepth ds) i j).isLE :=
    Lists.pairwise_mergeSort _
  refine hsorted.imp ?_
  intro i j h
  unfold comparePlace at h
  cases hc : Path.compareDepth (placeDepth ds i) (placeDepth ds j) with
  | lt => rfl
  | eq => rfl
  | gt => simp [hc] at h

/-! ## The decoders of a query -/

/-- The number of levels is what the widest decoder reaches. -/
theorem levels_perm {ds ds' : List Decoder} (h : ds.Perm ds') : levels ds = levels ds' := by
  unfold levels
  refine h.foldl_eq' ?_ 0
  intro a _ b _ n
  omega

namespace Pieces

variable (p : Pieces)

theorem map_decoders {α : Type} (f : Decoder → α)
    (hf : ∀ (d : Decoder) (start : Nat), f { d with start } = f d) :
    p.decoders.map f = p.unplaced.map f :=
  map_assignStarts f hf _ _ _

theorem length_decoders : p.decoders.length = p.unplaced.length := length_assignStarts _ _ _

theorem perm_outer : p.outer.Perm p.decoders := by
  have horder : p.order.Perm (List.range p.decoders.length) := by
    rw [length_decoders]
    exact outerOrder_perm p.unplaced
  have h := horder.filterMap fun i => p.decoders[i]?
  rwa [Lists.filterMap_range_getElem?] at h

/-- **The decoders own the steps of a row without gaps**, the outermost first. -/
theorem tiled_outer : Tiled 0 p.outer :=
  tiled_assignStarts ((outerOrder_perm p.unplaced).nodup_iff.mpr List.nodup_range) 0 p.unplaced

theorem levels_decoders : levels p.decoders = totalLevels p.outer := by
  rw [← levels_perm p.perm_outer]
  have h := p.tiled_outer.foldl_levels
  rwa [Nat.zero_add] at h

theorem placeDepth_decoders (i : Nat) : placeDepth p.decoders i = placeDepth p.unplaced i := by
  have h := congrArg (fun depths : List String => depths[i]?)
    (p.map_decoders (·.depth) fun _ _ => rfl)
  simp only [List.getElem?_map] at h
  rw [placeDepth, placeDepth, h]

/-- From the outermost to the innermost, decoders get deeper. -/
theorem sorted_outer :
    p.outer.Pairwise fun a b => (Path.compareDepth a.depth b.depth).isLE := by
  refine List.pairwise_filterMap.mpr ((outerOrder_sorted p.unplaced).imp ?_)
  -- the places were sorted before the steps were assigned, which changes no depth
  intro i j hij a ha b hb
  rw [← placeDepth_decoders, ← placeDepth_decoders] at hij
  simpa [placeDepth, ha, hb] using hij

end Pieces

end Tabula.Grouping
