import Mathlib.Logic.Relation
import Tabula.Json.Canonical
import Tabula.Proofs.Json.Same
import Tabula.Proofs.Lists

/-!
# Canonical forms

Two values have one canonical form just when reordering the members of objects, at any depth, turns
the one into the other (`canonical_eq_iff`). On the one side each value turns into its canonical
form (`reordered_canonical`); on the other side reordering members under distinct names does not
change what sorting them yields (`Fields.sorted_eq_of_perm`). A canonical form is its own canonical
form (`canonical_canonical`).
-/

set_option autoImplicit false

namespace Tabula

/-! ## Sorted members -/

namespace Fields

theorem sorted_perm (fields : Fields) : fields.sorted.Perm fields := List.mergeSort_perm _ _

theorem pairwise_sorted (fields : Fields) :
    fields.sorted.Pairwise fun f g => Text.le f.1 g.1 = true := by
  have : Std.TransCmp fun f g : String × Json => compare f.1 g.1 := Lists.transCmp_on Prod.fst
  exact Lists.pairwise_mergeSort fields

/-- **Members under distinct names have one order**, however they were ordered. -/
theorem sorted_eq_of_perm {fs gs : Fields} (hfs : (fs.map (·.1)).Nodup) (h : fs.Perm gs) :
    fs.sorted = gs.sorted := by
  have hperm : fs.sorted.Perm gs.sorted :=
    (sorted_perm fs).trans (h.trans (sorted_perm gs).symm)
  refine hperm.eq_of_pairwise ?_ (pairwise_sorted fs) (pairwise_sorted gs)
  intro f g hf hg hfg hgf
  have hname : f.1 = g.1 :=
    Std.LawfulEqCmp.eq_of_compare (Std.OrientedCmp.isLE_antisymm hfg hgf)
  exact List.inj_on_of_nodup_map hfs ((sorted_perm fs).mem_iff.mp hf)
    (h.mem_iff.mpr ((sorted_perm gs).mem_iff.mp hg)) hname

end Fields

namespace Json

/-! ## Reordering -/

/-- One object in a value has its members in another order. -/
inductive Reorder : Json → Json → Prop
  | here {fs gs : Fields} (h : fs.Perm gs) : Reorder (.obj fs) (.obj gs)
  | item (before after : List Json) {v w : Json} (h : Reorder v w) :
      Reorder (.arr (before ++ v :: after)) (.arr (before ++ w :: after))
  | member (before after : Fields) (name : String) {v w : Json} (h : Reorder v w) :
      Reorder (.obj (before ++ (name, v) :: after)) (.obj (before ++ (name, w) :: after))

/-- Whether reordering the members of objects, at any depths, turns a value into another one. -/
def Reordered : Json → Json → Prop := Relation.ReflTransGen Reorder

theorem Reorder.symm {v w : Json} (h : Reorder v w) : Reorder w v := by
  induction h with
  | here h => exact .here h.symm
  | item before after _ ih => exact .item before after ih
  | member before after name _ ih => exact .member before after name ih

namespace Reordered

variable {u v w : Json}

theorem refl (v : Json) : Reordered v v := Relation.ReflTransGen.refl

theorem trans (huv : Reordered u v) (hvw : Reordered v w) : Reordered u w :=
  Relation.ReflTransGen.trans huv hvw

theorem symm (h : Reordered v w) : Reordered w v := by
  induction h with
  | refl => exact refl v
  | tail _ hstep ih => exact trans (.single hstep.symm) ih

theorem item (before after : List Json) (h : Reordered v w) :
    Reordered (.arr (before ++ v :: after)) (.arr (before ++ w :: after)) :=
  Relation.ReflTransGen.lift (fun v => arr (before ++ v :: after))
    (fun _ _ => Reorder.item before after) _ _ h

theorem member (before after : Fields) (name : String) (h : Reordered v w) :
    Reordered (.obj (before ++ (name, v) :: after)) (.obj (before ++ (name, w) :: after)) :=
  Relation.ReflTransGen.lift (fun v => obj (before ++ (name, v) :: after))
    (fun _ _ => Reorder.member before after name) _ _ h

theorem each {α : Type} {wrap : List α → Json} {change : α → α} {xs : List α}
    (h : ∀ a ∈ xs, ∀ before after : List α,
      Reordered (wrap (before ++ a :: after)) (wrap (before ++ change a :: after)))
    (before : List α) : Reordered (wrap (before ++ xs)) (wrap (before ++ xs.map change)) := by
  induction xs generalizing before with
  | nil => exact refl _
  | cons a xs ih =>
      obtain ⟨ha, hxs⟩ := List.forall_mem_cons.mp h
      refine (ha before xs).trans ?_
      rw [List.map_cons, List.append_cons before (change a) xs,
        List.append_cons before (change a) (xs.map change)]
      exact ih hxs _

end Reordered

/-! ## Canonical forms -/

theorem canonical_arr (items : List Json) : (arr items).canonical = .arr (items.map canonical) := by
  rw [canonical]
  congr 1
  induction items with
  | nil => rfl
  | cons v items ih => rw [canonicalItems, ih, List.map_cons]

theorem canonical_obj (fields : Fields) : (obj fields).canonical
    = .obj (Fields.sorted (fields.map fun f => (f.1, f.2.canonical))) := by
  rw [canonical]
  congr 2
  induction fields with
  | nil => rfl
  | cons f fields ih => rw [canonicalFields, ih, List.map_cons]

/-- **A value turns into its canonical form** when members are reordered. -/
theorem reordered_canonical (v : Json) : Reordered v v.canonical := by
  induction v with
  | null | bool | num | str => exact .refl _
  | arr items ih =>
      rw [canonical_arr]
      exact Reordered.each (fun v hv before after => .item before after (ih v hv)) []
  | obj fields ih =>
      rw [canonical_obj]
      have hvalues : Reordered (.obj fields) (.obj (fields.map fun f => (f.1, f.2.canonical))) :=
        Reordered.each (fun f hf before after => .member before after f.1 (ih f hf)) []
      exact hvalues.trans (.single (.here (Fields.sorted_perm _).symm))

/-- **A canonical form is its own canonical form.** -/
theorem canonical_canonical (v : Json) : v.canonical.canonical = v.canonical := by
  induction v with
  | null | bool | num | str => rfl
  | arr items ih =>
      rw [canonical_arr, canonical_arr, List.map_map]
      exact congrArg arr (List.map_congr_left ih)
  | obj fields ih =>
      rw [canonical_obj, canonical_obj]
      -- the members are canonical, and in order already
      have hvalues (f : String × Json)
          (hf : f ∈ Fields.sorted (fields.map fun f => (f.1, f.2.canonical))) :
          (f.1, f.2.canonical) = f := by
        obtain ⟨g, hg, rfl⟩ := List.mem_map.mp ((Fields.sorted_perm _).mem_iff.mp hf)
        exact congrArg (g.1, ·) (ih g hg)
      rw [List.map_congr_left hvalues, List.map_id', Fields.sorted]
      exact congrArg obj (List.mergeSort_of_pairwise (Fields.pairwise_sorted _))

theorem Reorder.namesDistinct {v w : Json} (h : Reorder v w) (hv : v.namesDistinct = true) :
    w.namesDistinct = true := by
  induction h with
  | here h =>
      obtain ⟨hnames, hvalues⟩ := namesDistinct_obj.mp hv
      exact namesDistinct_obj.mpr
        ⟨(h.map _).nodup_iff.mp hnames, fun f hf => hvalues f (h.mem_iff.mpr hf)⟩
  | item before after h ih =>
      rw [namesDistinct_arr, List.forall_mem_append, List.forall_mem_cons] at hv ⊢
      exact ⟨hv.1, ih hv.2.1, hv.2.2⟩
  | member before after name h ih =>
      rw [namesDistinct_obj, List.map_append, List.map_cons, List.forall_mem_append,
        List.forall_mem_cons] at hv ⊢
      exact ⟨hv.1, hv.2.1, ih hv.2.2.1, hv.2.2.2⟩

theorem Reorder.canonical_eq {v w : Json} (h : Reorder v w) (hv : v.namesDistinct = true) :
    v.canonical = w.canonical := by
  induction h with
  | here h =>
      rw [canonical_obj, canonical_obj]
      refine congrArg obj (Fields.sorted_eq_of_perm ?_ (h.map _))
      rw [List.map_map]
      exact (namesDistinct_obj.mp hv).1
  | item before after h ih =>
      rw [namesDistinct_arr, List.forall_mem_append, List.forall_mem_cons] at hv
      rw [canonical_arr, canonical_arr, List.map_append, List.map_append, List.map_cons,
        List.map_cons, ih hv.2.1]
  | member before after name h ih =>
      rw [namesDistinct_obj, List.forall_mem_append, List.forall_mem_cons] at hv
      rw [canonical_obj, canonical_obj, List.map_append, List.map_append, List.map_cons,
        List.map_cons, ih hv.2.2.1]

theorem Reordered.canonical_eq {v w : Json} (h : Reordered v w) (hv : v.namesDistinct = true) :
    v.canonical = w.canonical := by
  have hboth : w.namesDistinct = true ∧ v.canonical = w.canonical := by
    induction h with
    | refl => exact ⟨hv, rfl⟩
    | tail _ hstep ih =>
        obtain ⟨hdistinct, heq⟩ := ih
        exact ⟨hstep.namesDistinct hdistinct, heq.trans (hstep.canonical_eq hdistinct)⟩
  exact hboth.2

/-- **Values have one canonical form just when reordering turns the one into the other.** -/
theorem canonical_eq_iff {v w : Json} (hv : v.namesDistinct = true) :
    v.canonical = w.canonical ↔ Reordered v w := by
  refine ⟨fun h => ?_, fun h => h.canonical_eq hv⟩
  have hw := (reordered_canonical w).symm
  rw [← h] at hw
  exact (reordered_canonical v).trans hw

end Json

end Tabula
