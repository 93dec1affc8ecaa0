import Mathlib.Data.List.Perm.Subperm
import Tabula.Proofs.Json.Fields

/-!
# Values that are the same

Being the same is an equivalence of values whose objects hold their members under distinct names
(`same_refl`, `same_symm`, `same_trans`), and the order of the members makes no difference
(`same_of_perm`). Lists are the same place by place (`sameItems_iff`), and objects name by name
(`sameFields_iff`).
-/

set_option autoImplicit false

namespace Tabula

/-! ## Induction over values -/

/-- Induction over values, with the hypothesis for each element of an array and each member of an
object. -/
@[elab_as_elim, induction_eliminator]
theorem Json.induct {motive : Json → Prop}
    (null : motive .null)
    (bool : ∀ value, motive (.bool value))
    (num : ∀ value, motive (.num value))
    (str : ∀ value, motive (.str value))
    (arr : ∀ items, (∀ v ∈ items, motive v) → motive (.arr items))
    (obj : ∀ fields, (∀ f ∈ fields, motive f.2) → motive (.obj fields))
    (v : Json) : motive v :=
  Json.rec (motive_2 := fun items => ∀ v ∈ items, motive v)
    (motive_3 := fun fields => ∀ f ∈ fields, motive f.2) (motive_4 := fun f => motive f.2)
    null bool num str arr obj
    (fun _ hmem => absurd hmem List.not_mem_nil)
    (fun _ _ hhead htail => List.forall_mem_cons.mpr ⟨hhead, htail⟩)
    (fun _ hmem => absurd hmem List.not_mem_nil)
    (fun _ _ hhead htail => List.forall_mem_cons.mpr ⟨hhead, htail⟩)
    (fun _ _ hvalue => hvalue) v

/-! ## Distinct names -/

namespace Json

mutual

/-- Whether all objects in a value hold their members under distinct names. -/
def namesDistinct : Json → Bool
  | arr items => namesDistinctItems items
  | obj fields => decide (fields.map (·.1)).Nodup && namesDistinctFields fields
  | _ => true

def namesDistinctItems : List Json → Bool
  | [] => true
  | v :: rest => namesDistinct v && namesDistinctItems rest

def namesDistinctFields : List (String × Json) → Bool
  | [] => true
  | (_, v) :: rest => namesDistinct v && namesDistinctFields rest

end

theorem namesDistinct_arr {items : List Json} :
    (arr items).namesDistinct = true ↔ ∀ v ∈ items, v.namesDistinct = true := by
  rw [namesDistinct]
  induction items with
  | nil => simp [namesDistinctItems]
  | cons v items ih => rw [namesDistinctItems, Bool.and_eq_true, ih, List.forall_mem_cons]

theorem namesDistinct_obj {fields : Fields} : (obj fields).namesDistinct = true
    ↔ (fields.map (·.1)).Nodup ∧ ∀ f ∈ fields, f.2.namesDistinct = true := by
  have hvalues : namesDistinctFields fields = true ↔ ∀ f ∈ fields, f.2.namesDistinct = true := by
    induction fields with
    | nil => simp [namesDistinctFields]
    | cons f fields ih => rw [namesDistinctFields, Bool.and_eq_true, ih, List.forall_mem_cons]
  rw [namesDistinct, Bool.and_eq_true, decide_eq_true_eq, hvalues]

end Json

namespace Fields

/-- As many distinct names that are all among other names are all of them. -/
theorem names_perm {fs gs : Fields} (hfs : (fs.map (·.1)).Nodup) (hlength : fs.length = gs.length)
    (hsub : ∀ f ∈ fs, f.1 ∈ gs.map (·.1)) : (fs.map (·.1)).Perm (gs.map (·.1)) := by
  have hsubset : fs.map (·.1) ⊆ gs.map (·.1) := by
    intro name hname
    obtain ⟨f, hf, rfl⟩ := List.mem_map.mp hname
    exact hsub f hf
  refine (List.subperm_of_subset hfs hsubset).perm_of_length_le ?_
  rw [List.length_map, List.length_map]
  exact Nat.le_of_eq hlength.symm

end Fields

namespace Json

/-! ## Part by part -/

theorem sameItems_iff {xs ys : List Json} :
    sameItems xs ys = true ↔ List.Forall₂ (fun x y => same x y = true) xs ys := by
  induction xs generalizing ys with
  | nil => cases ys <;> simp [sameItems]
  | cons x xs ih =>
      cases ys with
      | nil => simp [sameItems]
      | cons y ys => rw [sameItems, Bool.and_eq_true, ih, List.forall₂_cons]

theorem sameFields_iff {fs gs : Fields} : sameFields fs gs = true
    ↔ ∀ f ∈ fs, ∃ w, Fields.get? f.1 gs = some w ∧ same f.2 w = true := by
  induction fs with
  | nil => simp [sameFields]
  | cons f fs ih =>
      rw [sameFields, Bool.and_eq_true, ih, List.forall_mem_cons]
      refine and_congr_left fun _ => ?_
      cases Fields.get? f.1 gs <;> simp

theorem same_obj_iff {fs gs : Fields} : same (.obj fs) (.obj gs) = true
    ↔ fs.length = gs.length ∧ ∀ f ∈ fs, ∃ w, Fields.get? f.1 gs = some w ∧ same f.2 w = true := by
  rw [same, Bool.and_eq_true, beq_iff_eq, sameFields_iff]

/-! ## An equivalence -/

theorem same_obj_of_perm {fs gs : Fields} (hfs : (fs.map (·.1)).Nodup) (hperm : fs.Perm gs)
    (h : ∀ f ∈ fs, same f.2 f.2 = true) : same (.obj fs) (.obj gs) = true := by
  have hgs : (gs.map (·.1)).Nodup := (hperm.map _).nodup_iff.mp hfs
  refine same_obj_iff.mpr ⟨hperm.length_eq, fun f hf => ⟨f.2, ?_, h f hf⟩⟩
  exact Fields.get?_of_mem hgs (hperm.mem_iff.mp hf)

/-- **A value is the same as itself.** -/
theorem same_refl {v : Json} (h : v.namesDistinct = true) : same v v = true := by
  induction v with
  | null => rfl
  | bool b => exact beq_self_eq_true b
  | num n => cases n <;> exact beq_self_eq_true _
  | str s => exact beq_self_eq_true s
  | arr items ih =>
      rw [namesDistinct_arr] at h
      exact sameItems_iff.mpr (List.forall₂_same.mpr fun v hv => ih v hv (h v hv))
  | obj fields ih =>
      obtain ⟨hnames, hfields⟩ := namesDistinct_obj.mp h
      exact same_obj_of_perm hnames (.refl fields) fun f hf => ih f hf (hfields f hf)

/-- **The order of the members makes no difference** to an object. -/
theorem same_of_perm {fs gs : Fields} (h : (obj fs).namesDistinct = true) (hperm : fs.Perm gs) :
    same (.obj fs) (.obj gs) = true := by
  obtain ⟨hnames, hfields⟩ := namesDistinct_obj.mp h
  exact same_obj_of_perm hnames hperm fun f hf => same_refl (hfields f hf)

/-- **Being the same goes both ways.** -/
theorem same_symm {v w : Json} (hv : v.namesDistinct = true) (hw : w.namesDistinct = true)
    (h : same v w = true) : same w v = true := by
  induction v generalizing w with
  | null => cases w <;> first | rfl | cases h
  | bool b => cases w <;> first | exact (Bool.beq_comm).trans h | cases h
  | num m =>
      cases w with
      | num n => cases m <;> cases n <;> first | exact (Bool.beq_comm).trans h | cases h
      | _ => cases h
  | str s => cases w <;> first | exact (Bool.beq_comm).trans h | cases h
  | arr xs ih =>
      cases w with
      | arr ys =>
          rw [namesDistinct_arr] at hv hw
          obtain ⟨hlength, hitems⟩ := List.forall₂_iff_get.mp (sameItems_iff.mp h)
          refine sameItems_iff.mpr (List.forall₂_iff_get.mpr ⟨hlength.symm, fun i hi hi' => ?_⟩)
          have hx := List.get_mem xs ⟨i, hi'⟩
          have hy := List.get_mem ys ⟨i, hi⟩
          exact ih _ hx (hv _ hx) (hw _ hy) (hitems i hi' hi)
      | _ => cases h
  | obj fs ih =>
      cases w with
      | obj gs =>
          obtain ⟨hfs, hvalues⟩ := namesDistinct_obj.mp hv
          obtain ⟨hgs, hvalues'⟩ := namesDistinct_obj.mp hw
          obtain ⟨hlength, hall⟩ := same_obj_iff.mp h
          -- the names on the left are all on the right, so they are all that are there
          have hnames : (fs.map (·.1)).Perm (gs.map (·.1)) := by
            refine Fields.names_perm hfs hlength fun f hf => ?_
            obtain ⟨w, hget, -⟩ := hall f hf
            exact List.mem_map.mpr ⟨(f.1, w), Fields.mem_of_get? hget, rfl⟩
          refine same_obj_iff.mpr ⟨hlength.symm, fun g hg => ?_⟩
          obtain ⟨f, hf, hname⟩ :=
            List.mem_map.mp (hnames.mem_iff.mpr (List.mem_map_of_mem hg))
          obtain ⟨w, hget, hsame⟩ := hall f hf
          have hvalue : g.2 = w := by
            have hget' := Fields.get?_of_mem hgs hg
            rw [← hname, hget] at hget'
            exact (Option.some.inj hget').symm
          rw [← hvalue] at hsame
          refine ⟨f.2, ?_, ih f hf (hvalues f hf) (hvalues' g hg) hsame⟩
          rw [← hname]
          exact Fields.get?_of_mem hfs hf
      | _ => cases h

/-- **What is the same as the same is the same.** -/
theorem same_trans {u v w : Json} (huv : same u v = true) (hvw : same v w = true) :
    same u w = true := by
  induction u generalizing v w with
  | null => cases v <;> first | exact hvw | cases huv
  | bool b =>
      cases v with
      | bool c =>
          obtain rfl : b = c := beq_iff_eq.mp huv
          exact hvw
      | _ => cases huv
  | num m =>
      cases v with
      | num n =>
          cases w with
          | num o =>
              cases m <;> cases n <;> cases o
              all_goals
                first
                  | exact beq_iff_eq.mpr ((beq_iff_eq.mp huv).trans (beq_iff_eq.mp hvw))
                  | cases huv
                  | cases hvw
          | _ => cases hvw
      | _ => cases huv
  | str s =>
      cases v with
      | str t =>
          obtain rfl : s = t := beq_iff_eq.mp huv
          exact hvw
      | _ => cases huv
  | arr xs ih =>
      cases v with
      | arr ys =>
          cases w with
          | arr zs =>
              obtain ⟨hlength, hitems⟩ := List.forall₂_iff_get.mp (sameItems_iff.mp huv)
              obtain ⟨hlength', hitems'⟩ := List.forall₂_iff_get.mp (sameItems_iff.mp hvw)
              refine sameItems_iff.mpr
                (List.forall₂_iff_get.mpr ⟨hlength.trans hlength', fun i hi hi' => ?_⟩)
              have hiy : i < ys.length := hlength ▸ hi
              exact ih _ (List.get_mem xs ⟨i, hi⟩) (hitems i hi hiy) (hitems' i hiy hi')
          | _ => cases hvw
      | _ => cases huv
  | obj fs ih =>
      cases v with
      | obj gs =>
          cases w with
          | obj hs =>
              obtain ⟨hlength, hall⟩ := same_obj_iff.mp huv
              obtain ⟨hlength', hall'⟩ := same_obj_iff.mp hvw
              refine same_obj_iff.mpr ⟨hlength.trans hlength', fun f hf => ?_⟩
              -- by way of the member of the same name in the middle
              obtain ⟨y, hy, hfy⟩ := hall f hf
              obtain ⟨z, hz, hyz⟩ := hall' (f.1, y) (Fields.mem_of_get? hy)
              exact ⟨z, hz, ih f hf hfy hyz⟩
          | _ => cases hvw
      | _ => cases huv

/-! ## Values in lists -/

theorem containedIn_iff {v : Json} {items : List Json} :
    v.containedIn items = true ↔ ∃ w ∈ items, same w v = true :=
  List.any_eq_true

end Json

end Tabula
