import Mathlib.Data.List.Nodup
import Tabula.Json.Update

/-!
# Members of objects

Under distinct names a member is found under its own name (`Fields.get?_of_mem`), and one that is
set is read back (`Fields.get?_insert`). An object that is put together member by member holds them
in the order in which they came (`Fields.ofList_eq`), without those that are null
(`Fields.foldl_put`), and in any case under their names, each once (`Fields.names_ofList`).
-/

set_option autoImplicit false

namespace Tabula.Fields

/-! ## Reading -/

theorem get?_eq_none {name : String} {fields : Fields} :
    get? name fields = none ↔ name ∉ fields.map (·.1) := by
  induction fields with
  | nil => simp [get?]
  | cons f fields ih =>
      obtain ⟨k, v⟩ := f
      by_cases h : k = name
      · simp [get?, h]
      · simp [get?, h, ih, Ne.symm h]

theorem get?_of_mem {fields : Fields} (hn : (fields.map (·.1)).Nodup) {name : String} {v : Json}
    (h : (name, v) ∈ fields) : get? name fields = some v := by
  induction fields with
  | nil => simp at h
  | cons f fields ih =>
      obtain ⟨k, w⟩ := f
      obtain ⟨hk, hn⟩ := List.nodup_cons.mp hn
      rcases List.mem_cons.mp h with heq | h
      · cases heq
        simp [get?]
      · have hne : k ≠ name := by
          rintro rfl
          exact hk (List.mem_map.mpr ⟨_, h, rfl⟩)
        simp only [get?, hne, if_false]
        exact ih hn h

theorem mem_of_get? {name : String} {v : Json} {fields : Fields}
    (h : get? name fields = some v) : (name, v) ∈ fields := by
  induction fields with
  | nil => cases h
  | cons f fields ih =>
      obtain ⟨k, w⟩ := f
      rw [get?] at h
      split at h
      next heq =>
          cases heq
          cases h
          exact List.mem_cons_self
      next => exact List.mem_cons_of_mem _ (ih h)

/-! ## Writing -/

theorem get?_insert (name other : String) (v : Json) (fields : Fields) :
    get? other (insert name v fields) = if name = other then some v else get? other fields := by
  induction fields with
  | nil => rfl
  | cons f fields ih =>
      obtain ⟨k, w⟩ := f
      by_cases hk : k = name
      · subst hk
        by_cases hother : k = other
        · simp [insert, get?, hother]
        · simp [insert, get?, hother]
      · rw [insert, if_neg hk, get?, get?, ih]
        by_cases hother : k = other
        · rw [if_pos hother, if_pos hother, if_neg fun h => hk (hother.trans h.symm)]
        · rw [if_neg hother, if_neg hother]

theorem insert_self {name : String} {v : Json} {fields : Fields}
    (h : get? name fields = some v) : insert name v fields = fields := by
  induction fields with
  | nil => cases h
  | cons f fields ih =>
      obtain ⟨k, w⟩ := f
      by_cases hk : k = name
      · rw [get?, if_pos hk] at h
        rw [insert, if_pos hk, Option.some.inj h]
      · rw [get?, if_neg hk] at h
        rw [insert, if_neg hk, ih h]

theorem names_insert (name : String) (v : Json) (fields : Fields) :
    (insert name v fields).map (·.1)
      = if name ∈ fields.map (·.1) then fields.map (·.1) else fields.map (·.1) ++ [name] := by
  induction fields with
  | nil => rfl
  | cons f fields ih =>
      obtain ⟨k, w⟩ := f
      by_cases h : k = name
      · simp [insert, h]
      · rw [insert, if_neg h, List.map_cons, ih, List.map_cons]
        by_cases hmem : name ∈ fields.map (·.1)
        · rw [if_pos hmem, if_pos (List.mem_cons_of_mem _ hmem)]
        · rw [if_neg hmem, if_neg (by simpa [Ne.symm h] using hmem), List.cons_append]

theorem nodup_insert {name : String} {v : Json} {fields : Fields}
    (h : (fields.map (·.1)).Nodup) : ((insert name v fields).map (·.1)).Nodup := by
  rw [names_insert]
  split
  next => exact h
  next hnew => exact List.concat_eq_append ▸ h.concat hnew

theorem mem_names_insert {name other : String} {v : Json} {fields : Fields} :
    other ∈ (insert name v fields).map (·.1) ↔ other ∈ fields.map (·.1) ∨ other = name := by
  rw [names_insert]
  split
  next hmem =>
      constructor
      · exact Or.inl
      · rintro (h | rfl)
        · exact h
        · exact hmem
  next => rw [List.mem_append, List.mem_singleton]

theorem names_foldl_insert (entries : List (String × Json)) {fields : Fields}
    (h : (fields.map (·.1)).Nodup) :
    let set := entries.foldl (fun fields entry => insert entry.1 entry.2 fields) fields
    (set.map (·.1)).Nodup
      ∧ ∀ name, name ∈ set.map (·.1) ↔ name ∈ fields.map (·.1) ∨ name ∈ entries.map (·.1) := by
  induction entries generalizing fields with
  | nil => exact ⟨h, fun name => by simp⟩
  | cons entry entries ih =>
      obtain ⟨hnodup, hmem⟩ := ih (@nodup_insert entry.1 entry.2 _ h)
      refine ⟨hnodup, fun name => ?_⟩
      rw [List.foldl_cons, hmem, mem_names_insert, List.map_cons, List.mem_cons, or_assoc]

/-- The names of an object are, each once, those of the entries that it is made of. -/
theorem names_ofList (entries : List (String × Json)) :
    ((ofList entries).map (·.1)).Nodup
      ∧ ∀ name, name ∈ (ofList entries).map (·.1) ↔ name ∈ entries.map (·.1) := by
  have hnone : (([] : Fields).map (·.1)).Nodup := List.nodup_nil
  obtain ⟨hnodup, hmem⟩ := names_foldl_insert entries hnone
  exact ⟨hnodup, fun name => (hmem name).trans (or_iff_right List.not_mem_nil)⟩

theorem get?_ofList_of_last {before after : List (String × Json)} {name : String}
    (h : name ∉ after.map (·.1)) (v : Json) :
    get? name (ofList (before ++ (name, v) :: after)) = some v := by
  have hafter (fields : Fields) (hfields : get? name fields = some v) :
      get? name (after.foldl (fun fields entry => insert entry.1 entry.2 fields) fields)
        = some v := by
    induction after generalizing fields with
    | nil => exact hfields
    | cons entry after ih =>
        rw [List.map_cons, List.mem_cons, not_or] at h
        refine ih h.2 _ ?_
        rw [get?_insert, if_neg (Ne.symm h.1), hfields]
  rw [ofList, List.foldl_append, List.foldl_cons]
  exact hafter _ (by rw [get?_insert, if_pos rfl])

theorem insert_of_notMem {name : String} {fields : Fields} (h : name ∉ fields.map (·.1))
    (v : Json) : insert name v fields = fields ++ [(name, v)] := by
  induction fields with
  | nil => rfl
  | cons f fields ih =>
      rw [List.map_cons, List.mem_cons, not_or] at h
      rw [insert, if_neg (Ne.symm h.1), ih h.2, List.cons_append]

/-- Members of new names go to the end, in their order. -/
theorem foldl_insert {entries : List (String × Json)} {fields : Fields}
    (hn : ((fields ++ entries).map (·.1)).Nodup) :
    entries.foldl (fun fields entry => insert entry.1 entry.2 fields) fields
      = fields ++ entries := by
  induction entries generalizing fields with
  | nil => rw [List.append_nil, List.foldl_nil]
  | cons entry entries ih =>
      have hnew : entry.1 ∉ fields.map (·.1) := by
        rw [List.map_append, List.map_cons] at hn
        exact fun hmem => (List.nodup_append.mp hn).2.2 _ hmem _ List.mem_cons_self rfl
      rw [List.foldl_cons, insert_of_notMem hnew, ih (by simpa using hn), List.append_assoc,
        List.singleton_append]

theorem ofList_eq {entries : List (String × Json)} (hn : (entries.map (·.1)).Nodup) :
    ofList entries = entries :=
  foldl_insert hn

/-- Putting entries is inserting those that are not null. -/
theorem foldl_put_eq (entries : List (String × Json)) (fields : Fields) :
    entries.foldl (fun fields entry => put entry.1 entry.2 fields) fields
      = (entries.filter fun entry => !entry.2.isNull).foldl
          (fun fields entry => insert entry.1 entry.2 fields) fields := by
  rw [List.foldl_filter]
  congr 1
  funext fields entry
  rw [put]
  cases entry.2.isNull <;> rfl

/-- **Entries of distinct names that are put into an object** are its members, but for the
nulls. -/
theorem foldl_put {entries : List (String × Json)} (hn : (entries.map (·.1)).Nodup) :
    entries.foldl (fun fields entry => put entry.1 entry.2 fields) []
      = entries.filter fun entry => !entry.2.isNull := by
  rw [foldl_put_eq]
  exact foldl_insert (hn.sublist (List.filter_sublist.map _))

end Tabula.Fields
