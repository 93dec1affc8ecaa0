import Tabula.Proofs.Json.Paths
import Tabula.Proofs.Path.Names

/-!
# Writing at dotted paths

A value that is written into an object at a dotted path stands there, and nothing is changed at the
paths apart from it (`Fields.setPath_writes`). On the way to it the members of each object keep
their places; the one that leads further goes to the end when it is new (`Json.namesAt_setAt`).
-/

set_option autoImplicit false

namespace Tabula

namespace Json

/-- The names of the members at a path of names, in order; none where there is no object. -/
def namesAt (path : List String) (v : Json) : List String :=
  ((v.atPath? path).elim [] Fields.ofValue).map (·.1)

/-- Below a name there are the members of what stands there, and none where nothing does. -/
theorem namesAt_cons (name : String) (path : List String) (v : Json) :
    v.namesAt (name :: path) = ((v.get? name).getD .null).namesAt path := by
  rw [namesAt, atPath?]
  cases v.get? name with
  | some w => rfl
  | none =>
      cases path with
      | nil => rfl
      | cons name' path => rfl

theorem get?_setAt (name : String) (path : List String) (value v : Json) :
    (setAt (name :: path) value v).get? name
      = some (setAt path value ((v.get? name).getD .null)) := by
  rw [setAt, get?, Fields.get?_insert, if_pos rfl, Fields.getD, get?_ofValue]

/-- **The members on the way to a value keep their places**, and the name that leads further is
added at the end when it is new. -/
theorem namesAt_setAt (above : List String) (name : String) (below : List String)
    (value v : Json) :
    (setAt (above ++ name :: below) value v).namesAt above
      = if name ∈ v.namesAt above then v.namesAt above else v.namesAt above ++ [name] := by
  induction above generalizing v with
  | nil => exact Fields.names_insert name _ (Fields.ofValue v)
  | cons name' above ih =>
      rw [List.cons_append, namesAt_cons, get?_setAt, Option.getD_some, ih, ← namesAt_cons]

end Json

/-- **Writing at a dotted path changes one place only.** The value is read back there, at paths of
which none leads to the other or into it nothing changes, and on the way to the value the members
keep their places, with new ones at the end. -/
theorem Fields.setPath_writes (path : String) (value : Json) (fields : Fields) :
    (Json.obj (setPath path value fields)).atPath? (Path.names path) = some value
      ∧ (∀ other, Json.Apart (Path.names path) (Path.names other) →
          (Json.obj (setPath path value fields)).atPath? (Path.names other)
            = (Json.obj fields).atPath? (Path.names other))
      ∧ ∀ above name below, Path.names path = above ++ name :: below →
          (Json.obj (setPath path value fields)).namesAt above
            = if name ∈ (Json.obj fields).namesAt above then (Json.obj fields).namesAt above
              else (Json.obj fields).namesAt above ++ [name] := by
  have hset : Json.obj (setPath path value fields)
      = Json.setAt (Path.names path) value (.obj fields) :=
    (Json.setAt_eq (Path.names_ne_nil path) value (.obj fields)).symm
  rw [hset]
  refine ⟨Json.atPath?_setAt_self _ value _, ?_, ?_⟩
  · intro other hapart
    exact Json.atPath?_setAt_of_apart hapart value _
  · intro above name below hpath
    rw [hpath]
    exact Json.namesAt_setAt above name below value _

/-- A number in the way is replaced by an object, beside which nothing changes. -/
theorem Fields.setPath_writes_into_number :
    let fields : Fields := [("a", .nat 1), ("e", .nat 3)]
    let written := Json.obj (setPath "a.b" (.nat 2) fields)
    Json.Apart (Path.names "a.b") (Path.names "a.c") ∧ Path.names "a.b" = [] ++ "a" :: ["b"]
      ∧ written.atPath? (Path.names "a.b") = some (.nat 2)
      ∧ written.atPath? (Path.names "a.c") = none ∧ written.namesAt [] = ["a", "e"] := by
  intro fields written
  have hapart : Json.Apart (Path.names "a.b") (Path.names "a.c") := ⟨by decide, by decide⟩
  have hpath : Path.names "a.b" = [] ++ "a" :: ["b"] := by decide
  obtain ⟨hvalue, hframe, hnames⟩ := setPath_writes "a.b" (.nat 2) fields
  exact ⟨hapart, hpath, hvalue, hframe "a.c" hapart, hnames [] "a" ["b"] hpath⟩

end Tabula
