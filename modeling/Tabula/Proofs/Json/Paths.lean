import Mathlib.Data.List.Infix
import Tabula.Proofs.Json.Fields

/-!
# Values at paths of names

A value that is set at a path is read back there, setting what is there already changes nothing, and
paths apart do not touch each other (`Json.atPath?_setAt_self`, `Json.setAt_of_atPath?`,
`Json.atPath?_setAt_of_apart`). Of several values that are set one after another each is kept
exactly when any two of them agree (`Json.kept_iff_agree`).
-/

set_option autoImplicit false

namespace Tabula.Json

/-! ## Reading and setting -/

def atPath? : List String → Json → Option Json
  | [], v => some v
  | name :: rest, v => (v.get? name).bind (atPath? rest)

/-- Sets the value at a path of names. Objects on the way are created, and what stands in the way is
replaced by one. -/
def setAt : List String → Json → Json → Json
  | [], value, _ => value
  | name :: rest, value, v =>
      let fields := Fields.ofValue v
      .obj (Fields.insert name (setAt rest value (Fields.getD name fields)) fields)

/-- Below an object, values are set as its members are. -/
theorem setAt_eq {path : List String} (h : path ≠ []) (value v : Json) :
    setAt path value v = .obj (Fields.setAt path value (Fields.ofValue v)) := by
  induction path generalizing v with
  | nil => exact absurd rfl h
  | cons name rest ih =>
      cases rest with
      | nil => rfl
      | cons name' rest =>
          exact congrArg (fun w => obj (Fields.insert name w (Fields.ofValue v))) (ih (by simp) _)

theorem atPath?_append (path more : List String) (v : Json) :
    v.atPath? (path ++ more) = (v.atPath? path).bind (atPath? more) := by
  induction path generalizing v with
  | nil => rfl
  | cons name rest ih =>
      rw [List.cons_append, atPath?, atPath?, Option.bind_assoc]
      exact congrArg (Option.bind _) (funext fun w => ih w)

/-- The members of a value are those of the object that it is. -/
theorem get?_ofValue (name : String) (v : Json) :
    Fields.get? name (Fields.ofValue v) = v.get? name := by
  cases v <;> rfl

/-- What is read first below a value that was set. -/
theorem atPath?_setAt_cons (name : String) (path : List String) (value v : Json) (name' : String)
    (path' : List String) :
    (setAt (name :: path) value v).atPath? (name' :: path')
      = if name = name' then (setAt path value ((v.get? name).getD .null)).atPath? path'
        else v.atPath? (name' :: path') := by
  rw [setAt, atPath?, atPath?, get?, Fields.get?_insert, Fields.getD, get?_ofValue, get?_ofValue]
  split <;> rfl

theorem atPath?_setAt_self (path : List String) (value v : Json) :
    (setAt path value v).atPath? path = some value := by
  induction path generalizing v with
  | nil => rfl
  | cons name rest ih => rw [atPath?_setAt_cons, if_pos rfl, ih]

/-- Setting what is there already changes nothing. -/
theorem setAt_of_atPath? {path : List String} {value v : Json} (h : v.atPath? path = some value) :
    setAt path value v = v := by
  induction path generalizing v with
  | nil => exact (Option.some.inj h).symm
  | cons name rest ih =>
      obtain ⟨w, hw, hrest⟩ := Option.bind_eq_some_iff.mp h
      cases v with
      | obj fields =>
          have hmember : Fields.get? name fields = some w := hw
          simp only [setAt, Fields.ofValue, Fields.getD, hmember, Option.getD_some, ih hrest,
            Fields.insert_self hmember]
      | _ => cases hw

/-- Whether neither of two paths leads to the other or into it. -/
def Apart (path other : List String) : Prop := ¬ path <+: other ∧ ¬ other <+: path

theorem apart_append (outer : List String) {path other : List String} :
    Apart (outer ++ path) (outer ++ other) ↔ Apart path other := by
  rw [Apart, Apart, List.prefix_append_right_inj, List.prefix_append_right_inj]

theorem atPath?_setAt_of_apart {path other : List String} (h : Apart path other) (value v : Json) :
    (setAt path value v).atPath? other = v.atPath? other := by
  induction path generalizing other v with
  | nil => exact absurd List.nil_prefix h.1
  | cons name rest ih =>
      cases other with
      | nil => exact absurd List.nil_prefix h.2
      | cons name' rest' =>
          rw [atPath?_setAt_cons]
          split
          next heq =>
              subst heq
              have hrest : Apart rest rest' := (apart_append [name]).mp h
              rw [ih hrest, atPath?]
              cases v.get? name with
              | some w => rfl
              | none =>
                  -- nothing is read below what is not there
                  cases rest' with
                  | nil => exact absurd List.nil_prefix hrest.2
                  | cons name' rest' => rfl
          next => rfl

/-! ## Several values -/

def setAll (entries : List (List String × Json)) (v : Json) : Json :=
  entries.foldl (fun v entry => setAt entry.1 entry.2 v) v

/-- Whether two values can stand at their paths together: where one path leads to the other or into
it, the value holds the other one there. -/
structure Agree (a b : List String × Json) : Prop where
  into : ∀ more, b.1 = a.1 ++ more → a.2.atPath? more = some b.2
  out : ∀ more, a.1 = b.1 ++ more → b.2.atPath? more = some a.2

theorem agree_of_apart {a b : List String × Json} (h : Apart a.1 b.1) : Agree a b where
  into more hmore := absurd ⟨more, hmore.symm⟩ h.1
  out more hmore := absurd ⟨more, hmore.symm⟩ h.2

theorem agree_refl (a : List String × Json) : Agree a a := by
  have hself (more : List String) (h : a.1 = a.1 ++ more) : a.2.atPath? more = some a.2 := by
    rw [List.self_eq_append_right.mp h, atPath?]
  exact ⟨hself, hself⟩

variable {a b : List String × Json} {entries : List (List String × Json)} {v : Json}

/-- A value stays in its place when one is set that agrees with it. -/
theorem atPath?_setAt_of_agree (hab : Agree a b) (h : v.atPath? a.1 = some a.2) :
    (setAt b.1 b.2 v).atPath? a.1 = some a.2 := by
  by_cases hinto : a.1 <+: b.1
  · obtain ⟨more, hmore⟩ := hinto
    have hthere : v.atPath? b.1 = some b.2 := by
      rw [← hmore, atPath?_append, h]
      exact hab.into more hmore.symm
    rw [setAt_of_atPath? hthere, h]
  · by_cases hout : b.1 <+: a.1
    · obtain ⟨more, hmore⟩ := hout
      rw [← hmore, atPath?_append, atPath?_setAt_self]
      exact hab.out more hmore.symm
    · rw [atPath?_setAt_of_apart ⟨hout, hinto⟩, h]

/-- **A value that agrees with all that are set is kept.** -/
theorem atPath?_setAll (ha : a ∈ entries) (hagree : ∀ b ∈ entries, Agree a b) (v : Json) :
    (setAll entries v).atPath? a.1 = some a.2 := by
  -- once it is there, it stays there
  have hstays (rest : List (List String × Json)) (hrest : ∀ b ∈ rest, Agree a b) {v : Json}
      (h : v.atPath? a.1 = some a.2) : (setAll rest v).atPath? a.1 = some a.2 := by
    induction rest generalizing v with
    | nil => exact h
    | cons b rest ih =>
        obtain ⟨hb, hrest⟩ := List.forall_mem_cons.mp hrest
        exact ih hrest (atPath?_setAt_of_agree hb h)
  obtain ⟨before, after, rfl⟩ := List.append_of_mem ha
  rw [setAll, List.foldl_append, List.foldl_cons]
  refine hstays after (fun b hb => hagree b (by simp [hb])) ?_
  exact atPath?_setAt_self a.1 a.2 _

/-- **All values are kept exactly when any two of them agree.** -/
theorem kept_iff_agree : (∀ a ∈ entries, (setAll entries v).atPath? a.1 = some a.2)
    ↔ ∀ a ∈ entries, ∀ b ∈ entries, Agree a b := by
  constructor
  · intro h a ha b hb
    have hread {a b : List String × Json} (ha : a ∈ entries) (hb : b ∈ entries) (more : List String)
        (hmore : b.1 = a.1 ++ more) : a.2.atPath? more = some b.2 := by
      have hb := h b hb
      rwa [hmore, atPath?_append, h a ha] at hb
    exact ⟨hread ha hb, hread hb ha⟩
  · intro h a ha
    exact atPath?_setAll ha (h a ha) v

end Tabula.Json
