import Tabula.Json.Parser
import Tabula.Proofs.Json.Same

/-!
# Values that are read

The values that texts hold are those for which equality is an equivalence: of several members of one
name the last one stays, so all their objects hold their members under distinct names
(`namesDistinct_of_parse?`).
-/

set_option autoImplicit false

namespace Tabula

namespace Fields

theorem mem_of_mem_insert {name : String} {v : Json} {fields : Fields} {f : String × Json}
    (h : f ∈ insert name v fields) : f.2 = v ∨ f ∈ fields := by
  induction fields with
  | nil => exact Or.inl (congrArg Prod.snd (List.mem_singleton.mp h))
  | cons g fields ih =>
      obtain ⟨k, w⟩ := g
      rw [insert] at h
      split at h
      next =>
          rcases List.mem_cons.mp h with rfl | hmem
          · exact Or.inl rfl
          · exact Or.inr (List.mem_cons_of_mem _ hmem)
      next =>
          rcases List.mem_cons.mp h with rfl | hmem
          · exact Or.inr List.mem_cons_self
          · exact (ih hmem).imp_right (List.mem_cons_of_mem _)

/-- What holds of the values of entries holds of the values of the object that they make. -/
theorem forall_mem_ofList (p : Json → Prop) {entries : List (String × Json)}
    (h : ∀ entry ∈ entries, p entry.2) : ∀ f ∈ ofList entries, p f.2 := by
  have hfold (fields : Fields) (hfields : ∀ f ∈ fields, p f.2) :
      ∀ f ∈ entries.foldl (fun fields entry => insert entry.1 entry.2 fields) fields, p f.2 := by
    induction entries generalizing fields with
    | nil => exact hfields
    | cons entry entries ih =>
        obtain ⟨hentry, hentries⟩ := List.forall_mem_cons.mp h
        refine ih hentries _ fun f hf => ?_
        rcases mem_of_mem_insert hf with hvalue | hmem
        · rwa [hvalue]
        · exact hfields f hmem
  exact hfold [] fun f hf => absurd hf List.not_mem_nil

end Fields

namespace Json

/-- An object that is made of entries holds its members under distinct names. -/
theorem namesDistinct_ofList {entries : List (String × Json)}
    (h : ∀ entry ∈ entries, entry.2.namesDistinct = true) :
    (obj (Fields.ofList entries)).namesDistinct = true :=
  namesDistinct_obj.mpr ⟨(Fields.names_ofList entries).1,
    Fields.forall_mem_ofList (fun v => v.namesDistinct = true) h⟩

/-- Whether a reader yields only values with distinct names. -/
def ReadsDistinct (item : List Char → Option (Json × List Char)) : Prop :=
  ∀ cs v rest, item cs = some (v, rest) → v.namesDistinct = true

section Reading

variable {item : List Char → Option (Json × List Char)}

theorem namesDistinct_of_elements (hitem : ReadsDistinct item) {fuel : Nat} {cs rest : List Char}
    {vs : List Json} (h : Parser.elements item fuel cs = some (vs, rest)) :
    ∀ v ∈ vs, v.namesDistinct = true := by
  induction fuel generalizing cs vs with
  | zero => cases h
  | succ fuel ih =>
      rw [Parser.elements] at h
      obtain ⟨⟨v, cs'⟩, hv, h⟩ := Option.bind_eq_some_iff.mp h
      have hfirst := hitem cs v cs' hv
      dsimp only at h
      split at h
      next =>
          obtain ⟨⟨more, rest'⟩, hmore, h⟩ := Option.bind_eq_some_iff.mp h
          cases h
          exact List.forall_mem_cons.mpr ⟨hfirst, ih hmore⟩
      next =>
          cases h
          exact List.forall_mem_singleton.mpr hfirst
      next => cases h

theorem namesDistinct_of_members (hitem : ReadsDistinct item) {fuel : Nat} {cs rest : List Char}
    {fs : Fields} (h : Parser.members item fuel cs = some (fs, rest)) :
    ∀ f ∈ fs, f.2.namesDistinct = true := by
  -- on the fuel: a first member, and then the closing brace or the others
  induction fuel generalizing cs fs with
  | zero => cases h
  | succ fuel ih =>
      rw [Parser.members] at h
      split at h
      next =>
          obtain ⟨⟨key, after⟩, -, h⟩ := Option.bind_eq_some_iff.mp h
          dsimp only at h
          split at h
          next =>
              obtain ⟨⟨v, after'⟩, hv, h⟩ := Option.bind_eq_some_iff.mp h
              have hfirst := hitem _ v after' hv
              dsimp only at h
              split at h
              next =>
                  obtain ⟨⟨more, rest'⟩, hmore, h⟩ := Option.bind_eq_some_iff.mp h
                  cases h
                  exact List.forall_mem_cons.mpr ⟨hfirst, ih hmore⟩
              next =>
                  cases h
                  exact List.forall_mem_singleton.mpr hfirst
              next => cases h
          next => cases h
      next => cases h

/-- **Every value that is read** holds its members under distinct names. -/
theorem readsDistinct_value (depth : Nat) : ReadsDistinct (Parser.value depth) := by
  -- on the number of brackets that may be open
  induction depth using Nat.strongRecOn with
  | ind depth ih =>
      intro cs v rest h
      unfold Parser.value at h
      split at h
      next =>
          cases h
          rfl
      next =>
          cases h
          rfl
      next =>
          cases h
          rfl
      next =>
          obtain ⟨⟨s, after⟩, -, h⟩ := Option.map_eq_some_iff.mp h
          cases h
          rfl
      next =>
          split at h
          next => cases h
          next depth =>
              split at h
              next =>
                  cases h
                  rfl
              next =>
                  obtain ⟨⟨items, after⟩, hitems, h⟩ := Option.map_eq_some_iff.mp h
                  cases h
                  exact namesDistinct_arr.mpr
                    (namesDistinct_of_elements (ih depth (Nat.lt_succ_self depth)) hitems)
      next =>
          split at h
          next => cases h
          next depth =>
              split at h
              next =>
                  cases h
                  rfl
              next =>
                  obtain ⟨⟨entries, after⟩, hentries, h⟩ := Option.map_eq_some_iff.mp h
                  cases h
                  exact namesDistinct_ofList
                    (namesDistinct_of_members (ih depth (Nat.lt_succ_self depth)) hentries)
      next =>
          obtain ⟨⟨n, after⟩, -, h⟩ := Option.map_eq_some_iff.mp h
          cases h
          rfl

/-- **Every value that a text holds** has distinct names in all its objects. -/
theorem namesDistinct_of_parse? {text : String} {v : Json} (h : parse? text = some v) :
    v.namesDistinct = true := by
  unfold parse? at h
  split at h
  next w rest hread =>
      split at h
      next =>
          obtain rfl := Option.some.inj h
          exact readsDistinct_value 127 _ w rest hread
      next => cases h
  next => cases h

end Reading

end Json

end Tabula
