import Mathlib.Data.List.Basic
import Mathlib.Data.List.Pairwise
import Tabula.Expr.Filter
import Tabula.Proofs.Search.Meaning

/-!
# Documents and their fields

A flat catalog stores a field in at most one column of each type, and no field below another
(`Catalog.Flat`), so that the leaf columns of a field with columns of its own are these columns
(`Flat.mem_scalars_of_mem_leaves`). A document that fits it holds one value for each field, in the
column of its type (`Document.Fits`), and what a field stands for is that value, the object of what
is stored below the field, or null (`Document.reads_value`).
-/

set_option autoImplicit false

namespace Tabula

namespace Catalog

/-! ## Flat catalogs -/

/-- Whether a catalog stores fields without ambiguity: queries run over whole documents, a field
has at most one column of each type, none of its columns only counts its values, and no field that
stores values lies below another. -/
structure Flat (catalog : Catalog) : Prop where
  root : catalog.queryDepth = Path.root
  unique : catalog.columns.Pairwise fun c c' =>
    c.type.isLeaf = true → ¬ (c.name = c'.name ∧ c.type = c'.type)
  noPresence : ∀ c ∈ catalog.columns, c.type ≠ .presence
  apart : ∀ c ∈ catalog.columns, ∀ c' ∈ catalog.columns, c.type.isLeaf = true →
    c'.type.isLeaf = true → Path.contains c.name c'.name = true → c.name = c'.name

/-- Whether a field only stands above others. -/
def Above (catalog : Catalog) (name : String) : Prop :=
  catalog.scalars name = [] ∧ catalog.leaves name ≠ []

variable {catalog : Catalog} {name : String} {c : Column}

theorem contains_containers : ColumnType.containers.contains = fun type => !type.isLeaf := by
  funext type
  cases type <;> rfl

theorem firstHit_singleton {α β : Type} (f : α → List β) (a : α) : firstHit f [a] = f a := by
  rw [firstHit]
  cases h : f a with
  | nil => rfl
  | cons b bs => rfl

section Root

variable (h : catalog.queryDepth = Path.root)
include h

theorem mem_leaves_iff : c ∈ catalog.leaves name
    ↔ c ∈ catalog.columns ∧ c.type.isLeaf = true ∧ Path.contains name c.name = true := by
  rw [leaves, candidates, h]
  simp [firstHit_singleton]

theorem scalars_eq : catalog.scalars name
    = catalog.columns.filter fun c => c.name == name && c.type.isLeaf := by
  rw [scalars, values, candidates, h, contains_containers]
  simp [firstHit_singleton]

theorem mem_scalars_iff : c ∈ catalog.scalars name
    ↔ c ∈ catalog.columns ∧ c.name = name ∧ c.type.isLeaf = true := by
  rw [scalars_eq h]
  simp

end Root

/-- A field with columns of its own has no others below it. -/
theorem Flat.mem_scalars_of_mem_leaves (h : catalog.Flat) (hne : catalog.scalars name ≠ [])
    (hc : c ∈ catalog.leaves name) : c ∈ catalog.scalars name := by
  obtain ⟨own, hown⟩ := List.exists_mem_of_ne_nil _ hne
  obtain ⟨hmem, rfl, hleaf⟩ := (mem_scalars_iff h.root).mp hown
  obtain ⟨hmem', hleaf', hcontains⟩ := (mem_leaves_iff h.root).mp hc
  have hname := h.apart own hmem c hmem' hleaf hleaf' hcontains
  exact (mem_scalars_iff h.root).mpr ⟨hmem', hname.symm, hleaf'⟩

theorem Flat.mem_leaves_of_mem_scalars (h : catalog.Flat) (hc : c ∈ catalog.scalars name) :
    c ∈ catalog.leaves name := by
  obtain ⟨hmem, rfl, hleaf⟩ := (mem_scalars_iff h.root).mp hc
  refine (mem_leaves_iff h.root).mpr ⟨hmem, hleaf, ?_⟩
  simp [Path.contains]

theorem Flat.pairwise_scalars (h : catalog.Flat) :
    (catalog.scalars name).Pairwise fun c c' => c.type ≠ c'.type := by
  rw [scalars_eq h.root]
  refine (h.unique.filter _).imp_of_mem fun {c c'} hc hc' hdistinct htype => ?_
  simp only [List.mem_filter, Bool.and_eq_true, beq_iff_eq] at hc hc'
  exact hdistinct hc.2.2 ⟨hc.2.1.trans hc'.2.1.symm, htype⟩

theorem Flat.eq_of_type (h : catalog.Flat) {c' : Column} (hc : c ∈ catalog.scalars name)
    (hc' : c' ∈ catalog.scalars name) (htype : c.type = c'.type) : c = c' := by
  have : Std.Symm fun c c' : Column => c.type ≠ c'.type := ⟨fun _ _ hne => hne.symm⟩
  by_contra hne
  exact h.pairwise_scalars.forall hc hc' hne htype

end Catalog

/-! ## Documents -/

namespace Document

/-- Whether a document holds what a catalog says: each column a value of its type, and all columns
of a field together at most one. -/
structure Fits (doc : Document) (catalog : Catalog) : Prop where
  typed : ∀ c ∈ catalog.columns, c.type.isLeaf = true → ∀ v, doc c.stored = some v →
    Expr.literalType? v = some c.type
  single : ∀ c ∈ catalog.columns, ∀ c' ∈ catalog.columns, c.type.isLeaf = true →
    c'.type.isLeaf = true → c.name = c'.name → ∀ v v', doc c.stored = some v →
    doc c'.stored = some v' → v = v'

/-- What a field of a document stands for: its value; else, when something is stored below the
field, an object of some members; else null. -/
def value (doc : Document) (catalog : Catalog) (members : String → Fields) (name : String) :
    Json :=
  match (catalog.scalars name).findSome? fun c => doc c.stored with
  | some v => v
  | none =>
      if (catalog.leaves name).any fun c => (doc c.stored).isSome then .obj (members name)
      else .null

/-- What the columns of a field say of the value that the field stands for. -/
inductive Reads (doc : Document) (catalog : Catalog) (name : String) : Json → Prop
  /-- One of the columns holds the value, and no other one holds any. -/
  | scalar {c : Column} {v : Json} (hc : c ∈ catalog.scalars name) (hv : doc c.stored = some v)
      (htype : Expr.literalType? v = some c.type)
      (honly : ∀ c' ∈ catalog.scalars name, c' ≠ c → doc c'.stored = none) :
      Reads doc catalog name v
  /-- Nothing is stored. -/
  | absent (hnone : ∀ c ∈ catalog.leaves name, doc c.stored = none) : Reads doc catalog name .null
  /-- The field stands above one that holds a value. -/
  | above (habove : catalog.Above name)
      (hsome : ∃ c ∈ catalog.leaves name, (doc c.stored).isSome = true) (fields : Fields) :
      Reads doc catalog name (.obj fields)

variable {doc : Document} {catalog : Catalog}

theorem Reads.type_of_stored {name : String} {value v : Json} {c : Column}
    (h : doc.Reads catalog name value) (hflat : catalog.Flat) (hc : c ∈ catalog.scalars name)
    (hv : doc c.stored = some v) : Expr.literalType? v = some c.type := by
  cases h with
  | @scalar own _ _ hown htype honly =>
      by_cases heq : c = own
      · rw [heq, hown] at hv
        rw [heq, ← Option.some.inj hv, htype]
      · rw [honly c hc heq] at hv
        cases hv
  | absent hnone =>
      rw [hnone c (hflat.mem_leaves_of_mem_scalars hc)] at hv
      cases hv
  | above habove =>
      rw [habove.1] at hc
      cases hc

/-- **A field stands for what its columns hold.** -/
theorem reads_value (hc : catalog.Flat) (hd : doc.Fits catalog) (members : String → Fields)
    (name : String) : doc.Reads catalog name (doc.value catalog members name) := by
  unfold value
  split
  next v hfind =>
      obtain ⟨c, hmem, hv⟩ := List.exists_of_findSome?_eq_some hfind
      obtain ⟨hcolumn, hname, hleaf⟩ := (Catalog.mem_scalars_iff hc.root).mp hmem
      refine .scalar hmem hv (hd.typed c hcolumn hleaf v hv) fun c' hmem' hne => ?_
      obtain ⟨hcolumn', hname', hleaf'⟩ := (Catalog.mem_scalars_iff hc.root).mp hmem'
      refine Option.eq_none_iff_forall_ne_some.mpr fun v' hv' => hne ?_
      -- two columns of the field that hold the same value are of one type
      obtain rfl :=
        hd.single c hcolumn c' hcolumn' hleaf hleaf' (hname.trans hname'.symm) v v' hv hv'
      have htype := (hd.typed c' hcolumn' hleaf' v hv').symm.trans (hd.typed c hcolumn hleaf v hv)
      exact hc.eq_of_type hmem' hmem (Option.some.inj htype)
  next hnone =>
      have hscalars : ∀ c ∈ catalog.scalars name, doc c.stored = none :=
        List.findSome?_eq_none_iff.mp hnone
      split
      next hany =>
          obtain ⟨c, hmem, hsome⟩ := List.any_eq_true.mp hany
          refine .above ⟨?_, List.ne_nil_of_mem hmem⟩ ⟨c, hmem, hsome⟩ _
          by_contra hne
          rw [hscalars c (hc.mem_scalars_of_mem_leaves hne hmem)] at hsome
          cases hsome
      next hany =>
          refine .absent fun c hmem => ?_
          by_contra hsome
          exact hany (List.any_eq_true.mpr ⟨c, hmem, Option.isSome_iff_ne_none.mpr hsome⟩)

end Document

end Tabula
