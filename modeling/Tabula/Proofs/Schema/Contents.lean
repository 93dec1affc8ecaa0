import Mathlib.Logic.Relation
import Tabula.Proofs.Schema.Inference

/-!
# What columns are inferred from

The columns of some documents depend on two sets only: the paths at which the documents hold arrays
of objects, and what stands at their paths (`Inference.columns_congr`). So it makes no difference
in which order the documents come or how often (`Inference.Change.reorder`,
`Inference.Change.again`), nor whether a lone object at a nested path stands there by itself or in
an array of its own (`Inference.Change.wrap`). One such change keeps the columns
(`Inference.columns_of_change`), and so does any number of them (`Inference.columns_of_changes`).
-/

set_option autoImplicit false

namespace Tabula

/-! ## Sets -/

namespace Text

theorem Ascending.ext {xs ys : List String} (hxs : Ascending xs) (hys : Ascending ys)
    (h : ∀ x, x ∈ xs ↔ x ∈ ys) : xs = ys := by
  have hperm : xs.Perm ys := (List.perm_ext_iff_of_nodup hxs.nodup hys.nodup).mpr h
  refine hperm.eq_of_pairwise ?_ hxs hys
  intro a b _ _ hab hba
  have hirrefl : compare a a = .lt := Std.TransCmp.lt_trans hab hba
  rw [Std.ReflOrd.compare_self] at hirrefl
  cases hirrefl

theorem setOf_congr {xs ys : List String} (h : ∀ x, x ∈ xs ↔ x ∈ ys) : setOf xs = setOf ys := by
  refine (ascending_setOf xs).ext (ascending_setOf ys) fun x => ?_
  rw [mem_setOf, mem_setOf, h]

end Text

namespace Inference

/-! ## Two sets -/

section Sets

variable {seen seen' : List Sighting} (hseen : ∀ s, s ∈ seen ↔ s ∈ seen')
include hseen

theorem setOf_paths_congr (p : Sighting → Bool) :
    Text.setOf ((seen.filter p).map (·.path)) = Text.setOf ((seen'.filter p).map (·.path)) := by
  refine Text.setOf_congr fun path => ?_
  simp only [List.mem_map, List.mem_filter, hseen]

theorem leafColumns_congr (nested : List String) (path : String) :
    leafColumns nested seen path = leafColumns nested seen' path := by
  have hany (t : ColumnType) : (seen.any fun s => s.path == path && s.type == t)
      = seen'.any fun s => s.path == path && s.type == t := by
    rw [Bool.eq_iff_iff, List.any_eq_true, List.any_eq_true]
    simp only [hseen]
  unfold leafColumns
  simp only [hany]

end Sets

variable {docs docs' : List Json}

/-- **Columns are inferred from two sets**: the nested paths of the documents, and what stands at
their paths. -/
theorem columns_congr
    (hnested : ∀ path, path ∈ docs.flatMap (nestedIn Path.root)
      ↔ path ∈ docs'.flatMap (nestedIn Path.root))
    (hseen : ∀ s, s ∈ docs.flatMap (sightings Path.root)
      ↔ s ∈ docs'.flatMap (sightings Path.root)) :
    columns docs = columns docs' := by
  have hobjects := setOf_paths_congr hseen (·.type == .object)
  have hleaves := setOf_paths_congr hseen (·.type.isLeaf)
  have hcolumns (nested : List String) := funext (leafColumns_congr hseen nested)
  unfold columns pathsOf
  simp only [Text.setOf_congr hnested, hobjects, hleaves, hcolumns]

/-! ## Objects in arrays of their own -/

/-- Two values at a path of which the second one holds an object, at some path with a property, in
an array of its own, and is like the first one otherwise. -/
inductive Wraps (P : String → Prop) : String → Json → Json → Prop
  | here {path : String} {fields : Fields} :
      P path → Wraps P path (.obj fields) (.arr [.obj fields])
  | item {path : String} {before after : List Json} {v w : Json} :
      Wraps P path v w → Wraps P path (.arr (before ++ v :: after)) (.arr (before ++ w :: after))
  | member {path key : String} {before after : Fields} {v w : Json} :
      Wraps P (Path.join path key) v w →
        Wraps P path (.obj (before ++ (key, v) :: after)) (.obj (before ++ (key, w) :: after))

section Wrapping

variable {P : String → Prop} {path : String} {v w : Json}

theorem sightingsInItems_eq (path : String) (items : List Json) :
    sightingsInItems path items = items.flatMap (sightings path) := by
  induction items with
  | nil => rfl
  | cons v items ih => rw [sightingsInItems, ih, List.flatMap_cons]

theorem sightingsInFields_eq (path : String) (fields : Fields) : sightingsInFields path fields
    = fields.flatMap fun f => sightings (Path.join path f.1) f.2 := by
  induction fields with
  | nil => rfl
  | cons f fields ih => rw [sightingsInFields, ih, List.flatMap_cons]

/-- An array is not seen, only what it holds. -/
theorem Wraps.sightings_eq (h : Wraps P path v w) : sightings path w = sightings path v := by
  induction h with
  | here _ => rw [sightings, sightingsInItems, sightingsInItems, List.append_nil]
  | item _ ih =>
      rw [sightings, sightings, sightingsInItems_eq, sightingsInItems_eq]
      simp only [List.flatMap_append, List.flatMap_cons, ih]
  | member _ ih =>
      rw [sightings, sightings, sightingsInFields_eq, sightingsInFields_eq]
      simp only [List.flatMap_append, List.flatMap_cons, ih]

/-- What was an object is one still, or is the only one in an array. -/
theorem Wraps.isObj_or (h : Wraps P path v w) (hv : v.isObj = true) :
    w.isObj = true ∨ (path ≠ Path.root → path ∈ nestedIn path w) := by
  cases h with
  | here _ => exact Or.inr fun hroot => mem_nestedIn_arr.mpr (Or.inl ⟨hroot, rfl, rfl⟩)
  | item _ => cases hv
  | member _ => exact Or.inl rfl

theorem Wraps.isObj_of (h : Wraps P path v w) (hw : w.isObj = true) : v.isObj = true := by
  cases h with
  | here _ => cases hw
  | item _ => cases hw
  | member _ => rfl

theorem mem_middle {α : Type} {before after : List α} {a x : α} :
    x ∈ before ++ a :: after ↔ x = a ∨ x ∈ before ++ after := by
  rw [List.perm_middle.mem_iff, List.mem_cons]

/-- No nested path is lost by wrapping an object. -/
theorem Wraps.nestedIn_subset (h : Wraps P path v w) :
    ∀ p ∈ nestedIn path v, p ∈ nestedIn path w := by
  induction h with
  | here _ =>
      intro p hp
      exact mem_nestedIn_arr.mpr (Or.inr ⟨_, List.mem_singleton_self _, hp⟩)
  | @item path before after v w hwrap ih =>
      intro p hp
      have hw : w ∈ before ++ w :: after := mem_middle.mpr (Or.inl rfl)
      rcases mem_nestedIn_arr.mp hp with ⟨hroot, hany, rfl⟩ | ⟨u, hu, hmem⟩
      · -- the array holds an object: the wrapped one itself or another
        obtain ⟨u, hu, hobj⟩ := List.any_eq_true.mp hany
        rcases mem_middle.mp hu with rfl | hu
        · rcases hwrap.isObj_or hobj with hobj | hnested
          · exact mem_nestedIn_arr.mpr (Or.inl ⟨hroot, List.any_eq_true.mpr ⟨w, hw, hobj⟩, rfl⟩)
          · exact mem_nestedIn_arr.mpr (Or.inr ⟨w, hw, hnested hroot⟩)
        · have hany : ∃ u ∈ before ++ w :: after, u.isObj = true :=
            ⟨u, mem_middle.mpr (Or.inr hu), hobj⟩
          exact mem_nestedIn_arr.mpr (Or.inl ⟨hroot, List.any_eq_true.mpr hany, rfl⟩)
      · rcases mem_middle.mp hu with rfl | hu
        · exact mem_nestedIn_arr.mpr (Or.inr ⟨w, hw, ih p hmem⟩)
        · exact mem_nestedIn_arr.mpr (Or.inr ⟨u, mem_middle.mpr (Or.inr hu), hmem⟩)
  | @member path key before after v w _ ih =>
      intro p hp
      obtain ⟨f, hf, hmem⟩ := mem_nestedIn_obj.mp hp
      rcases mem_middle.mp hf with rfl | hf
      · exact mem_nestedIn_obj.mpr ⟨(key, w), mem_middle.mpr (Or.inl rfl), ih p hmem⟩
      · exact mem_nestedIn_obj.mpr ⟨f, mem_middle.mpr (Or.inr hf), hmem⟩

/-- Wrapping an object adds no nested path but its own. -/
theorem Wraps.of_mem_nestedIn (h : Wraps P path v w) :
    ∀ p ∈ nestedIn path w, p ∈ nestedIn path v ∨ P p := by
  -- on the way to the object that is wrapped
  induction h with
  | here hpath =>
      intro p hp
      rcases mem_nestedIn_arr.mp hp with ⟨-, -, rfl⟩ | ⟨u, hu, hmem⟩
      · exact Or.inr hpath
      · rw [List.mem_singleton.mp hu] at hmem
        exact Or.inl hmem
  | @item path before after v w hwrap ih =>
      intro p hp
      have hv : v ∈ before ++ v :: after := mem_middle.mpr (Or.inl rfl)
      rcases mem_nestedIn_arr.mp hp with ⟨hroot, hany, rfl⟩ | ⟨u, hu, hmem⟩
      · obtain ⟨u, hu, hobj⟩ := List.any_eq_true.mp hany
        have hany : ∃ u ∈ before ++ v :: after, u.isObj = true := by
          rcases mem_middle.mp hu with rfl | hu
          · exact ⟨v, hv, hwrap.isObj_of hobj⟩
          · exact ⟨u, mem_middle.mpr (Or.inr hu), hobj⟩
        exact Or.inl (mem_nestedIn_arr.mpr (Or.inl ⟨hroot, List.any_eq_true.mpr hany, rfl⟩))
      · rcases mem_middle.mp hu with rfl | hu
        · exact (ih p hmem).imp_left fun hmem => mem_nestedIn_arr.mpr (Or.inr ⟨v, hv, hmem⟩)
        · exact Or.inl
            (mem_nestedIn_arr.mpr (Or.inr ⟨u, mem_middle.mpr (Or.inr hu), hmem⟩))
  | @member path key before after v w _ ih =>
      intro p hp
      obtain ⟨f, hf, hmem⟩ := mem_nestedIn_obj.mp hp
      rcases mem_middle.mp hf with rfl | hf
      · refine (ih p hmem).imp_left fun hmem => ?_
        exact mem_nestedIn_obj.mpr ⟨(key, v), mem_middle.mpr (Or.inl rfl), hmem⟩
      · exact Or.inl (mem_nestedIn_obj.mpr ⟨f, mem_middle.mpr (Or.inr hf), hmem⟩)

/-- The path of the wrapped object is nested then, unless it is the root. -/
theorem Wraps.mem_nestedIn {own : String} (h : Wraps (· = own) path v w) (hroot : own ≠ Path.root) :
    own ∈ nestedIn path w := by
  induction h with
  | here hpath =>
      subst hpath
      exact mem_nestedIn_arr.mpr (Or.inl ⟨hroot, rfl, rfl⟩)
  | item _ ih => exact mem_nestedIn_arr.mpr (Or.inr ⟨_, mem_middle.mpr (Or.inl rfl), ih⟩)
  | member _ ih => exact mem_nestedIn_obj.mpr ⟨_, mem_middle.mpr (Or.inl rfl), ih⟩

end Wrapping

/-! ## Changes -/

/-- Whether a path is nested in the catalog that is inferred from some documents. -/
def IsNested (docs : List Json) (path : String) : Prop :=
  ∃ c ∈ columns docs, c.type = .nested ∧ c.name = path

theorem isNested_iff {path : String} : IsNested docs path ↔ path ∈ nestedPaths docs := by
  constructor
  · rintro ⟨c, hc, htype, rfl⟩
    rcases placed_of_mem_columns hc with ⟨-, hname, -⟩ | ⟨hother, -⟩
    · exact hname
    · exact absurd htype hother
  · exact exists_nested

/-- A change of sample documents that leaves what they contain. -/
inductive Change : List Json → List Json → Prop
  /-- The documents come in another order. -/
  | reorder {docs docs' : List Json} : docs.Perm docs' → Change docs docs'
  /-- A document comes once more. -/
  | again {docs : List Json} {doc : Json} : doc ∈ docs → Change docs (doc :: docs)
  /-- An object in one document is put into an array of its own, at a path that is nested anyway. -/
  | wrap {before after : List Json} {doc doc' : Json} :
      Wraps (IsNested (before ++ doc :: after)) Path.root doc doc' →
        Change (before ++ doc :: after) (before ++ doc' :: after)

theorem columns_of_subset (h : docs ⊆ docs') (h' : docs' ⊆ docs) :
    columns docs' = columns docs := by
  have hmem (doc : Json) : doc ∈ docs' ↔ doc ∈ docs := ⟨fun hd => h' hd, fun hd => h hd⟩
  refine columns_congr (fun path => ?_) fun s => ?_
  · simp only [List.mem_flatMap, hmem]
  · simp only [List.mem_flatMap, hmem]

section Replacing

variable {P : String → Prop} {before after : List Json} {doc doc' : Json}

/-- Columns stay when an object is wrapped whose path is nested already, or is the root. -/
theorem columns_of_wraps (h : Wraps P Path.root doc doc')
    (hP : ∀ path ∈ nestedIn Path.root doc', P path → path ∈ nestedPaths (before ++ doc :: after)) :
    columns (before ++ doc' :: after) = columns (before ++ doc :: after) := by
  refine columns_congr (fun path => ?_) fun s => ?_
  · have hmiddle (d : Json) : path ∈ (before ++ d :: after).flatMap (nestedIn Path.root)
        ↔ path ∈ nestedIn Path.root d ∨ path ∈ (before ++ after).flatMap (nestedIn Path.root) := by
      rw [(List.perm_middle.flatMap_right _).mem_iff, List.flatMap_cons, List.mem_append]
    rw [hmiddle, hmiddle]
    constructor
    · rintro (hdoc' | hrest)
      · rcases h.of_mem_nestedIn path hdoc' with hdoc | hown
        · exact Or.inl hdoc
        · exact (hmiddle doc).mp (Text.mem_setOf.mp (hP path hdoc' hown))
      · exact Or.inr hrest
    · exact Or.imp_left (h.nestedIn_subset path)
  · simp only [List.flatMap_append, List.flatMap_cons, h.sightings_eq]

theorem root_notMem_nestedIn (path : String) (v : Json) : Path.root ∉ nestedIn path v := by
  induction v generalizing path with
  | arr items ih =>
      intro hmem
      rcases mem_nestedIn_arr.mp hmem with ⟨hroot, -, heq⟩ | ⟨v, hv, hmem⟩
      · exact hroot heq.symm
      · exact ih v hv path hmem
  | obj fields ih =>
      intro hmem
      obtain ⟨f, hf, hmem⟩ := mem_nestedIn_obj.mp hmem
      exact ih f hf _ hmem
  | _ => simp [nestedIn]

/-- **Wrapping an object shows exactly when its path becomes nested by it.** -/
theorem columns_of_wraps_iff {path : String} (h : Wraps (· = path) Path.root doc doc') :
    columns (before ++ doc' :: after) = columns (before ++ doc :: after)
      ↔ path = Path.root ∨ IsNested (before ++ doc :: after) path := by
  constructor
  · intro heq
    refine or_iff_not_imp_left.mpr fun hroot => ?_
    have hnested : IsNested (before ++ doc' :: after) path := by
      refine isNested_iff.mpr (Text.mem_setOf.mpr ?_)
      exact List.mem_flatMap.mpr ⟨doc', mem_middle.mpr (Or.inl rfl), h.mem_nestedIn hroot⟩
    rwa [IsNested, heq] at hnested
  · intro hcases
    refine columns_of_wraps h ?_
    rintro own hmem rfl
    rcases hcases with rfl | hnested
    · exact absurd hmem (root_notMem_nestedIn _ _)
    · exact isNested_iff.mp hnested

end Replacing

/-- **A change that leaves what documents contain keeps their columns.** -/
theorem columns_of_change (h : Change docs docs') : columns docs' = columns docs := by
  cases h with
  | reorder hperm => exact columns_of_subset hperm.subset hperm.symm.subset
  | again hdoc =>
      exact columns_of_subset (List.subset_cons_self _ _)
        (List.cons_subset.mpr ⟨hdoc, List.Subset.refl _⟩)
  | wrap hwraps => exact columns_of_wraps hwraps fun path _ hnested => isNested_iff.mp hnested

/-- **Columns depend only on what the documents contain**: any number of changes that leave it, one
after another, keep the list of columns. An object that is put into an array of its own changes the
list in all other cases, that is if its path, below the root, was not nested before. -/
theorem columns_of_contents (docs : List Json) :
    (∀ docs', Relation.ReflTransGen Change docs docs' → columns docs' = columns docs)
      ∧ ∀ before doc after doc' path, docs = before ++ doc :: after →
        Wraps (· = path) Path.root doc doc' →
          (columns (before ++ doc' :: after) = columns docs
            ↔ path = Path.root ∨ IsNested docs path) := by
  constructor
  · intro docs' h
    induction h with
    | refl => rfl
    | tail _ hchange ih => rw [columns_of_change hchange, ih]
  · rintro before doc after doc' path rfl h
    exact columns_of_wraps_iff h

def pairSample : Json :=
  .obj [("o", .nat 1), ("a", .arr [.obj [("b", .str "x")], .obj [("b", .nat 3)]])]

def loneFields : Fields := [("b", .str "y"), ("c", .null)]

/-- The array of objects in one document, and a lone object in its place in the other one. -/
def loneSamples : List Json := [pairSample, .obj [("a", .obj loneFields)]]

/-- The documents with the lone object in an array of its own, and with the first one once more at
the end. -/
def wrappedSamples : List Json :=
  [pairSample, .obj [("a", .arr [.obj loneFields])], pairSample]

theorem changes_loneSamples : Relation.ReflTransGen Change loneSamples wrappedSamples := by
  have hnested : IsNested loneSamples "a" := by
    refine isNested_iff.mpr (List.contains_iff_mem.mp ?_)
    cbv
  have hwraps : Wraps (IsNested loneSamples) Path.root (.obj [("a", .obj loneFields)])
      (.obj [("a", .arr [.obj loneFields])]) :=
    @Wraps.member _ _ "a" [] [] _ _ (.here hnested)
  have hwrapped : Change loneSamples [pairSample, .obj [("a", .arr [.obj loneFields])]] :=
    @Change.wrap [pairSample] [] _ _ hwraps
  have hagain : Change [pairSample, .obj [("a", .arr [.obj loneFields])]]
      (pairSample :: [pairSample, .obj [("a", .arr [.obj loneFields])]]) :=
    .again List.mem_cons_self
  have hreordered : Change (pairSample :: [pairSample, .obj [("a", .arr [.obj loneFields])]])
      wrappedSamples :=
    .reorder ((List.Perm.swap _ _ []).cons pairSample)
  exact ((Relation.ReflTransGen.single hwrapped).tail hagain).tail hreordered

/-- The lone object may stand in an array of its own, since there is another array in its place; in
the second document alone it may not. -/
theorem columns_of_contents_lone :
    Relation.ReflTransGen Change loneSamples wrappedSamples
      ∧ columns wrappedSamples = columns loneSamples
      ∧ columns [.obj [("a", .arr [.obj loneFields])]]
        ≠ columns [.obj [("a", .obj loneFields)]] := by
  refine ⟨changes_loneSamples, (columns_of_contents loneSamples).1 _ changes_loneSamples, ?_⟩
  have hwraps : Wraps (· = "a") Path.root (.obj [("a", .obj loneFields)])
      (.obj [("a", .arr [.obj loneFields])]) :=
    @Wraps.member _ _ "a" [] [] _ _ (.here rfl)
  have hiff := (columns_of_contents [.obj [("a", .obj loneFields)]]).2 [] _ [] _ "a" rfl hwraps
  intro heq
  rcases hiff.mp heq with hroot | hnested
  · exact absurd hroot (by decide)
  · rw [isNested_iff, ← List.contains_iff_mem] at hnested
    have hnot : (nestedPaths [.obj [("a", .obj loneFields)]]).contains "a" = false := by cbv
    rw [hnot] at hnested
    cases hnested

end Inference

end Tabula
