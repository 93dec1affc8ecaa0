import Mathlib.Data.List.Permutation
import Tabula.Proofs.Json.Same
import Tabula.Proofs.Lists
import Tabula.Proofs.Path.Nesting
import Tabula.Proofs.Path.Relative
import Tabula.Proofs.Schema.Resolution
import Tabula.Schema.Inference

/-!
# Columns of sample documents

The columns of some documents fit together when all keys in the documents are names. What stands
in nested documents then lies on a path below theirs, so that of two nested paths around a path one
lies strictly below the other, and sorting them by depth leads from the inside out
(`Inference.chain_leadsOut`). The nested documents around a leaf are those of the innermost one
(`Inference.chain_cases`), so that a query that runs over these finds the leaf under its relative
name (`Catalog.finds_inferred`). It makes no difference whether the same path is nested in one
document and holds an object or a scalar in another.
-/

set_option autoImplicit false

namespace Tabula

/-! ## Keys that are names -/

namespace Json

mutual

/-- Whether the keys of all objects in a value are names. -/
def keysNamed : Json → Bool
  | arr items => keysNamedItems items
  | obj fields => keysNamedFields fields
  | _ => true

def keysNamedItems : List Json → Bool
  | [] => true
  | v :: rest => keysNamed v && keysNamedItems rest

def keysNamedFields : List (String × Json) → Bool
  | [] => true
  | (k, v) :: rest => Path.isName k && keysNamed v && keysNamedFields rest

end

theorem keysNamed_arr {items : List Json} :
    (arr items).keysNamed = true ↔ ∀ v ∈ items, v.keysNamed = true := by
  rw [keysNamed]
  induction items with
  | nil => simp [keysNamedItems]
  | cons v items ih => rw [keysNamedItems, Bool.and_eq_true, ih, List.forall_mem_cons]

theorem keysNamed_obj {fields : Fields} : (obj fields).keysNamed = true
    ↔ ∀ f ∈ fields, Path.isName f.1 = true ∧ f.2.keysNamed = true := by
  rw [keysNamed]
  induction fields with
  | nil => simp [keysNamedFields]
  | cons f fields ih =>
      rw [keysNamedFields, Bool.and_eq_true, Bool.and_eq_true, ih, List.forall_mem_cons]

end Json

namespace Inference

/-! ## What is found in a document -/

variable {at_ path : String}

theorem mem_nestedIn_arr {items : List Json} : path ∈ nestedIn at_ (.arr items)
    ↔ (at_ ≠ Path.root ∧ items.any Json.isObj = true ∧ path = at_)
      ∨ ∃ v ∈ items, path ∈ nestedIn at_ v := by
  have hitems : path ∈ nestedInItems at_ items ↔ ∃ v ∈ items, path ∈ nestedIn at_ v := by
    induction items with
    | nil => simp [nestedInItems]
    | cons v items ih => rw [nestedInItems, List.mem_append, ih, List.exists_mem_cons_iff]
  rw [nestedIn, List.mem_append, hitems]
  refine or_congr_left ?_
  split
  next h => simp [h]
  next h =>
      simp only [List.not_mem_nil, false_iff]
      rintro ⟨hat, hany, -⟩
      exact h ⟨hat, hany⟩

theorem mem_nestedIn_obj {fields : Fields} : path ∈ nestedIn at_ (.obj fields)
    ↔ ∃ f ∈ fields, path ∈ nestedIn (Path.join at_ f.1) f.2 := by
  rw [nestedIn]
  induction fields with
  | nil => simp [nestedInFields]
  | cons f fields ih => rw [nestedInFields, List.mem_append, ih, List.exists_mem_cons_iff]

theorem mem_sightings_arr {s : Sighting} {items : List Json} :
    s ∈ sightings at_ (.arr items) ↔ ∃ v ∈ items, s ∈ sightings at_ v := by
  rw [sightings]
  induction items with
  | nil => simp [sightingsInItems]
  | cons v items ih => rw [sightingsInItems, List.mem_append, ih, List.exists_mem_cons_iff]

theorem mem_sightings_obj {s : Sighting} {fields : Fields} : s ∈ sightings at_ (.obj fields)
    ↔ (at_ ≠ Path.root ∧ s = ⟨at_, .object⟩)
      ∨ ∃ f ∈ fields, s ∈ sightings (Path.join at_ f.1) f.2 := by
  have hfields : s ∈ sightingsInFields at_ fields
      ↔ ∃ f ∈ fields, s ∈ sightings (Path.join at_ f.1) f.2 := by
    induction fields with
    | nil => simp [sightingsInFields]
    | cons f fields ih => rw [sightingsInFields, List.mem_append, ih, List.exists_mem_cons_iff]
  rw [sightings, List.mem_append, hfields]
  refine or_congr_left ?_
  split
  next h => simp [h]
  next h => simp [h]

theorem names_of_mem_nestedIn {v : Json} (h : v.keysNamed = true) (hat : Path.WellFormed at_)
    (hpath : path ∈ nestedIn at_ v) : "" ∉ Path.names path := by
  induction v generalizing at_ with
  | arr items ih =>
      rcases mem_nestedIn_arr.mp hpath with ⟨hroot, -, rfl⟩ | ⟨v, hv, hpath⟩
      · exact fun hempty => hat.resolve_left hroot "" hempty rfl
      · exact ih v hv (Json.keysNamed_arr.mp h v hv) hat hpath
  | obj fields ih =>
      obtain ⟨f, hf, hpath⟩ := mem_nestedIn_obj.mp hpath
      obtain ⟨hkey, hvalue⟩ := Json.keysNamed_obj.mp h f hf
      exact ih f hf hvalue (Path.wellFormed_of_names (Path.names_join_of_isName hat hkey)) hpath
  | _ => simp [nestedIn] at hpath

theorem wellFormed_of_mem_sightings {v : Json} {s : Sighting} (h : v.keysNamed = true)
    (hat : Path.WellFormed at_) (hs : s ∈ sightings at_ v) : Path.WellFormed s.path := by
  induction v generalizing at_ with
  | null => simp [sightings] at hs
  | arr items ih =>
      obtain ⟨v, hv, hs⟩ := mem_sightings_arr.mp hs
      exact ih v hv (Json.keysNamed_arr.mp h v hv) hat hs
  | obj fields ih =>
      rcases mem_sightings_obj.mp hs with ⟨-, rfl⟩ | ⟨f, hf, hs⟩
      · exact hat
      · obtain ⟨hkey, hvalue⟩ := Json.keysNamed_obj.mp h f hf
        exact ih f hf hvalue (Path.wellFormed_of_names (Path.names_join_of_isName hat hkey)) hs
  | _ =>
      rw [sightings, List.mem_singleton] at hs
      rw [hs]
      exact hat

/-! ## Chains -/

section Chain

variable {nested : List String} {inclusive : Bool}

/-- The nested paths around a path, innermost first. -/
def around (nested : List String) (inclusive : Bool) (path : String) : List String :=
  (nested.filter fun n => Path.contains n path && (inclusive || n != path)).mergeSort
    fun a b => Path.depth b ≤ Path.depth a

theorem chain_eq : chain nested inclusive path = around nested inclusive path ++ [Path.root] := rfl

theorem mem_around {n : String} : n ∈ around nested inclusive path
    ↔ n ∈ nested ∧ Path.contains n path = true ∧ (inclusive = true ∨ n ≠ path) := by
  simp [around]

variable (hnodup : nested.Nodup) (hnames : ∀ n ∈ nested, "" ∉ Path.names n)
include hnodup hnames

/-- Sorting by depth leads from the inside out. -/
theorem pairwise_around : (around nested inclusive path).Pairwise fun inner outer =>
    Path.StrictlyBelow outer inner := by
  have hsorted : (around nested inclusive path).Pairwise fun a b =>
      decide (Path.depth b ≤ Path.depth a) = true := by
    refine List.pairwise_mergeSort ?_ ?_ _
    · simp only [decide_eq_true_eq]
      exact fun a b c hab hbc => Nat.le_trans hbc hab
    · simp only [Bool.or_eq_true, decide_eq_true_eq]
      exact fun a b => Nat.le_total _ _
  have hdistinct : (around nested inclusive path).Nodup :=
    (List.mergeSort_perm _ _).nodup_iff.mpr (hnodup.filter _)
  refine (hsorted.and hdistinct).imp_of_mem ?_
  rintro a b ha hb ⟨hdepth, hne⟩
  obtain ⟨ha, hin, -⟩ := mem_around.mp ha
  obtain ⟨hb, hout, -⟩ := mem_around.mp hb
  exact Path.strictlyBelow_of_depth_le (hnames a ha) (hnames b hb) hin hout hne
    (of_decide_eq_true hdepth)

/-- **The nested paths around a path lead from the inside out**, to the root. -/
theorem chain_leadsOut : Path.LeadsOut (chain nested inclusive path) where
  root_last := by rw [chain_eq, List.getLast?_concat]
  around := by
    rw [chain_eq]
    apply List.Pairwise.isChain
    rw [List.pairwise_append]
    refine ⟨pairwise_around hnodup hnames, List.pairwise_singleton _ _, ?_⟩
    intro n hn outer houter
    obtain rfl := List.mem_singleton.mp houter
    exact ⟨by simp [Path.contains], Path.ne_root_of_names (hnames n (mem_around.mp hn).1)⟩

/-- A nested path is around another one exactly when it is at or around the innermost of those that
are. -/
theorem around_iff {d : String} {rest : List String}
    (haround : around nested inclusive path = d :: rest) {n : String} (hn : n ∈ nested) :
    Path.contains n path = true ∧ (inclusive = true ∨ n ≠ path)
      ↔ Path.contains n d = true := by
  have hbelow : (around nested inclusive path).Pairwise fun inner outer =>
      Path.StrictlyBelow outer inner := pairwise_around hnodup hnames
  have hinnermost : d ∈ around nested inclusive path := by
    rw [haround]
    exact List.mem_cons_self
  obtain ⟨hd, hcontains, hinclusive⟩ := mem_around.mp hinnermost
  rw [haround] at hbelow
  constructor
  · intro hpath
    have hmem := mem_around.mpr ⟨hn, hpath⟩
    rw [haround] at hmem
    rcases List.mem_cons.mp hmem with rfl | hrest
    · simp [Path.contains]
    · exact (List.rel_of_pairwise_cons hbelow hrest).1
  · intro houter
    refine ⟨Path.contains_trans (hnames n hn) (hnames d hd) houter hcontains, ?_⟩
    -- what is around the innermost one cannot be the path itself, which lies below it
    refine hinclusive.imp_right fun hne heq => ?_
    subst heq
    exact hne (Path.contains_antisymm (hnames d hd) (hnames n hn) hcontains houter)

/-- **What is around a path is the innermost nested path with all that is around this one**, or the
root alone. -/
theorem chain_cases (inclusive : Bool) (path : String) :
    chain nested inclusive path = [Path.root]
      ∨ ∃ d ∈ nested, Path.contains d path = true ∧ (inclusive = true ∨ d ≠ path)
        ∧ (chain nested inclusive path).head? = some d
        ∧ chain nested inclusive path = chain nested true d := by
  cases haround : around nested inclusive path with
  | nil => exact Or.inl (by rw [chain_eq, haround, List.nil_append])
  | cons d rest =>
      right
      have hinnermost : d ∈ around nested inclusive path := by
        rw [haround]
        exact List.mem_cons_self
      obtain ⟨hd, hcontains, hinclusive⟩ := mem_around.mp hinnermost
      have hhead : (chain nested inclusive path).head? = some d := by
        rw [chain_eq, haround]
        rfl
      -- the paths around this one are the innermost of them and those around that
      have hsame : ∀ n ∈ nested, (Path.contains n path && (inclusive || n != path))
          = (Path.contains n d && (true || n != d)) := by
        intro n hn
        rw [Bool.eq_iff_iff]
        simpa using around_iff hnodup hnames haround hn
      refine ⟨d, hd, hcontains, hinclusive, hhead, ?_⟩
      unfold chain
      rw [List.filter_congr hsame]

end Chain

/-! ## Columns -/

def nestedPaths (docs : List Json) : List String :=
  Text.setOf (docs.flatMap (nestedIn Path.root))

variable {docs : List Json} {c : Column}

theorem nodup_nestedPaths : (nestedPaths docs).Nodup := (Text.ascending_setOf _).nodup

/-- A column of nested documents lies in these documents themselves, and any other one in the
documents around it. -/
theorem placed_of_mem_columns (h : c ∈ columns docs) :
    (c.type = .nested ∧ c.name ∈ nestedPaths docs
        ∧ c.nestedPath = chain (nestedPaths docs) true c.name)
      ∨ (c.type ≠ .nested ∧ (∃ doc ∈ docs, ∃ s ∈ sightings Path.root doc, s.path = c.name)
        ∧ c.nestedPath = chain (nestedPaths docs) false c.name) := by
  unfold columns at h
  simp only [List.mem_mergeSort, List.mem_append, List.mem_map, List.mem_flatMap] at h
  rcases h with (⟨p, hp, rfl⟩ | ⟨p, hp, rfl⟩) | ⟨p, hp, hc⟩
  · exact Or.inl ⟨rfl, hp, rfl⟩
  · refine Or.inr ⟨by simp [column], ?_, rfl⟩
    obtain ⟨s, hs, hpath⟩ := List.mem_map.mp (Text.mem_setOf.mp (List.mem_filter.mp hp).1)
    obtain ⟨doc, hdoc, hs⟩ := List.mem_flatMap.mp (List.mem_filter.mp hs).1
    exact ⟨doc, hdoc, s, hs, hpath⟩
  · obtain ⟨s, hs, hpath⟩ := List.mem_map.mp (Text.mem_setOf.mp hp)
    obtain ⟨doc, hdoc, hs⟩ := List.mem_flatMap.mp (List.mem_filter.mp hs).1
    obtain ⟨t, ht, rfl⟩ := List.mem_map.mp hc
    have hleaf : t ≠ .nested := by
      rintro rfl
      simp at ht
    exact Or.inr ⟨hleaf, ⟨doc, hdoc, s, hs, hpath⟩, rfl⟩

theorem exists_nested {p : String} (h : p ∈ nestedPaths docs) :
    ∃ c ∈ columns docs, c.type = .nested ∧ c.name = p := by
  refine ⟨column p p .nested (chain (nestedPaths docs) true p), ?_, rfl, rfl⟩
  unfold columns
  simp only [List.mem_mergeSort, List.mem_append, List.mem_map]
  exact Or.inl (Or.inl ⟨p, h, rfl⟩)

section Named

variable (h : ∀ doc ∈ docs, doc.keysNamed = true)
include h

theorem names_of_mem_nestedPaths : ∀ p ∈ nestedPaths docs, "" ∉ Path.names p := by
  intro p hp
  obtain ⟨doc, hdoc, hp⟩ := List.mem_flatMap.mp (Text.mem_setOf.mp hp)
  exact names_of_mem_nestedIn (h doc hdoc) (Or.inl rfl) hp

theorem wellFormed_of_mem_columns (hc : c ∈ columns docs) : Path.WellFormed c.name := by
  rcases placed_of_mem_columns hc with ⟨-, hname, -⟩ | ⟨-, ⟨doc, hdoc, s, hs, hpath⟩, -⟩
  · exact Path.wellFormed_of_names (names_of_mem_nestedPaths h c.name hname)
  · rw [← hpath]
    exact wellFormed_of_mem_sightings (h doc hdoc) (Or.inl rfl) hs

theorem leadsOut_of_mem_columns (hc : c ∈ columns docs) : Path.LeadsOut c.nestedPath := by
  rcases placed_of_mem_columns hc with ⟨-, -, hpath⟩ | ⟨-, -, hpath⟩
  · rw [hpath]
    exact chain_leadsOut nodup_nestedPaths (names_of_mem_nestedPaths h)
  · rw [hpath]
    exact chain_leadsOut nodup_nestedPaths (names_of_mem_nestedPaths h)

/-- A leaf lies strictly below the nested documents that hold it, and in no others than they. -/
theorem depth_cases (hc : c ∈ columns docs) (hleaf : c.type.isLeaf = true) :
    (c.depth = Path.root ∧ c.nestedPath = [Path.root])
      ∨ c.depth ∈ nestedPaths docs ∧ Path.contains c.depth c.name = true ∧ c.name ≠ c.depth
        ∧ c.nestedPath = chain (nestedPaths docs) true c.depth := by
  rcases placed_of_mem_columns hc with ⟨htype, -⟩ | ⟨-, -, hpath⟩
  · rw [htype] at hleaf
    cases hleaf
  · rcases chain_cases nodup_nestedPaths (names_of_mem_nestedPaths h) false c.name with
      hroot | ⟨d, hd, hcontains, hne, hhead, hchain⟩
    · have hdepth : c.depth = Path.root := by
        rw [Column.depth, hpath, hroot]
        rfl
      exact Or.inl ⟨hdepth, hpath.trans hroot⟩
    · have hdepth : c.depth = d := by rw [Column.depth, hpath, hhead, Option.getD_some]
      rw [hdepth]
      exact Or.inr ⟨hd, hcontains, (hne.resolve_left (by simp)).symm, hpath.trans hchain⟩

end Named

end Inference

/-! ## The catalog -/

namespace Catalog

variable {docs : List Json} {c : Column}

/-- The catalog of some documents can be queried over each nested path. -/
theorem scopedTo_nested (table : String) {path : String} (hroot : path ≠ Path.root)
    (h : path ∈ Inference.nestedPaths docs) :
    (ofDocuments table docs).scopedTo path = .ok { ofDocuments table docs with
      queryPath := Inference.chain (Inference.nestedPaths docs) true path } := by
  unfold scopedTo
  rw [if_neg hroot]
  split
  next found hfound =>
      have hprop := List.find?_some hfound
      simp only [Bool.and_eq_true, beq_iff_eq] at hprop
      obtain ⟨htype, rfl⟩ := hprop
      rcases Inference.placed_of_mem_columns (List.mem_of_find?_eq_some hfound) with
        ⟨-, -, hpath⟩ | ⟨hother, -⟩
      · rw [hpath]
      · exact absurd htype hother
  next hnone =>
      obtain ⟨own, hown, htype, hname⟩ := Inference.exists_nested h
      have hmiss := List.find?_eq_none.mp hnone own hown
      simp [htype, hname] at hmiss

/-- A field is found under the name that it has relative to the documents of the query. -/
theorem mem_firstHit_relative {catalog : Catalog} (f : String → List Column) {field : String}
    (hcontains : Path.contains catalog.queryDepth field = true) (hw : Path.WellFormed field)
    (hne : catalog.queryDepth = Path.root ∨ field ≠ catalog.queryDepth) (hc : c ∈ f field) :
    c ∈ firstHit f (catalog.candidates (Path.relative field catalog.queryDepth)) := by
  have hjoin := Path.join_relative hcontains hw
  by_cases hdepth : catalog.queryDepth = Path.root
  · have hself : Path.relative field catalog.queryDepth = field := if_pos hdepth
    rw [hself, candidates, if_pos (by simp [hdepth]), firstHit_singleton]
    exact hc
  · have hinside : Path.relative field catalog.queryDepth ≠ Path.root := by
      intro hroot
      rw [hroot, Path.join, if_neg hdepth, if_pos rfl] at hjoin
      exact hne.resolve_left hdepth hjoin.symm
    rw [mem_firstHit_candidates f hinside, hjoin]
    exact Or.inl hc

/-- **An inferred catalog finds its own columns**, when all keys of the documents are names. Every
column knows a chain of nested documents out to the root, and a query over the documents that hold a
leaf runs over its chain, and finds it among the columns and the leaves of the name that it has
relative to these documents. -/
theorem finds_inferred (table : String) (h : ∀ doc ∈ docs, doc.keysNamed = true) :
    (∀ c ∈ (ofDocuments table docs).columns, Path.LeadsOut c.nestedPath)
      ∧ ∀ c ∈ (ofDocuments table docs).columns, c.type.isLeaf = true →
        ∃ inside, (ofDocuments table docs).scopedTo c.depth = .ok inside
          ∧ inside.queryPath = c.nestedPath
          ∧ (∀ exclude : List ColumnType, c.type ∉ exclude →
            c ∈ inside.values (Path.relative c.name c.depth) exclude)
          ∧ c ∈ inside.leaves (Path.relative c.name c.depth) := by
  refine ⟨fun c hc => Inference.leadsOut_of_mem_columns h hc, fun c hc hleaf => ?_⟩
  have hcases := Inference.depth_cases h hc hleaf
  have hscoped : (ofDocuments table docs).scopedTo c.depth
      = .ok { ofDocuments table docs with queryPath := c.nestedPath } := by
    rcases hcases with ⟨hdepth, hroot⟩ | ⟨hnested, -, -, hpath⟩
    · rw [scopedTo, if_pos hdepth, hroot]
      rfl
    · have hdepth : c.depth ≠ Path.root :=
        Path.ne_root_of_names (Inference.names_of_mem_nestedPaths h _ hnested)
      rw [scopedTo_nested table hdepth hnested, hpath]
  have hcontains : Path.contains c.depth c.name = true := by
    rcases hcases with ⟨hdepth, -⟩ | ⟨-, hcontains, -⟩
    · simp [hdepth, Path.contains]
    · exact hcontains
  have hne : c.depth = Path.root ∨ c.name ≠ c.depth := hcases.imp (·.1) (·.2.2.1)
  have hw := Inference.wellFormed_of_mem_columns h hc
  refine ⟨_, hscoped, rfl, fun exclude hexclude => ?_, ?_⟩
  · refine mem_firstHit_relative _ hcontains hw hne ?_
    rw [List.mem_filter]
    exact ⟨hc, by simp [hexclude]⟩
  · refine mem_firstHit_relative _ hcontains hw hne ?_
    rw [List.mem_filter]
    exact ⟨hc, by simp [hleaf, Path.contains]⟩

/-- Documents with nested documents inside of nested ones, and one with a number in their place. -/
def deepSamples : List Json :=
  [.obj [("a", .arr [.obj [("b", .nat 1), ("c", .arr [.obj [("d", .str "x")]])]])],
    .obj [("a", .nat 2)]]

def deepColumn : Column :=
  { name := "a.c.d", stored := "a.c.d", mapping := "keyword", type := .string,
    nestedPath := ["a.c", "a", "."] }

/-- The innermost texts are found under their own name in the documents that hold them. -/
theorem finds_inferred_deep :
    (∀ doc ∈ deepSamples, doc.keysNamed = true)
      ∧ deepColumn ∈ (ofDocuments "t" deepSamples).columns
      ∧ Path.LeadsOut deepColumn.nestedPath
      ∧ ∃ inside, (ofDocuments "t" deepSamples).scopedTo "a.c" = .ok inside
        ∧ inside.queryPath = ["a.c", "a", "."]
        ∧ deepColumn ∈ inside.values "d" ColumnType.containers
        ∧ deepColumn ∈ inside.leaves "d" := by
  have hnamed : ∀ doc ∈ deepSamples, doc.keysNamed = true := by decide
  have hmem : deepColumn ∈ (ofDocuments "t" deepSamples).columns := by
    have hcontains : (ofDocuments "t" deepSamples).columns.contains deepColumn = true := by cbv
    exact List.contains_iff_mem.mp hcontains
  obtain ⟨hchains, hfound⟩ := finds_inferred "t" hnamed
  have hrelative : Path.relative deepColumn.name deepColumn.depth = "d" := by decide
  obtain ⟨inside, hscoped, hpath, hvalues, hleaves⟩ := hfound deepColumn hmem rfl
  rw [hrelative] at hvalues hleaves
  exact ⟨hnamed, hmem, hchains deepColumn hmem, inside, hscoped, hpath,
    hvalues _ (by decide), hleaves⟩

end Catalog

end Tabula
