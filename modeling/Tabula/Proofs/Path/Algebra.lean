import Mathlib.Order.Defs.Unbundled
import Tabula.Proofs.Path.Nesting
import Tabula.Proofs.Path.Relative

/-!
# Paths as lists of names

A well-formed path is written from a list of names, and from one only (`ofNames`,
`wellFormed_iff`, `ofNames_injective`). What is done to paths as texts is then done to lists: a path
contains those that begin with its names, paths are joined by appending, seen from another path the
names of that one are dropped, and the depth is the length (`paths_segmentwise`). So containing is
a partial order, and joining and looking from inside undo each other.
-/

set_option autoImplicit false

namespace Tabula.Path

/-! ## Texts between dots -/

theorem dot_notMem_splitDots {cs part : List Char} (h : part ∈ splitDots cs) : '.' ∉ part := by
  induction cs generalizing part with
  | nil =>
      obtain rfl : part = [] := by simpa [splitDots] using h
      exact List.not_mem_nil
  | cons c cs ih =>
      obtain ⟨head, tail, hparts⟩ : ∃ head tail, splitDots cs = head :: tail :=
        List.exists_cons_of_ne_nil (splitDots_eq cs ▸ List.splitOn_ne_nil _ _)
      rw [hparts] at ih
      replace h : part ∈ if c = '.' then [] :: head :: tail else (c :: head) :: tail := by
        rwa [splitDots, hparts] at h
      by_cases hc : c = '.'
      · rw [if_pos hc] at h
        rcases List.mem_cons.mp h with rfl | hmem
        · exact List.not_mem_nil
        · exact ih hmem
      · rw [if_neg hc] at h
        -- the character belongs to the first part
        rcases List.mem_cons.mp h with rfl | hmem
        · rw [List.mem_cons, not_or]
          exact ⟨Ne.symm hc, ih List.mem_cons_self⟩
        · exact ih (List.mem_cons_of_mem _ hmem)

/-- There is one part more than there are dots. -/
theorem length_splitDots (cs : List Char) : (splitDots cs).length = cs.count '.' + 1 := by
  rw [splitDots_eq]
  induction cs with
  | nil => rfl
  | cons c cs ih =>
      rw [List.splitOn_cons_eq_if_modifyHead, List.count_cons]
      split
      next => rw [List.length_cons, ih]
      next => rw [List.length_modifyHead, ih, Nat.add_zero]

theorem splitFirst?_append {head : List Char} (h : '.' ∉ head) (tail : List Char) :
    splitFirst? (head ++ '.' :: tail) = some (head, tail) := by
  induction head with
  | nil => rfl
  | cons c head ih =>
      obtain ⟨hc, hhead⟩ := not_or.mp (mt List.mem_cons.mpr h)
      rw [List.cons_append, splitFirst?, ih hhead]
      · rfl
      · exact Ne.symm hc

theorem names_injective : Function.Injective names := by
  intro p q h
  rw [names_eq, names_eq] at h
  have hparts := List.map_injective_iff.mpr (fun _ _ => String.ofList_injective) h
  have hchars := congrArg ['.'].intercalate hparts
  rw [List.intercalate_splitOn, List.intercalate_splitOn] at hchars
  exact String.toList_inj.mp hchars

/-- What stands between the dots of a path is a name when it is not empty. -/
theorem isName_of_mem_names {p key : String} (h : key ∈ names p) (hne : key ≠ "") :
    isName key = true := by
  obtain ⟨part, hpart, rfl⟩ := List.mem_map.mp h
  refine isName_iff.mpr ⟨hne, ?_⟩
  rw [String.toList_ofList]
  exact dot_notMem_splitDots hpart

/-! ## Writing names -/

/-- A name of a path, with something in it and without a dot. -/
abbrev Name := { key : String // isName key = true }

/-- The path of some names, which are joined by dots. The path of no names is the root. -/
def ofNames : List Name → String
  | [] => root
  | name :: rest => ".".intercalate ((name :: rest).map (·.val))

theorem Name.ne_empty (name : Name) : name.val ≠ "" := (isName_iff.mp name.property).1

theorem Name.dot_notMem (name : Name) : '.' ∉ name.val.toList := (isName_iff.mp name.property).2

variable {outer path : List Name}

theorem ofNames_of_ne_nil (h : path ≠ []) : ofNames path = ".".intercalate (path.map (·.val)) := by
  cases path with
  | nil => exact absurd rfl h
  | cons name rest => rfl

theorem names_ofNames (h : path ≠ []) : names (ofNames path) = path.map (·.val) := by
  have hdots : ∀ chars ∈ path.map (·.val.toList), '.' ∉ chars := by
    intro chars hmem
    obtain ⟨name, -, rfl⟩ := List.mem_map.mp hmem
    exact name.dot_notMem
  have hchars : (ofNames path).toList = ['.'].intercalate (path.map (·.val.toList)) := by
    rw [ofNames_of_ne_nil h, String.toList_intercalate, List.map_map]
    rfl
  rw [names_eq, hchars, List.splitOn_intercalate '.' hdots (mt List.map_eq_nil_iff.mp h),
    List.map_map]
  exact List.map_congr_left fun name _ => String.ofList_toList

theorem empty_notMem_names (h : path ≠ []) : "" ∉ names (ofNames path) := by
  rw [names_ofNames h]
  intro hempty
  obtain ⟨name, -, hname⟩ := List.mem_map.mp hempty
  exact name.ne_empty hname

theorem ofNames_ne_root (h : path ≠ []) : ofNames path ≠ root :=
  ne_root_of_names (empty_notMem_names h)

theorem places_ofNames (path : List Name) : places (ofNames path) = path.map (·.val) := by
  by_cases h : path = []
  · rw [h, places, if_pos (by rfl), List.map_nil]
  · rw [places, if_neg (ofNames_ne_root h), names_ofNames h]

/-- **A path is written from one list of names only.** -/
theorem ofNames_injective : Function.Injective ofNames := by
  intro ns ms h
  have hplaces := congrArg places h
  rw [places_ofNames, places_ofNames] at hplaces
  exact List.map_injective_iff.mpr Subtype.val_injective hplaces

/-- **The well-formed paths are those that are written from names.** -/
theorem wellFormed_iff {p : String} : WellFormed p ↔ ∃ path : List Name, ofNames path = p := by
  constructor
  · intro h
    by_cases hroot : p = root
    · exact ⟨[], hroot.symm⟩
    · have hnames : ∀ key ∈ names p, isName key = true :=
        fun key hkey => isName_of_mem_names hkey (h.resolve_left hroot key hkey)
      have hval := List.attachWith_map_subtype_val hnames
      refine ⟨(names p).attachWith _ hnames, names_injective ?_⟩
      rw [names_ofNames, hval]
      intro hnil
      rw [hnil, List.map_nil] at hval
      exact names_ne_nil p hval.symm
  · rintro ⟨path, rfl⟩
    by_cases h : path = []
    · exact Or.inl (congrArg ofNames h)
    · exact wellFormed_of_names (empty_notMem_names h)

theorem wellFormed_ofNames (path : List Name) : WellFormed (ofNames path) :=
  wellFormed_iff.mpr ⟨path, rfl⟩

/-! ## What is done to paths -/

/-- **Containing is beginning with the names.** -/
theorem contains_ofNames : contains (ofNames outer) (ofNames path) = true ↔ outer <+: path := by
  rw [contains_iff_places (wellFormed_ofNames outer), places_ofNames, places_ofNames,
    List.prefix_map_iff_of_injective Subtype.val_injective]

/-- **Joining is appending.** -/
theorem join_ofNames (outer inner : List Name) :
    join (ofNames outer) (ofNames inner) = ofNames (outer ++ inner) := by
  by_cases ho : outer = []
  · rw [ho, List.nil_append]
    exact if_pos rfl
  · by_cases hi : inner = []
    · rw [hi, List.append_nil, join, if_neg (ofNames_ne_root ho)]
      exact if_pos rfl
    · have happend : outer ++ inner ≠ [] := by simp [ho]
      rw [join, if_neg (ofNames_ne_root ho), if_neg (ofNames_ne_root hi), ofNames_of_ne_nil ho,
        ofNames_of_ne_nil hi, ofNames_of_ne_nil happend, List.map_append,
        String.intercalate_append_of_ne_nil (mt List.map_eq_nil_iff.mp ho)
          (mt List.map_eq_nil_iff.mp hi)]

/-- Seen from the outer part, a joined path is the inner part. -/
theorem relative_append (outer inner : List Name) :
    relative (ofNames (outer ++ inner)) (ofNames outer) = ofNames inner := by
  by_cases ho : outer = []
  · rw [ho, List.nil_append]
    exact if_pos rfl
  · by_cases hi : inner = []
    · rw [hi, List.append_nil, relative, if_neg (ofNames_ne_root ho), if_pos rfl]
      rfl
    · refine relative_of_append (ofNames_ne_root ho) ?_
      rw [← join_ofNames, toList_join (ofNames_ne_root ho) (ofNames_ne_root hi)]

/-- **Looking from inside drops the names** of the path that is looked from, when the other one
begins with them. -/
theorem relative_ofNames (outer path : List Name) :
    relative (ofNames path) (ofNames outer)
      = ofNames (if outer <+: path then path.drop outer.length else path) := by
  split
  next h =>
      obtain ⟨rest, rfl⟩ := h
      rw [relative_append, List.drop_left]
  next h =>
      have ho : outer ≠ [] := by
        rintro rfl
        exact h List.nil_prefix
      rw [relative_eq_self_iff (ofNames_ne_root ho), Bool.eq_false_iff]
      exact mt contains_ofNames.mp h

/-- **The depth is the number of names.** -/
theorem depth_ofNames (path : List Name) : depth (ofNames path) = path.length := by
  by_cases h : path = []
  · rw [h]
    exact if_pos rfl
  · have hlength := congrArg List.length (names_ofNames h)
    rw [names, List.length_map, length_splitDots, List.length_map] at hlength
    rw [depth, if_neg (ofNames_ne_root h), hlength]

theorem ofNames_singleton (name : Name) : ofNames [name] = name.val := by
  rw [ofNames, List.map_singleton, String.intercalate_singleton]

/-- **Splitting takes the first name off**, and leaves the path of the others. -/
theorem splitHead_ofNames (name : Name) (rest : List Name) :
    splitHead (ofNames (name :: rest)) = (name.val, ofNames rest) := by
  by_cases hrest : rest = []
  · rw [hrest, ofNames_singleton, splitHead, split?, splitFirst?_of_notMem name.dot_notMem]
    rfl
  · have hchars : (ofNames (name :: rest)).toList
        = name.val.toList ++ '.' :: (ofNames rest).toList := by
      rw [← List.singleton_append, ← join_ofNames,
        toList_join (ofNames_ne_root (List.cons_ne_nil _ _)) (ofNames_ne_root hrest),
        ofNames_singleton]
    rw [splitHead, split?, hchars, splitFirst?_append name.dot_notMem, Option.map_some,
      Option.getD_some]
    exact Prod.ext String.ofList_toList String.ofList_toList

/-- **A path is found again from where it was seen** exactly when it lies inside: a path outside
stays as it is, and joined it is longer. -/
theorem join_relative_iff (outer path : List Name) :
    join (ofNames outer) (relative (ofNames path) (ofNames outer)) = ofNames path
      ↔ contains (ofNames outer) (ofNames path) = true := by
  rw [contains_ofNames, relative_ofNames, join_ofNames, ofNames_injective.eq_iff]
  split
  next h =>
      obtain ⟨rest, rfl⟩ := h
      simp
  next h =>
      simp only [h, iff_false]
      intro heq
      exact h ⟨path, heq⟩

/-- Containing is a partial order on the paths that are written from names. -/
theorem isPartialOrder_contains :
    IsPartialOrder { p : String // WellFormed p } fun p q => contains p.val q.val = true where
  refl p := by simp [contains]
  trans p q r hpq hqr := by
    obtain ⟨outer, hp⟩ := wellFormed_iff.mp p.property
    obtain ⟨inner, hq⟩ := wellFormed_iff.mp q.property
    obtain ⟨path, hr⟩ := wellFormed_iff.mp r.property
    rw [← hp, ← hq, contains_ofNames] at hpq
    rw [← hq, ← hr, contains_ofNames] at hqr
    rw [← hp, ← hr, contains_ofNames]
    exact hpq.trans hqr
  antisymm p q hpq hqp := by
    obtain ⟨outer, hp⟩ := wellFormed_iff.mp p.property
    obtain ⟨path, hq⟩ := wellFormed_iff.mp q.property
    rw [← hp, ← hq, contains_ofNames] at hpq hqp
    apply Subtype.ext
    rw [← hp, ← hq, hpq.eq_of_length (hpq.length_le.antisymm hqp.length_le)]

/-- **Paths are handled name by name**: they are contained in each other, joined, looked at from
inside, measured and split as the lists of their names are. -/
theorem paths_segmentwise (outer inner path : List Name) (table : Name) :
    (contains (ofNames outer) (ofNames path) = true ↔ outer <+: path)
      ∧ (IsPartialOrder { p : String // WellFormed p } fun p q => contains p.val q.val = true)
      ∧ join (ofNames outer) (ofNames inner) = ofNames (outer ++ inner)
      ∧ relative (ofNames path) (ofNames outer)
          = ofNames (if outer <+: path then path.drop outer.length else path)
      ∧ depth (ofNames path) = path.length
      ∧ depth (join (ofNames outer) (ofNames inner))
          = depth (ofNames outer) + depth (ofNames inner)
      ∧ relative (join (ofNames outer) (ofNames inner)) (ofNames outer) = ofNames inner
      ∧ (join (ofNames outer) (relative (ofNames path) (ofNames outer)) = ofNames path
          ↔ contains (ofNames outer) (ofNames path) = true)
      ∧ splitHead (join (ofNames [table]) (ofNames inner)) = (ofNames [table], ofNames inner) := by
  have hdepth : depth (join (ofNames outer) (ofNames inner))
      = depth (ofNames outer) + depth (ofNames inner) :=
    calc depth (join (ofNames outer) (ofNames inner))
        = (outer ++ inner).length := by rw [join_ofNames, depth_ofNames]
      _ = outer.length + inner.length := List.length_append
      _ = depth (ofNames outer) + depth (ofNames inner) := by rw [depth_ofNames, depth_ofNames]
  have hinner : relative (join (ofNames outer) (ofNames inner)) (ofNames outer)
      = ofNames inner := by
    rw [join_ofNames, relative_append]
  have hsplit : splitHead (join (ofNames [table]) (ofNames inner))
      = (ofNames [table], ofNames inner) := by
    rw [join_ofNames, List.singleton_append, splitHead_ofNames, ofNames_singleton]
  exact ⟨contains_ofNames, isPartialOrder_contains, join_ofNames outer inner,
    relative_ofNames outer path, depth_ofNames path, hdepth, hinner, join_relative_iff outer path,
    hsplit⟩

/-- A name that begins with another one is no path inside of it. -/
example : contains "a" "ab" = false ∧ contains "a" "a.b" = true ∧ relative "ab" "a" = "ab" := by
  decide

end Tabula.Path
