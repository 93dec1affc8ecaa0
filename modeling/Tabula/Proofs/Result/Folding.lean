import Tabula.Proofs.Path.Order
import Tabula.Proofs.Result.Tables

/-!
# Folded selects

A select that is a dotted child of others goes into the cell of the first of them in the written
order (`firstAncestor?`). The fold puts the children of each column into its cell, one after
another (`mem_foldedColumns`), so that the value of a child is read there under its remaining path,
and the value of the column under `.` (`reads_of_kept`).

Two kinds of values are lost. The first ancestor of a child can be a child itself, which has no
cell, and the remaining path of a child can be `.`. No value is lost when the names give rise to
neither (`Sound`), and then only: for any other names there are values of which one can not be read
(`folded_readable_iff`).
-/

set_option autoImplicit false

namespace Tabula

/-! ## Members that are put together -/

namespace Fields

variable {before after : List (String × Json)} {name : String}

/-- Of entries with distinct names each is read back, whatever came before them. -/
theorem get?_ofList_of_mem (hn : (after.map (·.1)).Nodup) {v : Json} (h : (name, v) ∈ after) :
    get? name (ofList (before ++ after)) = some v := by
  obtain ⟨s, t, rfl⟩ := List.append_of_mem h
  rw [List.map_append, List.map_cons] at hn
  have hlater : name ∉ t.map (·.1) := (List.nodup_cons.mp (List.nodup_append.mp hn).2.1).1
  rw [← List.append_assoc]
  exact get?_ofList_of_last hlater v

theorem get?_ofList_append (h : name ∉ after.map (·.1)) :
    get? name (ofList (before ++ after)) = get? name (ofList before) := by
  rw [ofList, ofList, List.foldl_append]
  generalize before.foldl (fun fields entry => insert entry.1 entry.2 fields) [] = fields
  induction after generalizing fields with
  | nil => rfl
  | cons entry after ih =>
      rw [List.map_cons, List.mem_cons, not_or] at h
      rw [List.foldl_cons, ih h.2, get?_insert, if_neg (Ne.symm h.1)]

end Fields

/-! ## Ancestors -/

/-- The first of the names that a name is a dotted child of. -/
def firstAncestor? (names : List String) (name : String) : Option String :=
  names.find? fun a => (Path.below? a name).isSome

/-- What lies below a name begins with it and a dot. -/
theorem below?_eq_some_iff {a name rest : String} :
    Path.below? a name = some rest ↔ name = a ++ "." ++ rest := by
  rw [Path.below?_eq_some, ← String.toList_inj, String.toList_append, String.toList_append,
    List.append_assoc]
  rfl

section Ancestors

variable {names : List String} {a name : String}

theorem firstAncestor?_eq_bind (names : List String) (name : String) :
    firstAncestor? names name = (parent? names name).bind fun p => names[p]? :=
  List.find?_eq_bind_findIdx?_getElem?

theorem exists_rest_of_firstAncestor? (h : firstAncestor? names name = some a) :
    a ∈ names ∧ ∃ rest, name = a ++ "." ++ rest := by
  have hsome := List.find?_some h
  obtain ⟨rest, hrest⟩ := Option.isSome_iff_exists.mp hsome
  exact ⟨List.mem_of_find?_eq_some h, rest, below?_eq_some_iff.mp hrest⟩

/-- A name has a column when it has no ancestor. -/
theorem isTop_iff_firstAncestor? : isTop names name = true ↔ firstAncestor? names name = none := by
  rw [isTop, Option.isNone_iff_eq_none, parent?, firstAncestor?, List.findIdx?_eq_none_iff,
    List.find?_eq_none]
  simp only [Bool.not_eq_true]

theorem isTop_iff : isTop names name = true ↔ ∀ a ∈ names, ∀ rest, name ≠ a ++ "." ++ rest := by
  rw [isTop_iff_firstAncestor?, firstAncestor?, List.find?_eq_none]
  refine forall₂_congr fun a _ => ?_
  rw [Option.isSome_iff_exists, not_exists]
  exact forall_congr' fun rest => not_congr below?_eq_some_iff

end Ancestors

/-! ## Columns -/

/-- A member that passes stands after those before it that pass. -/
theorem getElem?_filter_countP {α : Type} {p : α → Bool} {xs : List α} {i : ℕ} {x : α}
    (h : xs[i]? = some x) (hp : p x = true) : (xs.filter p)[(xs.take i).countP p]? = some x := by
  induction xs generalizing i with
  | nil => cases h
  | cons y xs ih =>
      cases i with
      | zero =>
          obtain rfl := Option.some.inj h
          rw [List.filter_cons_of_pos hp]
          rfl
      | succ i =>
          rw [List.getElem?_cons_succ] at h
          rw [List.take_succ_cons, List.countP_cons, List.filter_cons]
          split
          next => rw [List.getElem?_cons_succ, ih h]
          next => rw [Nat.add_zero, ih h]

/-- Under distinct keys, changing what stands at the place of a key is changing what has the key. -/
theorem modify_map_key {α β κ : Type} [DecidableEq κ] {key : α → κ} {xs : List α}
    (hn : (xs.map key).Nodup) {c : ℕ} {k : κ} (hc : (xs.map key)[c]? = some k) (g : α → β)
    (f : β → β) :
    (xs.map g).modify c f = xs.map fun x => if key x = k then f (g x) else g x := by
  refine List.ext_getElem? fun i => ?_
  rw [List.getElem?_modify, List.getElem?_map, List.getElem?_map, Option.map_eq_map, Option.map_map]
  cases hx : xs[i]? with
  | none => rfl
  | some x =>
      have hkey : (xs.map key)[i]? = some (key x) := by rw [List.getElem?_map, hx, Option.map_some]
      have hiff : c = i ↔ key x = k := by
        constructor
        · rintro rfl
          exact Option.some.inj (hkey.symm.trans hc)
        · rintro rfl
          exact (List.getElem?_inj (List.getElem?_eq_some_iff.mp hc).1 hn).mp (hc.trans hkey.symm)
      simp only [Option.map_some, Function.comp_apply, hiff]

def IsChild (names : List String) (a : String) (entry : String × Json) : Prop :=
  firstAncestor? names entry.1 = some a ∧ entry.2.isNull = false

instance (names : List String) (a : String) (entry : String × Json) :
    Decidable (IsChild names a entry) := inferInstanceAs (Decidable (_ ∧ _))

/-- An entry with what remains of its name below another one. -/
def remaining (a : String) (entry : String × Json) : String × Json :=
  ((Path.below? a entry.1).getD "", entry.2)

/-- The children that go into the cell of a name, each under its remaining path. -/
def childrenOf (names : List String) (entries : List (String × Json)) (a : String) :
    List (String × Json) :=
  (entries.filter fun entry => IsChild names a entry).map (remaining a)

/-- A cell with children in it. -/
def withChildren (cell : Json) (children : List (String × Json)) : Json :=
  children.foldl (fun cell child => withChild child.1 child.2 cell) cell

section Fold

variable {names : List String}

/-- A value goes into the cell of the first ancestor of its name, when that one has a column. -/
theorem addChild_map (hn : names.Nodup) {tops : List (String × Json)}
    (htops : tops.map (·.1) = names.filter (isTop names)) (g : String × Json → Json)
    (entry : String × Json) :
    addChild names (tops.map g) entry = tops.map fun top =>
      if IsChild names top.1 entry then
        withChild (remaining top.1 entry).1 (remaining top.1 entry).2 (g top)
      else g top := by
  have hstays (h : ∀ top ∈ tops, ¬ IsChild names top.1 entry) :
      tops.map g = tops.map fun top =>
        if IsChild names top.1 entry then
          withChild (remaining top.1 entry).1 (remaining top.1 entry).2 (g top)
        else g top :=
    List.map_congr_left fun top htop => (if_neg (h top htop)).symm
  have hancestor := firstAncestor?_eq_bind names entry.1
  unfold addChild
  split
  next hparent =>
      rw [hparent] at hancestor
      refine hstays fun top _ hchild => ?_
      rw [IsChild, hancestor] at hchild
      cases hchild.1
  next p hparent =>
      rw [hparent, Option.bind_some] at hancestor
      split
      next column hcolumn hnull =>
          obtain ⟨a, ha⟩ : ∃ a, names[p]? = some a := by
            rw [column?] at hcolumn
            split at hcolumn
            next a ha => exact ⟨a, ha⟩
            next => cases hcolumn
          rw [ha] at hancestor
          simp only [column?, ha] at hcolumn
          split at hcolumn
          next htop =>
              have hplace := getElem?_filter_countP ha htop
              rw [Option.some.inj hcolumn, ← htops] at hplace
              have hnodup : (tops.map (·.1)).Nodup := htops ▸ hn.filter _
              rw [modify_map_key hnodup hplace]
              refine List.map_congr_left fun top _ => ?_
              have hchild : IsChild names top.1 entry ↔ top.1 = a := by
                rw [IsChild, hancestor, Option.some.injEq]
                exact ⟨fun h => h.1.symm, fun h => ⟨h.symm, hnull⟩⟩
              by_cases heq : top.1 = a
              · rw [if_pos heq, if_pos (hchild.mpr heq), ha, heq]
                rfl
              · rw [if_neg heq, if_neg fun h => heq (hchild.mp h)]
          next => cases hcolumn
      next hnone =>
          -- a null, or an ancestor that has no column
          refine hstays fun top htop hchild => ?_
          rw [IsChild, hancestor] at hchild
          have hmem : top.1 ∈ names.filter (isTop names) := htops ▸ List.mem_map_of_mem htop
          refine hnone ((names.take p).countP (isTop names)) ?_ hchild.2
          simp only [column?, hchild.1, (List.mem_filter.mp hmem).2, if_true]

/-- **The cell of a column is its own value with its children.** -/
theorem foldl_addChild (hn : names.Nodup) {tops : List (String × Json)}
    (htops : tops.map (·.1) = names.filter (isTop names)) (entries : List (String × Json))
    (g : String × Json → Json) :
    entries.foldl (addChild names) (tops.map g)
      = tops.map fun top => withChildren (g top) (childrenOf names entries top.1) := by
  induction entries generalizing g with
  | nil => rfl
  | cons entry entries ih =>
      rw [List.foldl_cons, addChild_map hn htops, ih]
      refine List.map_congr_left fun top _ => ?_
      rw [childrenOf, childrenOf, List.filter_cons]
      by_cases hchild : IsChild names top.1 entry
      · rw [if_pos hchild, if_pos (decide_eq_true hchild)]
        rfl
      · rw [if_neg hchild, if_neg (by simpa using hchild)]

end Fold

def foldedColumns (names : List String) (values : List Json) : List (String × Json) :=
  (foldChildren names values).1.zip (foldChildren names values).2

/-- **A column has its own value with its children.** -/
theorem mem_foldedColumns {names : List String} (hn : names.Nodup) {values : List Json}
    (hlength : values.length = names.length) {a : String} {cell : Json} :
    (a, cell) ∈ foldedColumns names values ↔ ∃ v, (a, v) ∈ names.zip values ∧ isTop names a = true
      ∧ cell = withChildren v (childrenOf names (names.zip values) a) := by
  let tops := (names.zip values).filter fun e => isTop names e.1
  have htops : tops.map (·.1) = names.filter (isTop names) := header_foldChildren hlength
  have hcells : (foldChildren names values).2
      = tops.map fun top => withChildren top.2 (childrenOf names (names.zip values) top.1) :=
    foldl_addChild hn htops (names.zip values) (·.2)
  have hcolumns : foldedColumns names values = tops.map fun top =>
      (top.1, withChildren top.2 (childrenOf names (names.zip values) top.1)) := by
    rw [foldedColumns, hcells]
    exact List.zip_map'
  rw [hcolumns, List.mem_map]
  constructor
  · rintro ⟨⟨b, v⟩, htop, heq⟩
    obtain ⟨rfl, rfl⟩ := Prod.mk.inj heq
    obtain ⟨hmem, hb⟩ := List.mem_filter.mp htop
    exact ⟨v, hmem, hb, rfl⟩
  · rintro ⟨v, hmem, ha, rfl⟩
    exact ⟨(a, v), List.mem_filter.mpr ⟨hmem, ha⟩, rfl⟩

/-! ## Cells -/

/-- The member that the own value of a column becomes beside its children. -/
def ownMember (v : Json) : List (String × Json) := if v.isNull then [] else [(".", v)]

theorem withChild_eq {v : Json} (hv : v.isObj = false) (child : String) (w : Json) :
    withChild child w v = .obj (Fields.ofList (ownMember v ++ [(child, w)])) := by
  cases v with
  | obj fields => cases hv
  | _ => rfl

/-- A cell with children holds them as members, after its own value. -/
theorem withChildren_eq {v : Json} (hv : v.isObj = false) {children : List (String × Json)}
    (hne : children ≠ []) :
    withChildren v children = .obj (Fields.ofList (ownMember v ++ children)) := by
  have hobject (fields : Fields) (children : List (String × Json)) :
      withChildren (.obj fields) children
        = .obj (children.foldl (fun fields child => Fields.insert child.1 child.2 fields)
          fields) := by
    induction children generalizing fields with
    | nil => rfl
    | cons child children ih => exact ih (Fields.insert child.1 child.2 fields)
  cases children with
  | nil => exact absurd rfl hne
  | cons child children =>
      show withChildren (withChild child.1 child.2 v) children = _
      rw [withChild_eq hv, hobject]
      simp only [Fields.ofList, List.foldl_append, List.foldl_cons, List.foldl_nil]

section Children

variable {names : List String} {entries : List (String × Json)} {a rest : String} {w : Json}

theorem remaining_append : remaining a (a ++ "." ++ rest, w) = (rest, w) := by
  rw [remaining, below?_eq_some_iff.mpr rfl, Option.getD_some]

theorem mem_childrenOf : (rest, w) ∈ childrenOf names entries a
    ↔ (a ++ "." ++ rest, w) ∈ entries ∧ IsChild names a (a ++ "." ++ rest, w) := by
  rw [childrenOf, List.mem_map]
  constructor
  · rintro ⟨⟨name, v⟩, hmem, heq⟩
    obtain ⟨hentry, hchild⟩ := List.mem_filter.mp hmem
    have hchild : IsChild names a (name, v) := of_decide_eq_true hchild
    obtain ⟨-, rest', rfl⟩ := exists_rest_of_firstAncestor? hchild.1
    rw [remaining_append] at heq
    obtain ⟨rfl, rfl⟩ := Prod.mk.inj heq
    exact ⟨hentry, hchild⟩
  · rintro ⟨hentry, hchild⟩
    exact ⟨_, List.mem_filter.mpr ⟨hentry, decide_eq_true hchild⟩, remaining_append⟩

theorem nodup_childrenOf (hn : (entries.map (·.1)).Nodup) :
    ((childrenOf names entries a).map (·.1)).Nodup := by
  have hfilter : ((entries.filter fun entry => IsChild names a entry).map (·.1)).Nodup :=
    hn.sublist (List.filter_sublist.map _)
  rw [childrenOf, List.map_map]
  refine List.pairwise_map.mpr ((List.pairwise_map.mp hfilter).imp_of_mem ?_)
  rintro ⟨name, v⟩ ⟨name', v'⟩ hmem hmem' hne heq
  obtain ⟨-, rest, rfl⟩ :=
    exists_rest_of_firstAncestor? (of_decide_eq_true (List.mem_filter.mp hmem).2).1
  obtain ⟨-, rest', rfl⟩ :=
    exists_rest_of_firstAncestor? (of_decide_eq_true (List.mem_filter.mp hmem').2).1
  have heq : (remaining a (a ++ "." ++ rest, v)).1 = (remaining a (a ++ "." ++ rest', v')).1 := heq
  rw [remaining_append, remaining_append] at heq
  exact hne (congrArg (a ++ "." ++ ·) heq)

end Children

/-! ## Reading -/

/-- Whether a value can be read under a name: as the cell of the name, under `.` in that cell, or
under the remaining path in the cell of an ancestor. -/
inductive Reads (columns : List (String × Json)) (name : String) (v : Json) : Prop
  | own (hcolumn : (name, v) ∈ columns)
  | dot {fields : Fields} (hcolumn : (name, .obj fields) ∈ columns)
      (hvalue : Fields.get? "." fields = some v)
  | below {a rest : String} {fields : Fields} (hname : name = a ++ "." ++ rest)
      (hcolumn : (a, .obj fields) ∈ columns) (hvalue : Fields.get? rest fields = some v)

/-- Whether the value of a name keeps a place: the first ancestor has a column, or there is none and
no child takes the place of the value under `.`. -/
def Kept (names : List String) (entries : List (String × Json)) (name : String) : Prop :=
  match firstAncestor? names name with
  | some a => isTop names a = true
  | none => ∀ w, (name ++ "." ++ ".", w) ∈ entries → ¬ IsChild names name (name ++ "." ++ ".", w)

/-- Whether every first ancestor has a column and no child remains as `.` below it. -/
def Sound (names : List String) : Prop :=
  ∀ name ∈ names, ∀ a, firstAncestor? names name = some a →
    isTop names a = true ∧ name ≠ a ++ "." ++ "."

instance (names : List String) : Decidable (Sound names) :=
  inferInstanceAs (Decidable (∀ name ∈ names, ∀ a ∈ firstAncestor? names name,
    isTop names a = true ∧ name ≠ a ++ "." ++ "."))

section Reading

variable {names : List String} {values : List Json}

theorem kept_of_sound (h : Sound names) {name : String} (hname : name ∈ names) :
    Kept names (names.zip values) name := by
  unfold Kept
  split
  next a ha => exact (h name hname a ha).1
  next =>
      intro w hw hchild
      exact (h _ (List.of_mem_zip hw).1 name hchild.1).2 rfl

variable (hn : names.Nodup) (hlength : values.length = names.length)
  (hvalues : ∀ v ∈ values, v.isObj = false)
include hn hlength

theorem nodup_entries : ((names.zip values).map (·.1)).Nodup := by
  rw [List.map_fst_zip (Nat.le_of_eq hlength.symm)]
  exact hn

include hvalues

/-- **A value that keeps its place is read.** -/
theorem reads_of_kept {name : String} {v : Json} (hentry : (name, v) ∈ names.zip values)
    (hv : v.isNull = false) (h : Kept names (names.zip values) name) :
    Reads (foldedColumns names values) name v := by
  have hchildren (a : String) := @nodup_childrenOf names _ a (nodup_entries hn hlength)
  -- a name with an ancestor is read in its cell, any other has a column
  cases hancestor : firstAncestor? names name with
  | some a =>
      simp only [Kept, hancestor] at h
      obtain ⟨ha, rest, rfl⟩ := exists_rest_of_firstAncestor? hancestor
      obtain ⟨u, hu⟩ : ∃ u, (a, u) ∈ names.zip values := by
        rw [← List.map_fst_zip (Nat.le_of_eq hlength.symm)] at ha
        obtain ⟨⟨b, u⟩, hu, rfl⟩ := List.mem_map.mp ha
        exact ⟨u, hu⟩
      have hmem : (rest, v) ∈ childrenOf names (names.zip values) a :=
        mem_childrenOf.mpr ⟨hentry, hancestor, hv⟩
      have hcell := withChildren_eq (hvalues u (List.of_mem_zip hu).2) (List.ne_nil_of_mem hmem)
      refine Reads.below rfl ((mem_foldedColumns hn hlength).mpr ⟨u, hu, h, hcell.symm⟩) ?_
      exact Fields.get?_ofList_of_mem (hchildren a) hmem
  | none =>
      simp only [Kept, hancestor] at h
      have htop : isTop names name = true := isTop_iff_firstAncestor?.mpr hancestor
      by_cases hnone : childrenOf names (names.zip values) name = []
      · refine Reads.own ((mem_foldedColumns hn hlength).mpr ⟨v, hentry, htop, ?_⟩)
        rw [hnone]
        rfl
      · have hcell := withChildren_eq (hvalues v (List.of_mem_zip hentry).2) hnone
        refine Reads.dot ((mem_foldedColumns hn hlength).mpr ⟨v, hentry, htop, hcell.symm⟩) ?_
        -- no child takes the place of the own value
        have hfree : "." ∉ (childrenOf names (names.zip values) name).map (·.1) := by
          intro hmem
          obtain ⟨⟨rest, w⟩, hw, rfl⟩ := List.mem_map.mp hmem
          obtain ⟨hw, hchild⟩ := mem_childrenOf.mp hw
          exact h w hw hchild
        rw [Fields.get?_ofList_append hfree, ownMember, hv]
        rfl

end Reading

/-! ## Names that keep all values -/

theorem mem_zip_str {names : List String} {name : String} {v : Json} :
    (name, v) ∈ names.zip (names.map .str) ↔ name ∈ names ∧ v = .str name := by
  have hzip : names.zip (names.map Json.str) = names.map fun name => (name, Json.str name) := by
    have hboth := @List.zip_map' _ _ _ id Json.str names
    rwa [List.map_id] at hboth
  rw [hzip, List.mem_map]
  constructor
  · rintro ⟨name', hname, heq⟩
    obtain ⟨rfl, rfl⟩ := Prod.mk.inj heq
    exact ⟨hname, rfl⟩
  · rintro ⟨hname, rfl⟩
    exact ⟨name, hname, rfl⟩

section Texts

variable {names : List String} (hn : names.Nodup)
include hn

/-- Under its name each text has a column of its own, or one with the children and the text as
members. -/
theorem mem_columns_str {a : String} {cell : Json}
    (h : (a, cell) ∈ foldedColumns names (names.map .str)) : isTop names a = true
      ∧ (childrenOf names (names.zip (names.map .str)) a = [] ∧ cell = .str a
        ∨ cell = .obj (Fields.ofList ([(".", .str a)]
          ++ childrenOf names (names.zip (names.map .str)) a))) := by
  obtain ⟨v, hv, ha, rfl⟩ := (mem_foldedColumns hn (List.length_map _)).mp h
  obtain ⟨-, rfl⟩ := mem_zip_str.mp hv
  refine ⟨ha, ?_⟩
  by_cases hnone : childrenOf names (names.zip (names.map .str)) a = []
  · exact Or.inl ⟨hnone, by rw [hnone]; rfl⟩
  · exact Or.inr (withChildren_eq rfl hnone)

theorem nodup_childrenOf_str (a : String) :
    ((childrenOf names (names.zip (names.map .str)) a).map (·.1)).Nodup := by
  refine nodup_childrenOf ?_
  rw [List.map_fst_zip (Nat.le_of_eq (List.length_map _).symm)]
  exact hn

/-- A name with an ancestor is read in the column of the first one. -/
theorem isTop_of_reads {name a : String} (ha : firstAncestor? names name = some a)
    (h : Reads (foldedColumns names (names.map .str)) name (.str name)) : isTop names a = true := by
  have hnot : ¬ isTop names name = true := by
    rw [isTop_iff_firstAncestor?, ha]
    exact Option.some_ne_none a
  cases h with
  | own hcolumn => exact absurd (mem_columns_str hn hcolumn).1 hnot
  | dot hcolumn => exact absurd (mem_columns_str hn hcolumn).1 hnot
  | @below b rest fields hname hcolumn hvalue =>
      subst hname
      obtain ⟨hb, ⟨-, hcell⟩ | hcell⟩ := mem_columns_str hn hcolumn
      · cases hcell
      · obtain rfl := Json.obj.inj hcell
        by_cases hmem : rest ∈ (childrenOf names (names.zip (names.map .str)) b).map (·.1)
        · -- only the name itself remains so below the ancestor
          obtain ⟨⟨rest, w⟩, hw, rfl⟩ := List.mem_map.mp hmem
          have hchild := (mem_childrenOf.mp hw).2.1
          rw [ha] at hchild
          rwa [Option.some.inj hchild]
        · -- what stands under the dot is the text of the ancestor
          rw [Fields.get?_ofList_append hmem] at hvalue
          have hsame : (if "." = rest then some (Json.str b) else none)
              = some (.str (b ++ "." ++ rest)) := hvalue
          split at hsame
          next =>
              rw [← Json.str.inj (Option.some.inj hsame)] at hnot
              exact absurd hb hnot
          next => cases hsame

/-- When each name is read as a text, the names are sound. -/
theorem sound_of_reads
    (h : ∀ name ∈ names, Reads (foldedColumns names (names.map .str)) name (.str name)) :
    Sound names := by
  intro name hname a ha
  have htop := isTop_of_reads hn ha (h name hname)
  refine ⟨htop, ?_⟩
  rintro rfl
  have hmem := (exists_rest_of_firstAncestor? ha).1
  -- the child takes the place of the text of its ancestor
  have hchild : (".", Json.str (a ++ "." ++ "."))
      ∈ childrenOf names (names.zip (names.map .str)) a :=
    mem_childrenOf.mpr ⟨mem_zip_str.mpr ⟨hname, rfl⟩, ha, rfl⟩
  have hlost {cell : Json} (hcolumn : (a, cell) ∈ foldedColumns names (names.map .str)) :
      ∃ fields, cell = .obj fields ∧ Fields.get? "." fields = some (.str (a ++ "." ++ ".")) := by
    obtain ⟨-, ⟨hnone, -⟩ | hcell⟩ := mem_columns_str hn hcolumn
    · rw [hnone] at hchild
      cases hchild
    · exact ⟨_, hcell, Fields.get?_ofList_of_mem (nodup_childrenOf_str hn a) hchild⟩
  cases h a hmem with
  | own hcolumn =>
      obtain ⟨fields, hcell, -⟩ := hlost hcolumn
      cases hcell
  | dot hcolumn hvalue =>
      obtain ⟨fields, hcell, hother⟩ := hlost hcolumn
      rw [← Json.obj.inj hcell, hvalue] at hother
      exact isTop_iff.mp htop a hmem "." (Json.str.inj (Option.some.inj hother))
  | @below b rest fields hname hcolumn hvalue =>
      obtain ⟨v, hv, -⟩ := (mem_foldedColumns hn (List.length_map _)).mp hcolumn
      exact isTop_iff.mp htop b (List.of_mem_zip hv).1 rest hname

end Texts

/-- The columns of folded selects with some values: one for each name without an ancestor, in order,
and one cell for each, in which the values that keep their places are read. -/
structure FoldsTo (names : List String) (values : List Json) : Prop where
  header : (foldChildren names values).1 = names.filter (isTop names)
  cells : (foldChildren names values).2.length = (foldChildren names values).1.length
  reads : ∀ name v, (name, v) ∈ names.zip values → v.isNull = false →
    Kept names (names.zip values) name → Reads (foldedColumns names values) name v

/-- **Folding keeps all values of sound names, and only of them.** The header is made of the names
without an ancestor, whatever the names are, and the values that keep their places are read. -/
theorem folded_readable_iff {names : List String} (hn : names.Nodup) :
    (∀ name, isTop names name = true ↔ ∀ a ∈ names, ∀ rest, name ≠ a ++ "." ++ rest)
      ∧ (∀ values, values.length = names.length → (∀ v ∈ values, v.isObj = false) →
        FoldsTo names values)
      ∧ ((∀ values, values.length = names.length → (∀ v ∈ values, v.isObj = false) →
          ∀ name v, (name, v) ∈ names.zip values → v.isNull = false →
            Reads (foldedColumns names values) name v) ↔ Sound names) := by
  refine ⟨fun name => isTop_iff, fun values hlength hvalues => ?_, ?_, ?_⟩
  · exact ⟨header_foldChildren hlength, length_foldChildren names values,
      fun name v hentry hv hkept => reads_of_kept hn hlength hvalues hentry hv hkept⟩
  · intro h
    have hvalues : ∀ v ∈ names.map Json.str, v.isObj = false := by
      intro v hv
      obtain ⟨name, -, rfl⟩ := List.mem_map.mp hv
      rfl
    refine sound_of_reads hn fun name hname => ?_
    exact h _ (List.length_map _) hvalues name _ (mem_zip_str.mpr ⟨hname, rfl⟩) rfl
  · intro h values hlength hvalues name v hentry hv
    exact reads_of_kept hn hlength hvalues hentry hv (kept_of_sound h (List.of_mem_zip hentry).1)

/-! ## Names in different orders -/

/-- A name, its child and the child of that, the shortest first, and another name. -/
def descending : List String := ["a", "a.b", "a.b.c", "d"]

theorem folded_readable_iff_descending : descending.Nodup ∧ Sound descending
    ∧ ∀ name v, (name, v) ∈ descending.zip [.nat 1, .nat 2, .nat 3, .null] → v.isNull = false →
      Reads (foldedColumns descending [.nat 1, .nat 2, .nat 3, .null]) name v := by
  have hnodup : descending.Nodup := by decide
  have hsound : Sound descending := by decide
  have hvalues : ∀ v ∈ [Json.nat 1, .nat 2, .nat 3, .null], v.isObj = false := by
    simp [Json.nat, Json.isObj]
  exact ⟨hnodup, hsound, (folded_readable_iff hnodup).2.2.mpr hsound _ rfl hvalues⟩

/-- The child first: the last name goes below the child, which has no column. -/
def childFirst : List String := ["a.b", "a", "a.b.c"]

theorem folded_not_readable : childFirst.Nodup
    ∧ (∀ v ∈ [Json.nat 1, .nat 2, .nat 3], v.isObj = false)
    ∧ foldChildren childFirst [.nat 1, .nat 2, .nat 3]
      = (["a"], [.obj [(".", .nat 2), ("b", .nat 1)]])
    ∧ ("a.b.c", Json.nat 3) ∈ childFirst.zip [.nat 1, .nat 2, .nat 3]
    ∧ ¬ Reads (foldedColumns childFirst [.nat 1, .nat 2, .nat 3]) "a.b.c" (.nat 3) := by
  have hfold : foldChildren childFirst [.nat 1, .nat 2, .nat 3]
      = (["a"], [.obj [(".", .nat 2), ("b", .nat 1)]]) := rfl
  refine ⟨by decide, by simp [Json.nat, Json.isObj], hfold, by simp [childFirst], ?_⟩
  rw [foldedColumns, hfold]
  intro h
  cases h with
  | own hcolumn => simp at hcolumn
  | dot hcolumn => simp at hcolumn
  | @below a rest fields hname hcolumn hvalue =>
      simp only [List.zip_cons_cons, List.zip_nil_left, List.mem_singleton, Prod.mk.injEq,
        Json.obj.injEq] at hcolumn
      obtain ⟨rfl, rfl⟩ := hcolumn
      have hrest : Path.below? "a" "a.b.c" = some rest := below?_eq_some_iff.mpr hname
      obtain rfl : "b.c" = rest := Option.some.inj hrest
      cases hvalue

end Tabula
