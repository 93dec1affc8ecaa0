import Tabula.Grouping.Condition
import Tabula.Proofs.Expr.Conjuncts

/-!
# Splitting a condition

A conjunct belongs to the nested path that its leaves live at, and to that of the query when it
has no leaves (`BelongsTo`). When the leaves of one live at several paths (`Crosses`), the whole
condition can not be split. Otherwise the conjuncts are collected by path, and nothing is lost:
each of them is in one group, that of its path, and in its old order (`split_outcome`). The leaves
are those of the fields that a conjunct mentions, and the conjuncts are what the folded condition is
taken apart into, neither of them told by the functions that collect them.
-/

set_option autoImplicit false

namespace Tabula.Grouping

/-! ## Paths of a conjunct -/

/-- Whether a leaf of some field that a condition mentions lives at a nested path. -/
def LivesAt (catalog : Catalog) (c : Expr) (path : String) : Prop :=
  ∃ name, c.Mentions name ∧ ∃ column ∈ catalog.leaves name, column.depth = path

/-- Whether the leaves of a condition live at several nested paths. -/
def Crosses (catalog : Catalog) (c : Expr) : Prop :=
  ∃ path other, path ≠ other ∧ LivesAt catalog c path ∧ LivesAt catalog c other

/-- Whether a path is where all leaves of a condition live, or that of the query when it has
none. -/
def BelongsTo (catalog : Catalog) (c : Expr) (path : String) : Prop :=
  (∀ other, LivesAt catalog c other ↔ other = path)
    ∨ (∀ other, ¬ LivesAt catalog c other) ∧ path = catalog.queryDepth

/-- Whether these are all nested paths where leaves of a condition live, in ascending order. -/
def Paths (catalog : Catalog) (c : Expr) (paths : List String) : Prop :=
  Text.Ascending paths ∧ ∀ path, path ∈ paths ↔ LivesAt catalog c path

section Paths

variable {catalog : Catalog} {c : Expr}

theorem paths_depthsOf : Paths catalog c (catalog.depthsOf c.vars) := by
  refine ⟨Text.ascending_setOf _, fun path => ?_⟩
  rw [Catalog.depthsOf, Text.mem_setOf, LivesAt]
  simp only [List.mem_map, List.mem_flatMap]
  constructor
  · rintro ⟨column, ⟨name, hname, hcolumn⟩, hpath⟩
    exact ⟨name, Expr.mem_vars_iff.mp hname, column, hcolumn, hpath⟩
  · rintro ⟨name, hname, column, hcolumn, hpath⟩
    exact ⟨column, ⟨name, Expr.mem_vars_iff.mpr hname, hcolumn⟩, hpath⟩

theorem BelongsTo.not_crosses {path : String} (h : BelongsTo catalog c path) :
    ¬ Crosses catalog c := by
  rintro ⟨p, q, hne, hp, hq⟩
  rcases h with hall | ⟨hnone, -⟩
  · exact hne (((hall p).mp hp).trans ((hall q).mp hq).symm)
  · exact hnone p hp

/-- Whether a computation fails because a condition crosses paths, and tells all of them. -/
def CrossesIn (catalog : Catalog) (c : Expr) {α : Type} (result : QueryResult α) : Prop :=
  Crosses catalog c
    ∧ ∃ paths, Paths catalog c paths ∧ result = .error (.crossPath c.text paths)

/-- **The path of a conjunct** is found, or the conjunct crosses paths. -/
theorem conjunctDepth_outcome (catalog : Catalog) (c : Expr) :
    (∃ path, conjunctDepth catalog c = .ok path ∧ BelongsTo catalog c path)
      ∨ CrossesIn catalog c (conjunctDepth catalog c) := by
  have hpaths : Paths catalog c (catalog.depthsOf c.vars) := paths_depthsOf
  unfold conjunctDepth
  generalize catalog.depthsOf c.vars = paths at hpaths
  have hmem := hpaths.2
  match paths with
  | [] =>
      have hnone (path : String) : ¬ LivesAt catalog c path := by
        rw [← hmem]
        exact List.not_mem_nil
      exact Or.inl ⟨_, rfl, Or.inr ⟨hnone, rfl⟩⟩
  | [path] =>
      exact Or.inl ⟨path, rfl, Or.inl fun other => (hmem other).symm.trans List.mem_singleton⟩
  | path :: other :: rest =>
      have hne : path ≠ other := by
        have hnodup := hpaths.1.nodup
        simp only [List.nodup_cons, List.mem_cons, not_or] at hnodup
        exact hnodup.1.1
      refine Or.inr ⟨⟨path, other, hne, (hmem path).mp ?_, (hmem other).mp ?_⟩, _, hpaths, rfl⟩
      · exact List.mem_cons_self
      · exact List.mem_cons_of_mem _ List.mem_cons_self

end Paths

/-! ## Collecting -/

variable {catalog : Catalog}

/-- Whether the first of some conjuncts that crosses paths is why a computation fails. -/
def Fails (catalog : Catalog) (conjuncts : List Expr) {α : Type} (result : QueryResult α) : Prop :=
  ∃ before c after, conjuncts = before ++ c :: after ∧ (∀ b ∈ before, ¬ Crosses catalog b)
    ∧ CrossesIn catalog c result

theorem Fails.ne_ok {conjuncts : List Expr} {α : Type} {result : QueryResult α}
    (h : Fails catalog conjuncts result) (a : α) : result ≠ .ok a := by
  obtain ⟨_, _, _, -, -, -, _, -, herror⟩ := h
  simp [herror]

def collect (catalog : Catalog) (groups : Text.Groups Expr) (c : Expr) :
    QueryResult (Text.Groups Expr) := do
  .ok (Text.addToGroup (← conjunctDepth catalog c) c groups)

theorem split_eq (catalog : Catalog) (e : Expr) :
    split catalog e = (e.fold.conjuncts.foldlM (collect catalog) []
      >>= fun groups => .ok (groups.map fun g => (g.1, conjunction g.2))) := rfl

/-- A conjunct is added to those of the path it belongs to, or crosses paths. -/
theorem collects_collect {done : List Expr} {groups : Text.Groups Expr}
    (h : Text.Collects (BelongsTo catalog) done groups) (c : Expr) :
    (∃ out, collect catalog groups c = .ok out ∧ ¬ Crosses catalog c
        ∧ Text.Collects (BelongsTo catalog) (done ++ [c]) out)
      ∨ CrossesIn catalog c (collect catalog groups c) := by
  unfold collect
  rcases conjunctDepth_outcome catalog c with
    ⟨path, hpath, hbelongs⟩ | ⟨hcrosses, paths, hpaths, herror⟩
  · rw [hpath]
    exact Or.inl ⟨_, rfl, hbelongs.not_crosses, h.add hbelongs⟩
  · rw [herror]
    exact Or.inr ⟨hcrosses, paths, hpaths, rfl⟩

/-- Conjuncts are collected one after another, up to the first that crosses paths. -/
theorem collects_foldlM {done : List Expr} {groups : Text.Groups Expr}
    (h : Text.Collects (BelongsTo catalog) done groups) (conjuncts : List Expr) :
    (∃ out, conjuncts.foldlM (collect catalog) groups = .ok out
        ∧ Text.Collects (BelongsTo catalog) (done ++ conjuncts) out)
      ∨ Fails catalog conjuncts (conjuncts.foldlM (collect catalog) groups) := by
  -- on the conjuncts still to come: the groups collect those that are done
  induction conjuncts generalizing done groups with
  | nil => exact Or.inl ⟨groups, rfl, (List.append_nil done).symm ▸ h⟩
  | cons c rest ih =>
      rw [List.foldlM_cons]
      rcases collects_collect h c with
        ⟨next, hnext, hc, hcollects⟩ | ⟨hcrosses, paths, hpaths, herror⟩
      · rw [hnext]
        rcases ih hcollects with ⟨out, hout, hall⟩ | ⟨before, b, after, rfl, hbefore, hb⟩
        · exact Or.inl ⟨out, hout, by simpa using hall⟩
        · exact Or.inr ⟨c :: before, b, after, rfl, List.forall_mem_cons.mpr ⟨hc, hbefore⟩, hb⟩
      · rw [herror]
        exact Or.inr ⟨[], c, rest, rfl, by simp, hcrosses, paths, hpaths, rfl⟩

/-! ## Splitting -/

/-- Whether a condition is made of some conjuncts: of the only one, or of several together. -/
inductive Joined : List Expr → Expr → Prop
  | only (c : Expr) : Joined [c] c
  | several {cs : List Expr} : 2 ≤ cs.length → Joined cs (.and cs)

theorem joined_conjunction {cs : List Expr} (h : cs ≠ []) : Joined cs (conjunction cs) := by
  match cs with
  | [c] => exact .only c
  | c :: d :: rest =>
      have hlength : 2 ≤ (c :: d :: rest).length := by simp
      exact .several hlength

/-- Whether conditions by path are made of some conjuncts: these are collected in pieces, each of
them in the one of the path it belongs to and in its order, and each piece makes the condition of
its path. -/
structure Splits (catalog : Catalog) (conjuncts : List Expr) (pieces : Text.Groups Expr)
    (groups : List (String × Expr)) : Prop
    extends Text.Collects (BelongsTo catalog) conjuncts pieces where
  joined : List.Forall₂ (fun piece group => group.1 = piece.1 ∧ Joined piece.2 group.2)
    pieces groups

theorem splits_of_collects {conjuncts : List Expr} {pieces : Text.Groups Expr}
    (h : Text.Collects (BelongsTo catalog) conjuncts pieces) :
    Splits catalog conjuncts pieces (pieces.map fun g => (g.1, conjunction g.2)) := by
  refine ⟨h, ?_⟩
  rw [List.forall₂_map_right_iff, List.forall₂_same]
  intro piece hpiece
  exact ⟨rfl, joined_conjunction (h.ne_nil piece hpiece)⟩

namespace Splits

variable {conjuncts : List Expr} {pieces : Text.Groups Expr} {groups : List (String × Expr)}

theorem paths_eq (h : Splits catalog conjuncts pieces groups) :
    groups.map (·.1) = pieces.map (·.1) := by
  have hjoined := h.joined
  clear h
  induction hjoined with
  | nil => rfl
  | cons hhead _ ih => rw [List.map_cons, List.map_cons, hhead.1, ih]

theorem not_crosses (h : Splits catalog conjuncts pieces groups) :
    ∀ c ∈ conjuncts, ¬ Crosses catalog c := by
  intro c hc
  obtain ⟨piece, hpiece, hc⟩ := List.mem_flatMap.mp (h.perm.mem_iff.mpr hc)
  exact (h.related piece hpiece c hc).not_crosses

end Splits

/-- A condition is split, or one of its conjuncts crosses paths. -/
theorem split_cases (catalog : Catalog) (e : Expr) :
    Fails catalog e.fold.conjuncts (split catalog e)
      ∨ ∃ pieces groups, split catalog e = .ok groups
          ∧ Splits catalog e.fold.conjuncts pieces groups := by
  rw [split_eq]
  rcases collects_foldlM (Text.collects_nil (BelongsTo catalog)) e.fold.conjuncts with
    ⟨pieces, hpieces, hcollects⟩ | ⟨before, c, after, heq, hbefore, hcrosses, paths, hpaths, herror⟩
  · rw [hpieces]
    exact Or.inr ⟨pieces, _, rfl, splits_of_collects hcollects⟩
  · rw [herror]
    exact Or.inl ⟨before, c, after, heq, hbefore, hcrosses, paths, hpaths, rfl⟩

theorem ascending_of_split {e : Expr} {groups : List (String × Expr)}
    (h : split catalog e = .ok groups) : Text.Ascending (groups.map (·.1)) := by
  rcases split_cases catalog e with hfails | ⟨pieces, groups', hgroups, hsplits⟩
  · exact absurd h (hfails.ne_ok groups)
  · rw [h] at hgroups
    cases hgroups
    rw [hsplits.paths_eq]
    exact hsplits.ascending

/-- **Splitting a condition loses nothing.** The folded condition is taken apart into conjuncts in
one way. Splitting fails exactly when some conjunct crosses nested paths, and then because of the
first one. Otherwise every conjunct is found once, under the path that it belongs to. -/
theorem split_outcome (catalog : Catalog) (e : Expr) :
    ∃ conjuncts, (∀ cs, e.fold.Conjuncts cs ↔ cs = conjuncts)
      ∧ ((∃ text paths, split catalog e = .error (.crossPath text paths))
        ↔ ∃ c ∈ conjuncts, Crosses catalog c)
      ∧ (Fails catalog conjuncts (split catalog e)
        ∨ ∃ pieces groups, split catalog e = .ok groups
          ∧ Splits catalog conjuncts pieces groups) := by
  have hcases := split_cases catalog e
  refine ⟨e.fold.conjuncts, fun cs => Expr.conjuncts_iff, ?_, hcases⟩
  rcases hcases with
    ⟨before, c, after, heq, -, hcrosses, paths, -, herror⟩ | ⟨pieces, groups, hgroups, hsplits⟩
  · exact iff_of_true ⟨_, _, herror⟩ ⟨c, by simp [heq], hcrosses⟩
  · refine iff_of_false ?_ fun ⟨c, hc, hcrosses⟩ => hsplits.not_crosses c hc hcrosses
    rintro ⟨text, paths, herror⟩
    rw [hgroups] at herror
    cases herror

end Tabula.Grouping
