import Tabula.Proofs.Lists
import Tabula.Result.Grouped

/-!
# Groups of rows

Rows with documents are sorted by their coordinates and those of one coordinate are combined. So
the groups have distinct coordinates in ascending order (`groups_ascending`), each that of a row
(`coord_of_mem_groups`), and the group of a coordinate is made of the rows of that coordinate in
their order, whatever the other rows are (`filter_groups`).
-/

set_option autoImplicit false

namespace Tabula.Grouping

/-! ## The order of coordinates -/

theorem compareCoord_eq : compareCoord = List.compareLex compare := by
  funext as bs
  induction as generalizing bs with
  | nil => cases bs <;> rfl
  | cons a as ih =>
      cases bs with
      | nil => rfl
      | cons b bs =>
          rw [compareCoord, ih, List.compareLex]
          cases compare a b <;> rfl

instance : Std.TransCmp compareCoord := by
  rw [compareCoord_eq]
  infer_instance

instance : Std.LawfulEqCmp compareCoord := by
  rw [compareCoord_eq]
  infer_instance

/-! ## Groups -/

variable {p : GroupingPlan}

/-- Whether groups, the last one in front, may be followed by some rows: their coordinates descend
strictly, and no row comes before them. -/
structure Followed (groups : List Group) (rows : List Row) : Prop where
  descending : groups.Pairwise fun g g' => compareCoord g'.coord g.coord = .lt
  before : ∀ g ∈ groups, ∀ r ∈ rows, (compareCoord g.coord r.coord).isLE
  sorted : rows.Pairwise fun r r' => (compareCoord r.coord r'.coord).isLE

theorem addRow_cons (g : Group) (groups : List Group) (row : Row) :
    addRow p (g :: groups) row
      = if g.coord = row.coord
        then { g with values := combineValues p.selects g.values (selectValues p row.node) }
          :: groups
        else { coord := row.coord, values := selectValues p row.node } :: g :: groups := rfl

theorem Followed.addRow {groups : List Group} {row : Row} {rows : List Row}
    (h : Followed groups (row :: rows)) : Followed (addRow p groups row) rows := by
  obtain ⟨hrow, hrows⟩ := List.pairwise_cons.mp h.sorted
  cases groups with
  | nil =>
      refine ⟨List.pairwise_singleton _ _, ?_, hrows⟩
      intro g hg
      rw [List.mem_singleton.mp hg]
      exact hrow
  | cons g groups =>
      obtain ⟨hg, hgroups⟩ := List.pairwise_cons.mp h.descending
      rw [addRow_cons]
      split
      next =>
          refine ⟨List.pairwise_cons.mpr ⟨hg, hgroups⟩, ?_, hrows⟩
          intro g' hg' r hr
          rcases List.mem_cons.mp hg' with rfl | hg'
          · exact h.before g (by simp) r (by simp [hr])
          · exact h.before g' (by simp [hg']) r (by simp [hr])
      next hne =>
          -- the groups do not come after the row, and the last one is not its own
          have hlt : compareCoord g.coord row.coord = .lt := by
            have hle := h.before g (by simp) row (by simp)
            cases hc : compareCoord g.coord row.coord with
            | lt => rfl
            | eq => exact absurd (Std.LawfulEqCmp.eq_of_compare hc) hne
            | gt => simp [hc] at hle
          refine ⟨List.pairwise_cons.mpr ⟨?_, h.descending⟩, ?_, hrows⟩
          · intro g' hg'
            rcases List.mem_cons.mp hg' with rfl | hg'
            · exact hlt
            · exact Std.TransCmp.lt_trans (hg g' hg') hlt
          · intro g' hg' r hr
            rcases List.mem_cons.mp hg' with rfl | hg'
            · exact hrow r hr
            · exact h.before g' hg' r (by simp [hr])

theorem Followed.foldl {groups : List Group} {rows : List Row} (h : Followed groups rows) :
    Followed (rows.foldl (Grouping.addRow p) groups) [] := by
  induction rows generalizing groups with
  | nil => exact h
  | cons row rows ih => exact ih h.addRow

/-- The groups begin with none, which may be followed by sorted rows. -/
theorem followed_nil (rows : List Row) :
    Followed [] (rows.mergeSort fun a b => (compareCoord a.coord b.coord).isLE) where
  descending := List.Pairwise.nil
  before := by simp
  sorted :=
    have : Std.TransCmp fun a b : Row => compareCoord a.coord b.coord := Lists.transCmp_on Row.coord
    Lists.pairwise_mergeSort rows

/-- **The coordinates of groups ascend strictly.** -/
theorem groups_ascending (p : GroupingPlan) (rows : List Row) :
    (groups p rows).Pairwise fun g g' => compareCoord g.coord g'.coord = .lt :=
  List.pairwise_reverse.mpr (followed_nil _).foldl.descending

theorem coord_of_mem_foldl {acc : List Group} {rows : List Row} {g : Group}
    (h : g ∈ rows.foldl (addRow p) acc) :
    (∃ g' ∈ acc, g.coord = g'.coord) ∨ ∃ r ∈ rows, g.coord = r.coord := by
  induction rows generalizing acc with
  | nil => exact Or.inl ⟨g, h, rfl⟩
  | cons row rows ih =>
      rcases ih h with ⟨g', hg', heq⟩ | ⟨r, hr, heq⟩
      · -- a group after adding the row is that of the row or an old one
        cases acc with
        | nil =>
            rw [List.mem_singleton.mp hg'] at heq
            exact Or.inr ⟨row, by simp, heq⟩
        | cons first acc =>
            rw [addRow_cons] at hg'
            split at hg'
            next =>
                rcases List.mem_cons.mp hg' with rfl | hg'
                · exact Or.inl ⟨first, by simp, heq⟩
                · exact Or.inl ⟨g', by simp [hg'], heq⟩
            next =>
                rcases List.mem_cons.mp hg' with rfl | hg'
                · exact Or.inr ⟨row, by simp, heq⟩
                · exact Or.inl ⟨g', hg', heq⟩
      · exact Or.inr ⟨r, by simp [hr], heq⟩

/-- **Each group has the coordinate of a row.** -/
theorem coord_of_mem_groups {rows : List Row} {g : Group} (h : g ∈ groups p rows) :
    ∃ r ∈ rows, g.coord = r.coord := by
  rcases coord_of_mem_foldl (List.mem_reverse.mp h) with ⟨g', hg', -⟩ | ⟨r, hr, heq⟩
  · simp at hg'
  · exact ⟨r, (List.mem_filter.mp (List.mem_mergeSort.mp hr)).1, heq⟩

/-- What the groups of a coordinate are made of does not depend on the rows in between. -/
theorem filter_addRow {groups : List Group} {row : Row} {rows : List Row}
    (h : Followed groups (row :: rows)) (coord : List Nat) :
    (addRow p groups row).filter (·.coord = coord)
      = if row.coord = coord then addRow p (groups.filter (·.coord = coord)) row
        else groups.filter (·.coord = coord) := by
  cases groups with
  | nil =>
      by_cases hrow : row.coord = coord
      · simp [addRow, hrow]
      · simp [addRow, hrow]
  | cons g groups =>
      rw [addRow_cons]
      by_cases heq : g.coord = row.coord
      · by_cases hrow : row.coord = coord
        · simp [heq, hrow, addRow_cons]
        · simp [heq, hrow]
      · by_cases hrow : row.coord = coord
        · -- a group of this coordinate would be the last one, to which the row is added
          have hnone : (g :: groups).filter (·.coord = coord) = [] := by
            rw [List.filter_eq_nil_iff]
            intro g' hg' hcoord
            have hcoord : g'.coord = row.coord := by rw [hrow]; exact of_decide_eq_true hcoord
            have hle := h.before g (by simp) row (by simp)
            rcases List.mem_cons.mp hg' with rfl | hg'
            · exact heq hcoord
            · have hlt := (List.pairwise_cons.mp h.descending).1 g' hg'
              rw [hcoord] at hlt
              have hswap : compareCoord g.coord row.coord
                  = (compareCoord row.coord g.coord).swap := Std.OrientedCmp.eq_swap
              rw [hswap, hlt] at hle
              cases hle
          rw [if_neg heq, if_pos hrow, hnone, List.filter_cons_of_pos (by simpa using hrow), hnone]
          rfl
        · simp [heq, hrow]

theorem filter_foldl_addRow {groups : List Group} {rows : List Row} (h : Followed groups rows)
    (coord : List Nat) :
    (rows.foldl (addRow p) groups).filter (·.coord = coord)
      = (rows.filter (·.coord = coord)).foldl (addRow p) (groups.filter (·.coord = coord)) := by
  induction rows generalizing groups with
  | nil => rfl
  | cons row rows ih =>
      rw [List.foldl_cons, ih h.addRow, filter_addRow h, List.filter_cons]
      by_cases hrow : row.coord = coord
      · simp [hrow]
      · simp [hrow]

/-- **The group of a coordinate is made of its rows.** -/
theorem filter_groups (p : GroupingPlan) (rows : List Row) (coord : List Nat) :
    (groups p rows).filter (·.coord = coord) = groups p (rows.filter (·.coord = coord)) := by
  have hfilter := filter_foldl_addRow (p := p)
    (followed_nil (rows.filter fun r => 0 < Response.docCount r.node)) coord
  have hsorted : ((rows.filter (·.coord = coord)).filter fun r =>
      0 < Response.docCount r.node).Pairwise fun a b => (compareCoord a.coord b.coord).isLE := by
    refine List.pairwise_of_forall_mem_list fun a ha b hb => ?_
    have hself : compareCoord coord coord = .eq := Std.ReflCmp.compare_self
    have ha := of_decide_eq_true (List.mem_filter.mp (List.mem_filter.mp ha).1).2
    have hb := of_decide_eq_true (List.mem_filter.mp (List.mem_filter.mp hb).1).2
    rw [ha, hb, hself]
    rfl
  rw [Lists.filter_mergeSort, List.filter_comm] at hfilter
  rw [groups, groups, List.filter_reverse, hfilter, List.mergeSort_of_pairwise hsorted]
  rfl

end Tabula.Grouping
