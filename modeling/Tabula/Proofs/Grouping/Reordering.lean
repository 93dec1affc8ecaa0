import Mathlib.Data.List.Nodup
import Tabula.Grouping.Order
import Tabula.Proofs.Lists
import Tabula.Proofs.Results

/-!
# Reordering the edges

A sort term hits one edge, the first that it means by value or by name (`Means`, `hit`). A query
whose terms all hit an edge keeps each of its edges, once and with the place it was written at
(`sortEdges_outcome`). Sorted queries put the edges that are hit in front, in the order of their
first hits, and a discovered domain among them takes the direction of this hit.
-/

set_option autoImplicit false

namespace Tabula.Grouping

/-! ## Hits -/

/-- Whether a sort term means an edge: its value, or its name. -/
def Means (term : SortTerm) (e : Edge) : Prop :=
  (∃ value, e.value = some value ∧ value.same term.value = true) ∨ term.value = .var e.name

theorem names_iff {term : SortTerm} {e : Edge} : names term e = true ↔ Means term e := by
  have hname : (term.value.asVar? == some e.name) = true ↔ term.value = .var e.name := by
    rw [beq_iff_eq]
    cases term.value <;> simp [Expr.asVar?]
  rw [names, Bool.or_eq_true, hname, Means]
  cases e.value with
  | none => simp
  | some value => simp

instance (term : SortTerm) (e : Edge) : Decidable (Means term e) := decidable_of_iff _ names_iff

/-- The place of the edge that a sort term hits: of the first that it means. -/
def hit (edges : List Edge) (term : SortTerm) : Option Nat := edges.findIdx? fun e => Means term e

theorem hit_eq (edges : List Edge) (term : SortTerm) :
    hit edges term = edges.findIdx? (names term) := by
  have hnames : (fun e => decide (Means term e)) = names term := by
    funext e
    rw [Bool.eq_iff_iff, decide_eq_true_iff, names_iff]
  rw [hit, hnames]

theorem hit_eq_none_iff {edges : List Edge} {term : SortTerm} :
    hit edges term = none ↔ ∀ e ∈ edges, ¬ Means term e := by
  rw [hit, List.findIdx?_eq_none_iff]
  simp only [decide_eq_false_iff_not]

def hits (edges : List Edge) (terms : List SortTerm) : List Nat := terms.filterMap (hit edges)

/-- The first of some sort terms that hits a place. -/
def firstHit? (edges : List Edge) (terms : List SortTerm) (i : Nat) : Option SortTerm :=
  terms.find? fun term => hit edges term == some i

theorem firstHit?_eq_none_iff {edges : List Edge} {terms : List SortTerm} {i : Nat} :
    firstHit? edges terms i = none ↔ i ∉ hits edges terms := by
  simp [firstHit?, hits]

/-- An edge in a direction: its domain has the direction if it is discovered, and nothing else is
changed. -/
def facing (dir : Direction) (e : Edge) : Edge :=
  match e.domain with
  | .discovered _ => { e with domain := .discovered (some dir) }
  | _ => e

theorem facing_eq (dir : Direction) (e : Edge) :
    facing dir e = { e with domain := e.domain.sorted dir } := by
  obtain ⟨name, value, span, domain, allowNulls⟩ := e
  cases domain <;> rfl

/-- A discovered domain of an edge in a direction has it. -/
theorem sort_of_facing {dir : Direction} {e : Edge} {sort : Option Direction}
    (h : (facing dir e).domain = .discovered sort) : sort = some dir := by
  unfold facing at h
  split at h
  next => exact (Domain.discovered.inj h).symm
  next hother => exact absurd h (hother sort)

/-- An edge in the direction of a sort term, if there is one. -/
def directed (term : Option SortTerm) (e : Edge) : Edge :=
  match term with
  | some term => facing term.direction e
  | none => e

theorem name_directed (term : Option SortTerm) (e : Edge) : (directed term e).name = e.name := by
  cases term with
  | none => rfl
  | some term => rw [directed, facing_eq]

/-! ## Sort terms -/

/-- Whether a placed edge is one of the query's that takes the direction of a sort term. -/
def SortedBy (edges : List Edge) (placed : PlacedEdge) (key : Nat × Direction) : Prop :=
  placed.index = key.1
    ∧ ∃ e, edges[key.1]? = some e ∧ placed.edge = facing key.2 e

/-- What sort terms make of edges: the edges that are hit, in the order of their first hits, each
in the direction of this hit. -/
structure InFront (edges : List Edge) (terms : List SortTerm) (sorted : List PlacedEdge) :
    Prop where
  indices : sorted.map (·.index) = (hits edges terms).eraseDups
  nodup : (sorted.map (·.index)).Nodup
  edge : ∀ p ∈ sorted, ∃ e, edges[p.index]? = some e
    ∧ p.edge = directed (firstHit? edges terms p.index) e

theorem InFront.mem_indices {edges : List Edge} {terms : List SortTerm}
    {sorted : List PlacedEdge} (h : InFront edges terms sorted) {i : Nat} :
    i ∈ sorted.map (·.index) ↔ i ∈ hits edges terms := by
  rw [h.indices, List.mem_eraseDups]

theorem inFront_nil (edges : List Edge) : InFront edges [] [] where
  indices := rfl
  nodup := .nil
  edge := by simp

theorem addSorted_outcome (edges : List Edge) (sorted : List PlacedEdge) (term : SortTerm) :
    (∃ out, addSorted edges sorted term = .ok out)
      ∨ addSorted edges sorted term = .error (.unknownSortTarget term.value.text)
        ∧ hit edges term = none := by
  unfold addSorted
  rw [hit_eq]
  cases edges.findIdx? (names term) with
  | none => exact Or.inr ⟨rfl, rfl⟩
  | some i =>
      refine Or.inl ?_
      simp only
      split
      next => exact ⟨_, rfl⟩
      next => exact ⟨_, rfl⟩

variable {edges : List Edge}

theorem addSorted_eq_ok {sorted out : List PlacedEdge} {term : SortTerm}
    (h : addSorted edges sorted term = .ok out) :
    ∃ i, edges.findIdx? (names term) = some i
      ∧ ((i ∈ sorted.map (·.index) ∧ out = sorted)
        ∨ (i ∉ sorted.map (·.index) ∧ ∃ placed, out = sorted ++ [placed]
          ∧ SortedBy edges placed (i, term.direction))) := by
  unfold addSorted at h
  split at h
  next => cases h
  next i hi =>
      have hmem : (sorted.any (·.index == i)) = true ↔ i ∈ sorted.map (·.index) := by
        simp only [List.any_eq_true, beq_iff_eq, List.mem_map]
      refine ⟨i, hi, ?_⟩
      split at h
      next hold =>
          cases h
          exact Or.inl ⟨hmem.mp hold, rfl⟩
      next hnew =>
          cases h
          obtain ⟨hlt, -⟩ := List.findIdx?_eq_some_iff_findIdx_eq.mp hi
          refine Or.inr ⟨fun hold => hnew (hmem.mpr hold), _, rfl, rfl, edges[i],
            List.getElem?_eq_getElem hlt, ?_⟩
          rw [List.getElem?_eq_getElem hlt, Option.getD_some, facing_eq]

theorem firstHit?_concat (terms : List SortTerm) (term : SortTerm) (i : Nat) :
    firstHit? edges (terms ++ [term]) i
      = (firstHit? edges terms i).or (if hit edges term = some i then some term else none) := by
  simp only [firstHit?, List.find?_append, List.find?_singleton, beq_iff_eq]

/-- A later term does not change the first hit of a place that was hit. -/
theorem firstHit?_concat_of_mem {terms : List SortTerm} {i : Nat} (hi : i ∈ hits edges terms)
    (term : SortTerm) : firstHit? edges (terms ++ [term]) i = firstHit? edges terms i := by
  rw [firstHit?_concat]
  cases hfirst : firstHit? edges terms i with
  | none => exact absurd hi (firstHit?_eq_none_iff.mp hfirst)
  | some t => rfl

/-- **A sort term** puts the edge that it hits behind those of earlier terms, unless it is one of
them. -/
theorem InFront.add {done : List SortTerm} {sorted out : List PlacedEdge} {term : SortTerm}
    (h : InFront edges done sorted) (hout : addSorted edges sorted term = .ok out) :
    hit edges term ≠ none ∧ InFront edges (done ++ [term]) out := by
  obtain ⟨i, hi, hcases⟩ := addSorted_eq_ok hout
  have hhit : hit edges term = some i := (hit_eq edges term).trans hi
  have hhits : hits edges (done ++ [term]) = hits edges done ++ [i] := by
    simp [hits, hhit]
  -- the first term that hits a place stays the first
  have hold : ∀ p ∈ sorted, ∃ e, edges[p.index]? = some e
      ∧ p.edge = directed (firstHit? edges (done ++ [term]) p.index) e := by
    intro p hp
    rw [firstHit?_concat_of_mem (h.mem_indices.mp (List.mem_map_of_mem hp))]
    exact h.edge p hp
  refine ⟨by rw [hhit]; exact Option.some_ne_none i, ?_⟩
  rcases hcases with ⟨hin, rfl⟩ | ⟨hnew, placed, rfl, rfl, e, he, hedge⟩
  · refine { indices := ?_, nodup := h.nodup, edge := hold }
    have hmem : i ∈ hits edges done := h.mem_indices.mp hin
    rw [hhits, List.eraseDups_append, h.indices]
    simp [List.removeAll, hmem]
  · have hmem : placed.index ∉ hits edges done := mt h.mem_indices.mpr hnew
    refine { indices := ?_, nodup := ?_, edge := ?_ }
    · rw [hhits, List.eraseDups_append, List.map_append, h.indices]
      simp [List.removeAll, hmem, List.eraseDups_cons]
    · rw [List.map_append, List.map_singleton, ← List.concat_eq_append]
      exact h.nodup.concat hnew
    · refine List.forall_mem_append.mpr ⟨hold, List.forall_mem_singleton.mpr ⟨e, he, ?_⟩⟩
      rw [firstHit?_concat, firstHit?_eq_none_iff.mpr hmem, if_pos hhit]
      exact hedge

/-- Whether the first of some sort terms that hits no edge is why a computation fails. -/
def Misses (edges : List Edge) (terms : List SortTerm) {α : Type} (result : QueryResult α) : Prop :=
  ∃ before term after, terms = before ++ term :: after ∧ (∀ t ∈ before, hit edges t ≠ none)
    ∧ hit edges term = none ∧ result = .error (.unknownSortTarget term.value.text)

/-- Sort terms put the edges that they hit in front, up to the first that hits none. -/
theorem inFront_foldlM {done : List SortTerm} {sorted : List PlacedEdge}
    (h : InFront edges done sorted) (terms : List SortTerm) :
    (∃ out, terms.foldlM (addSorted edges) sorted = .ok out
        ∧ (∀ term ∈ terms, hit edges term ≠ none) ∧ InFront edges (done ++ terms) out)
      ∨ Misses edges terms (terms.foldlM (addSorted edges) sorted) := by
  -- on the terms still to come: the edges in front are those of the terms that are done
  induction terms generalizing done sorted with
  | nil => exact Or.inl ⟨sorted, rfl, by simp, (List.append_nil done).symm ▸ h⟩
  | cons term terms ih =>
      rw [List.foldlM_cons]
      rcases addSorted_outcome edges sorted term with ⟨next, hnext⟩ | ⟨herror, hnone⟩
      · obtain ⟨hhit, hadded⟩ := h.add hnext
        rw [hnext]
        rcases ih hadded with ⟨out, hout, hall, hfront⟩ | ⟨before, t, after, rfl, hbefore, ht⟩
        · exact Or.inl ⟨out, hout, List.forall_mem_cons.mpr ⟨hhit, hall⟩, by simpa using hfront⟩
        · exact Or.inr ⟨term :: before, t, after, rfl, List.forall_mem_cons.mpr ⟨hhit, hbefore⟩, ht⟩
      · rw [herror]
        exact Or.inr ⟨[], term, terms, rfl, by simp, hnone, rfl⟩

/-! ## All edges -/

theorem indices_placed (i : Nat) (edges : List Edge) :
    (placed i edges).map (·.index) = List.range' i edges.length := by
  induction edges generalizing i with
  | nil => rfl
  | cons e edges ih => exact congrArg (i :: ·) (ih (i + 1))

theorem getElem?_of_mem_placed {i : Nat} {edges : List Edge} {p : PlacedEdge}
    (h : p ∈ placed i edges) : i ≤ p.index ∧ edges[p.index - i]? = some p.edge := by
  induction edges generalizing i with
  | nil => cases h
  | cons e edges ih =>
      rcases List.mem_cons.mp h with rfl | h
      · simp
      · obtain ⟨hle, hget⟩ := ih h
        have hplace : p.index - i = p.index - (i + 1) + 1 := by omega
        exact ⟨by omega, by rw [hplace, List.getElem?_cons_succ, hget]⟩

/-- Whether placed edges are those of a query as its sort orders them. -/
structure Reorders (q : Query) (all : List PlacedEdge) : Prop where
  /-- Each edge is there once, with the place that it was written at. -/
  perm : (all.map (·.index)).Perm (List.range q.grouping.length)
  edge : ∀ p ∈ all, ∃ e, q.grouping[p.index]? = some e
    ∧ p.edge = directed (firstHit? q.grouping q.sort p.index) e
  /-- The edges that are hit go first, in the order of their first hits. -/
  sorted : q.format ≠ .cube → all.map (·.index) = (hits q.grouping q.sort).eraseDups
    ++ (List.range q.grouping.length).filter (· ∉ hits q.grouping q.sort)
  cube : q.format = .cube → all.map (·.index) = List.range q.grouping.length

/-- The edges of a list in the order of sorting: those in front, and the others as they were
written. -/
def inOrder (edges : List Edge) (sorted : List PlacedEdge) : List PlacedEdge :=
  sorted ++ (placed 0 edges).filter fun p => !sorted.any (·.index == p.index)

theorem sortEdges_eq (q : Query) :
    sortEdges q = (q.sort.foldlM (addSorted q.grouping) [] >>= fun sorted =>
      .ok (if q.format = .cube then
        (inOrder q.grouping sorted).mergeSort fun a b => a.index ≤ b.index
      else inOrder q.grouping sorted)) := rfl

namespace InFront

variable {terms : List SortTerm} {sorted : List PlacedEdge} (h : InFront edges terms sorted)
include h

theorem any_index_iff {i : Nat} : (sorted.any (·.index == i)) = true ↔ i ∈ hits edges terms := by
  rw [← h.mem_indices]
  simp only [List.any_eq_true, beq_iff_eq, List.mem_map]

theorem indices_inOrder : (inOrder edges sorted).map (·.index)
    = (hits edges terms).eraseDups
      ++ (List.range edges.length).filter (· ∉ hits edges terms) := by
  rw [inOrder, List.map_append, h.indices, List.range_eq_range', ← indices_placed,
    List.filter_map]
  refine congrArg (_ ++ ·) (congrArg (List.map _) (List.filter_congr fun p _ => ?_))
  rw [Bool.eq_iff_iff, Bool.not_eq_true', ← Bool.not_eq_true, h.any_index_iff,
    Function.comp_apply, decide_eq_true_iff]

theorem perm_inOrder :
    ((inOrder edges sorted).map (·.index)).Perm (List.range edges.length) := by
  have hnodup : (hits edges terms).eraseDups.Nodup := h.indices ▸ h.nodup
  have hrest : (List.range edges.length).filter (· ∉ hits edges terms)
      = (List.range edges.length).filter (· ∉ (hits edges terms).eraseDups) := by
    simp only [List.mem_eraseDups]
  rw [h.indices_inOrder, hrest]
  refine Lists.append_filter_notMem_perm hnodup List.nodup_range fun i hi => ?_
  obtain ⟨term, -, hterm⟩ := List.mem_filterMap.mp (List.mem_eraseDups.mp hi)
  rw [hit_eq] at hterm
  obtain ⟨hlt, -⟩ := List.findIdx?_eq_some_iff_findIdx_eq.mp hterm
  exact List.mem_range.mpr hlt

theorem edge_inOrder : ∀ p ∈ inOrder edges sorted, ∃ e, edges[p.index]? = some e
    ∧ p.edge = directed (firstHit? edges terms p.index) e := by
  intro p hp
  rcases List.mem_append.mp hp with hp | hp
  · exact h.edge p hp
  · obtain ⟨hp, hnot⟩ := List.mem_filter.mp hp
    obtain ⟨-, hget⟩ := getElem?_of_mem_placed hp
    have hmem : p.index ∉ hits edges terms := by
      rw [← h.any_index_iff]
      simpa using hnot
    rw [firstHit?_eq_none_iff.mpr hmem]
    exact ⟨p.edge, hget, rfl⟩

end InFront

theorem indices_mergeSort {all : List PlacedEdge} {n : Nat}
    (h : (all.map (·.index)).Perm (List.range n)) :
    (all.mergeSort fun a b => a.index ≤ b.index).map (·.index) = List.range n := by
  rw [List.map_mergeSort (s := fun i j => decide (i ≤ j)) fun _ _ _ _ => rfl]
  have trans (i j k : Nat) (hij : decide (i ≤ j)) (hjk : decide (j ≤ k)) : decide (i ≤ k) := by
    simp only [decide_eq_true_eq] at *
    omega
  have total (i j : Nat) : (decide (i ≤ j) || decide (j ≤ i)) = true := by
    simp only [Bool.or_eq_true, decide_eq_true_eq]
    omega
  have hsorted : ((all.map (·.index)).mergeSort fun i j => decide (i ≤ j)).Pairwise (· ≤ ·) := by
    simpa using List.pairwise_mergeSort trans total (all.map (·.index))
  exact List.Perm.eq_of_pairwise (fun i j _ _ => Nat.le_antisymm) hsorted List.pairwise_le_range
    ((List.mergeSort_perm _ _).trans h)

theorem reorders_of_inFront {q : Query} {sorted : List PlacedEdge}
    (h : InFront q.grouping q.sort sorted) :
    Reorders q (if q.format = .cube then
      (inOrder q.grouping sorted).mergeSort fun a b => a.index ≤ b.index
    else inOrder q.grouping sorted) := by
  by_cases hcube : q.format = .cube
  · rw [if_pos hcube]
    have hindices := indices_mergeSort h.perm_inOrder
    refine
      { perm := List.Perm.of_eq hindices
        edge := fun p hp => h.edge_inOrder p (List.mem_mergeSort.mp hp)
        sorted := fun hother => absurd hcube hother
        cube := fun _ => hindices }
  · rw [if_neg hcube]
    exact
      { perm := h.perm_inOrder
        edge := h.edge_inOrder
        sorted := fun _ => h.indices_inOrder
        cube := fun h => absurd h hcube }

/-- Sorting a query reorders its edges, or some sort term means none of them. -/
theorem sortEdges_cases (q : Query) :
    Misses q.grouping q.sort (sortEdges q)
      ∨ ∃ all, sortEdges q = .ok all ∧ (∀ term ∈ q.sort, hit q.grouping term ≠ none)
        ∧ Reorders q all := by
  rw [sortEdges_eq]
  rcases inFront_foldlM (inFront_nil q.grouping) q.sort with
    ⟨sorted, hsorted, hall, hfront⟩ | ⟨before, term, after, heq, hbefore, hnone, herror⟩
  · rw [hsorted]
    exact Or.inr ⟨_, rfl, hall, reorders_of_inFront hfront⟩
  · rw [herror]
    exact Or.inl ⟨before, term, after, heq, hbefore, hnone, rfl⟩

theorem reorders_of_sortEdges {q : Query} {all : List PlacedEdge} (h : sortEdges q = .ok all) :
    Reorders q all := by
  rcases sortEdges_cases q with ⟨_, _, _, _, _, _, herror⟩ | ⟨all', hall, -, hreorders⟩
  · rw [h] at herror
    cases herror
  · rw [h] at hall
    cases hall
    exact hreorders

/-- **Edges are reordered by the sort.** It fails exactly when some sort term means no edge, and
then because of the first one. Otherwise every edge of the query is there once, as it was written
but for the direction of its first hit, and in the order that the format asks for. -/
theorem sortEdges_outcome (q : Query) :
    ((∃ text, sortEdges q = .error (.unknownSortTarget text))
        ↔ ∃ term ∈ q.sort, ∀ e ∈ q.grouping, ¬ Means term e)
      ∧ (Misses q.grouping q.sort (sortEdges q)
        ∨ ∃ all, sortEdges q = .ok all ∧ Reorders q all) := by
  simp only [← hit_eq_none_iff]
  have hcases := sortEdges_cases q
  refine ⟨?_, hcases.imp_right fun ⟨all, hall, _, hreorders⟩ => ⟨all, hall, hreorders⟩⟩
  rcases hcases with ⟨before, term, after, heq, -, hnone, herror⟩ | ⟨all, hall, hhit, -⟩
  · exact iff_of_true ⟨_, herror⟩ ⟨term, by simp [heq], hnone⟩
  · refine iff_of_false ?_ fun ⟨term, hterm, hnone⟩ => hhit term hterm hnone
    rintro ⟨text, herror⟩
    rw [hall] at herror
    cases herror

end Tabula.Grouping
