import Mathlib.Data.List.Perm.Basic
import Tabula.Proofs.Edge.Asks
import Tabula.Response.Walk

/-!
# Choosing buckets

A level of buckets leaves a choice: one bucket of one of its aggregations (`Level.choices`).
Several levels are passed by one choice after another (`Level.passes`). Both read a node by the
names that were asked for, whereas `Response.walk` reads whatever members a node has. On the
mirror of levels around a tree the two agree (`walk_levels`).
-/

set_option autoImplicit false

namespace Tabula

open Response (below walk steps)

/-! ## Choices -/

/-- A bucket of a level: the aggregation that was answered by it, and its place in the answer. -/
structure Choice where
  marker : Marker
  ordinal : Nat
  bucket : Json

/-- The step of a row that a choice becomes. Into missing values it leads to the node inside the
wrappers of their bucket, and of a bucket out of the domain it keeps nothing. -/
def Choice.part (c : Choice) : Part :=
  match c.marker with
  | .matched => .matched c.ordinal c.bucket
  | .missing => .missing (Response.drill c.bucket)
  | .join i => .join i c.bucket
  | .other | .filter | .nested | .payload => .other

/-- The buckets of an answer, by the form in which a kind is answered. -/
def AggKind.buckets (kind : AggKind) (answer : Json) : List Json :=
  match kind.shape with
  | .single => [answer]
  | .several => Response.buckets answer
  | .value => []

namespace Level

def choicesOf (a : Marker × AggKind) (answer : Json) : List Choice :=
  (a.2.buckets answer).zipIdx.map fun b => { marker := a.1, ordinal := b.2, bucket := b.1 }

def choices (node : Json) (level : Level) : List Choice :=
  level.flatMap fun a => ((node.get? a.1.key).map (choicesOf a)).getD []

/-- A way through several levels: the choices made, and the node it ends at. -/
structure Pass where
  choices : List Choice
  node : Json

/-- The ways through several levels. -/
def passes : List Level → Json → List Pass
  | [], node => [{ choices := [], node }]
  | level :: rest, node =>
      (level.choices node).flatMap fun c =>
        (passes rest c.bucket).map fun p => { p with choices := c :: p.choices }

/-! ## Choices in mirrors -/

section Mirror

variable {level : Level} {inner : Aggs} {node : Json}

theorem mem_choicesOf {a : Marker × AggKind} {answer : Json} {c : Choice}
    (h : c ∈ choicesOf a answer) : c.marker = a.1 ∧ c.bucket ∈ a.2.buckets answer := by
  obtain ⟨b, hb, rfl⟩ := List.mem_map.mp h
  exact ⟨rfl, List.fst_mem_of_mem_zipIdx hb⟩

/-- Where a name fits its aggregation, the answer is one bucket or a list of them, and each
mirrors what is below. -/
theorem mirrors_of_mem_buckets {a : Marker × AggKind} {answer : Json}
    (h : (Agg.node a.2 inner).Answered answer) {bucket : Json} (hb : bucket ∈ a.2.buckets answer) :
    inner.Mirrors bucket := by
  unfold AggKind.buckets at hb
  cases hs : a.2.shape with
  | single =>
      simp only [hs, List.mem_singleton] at hb
      rw [hb]
      exact (Agg.answered_single hs).mp h
  | several =>
      obtain ⟨fields, items, rfl, -, hitems, hall⟩ := (Agg.answered_several hs).mp h
      simp only [hs, Response.buckets, Json.get?, hitems] at hb
      exact hall bucket hb
  | value => simp [hs] at hb

theorem Fits.ne_payload {a : Marker × AggKind} (h : Fits a) : a.1 ≠ .payload := by
  intro hm
  simp [Fits, hm] at h

theorem Fits.ne_filter {a : Marker × AggKind} (h : Fits a) : a.1 ≠ .filter := by
  intro hm
  simp [Fits, hm] at h

theorem Fits.ne_nested {a : Marker × AggKind} (h : Fits a) : a.1 ≠ .nested := by
  intro hm
  simp [Fits, hm] at h

theorem answered_around (hl : level.Proper) {fields : Fields}
    (h : Aggs.Answered (level.around inner) fields) {a : Marker × AggKind} (ha : a ∈ level) :
    ∃ answer, Fields.get? a.1.key fields = some answer ∧ (Agg.node a.2 inner).Answered answer := by
  obtain ⟨answer, hget, hpayload | hanswer⟩ :=
    Aggs.answered_iff.mp h (a.1.key, .node a.2 inner) (List.mem_map.mpr ⟨a, ha, rfl⟩)
  · rw [hl.reads a ha] at hpayload
    exact absurd hpayload (hl.fits a ha).ne_payload
  · exact ⟨answer, hget, hanswer⟩

theorem mirrors_of_mem_choices (hl : level.Proper) (h : (level.around inner).Mirrors node)
    {c : Choice} (hc : c ∈ level.choices node) : inner.Mirrors c.bucket := by
  obtain ⟨fields, rfl, -, hanswered⟩ := h
  obtain ⟨a, ha, hc⟩ := List.mem_flatMap.mp hc
  obtain ⟨answer, hget, hanswer⟩ := answered_around hl hanswered ha
  rw [Json.get?, hget, Option.map_some, Option.getD_some] at hc
  exact mirrors_of_mem_buckets hanswer (mem_choicesOf hc).2

theorem names_around : (level.around inner).map (·.1) = level.map (·.1.key) := by
  simp [around]

/-- The marker that is read from the name of an aggregation is its own, or none. -/
theorem Fits.reads_or {a : Marker × AggKind} (h : Fits a) :
    Marker.ofName a.1.key = a.1 ∨ Marker.ofName a.1.key = .payload := by
  obtain ⟨marker, kind⟩ := a
  cases marker with
  | matched => exact Or.inl rfl
  | missing => exact Or.inl rfl
  | other => exact Or.inl rfl
  | join i => exact Marker.ofName_joinKey_or i
  | filter => exact absurd rfl h.ne_filter
  | nested => exact absurd rfl h.ne_nested
  | payload => exact absurd rfl h.ne_payload

theorem drill_around (hfits : ∀ a ∈ level, Fits a) {fields : Fields}
    (h : Framed ((level.around inner).map (·.1)) fields) :
    Response.drill (.obj fields) = .obj fields := by
  rw [names_around] at h
  refine h.drill ?_ ?_
  · intro hmem
    obtain ⟨a, ha, heq⟩ := List.mem_map.mp hmem
    rcases (hfits a ha).reads_or with hreads | hreads
    · rw [heq] at hreads
      exact (hfits a ha).ne_filter hreads.symm
    · rw [heq] at hreads
      cases hreads
  · intro hmem
    obtain ⟨a, ha, heq⟩ := List.mem_map.mp hmem
    rcases (hfits a ha).reads_or with hreads | hreads
    · rw [heq] at hreads
      exact (hfits a ha).ne_nested hreads.symm
    · rw [heq] at hreads
      cases hreads

end Mirror

/-! ## Rows of a level -/

theorem walk_drill (n : Nat) (node : Json) : walk n (Response.drill node) = walk n node := by
  cases n with
  | zero => simp only [walk, Response.drill_drill]
  | succ n => simp only [walk, Response.drill_drill]

theorem walk_succ {node : Json} {fields : Fields} (h : Response.drill node = .obj fields)
    (n : Nat) : walk (n + 1) node
      = fields.flatMap fun m => (steps m.1 m.2).flatMap fun s => below s.1 (walk n s.2) := by
  simp only [walk, h]
  exact List.flatMap_assoc

theorem matchedSteps_eq (n : Nat) (items : List Json) :
    Response.matchedSteps n items
      = (items.zipIdx n).map fun b => (Part.matched b.2 b.1, b.1) := by
  induction items generalizing n with
  | nil => rfl
  | cons item items ih => exact congrArg (_ :: ·) (ih (n + 1))

/-- The steps into the answer of an aggregation are the choices among its buckets. -/
theorem flatMap_steps {a : Marker × AggKind} (ha : Fits a) (hr : Marker.ofName a.1.key = a.1)
    {inner : Aggs} {answer : Json} (h : (Agg.node a.2 inner).Answered answer) (n : Nat) :
    ((steps a.1.key answer).flatMap fun s => below s.1 (walk n s.2))
      = (choicesOf a answer).flatMap fun c => below c.part (walk n c.bucket) := by
  obtain ⟨marker, kind⟩ := a
  simp only [steps, hr, choicesOf, AggKind.buckets, Choice.part]
  -- the walker reads an answer by its marker, and fitting fixes the form of the answer
  cases marker with
  | matched =>
      have hs : kind.shape = .several := ha
      obtain ⟨fields, items, rfl, hframed, -, -⟩ := (Agg.answered_several hs).mp h
      have hdrill : Response.drill (.obj fields) = .obj fields :=
        hframed.drill (by simp) (by simp)
      simp only [hs, hdrill, matchedSteps_eq, List.flatMap_map]
  | missing =>
      have hs : kind.shape = .single := ha
      simp only [hs, List.zipIdx_singleton, List.map_cons, List.map_nil, List.flatMap_cons,
        List.flatMap_nil, walk_drill]
  | other =>
      have hs : kind.shape = .several := ha
      -- the ordinals are dropped again: a step out of the domain keeps none
      have hzip : ((Response.buckets answer).zipIdx).map (·.1) = Response.buckets answer :=
        List.zipIdx_map_fst 0 _
      simp only [hs, List.flatMap_map]
      conv_lhs => rw [← hzip, List.flatMap_map]
  | join i =>
      have hs : kind.shape = .single := ha
      simp only [hs, List.zipIdx_singleton, List.map_cons, List.map_nil, List.flatMap_cons,
        List.flatMap_nil]
  | filter => exact absurd rfl ha.ne_filter
  | nested => exact absurd rfl ha.ne_nested
  | payload => exact absurd rfl ha.ne_payload

theorem steps_eq_nil {name : String} (h : Marker.ofName name = .payload) (child : Json) :
    steps name child = [] := by
  simp only [steps, h]

end Level

/-! ## Members by name -/

/-- Members and names pair up: what is found at the members of some names is found under these
names, in another order. -/
theorem Fields.perm_flatMap_names {β : Type} {fields : Fields}
    (hf : (fields.map (·.1)).Nodup) {names : List String} (hn : names.Nodup)
    (hall : ∀ name ∈ names, name ∈ fields.map (·.1)) {f : String → Json → List β}
    (honly : ∀ m ∈ fields, m.1 ∉ names → f m.1 m.2 = []) :
    (fields.flatMap fun m => f m.1 m.2).Perm
      (names.flatMap fun name => ((Fields.get? name fields).map (f name)).getD []) := by
  let named (m : String × Json) : Bool := names.contains m.1
  -- members of other names contribute nothing
  have hkeep : (fields.flatMap fun m => f m.1 m.2)
      = (fields.filter named).flatMap fun m => f m.1 m.2 := by
    clear hf hall
    induction fields with
    | nil => rfl
    | cons m fields ih =>
        have ih := ih fun m hm => honly m (by simp [hm])
        by_cases hm : m.1 ∈ names
        · simp [named, hm, ih]
        · simp [named, hm, ih, honly m (by simp) hm]
  have hget : ((fields.filter named).flatMap fun m => f m.1 m.2)
      = ((fields.filter named).map (·.1)).flatMap fun name =>
          ((Fields.get? name fields).map (f name)).getD [] := by
    rw [List.flatMap_map]
    refine List.flatMap_congr fun m hm => ?_
    rw [Fields.get?_of_mem hf (List.mem_filter.mp hm).1]
    rfl
  -- what is left are the names themselves, in the order of the members
  have hperm : ((fields.filter named).map (·.1)).Perm names := by
    have hnodup : ((fields.filter named).map (·.1)).Nodup :=
      hf.sublist (List.filter_sublist.map _)
    refine (List.perm_ext_iff_of_nodup hnodup hn).mpr fun name => ?_
    constructor
    · intro h
      obtain ⟨m, hm, rfl⟩ := List.mem_map.mp h
      simpa [named] using (List.mem_filter.mp hm).2
    · intro h
      obtain ⟨m, hm, rfl⟩ := List.mem_map.mp (hall name h)
      exact List.mem_map.mpr ⟨m, List.mem_filter.mpr ⟨hm, by simpa [named] using h⟩, rfl⟩
  rw [hkeep, hget]
  exact hperm.flatMap_right _

/-! ## Rows through levels -/

namespace Level

/-- **The rows through a level are the rows below each of its choices**, in some order. -/
theorem walk_level {level : Level} (hl : level.Proper) {inner : Aggs} {node : Json}
    (h : (level.around inner).Mirrors node) (n : Nat) :
    (walk (n + 1) node).Perm
      ((level.choices node).flatMap fun c => below c.part (walk n c.bucket)) := by
  obtain ⟨fields, rfl, hframed, hanswered⟩ := h
  rw [walk_succ (drill_around hl.fits hframed)]
  have hperm := Fields.perm_flatMap_names hframed.1 hl.nodup
    (f := fun name child => (steps name child).flatMap fun s => below s.1 (walk n s.2)) ?_ ?_
  · refine hperm.trans (List.Perm.of_eq ?_)
    rw [choices, List.flatMap_map, List.flatMap_assoc]
    refine List.flatMap_congr fun a ha => ?_
    obtain ⟨answer, hget, hanswer⟩ := answered_around hl hanswered ha
    rw [Json.get?, hget, Option.map_some, Option.map_some, Option.getD_some, Option.getD_some]
    exact flatMap_steps (hl.fits a ha) (hl.reads a ha) hanswer n
  · intro name hname
    obtain ⟨a, ha, rfl⟩ := List.mem_map.mp hname
    obtain ⟨answer, hget, -⟩ := answered_around hl hanswered ha
    by_contra hnot
    rw [Fields.get?_eq_none.mpr hnot] at hget
    cases hget
  · intro m hm hnot
    -- a member beside the level's own is no marker, or the mirror would not be framed
    have hpayload : Marker.ofName m.1 = .payload := by
      by_contra hne
      have hmem := hframed.2 m.1 (List.mem_map_of_mem hm) hne
      rw [names_around] at hmem
      exact hnot hmem
    rw [steps_eq_nil hpayload, List.flatMap_nil]

def prepend (parts : List Part) (row : PathRow) : PathRow :=
  { row with parts := parts ++ row.parts }

theorem map_prepend_nil (rows : List PathRow) : rows.map (prepend []) = rows :=
  List.map_id'' (fun _ => rfl) rows

theorem below_map_prepend (part : Part) (parts : List Part) (rows : List PathRow) :
    below part (rows.map (prepend parts)) = rows.map (prepend (part :: parts)) := by
  simp only [below, List.map_map]
  rfl

theorem length_of_mem_passes {levels : List Level} {node : Json} {p : Pass}
    (hp : p ∈ passes levels node) : p.choices.length = levels.length := by
  induction levels generalizing node p with
  | nil =>
      rw [passes, List.mem_singleton] at hp
      rw [hp]
      rfl
  | cons level levels ih =>
      obtain ⟨c, -, hp⟩ := List.mem_flatMap.mp hp
      obtain ⟨q, hq, rfl⟩ := List.mem_map.mp hp
      rw [List.length_cons, List.length_cons, ih hq]

/-- A way through levels ends at the mirror of what is below them. -/
theorem mirrors_of_mem_passes {levels : List Level} (hl : ∀ l ∈ levels, l.Proper) {inner : Aggs}
    {node : Json} (h : (stack inner levels).Mirrors node) {p : Pass}
    (hp : p ∈ passes levels node) : inner.Mirrors p.node := by
  induction levels generalizing node p with
  | nil =>
      rw [passes, List.mem_singleton] at hp
      rw [hp]
      exact h
  | cons level levels ih =>
      obtain ⟨c, hc, hp⟩ := List.mem_flatMap.mp hp
      obtain ⟨q, hq, rfl⟩ := List.mem_map.mp hp
      have hc := mirrors_of_mem_choices (hl level (by simp)) h hc
      show inner.Mirrors q.node
      exact ih (fun l hmem => hl l (by simp [hmem])) hc hq

/-- **The rows through several levels are the rows below the ways through them.** -/
theorem walk_levels {levels : List Level} (hl : ∀ l ∈ levels, l.Proper) {inner : Aggs}
    {node : Json} (h : (stack inner levels).Mirrors node) (n : Nat) :
    (walk (levels.length + n) node).Perm
      ((passes levels node).flatMap fun p =>
        (walk n p.node).map (prepend (p.choices.map Choice.part))) := by
  -- on the levels: a choice at the first, and the ways through the others below it
  induction levels generalizing node with
  | nil =>
      rw [passes, List.flatMap_singleton, List.length_nil, Nat.zero_add, List.map_nil,
        map_prepend_nil]
  | cons level levels ih =>
      have hlevel := hl level (by simp)
      have hlevels : ∀ l ∈ levels, l.Proper := fun l hmem => hl l (by simp [hmem])
      have hlen : (level :: levels).length + n = levels.length + n + 1 := by
        rw [List.length_cons]
        omega
      rw [hlen]
      refine (walk_level hlevel h _).trans ?_
      rw [passes, List.flatMap_assoc]
      refine List.Perm.flatMap_left _ fun c hc => ?_
      have hrows := ih hlevels (mirrors_of_mem_choices hlevel h hc)
      refine (hrows.map _).trans (List.Perm.of_eq ?_)
      rw [List.map_flatMap, List.flatMap_map]
      refine List.flatMap_congr fun p _ => ?_
      rw [List.map_cons, ← below_map_prepend]
      rfl

end Level

end Tabula
