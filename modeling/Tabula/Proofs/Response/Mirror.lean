import Tabula.Proofs.Response.Markers
import Tabula.Search.Aggregation

/-!
# Responses that mirror requests

`Aggs.Mirrors` says which nodes the backend may answer a tree of aggregations with: a filter and
a step are answered by one bucket, terms and ranges by a list of buckets, and each of these
mirrors the sub-aggregations. A metric is answered by any value. Beside the answers a node may
hold anything that is no marker, such as a key or a number of documents.
-/

set_option autoImplicit false

namespace Tabula

/-! ## Answers -/

/-- The form in which a kind of aggregation is answered. -/
inductive Shape where
  /-- One bucket. -/
  | single
  /-- A list of buckets. -/
  | several
  /-- No bucket, but any value. -/
  | value
  deriving DecidableEq

def AggKind.shape : AggKind → Shape
  | filter _ | nested _ | reverseNested _ | missing _ => .single
  | terms _ _ _ _ | range _ _ => .several
  | valueCount _ | cardinality _ | extendedStats _ | percentiles _ _ | accumulate _ => .value

/-- Members under distinct names, with no markers among them but some. -/
def Framed (markers : List String) (fields : Fields) : Prop :=
  (fields.map (·.1)).Nodup ∧
    ∀ name ∈ fields.map (·.1), Marker.ofName name ≠ .payload → name ∈ markers

mutual

/-- Whether a value answers an aggregation. -/
def Agg.Answered : Agg → Json → Prop
  | .node kind below, answer =>
      match kind.shape with
      | .single =>
          ∃ fields, answer = .obj fields ∧ Framed (below.map (·.1)) fields
            ∧ Aggs.Answered below fields
      | .several =>
          ∃ fields items, answer = .obj fields ∧ Framed [] fields
            ∧ Fields.get? "buckets" fields = some (.arr items)
            ∧ ∀ item ∈ items, ∃ members, item = .obj members
              ∧ Framed (below.map (·.1)) members ∧ Aggs.Answered below members
      | .value => True

/-- Whether members answer aggregations, each under its name. What is no marker may be anything. -/
def Aggs.Answered : List (String × Agg) → Fields → Prop
  | [], _ => True
  | (name, agg) :: rest, fields =>
      (∃ answer, Fields.get? name fields = some answer
        ∧ (Marker.ofName name = .payload ∨ Agg.Answered agg answer))
      ∧ Aggs.Answered rest fields

end

/-- Whether a node mirrors a tree of aggregations. -/
def Aggs.Mirrors (aggs : Aggs) (node : Json) : Prop :=
  ∃ fields, node = .obj fields ∧ Framed (aggs.map (·.1)) fields ∧ Aggs.Answered aggs fields

/-! ## Answers by shape -/

theorem Agg.answered_single {kind : AggKind} (h : kind.shape = .single) {below : Aggs}
    {answer : Json} : (Agg.node kind below).Answered answer ↔ below.Mirrors answer := by
  simp only [Agg.Answered, h, Aggs.Mirrors]

theorem Agg.answered_several {kind : AggKind} (h : kind.shape = .several) {below : Aggs}
    {answer : Json} :
    (Agg.node kind below).Answered answer ↔ ∃ fields items, answer = .obj fields
      ∧ Framed [] fields ∧ Fields.get? "buckets" fields = some (.arr items)
      ∧ ∀ item ∈ items, below.Mirrors item := by
  simp only [Agg.Answered, h, Aggs.Mirrors]

theorem Aggs.answered_iff {aggs : Aggs} {fields : Fields} :
    Aggs.Answered aggs fields ↔ ∀ a ∈ aggs, ∃ answer, Fields.get? a.1 fields = some answer
      ∧ (Marker.ofName a.1 = .payload ∨ a.2.Answered answer) := by
  induction aggs with
  | nil => simp [Aggs.Answered]
  | cons a aggs ih =>
      obtain ⟨name, agg⟩ := a
      simp only [Aggs.Answered, ih, List.forall_mem_cons]

/-! ## Wrappers -/

theorem framed_of_names (names markers : List String) {fields : Fields}
    (h : fields.map (·.1) = names) (hn : names.Nodup)
    (hm : ∀ name ∈ names, Marker.ofName name ≠ .payload → name ∈ markers) :
    Framed markers fields := by
  subst h
  exact ⟨hn, hm⟩

theorem Framed.get?_eq_none {markers : List String} {fields : Fields} (h : Framed markers fields)
    {name : String} (hm : Marker.ofName name ≠ .payload) (hn : name ∉ markers) :
    Fields.get? name fields = none :=
  Fields.get?_eq_none.mpr fun hmem => hn (h.2 name hmem hm)

/-- A node that is framed by other markers than those of wrappers is not drilled into. -/
theorem Framed.drill {markers : List String} {fields : Fields} (h : Framed markers fields)
    (hf : "_filter" ∉ markers) (hn : "_nested" ∉ markers) :
    Response.drill (.obj fields) = .obj fields :=
  Response.drill_obj (h.get?_eq_none (by decide) hf) (h.get?_eq_none (by decide) hn)

theorem Aggs.mirrors_wrap {name : String} (hm : Marker.ofName name ≠ .payload) {kind : AggKind}
    (hk : kind.shape = .single) {aggs : Aggs} {node : Json}
    (h : (aggs.wrap name kind).Mirrors node) :
    ∃ fields inner, node = .obj fields ∧ Framed [name] fields
      ∧ Fields.get? name fields = some inner ∧ aggs.Mirrors inner := by
  obtain ⟨fields, rfl, hframed, hanswered⟩ := h
  obtain ⟨inner, hinner, hpayload | hagg⟩ :=
    Aggs.answered_iff.mp hanswered (name, .node kind aggs) (by simp [Aggs.wrap])
  · exact absurd hpayload hm
  · exact ⟨fields, inner, rfl, hframed, hinner, (Agg.answered_single hk).mp hagg⟩

end Tabula
