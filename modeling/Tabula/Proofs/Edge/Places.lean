import Tabula.Proofs.Edge.Slots
import Tabula.Proofs.Edge.Tally
import Tabula.Proofs.Response.Offers

/-!
# The partitions that rows name

A row names a partition of an edge by its steps through it (`EdgeKind.Names`): by the value of a
bucket, by the index of a filter, by the beginning of an interval, or by a tuple of values. A row
runs over when its value was discovered and then dropped by the limit (`EdgeKind.Overflows`). What
`EdgeKind.slot` answers is told by these two (`EdgeKind.means_slot`), as long as the steps are
ones that the edge asked for and its domain has settled the values of the rows
(`EdgeKind.settled_settle`).
-/

set_option autoImplicit false

namespace Tabula

/-! ## Steps that an edge asks for -/

namespace Level

theorem offers_matchAndMissing {matched missing : AggKind} {part : Part}
    (h : Offers [(.matched, matched), (.missing, missing)] part) :
    (∃ n bucket, part = .matched n bucket) ∨ ∃ bucket, part = .missing bucket := by
  obtain ⟨a, ha, hmarker⟩ := h
  simp only [List.mem_cons, List.not_mem_nil, or_false] at ha
  rcases ha with rfl | rfl
  · cases part with
    | matched n bucket => exact Or.inl ⟨n, bucket, rfl⟩
    | _ => cases hmarker
  · cases part with
    | missing bucket => exact Or.inr ⟨bucket, rfl⟩
    | _ => cases hmarker

theorem offers_joins {filters : List Filter} {missing : AggKind} {part : Part}
    (h : Offers (joins 0 filters ++ [(.missing, missing)]) part) :
    (∃ i bucket, part = .join i bucket ∧ i < filters.length)
      ∨ ∃ bucket, part = .missing bucket := by
  obtain ⟨a, ha, hmarker⟩ := h
  rcases List.mem_append.mp ha with ha | ha
  · obtain ⟨i, f, hi, rfl⟩ := mem_joins.mp ha
    rw [Nat.zero_add] at hmarker
    cases part with
    | join j bucket =>
        cases hmarker
        exact Or.inl ⟨i, bucket, rfl, (List.getElem?_eq_some_iff.mp hi).1⟩
    | _ => cases hmarker
  · rw [List.mem_singleton.mp ha] at hmarker
    cases part with
    | missing bucket => exact Or.inr ⟨bucket, rfl⟩
    | _ => cases hmarker

theorem offers_range {inside outside missing : AggKind} {part : Part}
    (h : Offers [(.matched, inside), (.other, outside), (.missing, missing)] part) :
    (∃ n bucket, part = .matched n bucket) ∨ ∀ i bucket, part ≠ .join i bucket := by
  obtain ⟨a, ha, hmarker⟩ := h
  simp only [List.mem_cons, List.not_mem_nil, or_false] at ha
  cases part with
  | matched n bucket => exact Or.inl ⟨n, bucket, rfl⟩
  | missing bucket => exact Or.inr (by simp)
  | other => exact Or.inr (by simp)
  | join i bucket => rcases ha with rfl | rfl | rfl <;> cases hmarker

theorem forall₂_singleton {level : Level} {own : List Part}
    (h : List.Forall₂ Offers [level] own) : ∃ part, own = [part] ∧ level.Offers part := by
  obtain ⟨part, rest, hpart, hrest, rfl⟩ := List.forall₂_cons_left_iff.mp h
  rw [List.forall₂_nil_left_iff.mp hrest]
  exact ⟨part, rfl, hpart⟩

end Level

namespace EdgeKind

/-- Whether the steps of a row through an edge are ones that the edge asked for. -/
def Offered (kind : EdgeKind) (own : List Part) : Prop := List.Forall₂ Level.Offers kind.asks own

end EdgeKind

/-! ## Discovered domains -/

structure Discovery where
  sort : Option Direction
  limit : Nat
  policy : Overflow
  tally : Tally

namespace EdgeKind

def discovery? : EdgeKind → Option Discovery
  | value e => some { sort := e.sort, limit := e.limit, policy := e.policy, tally := e.tally }
  | tuple e => some { sort := e.sort, limit := e.limit, policy := e.policy, tally := e.tally }
  | set _ | range _ | span _ => none

/-- The value that the steps of a row stand for in a discovered domain: the key of the bucket, or
the tuple of the keys when they are not all null. -/
def stands? : EdgeKind → List Part → Option Json
  | value _, .matched _ bucket :: _ => some (Response.bucketKey bucket)
  | tuple _, parts =>
      if parts.all fun part => part.key.isNull then none else some (.arr (parts.map Part.key))
  | _, _ => none

/-- The value that a row adds to a discovered domain, and the number of its documents. -/
def met? : EdgeKind → List Part → Option (Json × UInt64)
  | value _, .matched n bucket :: _ =>
      some ((Part.matched n bucket).key, (Part.matched n bucket).docCount.toUInt64)
  | tuple _, parts =>
      (TupleEdge.tuple? parts).map fun tuple =>
        (tuple, ((parts.getLast?.map Part.docCount).getD 0).toUInt64)
  | _, _ => none

/-- A kind whose domain has counted some values, each with the number of its documents, and
settled. -/
def settle (met : List (Json × UInt64)) : EdgeKind → EdgeKind
  | value e => value { e with tally := (e.tally.addAll met).freeze e.sort e.limit }
  | tuple e => tuple { e with tally := (e.tally.addAll met).freeze e.sort e.limit }
  | kind => kind

theorem met?_tuple (e : TupleEdge) (parts : List Part) :
    (tuple e).met? parts = (TupleEdge.tuple? parts).map fun t =>
      (t, ((parts.getLast?.map Part.docCount).getD 0).toUInt64) := by
  cases parts <;> rfl

theorem met?_count (kind : EdgeKind) (own : List Part) : (kind.count own).met? = kind.met? := by
  funext parts
  cases kind with
  | value e =>
      cases own with
      | nil => rfl
      | cons part own =>
          cases parts with
          | nil => rfl
          | cons part' parts => cases part' <;> rfl
  | tuple e =>
      rw [count_tuple]
      cases parts <;> rfl
  | set e => cases own <;> rfl
  | range e => cases own <;> rfl
  | span e => cases own <;> rfl

/-- A row that is counted is one more value to settle, or none. -/
theorem settle_count (kind : EdgeKind) (own : List Part) (met : List (Json × UInt64)) :
    (kind.count own).settle met = kind.settle ((kind.met? own).toList ++ met) := by
  cases kind with
  | value e =>
      cases own with
      | nil => rfl
      | cons part own => cases part <;> rfl
  | tuple e =>
      rw [count_tuple, met?_tuple, TupleEdge.count]
      cases TupleEdge.tuple? own with
      | none => rfl
      | some t => rfl
  | set e => cases own <;> rfl
  | range e => cases own <;> rfl
  | span e => cases own <;> rfl

/-- **Counting rows and settling** adds what the rows met and touches nothing else. -/
theorem doneCount_foldl_count (kind : EdgeKind) (rows : List (List Part)) :
    (rows.foldl count kind).doneCount = kind.settle (rows.filterMap kind.met?) := by
  induction rows generalizing kind with
  | nil => cases kind <;> rfl
  | cons own rows ih =>
      rw [List.foldl_cons, ih, met?_count, settle_count, List.filterMap_cons]
      cases kind.met? own with
      | none => rfl
      | some m => rfl

section Settle

variable (met : List (Json × UInt64)) (kind : EdgeKind)

theorem discovery?_settle : (kind.settle met).discovery?
    = kind.discovery?.map fun d =>
      { d with tally := (d.tally.addAll met).freeze d.sort d.limit } := by
  cases kind <;> rfl

theorem stands?_settle : (kind.settle met).stands? = kind.stands? := by
  funext parts
  cases kind with
  | value e =>
      cases parts with
      | nil => rfl
      | cons part parts => cases part <;> rfl
  | tuple e => cases parts <;> rfl
  | set e => rfl
  | range e => rfl
  | span e => rfl

theorem asks_settle : (kind.settle met).asks = kind.asks := by cases kind <;> rfl

theorem sound_settle : (kind.settle met).Sound ↔ kind.Sound := by cases kind <;> rfl

end Settle

/-- Whether a discovered domain has settled the values that were met. -/
def Settled (met : List Json) (kind : EdgeKind) : Prop :=
  ∀ d, kind.discovery? = some d → ∃ f, Tally.Settled met d.sort d.tally f

/-- Whether nothing was counted in a domain yet, and it treats overflow by a policy. -/
def Fresh (policy : Overflow) (kind : EdgeKind) : Prop :=
  ∀ d, kind.discovery? = some d → d.tally = .empty ∧ d.policy = policy

/-- The kind of an edge is fresh and treats overflow as the options say. -/
theorem fresh_kind {catalog : Catalog} {options : Options} {limit : Nat} {e : Edge}
    {kind : EdgeKind} (h : e.kind catalog options limit = .ok kind) :
    kind.Fresh options.overflow := by
  intro d hd
  -- only the last three kinds discover their partitions
  cases made_of_kind h with
  | span _ => cases hd
  | set _ => cases hd
  | range _ => cases hd
  | dimension hmade =>
      obtain ⟨fields, -, hmade⟩ := Results.bind_eq_ok.mp hmade
      cases hmade
      cases hd
      exact ⟨rfl, rfl⟩
  | object hmade =>
      unfold TupleEdge.ofObject at hmade
      split at hmade
      next => cases hmade
      next =>
          cases hmade
          cases hd
          exact ⟨rfl, rfl⟩
  | value _ hmade =>
      obtain ⟨source, -, hmade⟩ := Results.bind_eq_ok.mp hmade
      obtain ⟨missing, -, hmade⟩ := Results.bind_eq_ok.mp hmade
      cases hmade
      cases hd
      exact ⟨rfl, rfl⟩

/-- **A fresh domain settles what it counts.** -/
theorem settled_settle {policy : Overflow} {kind : EdgeKind} (h : kind.Fresh policy)
    (met : List (Json × UInt64)) : (kind.settle met).Settled (met.map (·.1)) := by
  intro d hd
  rw [discovery?_settle] at hd
  obtain ⟨before, hbefore, rfl⟩ := Option.map_eq_some_iff.mp hd
  have hempty : Tally.Records [] before.tally.pending := by
    rw [(h before hbefore).1]
    exact Tally.records_nil
  exact Tally.settled_freeze (Tally.records_addAll hempty met) before.sort before.limit

/-! ## Naming a partition -/

/-- The value of a discovered partition, a tuple as an array. -/
def found? (i : Nat) (kind : EdgeKind) : Option Json := kind.discovery?.bind (·.tally.value? i)

/-- Whether the steps of a row through an edge name a partition. -/
def Names (kind : EdgeKind) (own : List Part) (i : Nat) : Prop :=
  match kind with
  | set e =>
      match e.selection with
      | .byValue _ _ => ∃ n bucket v, own = [.matched n bucket] ∧ e.partitions[i]? = some v
          ∧ valueKey v = valueKey (Response.bucketKey bucket)
      | .byFilter _ _ => ∃ bucket, own = [.join i bucket] ∧ i < e.partitions.length
  | range e => ∃ n bucket, own = [.matched n bucket]
      ∧ match (bucket.get? "from").bind Json.asFloat? with
        | some start => e.steps.indexOf start = some i
        | none => n = i ∧ i < e.steps.count
  | span e => ∃ bucket, own = [.join i bucket] ∧ i < e.steps.count
  | kind => ∃ v w, kind.stands? own = some v ∧ kind.found? i = some w ∧ valueKey w = valueKey v

/-- Whether a row stands for a value that was discovered and is dropped, because the limit kept no
partition for it. -/
def Overflows (kind : EdgeKind) (own : List Part) : Prop :=
  ∃ d v, kind.discovery? = some d ∧ d.policy = .drop ∧ kind.stands? own = some v
    ∧ ∀ i w, kind.found? i = some w → valueKey w ≠ valueKey v

/-- What a slot says of the steps of a row. -/
def Means (kind : EdgeKind) (own : List Part) : Slot → Prop
  | .partition i => kind.Names own i
  | .null => (∀ i, ¬ kind.Names own i) ∧ ¬ kind.Overflows own
  | .unknown => (∀ i, ¬ kind.Names own i) ∧ kind.Overflows own

theorem not_overflows {kind : EdgeKind} (h : kind.discovery? = none) (own : List Part) :
    ¬ kind.Overflows own := by
  rintro ⟨d, v, hd, -⟩
  rw [h] at hd
  cases hd

/-! ## What slots say -/

variable {own : List Part}

theorem means_slot_set {e : SetEdge} (hs : (set e).Sound) (ho : (set e).Offered own) :
    (set e).Means own ((set e).slot own) := by
  have hover : ¬ (set e).Overflows own := not_overflows rfl own
  cases hsel : e.selection with
  | byValue source missing =>
      simp only [Offered, asks, hsel] at ho
      obtain ⟨part, rfl, hpart⟩ := Level.forall₂_singleton ho
      rcases Level.offers_matchAndMissing hpart with ⟨n, bucket, rfl⟩ | ⟨bucket, rfl⟩
      · show (set e).Means _ (e.slot (.matched n bucket))
        rw [SetEdge.slot]
        -- of listed values with one key the last one takes the bucket
        cases hlast : SetEdge.lastPlace? (valueKey (Part.matched n bucket).key) 0 e.keys with
        | some i =>
            obtain ⟨-, hkey⟩ := SetEdge.getElem?_of_lastPlace? hlast
            rw [Nat.sub_zero, SetEdge.keys, List.getElem?_map] at hkey
            obtain ⟨v, hv, heq⟩ := Option.map_eq_some_iff.mp hkey
            simp only [Means, Names, hsel]
            exact ⟨n, bucket, v, rfl, hv, heq⟩
        | none =>
            refine ⟨fun i hi => ?_, hover⟩
            simp only [Names, hsel] at hi
            obtain ⟨m, other, v, heq, hv, hkey⟩ := hi
            cases heq
            have hmem : valueKey v ∈ e.keys := List.mem_map_of_mem (List.mem_of_getElem? hv)
            exact SetEdge.lastPlace?_eq_none hlast (hkey ▸ hmem)
      · refine ⟨fun i hi => ?_, hover⟩
        simp only [Names, hsel] at hi
        obtain ⟨_, _, _, heq, -⟩ := hi
        cases heq
  | byFilter filters missing =>
      simp only [Offered, asks, hsel] at ho
      simp only [Sound, hsel] at hs
      obtain ⟨part, rfl, hpart⟩ := Level.forall₂_singleton ho
      rcases Level.offers_joins hpart with ⟨i, bucket, rfl, hi⟩ | ⟨bucket, rfl⟩
      · rw [hs] at hi
        show (set e).Means _ (e.slot (.join i bucket))
        rw [SetEdge.slot, if_pos hi]
        simp only [Means, Names, hsel]
        exact ⟨bucket, rfl, hi⟩
      · refine ⟨fun i hi => ?_, hover⟩
        simp only [Names, hsel] at hi
        obtain ⟨_, heq, -⟩ := hi
        cases heq

theorem means_slot_range {e : RangeEdge} (ho : (range e).Offered own) :
    (range e).Means own ((range e).slot own) := by
  have hover : ¬ (range e).Overflows own := not_overflows rfl own
  obtain ⟨part, rfl, hpart⟩ := Level.forall₂_singleton ho
  -- no partition is named but by a matched bucket
  have hnone (hm : ∀ n bucket, part ≠ .matched n bucket) (i : Nat) :
      ¬ (range e).Names [part] i := by
    rintro ⟨n, bucket, heq, -⟩
    cases heq
    exact hm n bucket rfl
  cases part with
  | matched n bucket =>
      show (range e).Means _ (e.slot (.matched n bucket))
      cases hfrom : (bucket.get? "from").bind Json.asFloat? with
      | some start =>
          simp only [RangeEdge.slot, Scale.ofJson?_float, hfrom]
          cases hindex : e.steps.indexOf start with
          | some i => exact ⟨n, bucket, rfl, by rw [hfrom]; exact hindex⟩
          | none =>
              refine ⟨?_, hover⟩
              rintro i ⟨m, other, heq, hi⟩
              cases heq
              simp only [hfrom, hindex, reduceCtorEq] at hi
      | none =>
          -- without a lower bound the bucket goes by its place
          simp only [RangeEdge.slot, Scale.ofJson?_float, hfrom]
          split
          next i hi =>
              split at hi
              next hlt =>
                  cases hi
                  exact ⟨n, bucket, rfl, by rw [hfrom]; exact ⟨rfl, hlt⟩⟩
              next => cases hi
          next hi =>
              refine ⟨?_, hover⟩
              rintro i ⟨m, other, heq, hm⟩
              cases heq
              rw [hfrom] at hm
              obtain ⟨rfl, hlt⟩ := hm
              rw [if_pos hlt] at hi
              cases hi
  | missing bucket => exact ⟨hnone (by simp), hover⟩
  | other => exact ⟨hnone (by simp), hover⟩
  | join i bucket =>
      rcases Level.offers_range hpart with ⟨n, other, heq⟩ | hjoin
      · cases heq
      · exact absurd rfl (hjoin i bucket)

theorem means_slot_span {e : SpanEdge} (hs : (span e).Sound) (ho : (span e).Offered own) :
    (span e).Means own ((span e).slot own) := by
  have hs : e.overlaps.length = e.steps.count := hs
  obtain ⟨part, rfl, hpart⟩ := Level.forall₂_singleton ho
  rcases Level.offers_joins hpart with ⟨i, bucket, rfl, hi⟩ | ⟨bucket, rfl⟩
  · rw [hs] at hi
    show (span e).Means _ (e.slot (.join i bucket))
    rw [SpanEdge.slot, if_pos hi]
    exact ⟨bucket, rfl, hi⟩
  · refine ⟨?_, not_overflows rfl _⟩
    rintro i ⟨other, heq, -⟩
    cases heq

/-- A tuple of keys stands for itself when the steps are ones that its fields asked for. -/
theorem keysOf?_of_offered {fields : List TupleField} {limit : Nat}
    (h : List.Forall₂ Level.Offers
      (fields.map fun f => [(.matched, .terms (.column f.column) (some limit) none none),
        (.missing, .missing f.column)]) own) :
    TupleEdge.keysOf? own = some (own.map Part.key) := by
  rw [List.forall₂_map_left_iff] at h
  induction h with
  | nil => rfl
  | cons hpart _ ih =>
      rcases Level.offers_matchAndMissing hpart with ⟨n, bucket, rfl⟩ | ⟨bucket, rfl⟩
      · rw [TupleEdge.keysOf?, ih]
        · rfl
        · simp
        · simp
      · rw [TupleEdge.keysOf?, ih]
        · rfl
        · simp
        · simp

theorem tuple?_of_offered {e : TupleEdge} (ho : (tuple e).Offered own) :
    TupleEdge.tuple? own = (tuple e).stands? own := by
  have hkeys : TupleEdge.keysOf? own = some (own.map Part.key) := keysOf?_of_offered ho
  have hall : (own.map Part.key).all Json.isNull = own.all fun part => part.key.isNull := by
    rw [List.all_map]
    rfl
  have hstands : (tuple e).stands? own = if own.all fun part => part.key.isNull then none
      else some (.arr (own.map Part.key)) := by cases own <;> rfl
  rw [TupleEdge.tuple?, hkeys, hstands]
  simp only [hall]

/-- The value that a row adds is the one that it stands for. -/
theorem map_met?_of_offered {kind : EdgeKind} (ho : kind.Offered own) :
    (kind.met? own).map (·.1) = kind.stands? own := by
  cases kind with
  | value e =>
      obtain ⟨part, rfl, hpart⟩ := Level.forall₂_singleton ho
      rcases Level.offers_matchAndMissing hpart with ⟨n, bucket, rfl⟩ | ⟨bucket, rfl⟩
      · rfl
      · rfl
  | tuple e =>
      rw [met?_tuple, Option.map_map, ← tuple?_of_offered ho]
      exact Option.map_id'
  | set e => rfl
  | range e => rfl
  | span e => rfl

/-- In a discovered domain a row belongs where its value does. -/
theorem slot_of_discovery {kind : EdgeKind} {d : Discovery} (hd : kind.discovery? = some d)
    (ho : kind.Offered own) : kind.slot own = match kind.stands? own with
      | some v => d.tally.slot (valueKey v) d.policy
      | none => .null := by
  cases kind with
  | value e =>
      cases hd
      obtain ⟨part, rfl, hpart⟩ := Level.forall₂_singleton ho
      rcases Level.offers_matchAndMissing hpart with ⟨n, bucket, rfl⟩ | ⟨bucket, rfl⟩
      · rfl
      · rfl
  | tuple e =>
      cases hd
      rw [slot_tuple, ← tuple?_of_offered ho]
      rfl
  | set e => cases hd
  | range e => cases hd
  | span e => cases hd

theorem names_of_discovery {kind : EdgeKind} {d : Discovery} (hd : kind.discovery? = some d)
    {i : Nat} : kind.Names own i
      ↔ ∃ v w, kind.stands? own = some v ∧ d.tally.value? i = some w
        ∧ valueKey w = valueKey v := by
  cases kind with
  | value e =>
      cases hd
      rfl
  | tuple e =>
      cases hd
      rfl
  | set e => cases hd
  | range e => cases hd
  | span e => cases hd

theorem means_slot_discovery {kind : EdgeKind} {d : Discovery} (hd : kind.discovery? = some d)
    (ho : kind.Offered own) {met : List Json} {f : Frozen}
    (hf : Tally.Settled met d.sort d.tally f)
    (hm : ∀ v, kind.stands? own = some v → v ∈ met) : kind.Means own (kind.slot own) := by
  have hfound (i : Nat) : kind.found? i = d.tally.value? i := by
    rw [found?, hd]
    rfl
  rw [slot_of_discovery hd ho]
  cases hv : kind.stands? own with
  | none =>
      constructor
      · intro i hi
        obtain ⟨v, w, hv', -⟩ := (names_of_discovery hd).mp hi
        rw [hv] at hv'
        cases hv'
      · rintro ⟨d', v, -, -, hv', -⟩
        rw [hv] at hv'
        cases hv'
  | some v =>
      have hnames (hnone : ∀ i w, d.tally.value? i = some w → valueKey w ≠ valueKey v) (i : Nat) :
          ¬ kind.Names own i := by
        intro hi
        obtain ⟨v', w, hv', hw, hkey⟩ := (names_of_discovery hd).mp hi
        rw [hv] at hv'
        cases hv'
        exact hnone i w hw hkey
      simp only
      -- the tally knows the key as that of a partition, as one beyond the limit, or not
      cases hslot : d.tally.slot (valueKey v) d.policy with
      | partition i =>
          obtain ⟨w, hw, hkey⟩ := hf.slot_eq_partition_iff.mp hslot
          exact (names_of_discovery hd).mpr ⟨v, w, hv, hw, hkey⟩
      | null =>
          have hnone : ∀ i w, d.tally.value? i = some w → valueKey w ≠ valueKey v := by
            intro i w hw hkey
            rw [hf.slot_eq_partition_iff.mpr ⟨w, hw, hkey⟩] at hslot
            cases hslot
          refine ⟨hnames hnone, ?_⟩
          rintro ⟨d', v', hd', hdrop, hv', -⟩
          rw [hd] at hd'
          cases hd'
          rw [(hf.slot_eq_unknown_iff (hm v hv)).mpr ⟨hdrop, hnone⟩] at hslot
          cases hslot
      | unknown =>
          obtain ⟨hdrop, hnone⟩ := (hf.slot_eq_unknown_iff (hm v hv)).mp hslot
          refine ⟨hnames hnone, d, v, hd, hdrop, hv, fun i w hw => ?_⟩
          rw [hfound] at hw
          exact hnone i w hw

/-- **What a slot says of a row**: in a partition that the row names it, and elsewhere that the
row names none; nowhere, as opposed to among the missing, exactly when its value is dropped. -/
theorem means_slot {kind : EdgeKind} (hs : kind.Sound) (ho : kind.Offered own) {met : List Json}
    (hk : kind.Settled met) (hm : ∀ v, kind.stands? own = some v → v ∈ met) :
    kind.Means own (kind.slot own) := by
  cases kind with
  | set e => exact means_slot_set hs ho
  | range e => exact means_slot_range ho
  | span e => exact means_slot_span hs ho
  | value e =>
      obtain ⟨f, hf⟩ := hk _ rfl
      exact means_slot_discovery rfl ho hf hm
  | tuple e =>
      obtain ⟨f, hf⟩ := hk _ rfl
      exact means_slot_discovery rfl ho hf hm

/-- A row that names a partition does not run over. -/
theorem Names.not_overflows {kind : EdgeKind} {i : Nat} (h : kind.Names own i) :
    ¬ kind.Overflows own := by
  rintro ⟨d, v, hd, -, hv, hnone⟩
  obtain ⟨v', w, hv', hw, hkey⟩ := (names_of_discovery hd).mp h
  rw [hv] at hv'
  cases hv'
  refine hnone i w ?_ hkey
  rw [found?, hd]
  exact hw

end EdgeKind

/-! ## Decoders -/

namespace Decoder

/-- Why a decoder drops a row: it has no place for rows that name none of its partitions, or the
value of the row was dropped. -/
def Drops (d : Decoder) (own : List Part) : Prop :=
  (d.allowNulls = false ∧ ∀ i, ¬ d.kind.Names own i) ∨ (d.allowNulls = true ∧ d.kind.Overflows own)

/-- Whether a place is the one that a row means: the last one for a row that names no partition,
or else a partition that it names. -/
def Stands (d : Decoder) (own : List Part) (i : Nat) : Prop :=
  (i = d.partitionCount ∧ d.allowNulls = true ∧ ∀ j, ¬ d.kind.Names own j)
    ∨ (i < d.partitionCount ∧ d.kind.Names own i)

variable {d : Decoder} {parts : List Part}

theorem place?_eq_none_iff (h : d.kind.Means (d.own parts) (d.kind.slot (d.own parts))) :
    d.place? parts = none ↔ d.Drops (d.own parts) := by
  unfold place? Drops
  cases hslot : d.kind.slot (d.own parts) with
  | partition i =>
      rw [hslot] at h
      have hi : d.kind.Names (d.own parts) i := h
      have hnone : ¬ ∀ i, ¬ d.kind.Names (d.own parts) i := fun hnone => hnone i hi
      simp [hnone, hi.not_overflows]
  | null =>
      rw [hslot] at h
      obtain ⟨hnone, hover⟩ := h
      cases hnulls : d.allowNulls with
      | true => simp [hover]
      | false => simpa using hnone
  | unknown =>
      rw [hslot] at h
      obtain ⟨hnone, hover⟩ := h
      cases hnulls : d.allowNulls with
      | true => simp [hover]
      | false => simpa using hnone

theorem stands_of_place? (h : d.kind.Means (d.own parts) (d.kind.slot (d.own parts))) {i : Nat}
    (hi : d.place? parts = some i) : d.Stands (d.own parts) i := by
  unfold place? at hi
  cases hslot : d.kind.slot (d.own parts) with
  | partition j =>
      rw [hslot] at h hi
      cases hi
      exact Or.inr ⟨EdgeKind.slot_lt hslot, h⟩
  | null =>
      rw [hslot] at h hi
      cases hnulls : d.allowNulls with
      | true =>
          rw [hnulls] at hi
          cases hi
          exact Or.inl ⟨rfl, hnulls, h.1⟩
      | false =>
          rw [hnulls] at hi
          cases hi
  | unknown =>
      rw [hslot] at hi
      cases hi

end Decoder

end Tabula
