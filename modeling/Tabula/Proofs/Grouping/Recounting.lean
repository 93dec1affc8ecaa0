import Tabula.Proofs.Grouping.Placing

/-!
# Counting again

Decoders can count one response after another. Freezing a tally forgets what was pending and
replaces what was settled before, so a tally that is frozen again depends on nothing but what was
added in between (`Tally.freeze_addAll_congr`). Whatever was counted earlier is gone once the next
response is counted (`Decoder.counted_counted`), and after any number of responses the decoders are
what the last one makes of fresh ones (`countAll_afresh`).
-/

set_option autoImplicit false

namespace Tabula

open Response (walk)

/-! ## Tallies -/

namespace Tally

/-- What is pending after some values were added depends on what was pending before. -/
theorem pending_addAll_congr {t t' : Tally} (h : t.pending = t'.pending)
    (met : List (Json × UInt64)) : (t.addAll met).pending = (t'.addAll met).pending := by
  induction met generalizing t t' with
  | nil => exact h
  | cons m met ih =>
      apply ih
      show addTo (valueKey m.1) m.1 m.2 t.pending = addTo (valueKey m.1) m.1 m.2 t'.pending
      rw [h]

/-- **What was settled before does not matter** when a tally is frozen. -/
theorem freeze_addAll_congr {t t' : Tally} (h : t.pending = t'.pending) (met : List (Json × UInt64))
    (sort : Option Direction) (limit : Nat) :
    (t.addAll met).freeze sort limit = (t'.addAll met).freeze sort limit := by
  unfold freeze
  rw [pending_addAll_congr h]

end Tally

/-! ## Kinds of edges -/

namespace EdgeKind

/-- Whether nothing is pending in a discovered domain, be it settled or not. -/
def Idle (kind : EdgeKind) : Prop := ∀ d, kind.discovery? = some d → d.tally.pending = []

theorem Fresh.idle {policy : Overflow} {kind : EdgeKind} (h : kind.Fresh policy) : kind.Idle := by
  intro d hd
  rw [(h d hd).1]
  rfl

variable {kind : EdgeKind} (met : List (Json × UInt64))

theorem idle_settle : (kind.settle met).Idle := by
  intro d hd
  rw [discovery?_settle] at hd
  obtain ⟨before, -, rfl⟩ := Option.map_eq_some_iff.mp hd
  rfl

/-- Rows add to a domain what they add to it before it settles. -/
theorem met?_settle : (kind.settle met).met? = kind.met? := by
  funext parts
  cases kind with
  | value e =>
      cases parts with
      | nil => rfl
      | cons part parts => cases part <;> rfl
  | tuple e => cases parts <;> rfl
  | set e => rfl
  | range e => rfl
  | span e => rfl

/-- **Settling again** forgets what was settled before. -/
theorem settle_settle (h : kind.Idle) (met' : List (Json × UInt64)) :
    (kind.settle met).settle met' = kind.settle met' := by
  have htally {t : Tally} (ht : t.pending = []) (sort : Option Direction) (limit : Nat) :
      (((t.addAll met).freeze sort limit).addAll met').freeze sort limit
        = (t.addAll met').freeze sort limit := by
    apply Tally.freeze_addAll_congr
    rw [ht]
    rfl
  cases kind with
  | value e =>
      have htally := htally (h _ rfl) e.sort e.limit
      simp only [settle, htally]
  | tuple e =>
      have htally := htally (h _ rfl) e.sort e.limit
      simp only [settle, htally]
  | set e => rfl
  | range e => rfl
  | span e => rfl

end EdgeKind

/-! ## Decoders -/

namespace Decoder

def met (rows : List PathRow) (d : Decoder) : List (Json × UInt64) :=
  (rows.map fun row => d.own row.parts).filterMap d.kind.met?

/-- A decoder that has counted some rows is the same but for the domain that they settle. -/
theorem counted_eq (rows : List PathRow) (d : Decoder) :
    d.counted rows = { d with kind := d.kind.settle (d.met rows) } := by
  rw [met, ← kind_counted]
  rfl

/-- Having counted does not change what rows add. -/
theorem met_counted (rows rows' : List PathRow) (d : Decoder) :
    (d.counted rows).met rows' = d.met rows' := by
  unfold met
  rw [kind_counted, EdgeKind.met?_settle]
  simp only [own_counted]

/-- **Counting again**: a decoder is as if it had counted the later rows only. -/
theorem counted_counted {d : Decoder} (h : d.kind.Idle) (rows rows' : List PathRow) :
    (d.counted rows).counted rows' = d.counted rows' := by
  have hmet := met_counted rows rows' d
  rw [counted_eq rows' (d.counted rows), hmet, counted_eq rows d, counted_eq rows' d]
  simp only [EdgeKind.settle_settle (d.met rows) h]

theorem idle_counted (rows : List PathRow) (d : Decoder) : (d.counted rows).kind.Idle := by
  rw [counted_eq]
  exact EdgeKind.idle_settle _

end Decoder

/-! ## Responses -/

namespace Grouping

theorem countAll_counted {ds : List Decoder} (h : ∀ d ∈ ds, d.kind.Idle) (rows : List PathRow)
    (root : Json) : countAll root (ds.map (Decoder.counted rows)) = countAll root ds := by
  rw [countAll_eq, countAll_eq, levels_counted, List.map_map]
  apply congrArg
  apply List.map_congr_left
  intro d hd
  exact Decoder.counted_counted (h d hd) _ _

/-- Nor do any number of responses. -/
theorem countAll_foldlM {ds : List Decoder} (h : ∀ d ∈ ds, d.kind.Idle) (earlier : List Json) :
    ∃ before, earlier.foldlM (fun ds root => countAll root ds) ds = .ok before
      ∧ ∀ root, countAll root before = countAll root ds := by
  induction earlier generalizing ds with
  | nil => exact ⟨ds, rfl, fun _ => rfl⟩
  | cons first earlier ih =>
      have hidle : ∀ d ∈ ds.map (Decoder.counted (walk (levels ds) first)), d.kind.Idle := by
        intro d hd
        obtain ⟨e, -, rfl⟩ := List.mem_map.mp hd
        exact Decoder.idle_counted _ e
      obtain ⟨before, hbefore, hagain⟩ := ih hidle
      refine ⟨before, ?_, ?_⟩
      · rw [List.foldlM_cons, countAll_eq, Results.ok_bind]
        exact hbefore
      · intro root
        rw [hagain, countAll_counted h]

/-- **Counting starts afresh**: after any number of earlier responses, counting a response makes
the decoders of a plan what it makes of them when it is the only one, and counting it once more
changes nothing. Each of them has then settled what the response adds to its domain, which was
fresh, and is the same in all else. -/
theorem countAll_afresh {catalog : Catalog} {options : Options} {q : Query} {plan : GroupingPlan}
    (h : compile catalog options q = .ok plan) (earlier : List Json) (root : Json) :
    ∃ before alone,
      earlier.foldlM (fun ds response => countAll response ds) plan.decoders = .ok before
        ∧ countAll root plan.decoders = .ok alone
        ∧ countAll root before = .ok alone
        ∧ countAll root alone = .ok alone
        ∧ (∀ d ∈ plan.decoders, d.kind.Fresh options.overflow)
        ∧ alone = plan.decoders.map fun d =>
          { d with kind := d.kind.settle (d.met (walk (levels plan.decoders) root)) } := by
  have hfresh : ∀ d ∈ plan.decoders, d.kind.Fresh options.overflow := by
    obtain ⟨pieces, tree, hp, -, rfl⟩ := compile_eq_ok h
    exact Pieces.fresh_decoders hp
  have hidle : ∀ d ∈ plan.decoders, d.kind.Idle := fun d hd => (hfresh d hd).idle
  -- freezing leaves nothing pending, so that each response is counted as the first
  obtain ⟨before, hbefore, hagain⟩ := countAll_foldlM hidle earlier
  have hcount := countAll_eq root plan.decoders
  refine ⟨before, _, hbefore, hcount, ?_, ?_, hfresh, ?_⟩
  · rw [hagain, hcount]
  · rw [countAll_counted hidle, hcount]
  · apply List.map_congr_left
    intro d _
    exact Decoder.counted_eq _ d

/-- A response to the query of a limit of one, with other values than `limitedRoot` has. -/
def otherRoot : Json :=
  .obj [("_match", .obj [("buckets", .arr [valueBucket "y" 7, valueBucket "z" 3])]),
    ("_missing", sampleBucket)]

/-- The earlier response settles another partition and leaves nothing of it. -/
theorem countAll_afresh_limited :
    ∃ before, countAll otherRoot (limitedGrouping .other).decoders = .ok before
      ∧ before.map (fun d => d.kind.partitions) = [[.str "y"]]
      ∧ countAll limitedRoot before = .ok [limitedCounted .other]
      ∧ countAll limitedRoot [limitedCounted .other] = .ok [limitedCounted .other] := by
  obtain ⟨before, alone, hbefore, halone, hagain, htwice, -, -⟩ :=
    countAll_afresh (compile_limited .other) [otherRoot] limitedRoot
  cases halone.symm.trans (countAll_limited .other)
  obtain ⟨first, hfirst, hrest⟩ := Results.bind_eq_ok.mp hbefore
  cases hrest
  have hsettled := (countAll_eq otherRoot (limitedGrouping .other).decoders).symm.trans hfirst
  refine ⟨_, hfirst, ?_, hagain, htwice⟩
  cases hsettled
  cbv

end Grouping

end Tabula
