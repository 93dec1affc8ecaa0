import Tabula.Edge.Value
import Tabula.Options

/-!
# Tallies

The partitions of a discovered domain are the values that a response holds. A tally counts the
documents of each value as they are met (`Tally.add`) and then settles which values become
partitions, and in which order (`Tally.freeze`): by value when a direction is given, else the most
frequent first, and no more than the limit. What was counted before it was frozen is forgotten.
Documents are counted in 64 bits, and a count that exceeds them wraps around.
-/

set_option autoImplicit false

namespace Tabula

/-- Where a bucket belongs within an edge. -/
inductive Slot where
  | partition (index : Nat)
  /-- The last partition, of what is missing or out of the domain. -/
  | null
  /-- Nowhere: the row is dropped. -/
  | unknown
  deriving DecidableEq, Inhabited

structure TallyEntry where
  key : String
  value : Json
  docs : UInt64
  deriving Inhabited

/-- The partitions that were settled. -/
structure Frozen where
  retained : List TallyEntry
  /-- The values beyond the limit. -/
  beyond : List TallyEntry
  deriving Inhabited

/-- The values counted since the last freeze, and what it settled. -/
structure Tally where
  pending : List TallyEntry
  frozen : Option Frozen
  deriving Inhabited

namespace Tally

def empty : Tally := { pending := [], frozen := none }

/-- Adds documents to the entry of a value, which is new if the value was not met before. -/
def addTo (key : String) (value : Json) (docs : UInt64) : List TallyEntry → List TallyEntry
  | [] => [{ key, value, docs }]
  | e :: rest =>
      if e.key = key then { e with docs := e.docs + docs } :: rest
      else e :: addTo key value docs rest

def add (t : Tally) (value : Json) (docs : UInt64) : Tally :=
  { t with pending := addTo (valueKey value) value docs t.pending }

def entryLe (sort : Option Direction) (a b : TallyEntry) : Bool :=
  match sort with
  | some .asc => (compareValues a.value b.value).isLE
  | some .desc => (compareValues b.value a.value).isLE
  | none => ((compare b.docs a.docs).then (compareValues a.value b.value)).isLE

def freeze (t : Tally) (sort : Option Direction) (limit : Nat) : Tally :=
  let entries := t.pending.mergeSort (entryLe sort)
  { pending := []
    frozen := some { retained := entries.take limit, beyond := entries.drop limit } }

def partitions (t : Tally) : List Json :=
  match t.frozen with
  | some f => f.retained.map (·.value)
  | none => []

def value? (t : Tally) (i : Nat) : Option Json :=
  (t.frozen.bind fun f => f.retained[i]?).map (·.value)

def size (t : Tally) : Nat :=
  match t.frozen with
  | some f => f.retained.length
  | none => 0

def slot (t : Tally) (key : String) (policy : Overflow) : Slot :=
  match t.frozen with
  | none => .unknown
  | some f =>
      match f.retained.findIdx? (·.key == key) with
      | some i => .partition i
      | none =>
          if policy = .other && f.beyond.any (·.key == key) then .null else .unknown

/-- The number of documents that count as missing because of the limit. -/
def overflow (t : Tally) (policy : Overflow) : Option UInt64 :=
  match t.frozen, policy with
  | some f, .other =>
      if f.beyond.isEmpty then none else some ((f.beyond.map (·.docs)).foldr (· + ·) 0)
  | _, _ => none

end Tally

end Tabula
