import Tabula.Query.Basic
import Tabula.Search.Aggregation

/-!
# Options

Limits and policies under which queries are compiled.
-/

set_option autoImplicit false

namespace Tabula

/-- What becomes of rows whose discovered value is beyond the limit of its edge. -/
inductive Overflow where
  /-- They are dropped. -/
  | drop
  /-- They count as missing. -/
  | other
  deriving DecidableEq, Inhabited

def Overflow.name : Overflow → String
  | drop => "drop"
  | other => "other"

structure Options where
  /-- The limit of a query that does not say. -/
  defaultLimit : Nat
  /-- The greatest limit that is granted. -/
  maxLimit : Option Nat
  overflow : Overflow
  keyOrder : KeyOrder
  deriving DecidableEq, Inhabited

namespace Options

def default : Options where
  defaultLimit := Query.defaultLimit
  maxLimit := none
  overflow := .drop
  keyOrder := .key

def forVersion (o : Options) (version : String) : Options :=
  { o with keyOrder := .ofVersion version }

/-- The most buckets of one aggregation: the partitions of a range, or the values of a union. -/
def bucketLimit (o : Options) : Nat := o.maxLimit.getD 10000

/-- The limit that is granted when some limit, or none, is asked for. -/
def limit (o : Options) (requested : Option Nat) : Nat :=
  let wanted := requested.getD o.defaultLimit
  match o.maxLimit with
  | some max => min wanted max
  | none => wanted

end Options

end Tabula
