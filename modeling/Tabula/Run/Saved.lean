import Tabula.Digest.Sha1
import Tabula.Json.Canonical
import Tabula.Json.Printer
import Tabula.Text.Base64

/-!
# Saved queries

A saved query is found again by its name, a short digest of its canonical form (`queryId`): a
query that is saved twice, or with its members in another order, has one name. The first query
saved under a name stays (`Saved.save`).
-/

set_option autoImplicit false

namespace Tabula

/-- How many bytes of the digest a name keeps. -/
def idBytes : Nat := 6

def queryId (query : Json) : String :=
  let digest := Sha1.digest query.canonical.compact.toUTF8.toList
  String.ofList ((Base64.digits (digest.take idBytes)).map fun c => if c = '/' then '_' else c)

structure Saved where
  queries : Fields
  deriving Inhabited

namespace Saved

def empty : Saved := { queries := [] }

def find? (id : String) (s : Saved) : Option Json := s.queries.get? id

/-- Saves a query under its name, unless one is there. -/
def save (query : Json) (s : Saved) : Saved :=
  let id := queryId query
  if s.queries.has id then s else { queries := s.queries ++ [(id, query)] }

end Saved

end Tabula
