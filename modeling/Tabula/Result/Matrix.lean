import Tabula.Error
import Tabula.Result.Combine
import Tabula.Result.Formatted

/-!
# Matrices

A matrix holds a value for each coordinate of a cube. The cells are kept in one row, in the order
in which `Matrix.coordinates` lists the coordinates: the last component runs fastest. A cell that
is written twice holds both values combined.
-/

set_option autoImplicit false

namespace Tabula

structure Cell where
  value : Json
  written : Bool
  deriving Inhabited

structure Matrix where
  dims : List Nat
  cells : Array Cell
  deriving Inhabited

namespace Matrix

/-- The number of coordinates. A cube without dimensions has one. -/
def volume (dims : List Nat) : Nat := dims.foldr (· * ·) 1

/-- A matrix with the same value everywhere, however large. -/
def filled (dims : List Nat) (fill : Json) : Matrix :=
  { dims, cells := Array.replicate (volume dims) { value := fill, written := false } }

/-- Makes a matrix with the same value everywhere, unless it has more cells than a list can hold. -/
def new (dims : List Nat) (fill : Json) : QueryResult Matrix :=
  if capacity < volume dims then .error .tooLong else .ok (filled dims fill)

/-- Whether a coordinate has a component below each dimension. -/
def inside : List Nat → List Nat → Bool
  | [], [] => true
  | d :: dims, c :: coord => c < d && inside dims coord
  | _, _ => false

/-- The place of a coordinate in the row of cells. -/
def place : List Nat → List Nat → Nat
  | _ :: dims, c :: coord => c * volume dims + place dims coord
  | _, _ => 0

def offset (m : Matrix) (coord : List Nat) : QueryResult Nat :=
  if inside m.dims coord then .ok (place m.dims coord)
  else
    .error (.formatting (Text.natList coord)
      ("coordinate outside of cube with dimensions " ++ Text.natList m.dims))

def cell (m : Matrix) (i : Nat) : Cell := (m.cells[i]?).getD default

def get (m : Matrix) (coord : List Nat) : QueryResult Json := do
  .ok (m.cell (← m.offset coord)).value

def merge (m : Matrix) (coord : List Nat) (value : Json) (aggregate : Aggregate) :
    QueryResult Matrix := do
  let i ← m.offset coord
  let old := m.cell i
  let new := if old.written then aggregate.combine old.value value else value
  .ok { m with cells := m.cells.setIfInBounds i { value := new, written := true } }

/-! ## Nested arrays -/

/-- Cuts a list into a number of pieces of one length and turns each into a value. -/
def pieces (f : List Json → Json) (length : Nat) : Nat → List Json → List Json
  | 0, _ => []
  | n + 1, cells => f (cells.take length) :: pieces f length n (cells.drop length)

/-- Cells as nested arrays, one level for each dimension. Where an inner dimension is empty there
is nothing to nest below the first level but empty arrays. -/
def nest : List Nat → List Json → Json
  | [], cells | [_], cells => .arr cells
  | d :: dims, cells =>
      if volume dims = 0 then .arr (List.replicate d (.arr []))
      else .arr (pieces (nest dims) (volume dims) d cells)

/-- A matrix as nested arrays; without dimensions, its one value. -/
def toJson (m : Matrix) : Json :=
  let values := m.cells.toList.map (·.value)
  match m.dims with
  | [] => values.head?.getD .null
  | dims => nest dims values

/-- The coordinates of a cube, the last component running fastest. -/
def coordinates : List Nat → List (List Nat)
  | [] => [[]]
  | d :: dims =>
      let inner := coordinates dims
      (List.range d).flatMap fun i => inner.map (i :: ·)

end Matrix

end Tabula
