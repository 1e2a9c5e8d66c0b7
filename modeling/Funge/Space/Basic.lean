import Funge.Vec
import Funge.Space.Occupancy

/-!
# The playfield

A space of a fixed number of dimensions in which all but finitely many cells are blank. Only
the other cells are stored. Each axis counts the live cells at each of its coordinates, so the
box around them is known without a search.
-/

namespace Funge

/-- Why a request to the playfield is refused. -/
inductive SpaceError where
  /-- The point has a nonzero component beyond the dimensions of the space. -/
  | dimension (point : Vec) (dims : Nat)
  /-- A region of this size has too many cells to be written out. -/
  | tooLarge (size : Vec)
deriving DecidableEq

def SpaceError.message : SpaceError → String
  | .dimension point dims =>
    s!"vector {point.toText} does not fit in {dims}-dimensional space"
  | .tooLarge size => s!"region of size {size.toText} is too large to dump"

structure Space where
  dims : Nat
  /-- The cells that are not blank, in the order of their points. -/
  cells : Std.TreeMap Vec Cell
  /-- The occupancy of each axis. -/
  axes : List Occupancy

namespace Space

/-- The blank space. It has at least one dimension. -/
def empty (dims : Nat) : Space :=
  { dims := max dims 1, cells := ∅, axes := List.replicate (max dims 1) .empty }

/-- Number of live cells. -/
def size (s : Space) : Nat := s.cells.size

def isEmpty (s : Space) : Bool := s.cells.isEmpty

/-- The live cells with their coordinates, in lexicographic order. -/
def toList (s : Space) : List (Vec × Cell) := s.cells.toList

/-- The value at a point, whether or not the point fits. -/
def peek (s : Space) (v : Vec) : Cell := s.cells.getD v Cell.blank

/-- Reads a cell. -/
def get (s : Space) (v : Vec) : Except SpaceError Cell :=
  if v.fits s.dims then .ok (s.peek v) else .error (.dimension v s.dims)

/-- Writes a cell at a point that fits. A blank takes the cell off the record. -/
def write (s : Space) (v : Vec) (c : Cell) : Space :=
  if c = Cell.blank then
    if s.cells.contains v then
      { s with
        cells := s.cells.erase v
        axes := List.zipWith Occupancy.remove s.axes (v.coordinates s.dims) }
    else s
  else
    { s with
      cells := s.cells.insert v c
      axes :=
        if s.cells.contains v then s.axes
        else List.zipWith Occupancy.add s.axes (v.coordinates s.dims) }

/-- Writes a cell. -/
def set (s : Space) (v : Vec) (c : Cell) : Except SpaceError Space :=
  if v.fits s.dims then .ok (s.write v c) else .error (.dimension v s.dims)

/-- Least and greatest coordinate of the live cells on an axis. -/
def extent? (s : Space) (axis : Nat) : Option (Cell × Cell) :=
  s.axes[axis]?.bind Occupancy.extent?

/-- Least and greatest corner of the box around the live cells. -/
def bounds? (s : Space) : Option (Vec × Vec) :=
  (s.axes.mapM Occupancy.extent?).map fun extents =>
    (Vec.ofList (extents.map Prod.fst), Vec.ofList (extents.map Prod.snd))

/-- The point lies outside the box around the live cells. -/
def outside (s : Space) (v : Vec) : Bool :=
  !v.fits s.dims || (s.axes.zip (v.coordinates s.dims)).any fun (o, c) => o.excludes c

end Space

end Funge
