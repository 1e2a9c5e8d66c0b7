import Funge.Cell
import Std.Data.TreeMap

/-!
# Occupancy of an axis

For one axis of the playfield: how many live cells there are at each coordinate, and the least
and the greatest coordinate with any. A coordinate is listed exactly as long as its count is
positive. The extent is kept up with each cell that comes, and looked up again only when the last
cell at one of its ends goes.
-/

namespace Funge

structure Occupancy where
  /-- Number of live cells at each coordinate. -/
  counts : Std.TreeMap Cell Nat
  /-- Least and greatest occupied coordinate. -/
  extent? : Option (Cell × Cell)

namespace Occupancy

def empty : Occupancy := ⟨∅, none⟩

/-- Least and greatest listed coordinate. -/
def edges (counts : Std.TreeMap Cell Nat) : Option (Cell × Cell) :=
  match counts.minKey?, counts.maxKey? with
  | some lo, some hi => some (lo, hi)
  | _, _ => none

/-- The extent with one more coordinate in it. -/
def widen (c : Cell) : Option (Cell × Cell) → Cell × Cell
  | some (lo, hi) => (min lo c, max hi c)
  | none => (c, c)

/-- One more cell at coordinate `c`. -/
def add (o : Occupancy) (c : Cell) : Occupancy where
  counts := o.counts.insert c (o.counts.getD c 0 + 1)
  extent? := some (widen c o.extent?)

/-- The coordinate is an end of the extent. -/
def atEdge (o : Occupancy) (c : Cell) : Bool :=
  match o.extent? with
  | some (lo, hi) => c = lo || c = hi
  | none => false

/-- One cell fewer at coordinate `c`. -/
def remove (o : Occupancy) (c : Cell) : Occupancy :=
  match o.counts[c]? with
  | none => o
  | some (n + 2) => { o with counts := o.counts.insert c (n + 1) }
  | some _ =>
    let counts := o.counts.erase c
    { counts, extent? := if o.atEdge c then edges counts else o.extent? }

/-- The coordinate lies outside the extent; every coordinate does when no cell is live. -/
def excludes (o : Occupancy) (c : Cell) : Bool :=
  match o.extent? with
  | some (lo, hi) => c < lo || hi < c
  | none => true

end Occupancy

end Funge
