import Funge.Pointer.Basic

/-!
# Motion of pointers

After each instruction a pointer moves on to the next cell that it can execute, skipping blanks
and what stands between semicolons. In string mode semicolons mean nothing, and blanks are
skipped only from a blank, so that a run of them counts one.

The searches walk one line of words and keep one bit and one point of memory, so they have a
bounded number of states. Their bounds are those numbers: a search that passes its bound has no
end.
-/

namespace Funge.Pointer

/-- Where a search looks next. -/
inductive Landing where
  /-- The search is over. -/
  | final (point : Vec)
  /-- The search goes on at a point inside the box, and the path first wrapped at `entry`. -/
  | visit (point : Vec) (entry : Option Vec)

/-- Brings a point of the path into the box. The search is over when that fails and when the
path wraps to where it first did. -/
def land (s : Space) (delta point : Vec) (entry : Option Vec) : Except Fault Landing :=
  if s.outside point then do
    let wrapped ← s.wrap point delta
    if s.outside wrapped || entry = some wrapped then return .final wrapped
    else return .visit wrapped (entry.or (some wrapped))
  else return .visit point entry

/-- Bound on the steps of a search: words times comment states, once before and once after the
first wrap. -/
def scanBound : Nat := UInt64.size * 2 * 2

/-- Searches the path from a point on for a cell to stop at. -/
def scan (s : Space) (delta : Vec) (string startBlank : Bool) :
    Nat → Vec → Bool → Option Vec → Except Fault Vec
  | 0, _, _, _ => .error .endless
  | bound + 1, point, inComment, entry =>
    match land s delta point entry with
    | .error fault => .error fault
    | .ok (.final p) => .ok p
    | .ok (.visit p entry') =>
      let cell := s.peek p
      if cell = Cell.semicolon && !string then
        scan s delta string startBlank bound (p + delta) (!inComment) entry'
      else if inComment || (cell = Cell.blank && (!string || startBlank)) then
        scan s delta string startBlank bound (p + delta) inComment entry'
      else .ok p

/-- Searches from a point with the direction and the string flag of the pointer. -/
def search (p : Pointer) (s : Space) (point : Vec) (startBlank : Bool) :
    Except MachineError Vec :=
  (scan s p.delta p.flags.string startBlank scanBound point false none).mapError .fault

/-- The cell that the pointer moves to after executing the current one. -/
def nextPosition (p : Pointer) (s : Space) : Except MachineError Vec :=
  if p.delta.isZero then .ok p.position
  else do
    let cell ← (s.get p.position).mapError .space
    p.search s (p.position + p.delta) (cell = Cell.blank)

/-- Moves a new pointer to the first cell it can execute, the current one included. -/
def settle (p : Pointer) (s : Space) : Except MachineError Pointer :=
  if p.delta.isZero then .ok p
  else do
    let cell ← (s.get p.position).mapError .space
    if cell = Cell.blank ∨ cell = Cell.semicolon then
      return { p with position := ← p.search s p.position true }
    else return p

/-- The next cell of the path, whatever it holds. -/
def adjacent (p : Pointer) (s : Space) : Except Fault Vec :=
  let next := p.position + p.delta
  if s.outside next then s.wrap next p.delta else .ok next

/-- Bound on the cells of a path. -/
def pathBound : Nat := UInt64.size * 2

/-- Follows the path to the next semicolon or back to the start. Each step gives the pointer
moved there, and a failure leaves it where it got to. -/
def skipComment (s : Space) (home : Vec) : Nat → Pointer → Except MachineError Unit × Pointer
  | 0, p => (.error (.fault .endless), p)
  | bound + 1, p =>
    match p.adjacent s with
    | .error fault => (.error (.fault fault), p)
    | .ok next =>
      let moved := { p with position := next }
      if next = home then (.ok (), moved)
      else
        match s.get next with
        | .error e => (.error (.space e), moved)
        | .ok cell =>
          if cell = Cell.semicolon then (.ok (), moved) else skipComment s home bound moved

/-- A child with its own copies of stacks and bindings and no instances, heading the opposite
way and moved to the first cell it can execute. -/
def split (p : Pointer) (id : Nat) (s : Space) : Except MachineError Pointer := do
  let child := { p with id := id, delta := -p.delta, alive := true, instances := .empty, quit := none }
  return { child with position := ← child.nextPosition s }

end Funge.Pointer
