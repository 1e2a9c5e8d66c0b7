import Funge.Pointer.Basic

/-!
# Courses

Direction and flags of a pointer. A direction along an axis that the pointer does not have is
refused before anything is popped.
-/

namespace Funge

/-- Turns a direction in the plane of the first two axes. -/
def turned (delta : Vec) (left : Bool) : Vec :=
  let x := delta.get 0
  let y := delta.get 1
  if left then (delta.set 0 y).set 1 (-x) else (delta.set 0 (-y)).set 1 x

namespace Pointer

/-- Turns the pointer by a right angle. -/
def turn (p : Pointer) (left : Bool) : Pointer := { p with delta := turned p.delta left }

def requireDims (p : Pointer) (needed : Nat) : Except OpError Unit :=
  if p.dims < needed then .error (.dimensions needed p.dims) else .ok ()

end Pointer

def Course.apply (c : Course) (p : Pointer) : Except OpError Pointer :=
  match c with
  | .nop => .ok p
  | .head axis forward => do
    p.requireDims (axis + 1)
    return p.go (Vec.unit axis (if forward then 1 else -1))
  | .branch axis => do
    p.requireDims (axis + 1)
    let (v, p) := p.pop
    return p.go (Vec.unit axis (if v = 0 then 1 else -1))
  | .compare => do
    p.requireDims 2
    let (b, p) := p.pop
    let (a, p) := p.pop
    return if a = b then p else p.turn (a < b)
  | .reflect => .ok p.reflect
  | .absolute =>
    let (delta, p) := p.popVec
    .ok { p with delta }
  | .raise flag => .ok { p with flags := p.flags.set flag true }
  | .toggle flag => .ok { p with flags := p.flags.set flag (!p.flags.get flag) }

end Funge
