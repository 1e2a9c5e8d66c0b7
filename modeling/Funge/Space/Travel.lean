import Funge.Space.Basic

/-!
# Travel along a line

A path that leaves the box around the live cells re-enters it on the opposite side, at the
first point of its line inside the box. `Space.wrap` finds that point from the point outside;
`Space.travel` takes any number of such steps at once.

All coordinates are words, so one division can overflow: the least cell by minus one. That is
a fault of the machine and not an answer.
-/

namespace Funge

/-- Conditions under which the machine itself breaks off. -/
inductive Fault where
  /-- The least cell was divided by minus one. -/
  | divideOverflow
  /-- A search along a path has no end. -/
  | endless
  /-- Iterations are nested too deeply. -/
  | nesting
deriving DecidableEq

def Fault.message : Fault → String
  | .divideOverflow => "attempt to divide with overflow"
  | .endless => "search without end"
  | .nesting => "iterations nested too deeply"

namespace Space

/-- Quotient of two cells, truncated toward zero. The divisor is not zero. -/
def divide (a b : Cell) : Except Fault Cell :=
  if a = Int64.minValue ∧ b = -1 then .error .divideOverflow else .ok (a / b)

/-- Number of steps of `d` from the side of the extent where a path with that step enters up to
coordinate `p`. -/
def stepsInside (extent : Cell × Cell) (p d : Cell) : Except Fault Cell :=
  divide (p - (if 0 < d then extent.1 else extent.2)) d

/-- Moves a point back along `delta` to where its path enters the box. -/
def wrap (s : Space) (position delta : Vec) : Except Fault Vec := do
  let moving := (List.range s.dims).filter fun i => delta.get i ≠ 0
  match moving.mapM fun i => (s.extent? i).map (i, ·) with
  | none => return position
  | some extents =>
    let steps : List Cell ←
      extents.mapM fun (i, e) => stepsInside e (position.get i) (delta.get i)
    match steps.min? with
    | none => return position
    | some n => return position - delta.scale n

/-- Least quotient that reaches `x` in steps of `d`, and so the quotient rounded up. -/
def ceilDiv (x d : Int) : Int := -((-x).fdiv d)

/-- The multiples `k` for which coordinate `p + k * d` lies in the extent. -/
def stepRange (extent : Cell × Cell) (p d : Cell) : Int × Int :=
  let below := extent.1.toInt - p.toInt
  let above := extent.2.toInt - p.toInt
  if 0 < d then (ceilDiv below d.toInt, above.fdiv d.toInt)
  else (ceilDiv above d.toInt, below.fdiv d.toInt)

def meet (a b : Int × Int) : Int × Int := (max a.1 b.1, min a.2 b.2)

/-- The point that `n` single steps along `delta` lead to, with wrapping at the edges of the
box. A negative `n` steps backwards. A point outside the box does not move. -/
def travel (s : Space) (position delta : Vec) (n : Cell) : Vec :=
  if delta.isZero || s.outside position then position
  else
    let ranges := (List.range s.dims).filterMap fun i =>
      if delta.get i = 0 then none
      else (s.extent? i).map fun e => stepRange e (position.get i) (delta.get i)
    match ranges with
    | [] => position
    | r :: rs =>
      let (lo, hi) := rs.foldl meet r
      let k := lo + (n.toInt - lo) % (hi - lo + 1)
      position + delta.scale (Int64.ofInt k)

end Space

end Funge
