import Funge.Semantics.Course
import Funge.World

/-!
# Paths

Instructions that move the pointer along its path, and those that give it a direction with help
of the world.
-/

namespace Funge.Action

/-- The next cell of the path. -/
def adjacent : Action Vec := do
  attempt (fun fault => .fatal (.fault fault)) ((← pointer).adjacent (← world).space)

def trampoline : Action Unit := do moveTo (← adjacent)

def jump : Action Unit := do
  let n ← pop
  let p ← pointer
  moveTo ((← world).space.travel p.position p.delta n)

def jumpOver : Action Unit := do
  let p ← pointer
  let (result, p) := p.skipComment (← world).space p.position Pointer.pathBound
  modifyPointer fun _ => p
  attempt .fatal result

def fetch : Action Unit := do
  let next ← adjacent
  push (← readSpace next)
  moveTo next

def store : Action Unit := do
  let next ← adjacent
  writeSpace next (← pop)
  moveTo next

/-- Heads along an axis, one way or the other, by chance. -/
def wander : Action Unit := do
  let p ← pointer
  let host := (← world).host
  let (roll, dice) := host.dice.roll (p.dims * 2)
  setHost { host with dice }
  modifyPointer (·.go (Vec.unit (roll / 2) (if roll % 2 = 0 then 1 else -1)))

/-- The square brackets. -/
def turn (left : Bool) : Action Unit := do
  attempt id ((← pointer).requireDims 2)
  switchTo (Cell.ofChar (if left then ']' else '['))
  modifyPointer (·.turn left)

end Funge.Action
