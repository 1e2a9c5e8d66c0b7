import Funge.Instruction.Table
import Funge.Journal
import Funge.Pointer.Motion
import Funge.Pointer.Loading
import Funge.Settings
import Funge.Space.Text

/-!
# The world of a pointer

The world is what all pointers share. A pointer acts on it one instruction at a time; the pair
of the two is the focus of an action. An action that fails keeps the focus it has reached.
-/

namespace Funge

structure World where
  space : Space
  host : Host
  table : Table
  registry : Registry
  /-- The instances that all pointers share. -/
  shared : InstanceStore
  settings : Settings
  /-- Children made in the current tick, oldest first, each with the identity of its parent. -/
  newborns : Array (Pointer × Nat)
  /-- The identity of the next pointer. -/
  nextId : Nat
  journal : Journal

namespace World

/-- A world with a blank space. -/
def start (settings : Settings) (host : Host) (table : Table) (registry : Registry) : World where
  space := Space.empty settings.dims
  host := host
  table := table
  registry := registry
  shared := .empty
  settings := settings
  newborns := #[]
  nextId := 0
  journal := {}

def note (w : World) (e : Event) : World := { w with journal := w.journal.record e }

end World

/-- A pointer and the world it acts on. -/
structure Focus where
  pointer : Pointer
  world : World

def Focus.note (f : Focus) (e : Event) : Focus := { f with world := f.world.note e }

/-- What an instruction does. -/
abbrev Action := ExceptT OpError (StateM Focus)

namespace Action

def pointer : Action Pointer := return (← get).pointer

def world : Action World := return (← get).world

def modifyPointer (change : Pointer → Pointer) : Action Unit :=
  modify fun f => { f with pointer := change f.pointer }

def modifyWorld (change : World → World) : Action Unit :=
  modify fun f => { f with world := change f.world }

def note (e : Event) : Action Unit := modify (·.note e)

/-- Takes a value out of the pointer. -/
def draw {α : Type} (take : Pointer → α × Pointer) : Action α :=
  modifyGet fun f => let (a, p) := take f.pointer; (a, { f with pointer := p })

def pop : Action Cell := draw Pointer.pop

def popVec : Action Vec := draw Pointer.popVec

def popText : Action String := draw Pointer.popText

def push (v : Cell) : Action Unit := modifyPointer (·.push v)

def pushVec (v : Vec) : Action Unit := modifyPointer (·.pushVec v)

def moveTo (position : Vec) : Action Unit := modifyPointer ({ · with position })

/-- The value of a computation, or the failure of the instruction that its error stands for. -/
def attempt {ε α : Type} (failure : ε → OpError) : Except ε α → Action α
  | .ok a => return a
  | .error e => throw (failure e)

def readSpace (v : Vec) : Action Cell := do
  attempt .ofSpace ((← world).space.get v)

def writeSpace (v : Vec) (c : Cell) : Action Unit := do
  let space ← attempt .ofSpace ((← world).space.set v c)
  modifyWorld ({ · with space })

def setHost (host : Host) : Action Unit := modifyWorld ({ · with host })

/-- In switch mode, turns the current cell into another character. -/
def switchTo (mirror : Cell) : Action Unit := do
  let p ← pointer
  if p.flags.switch then writeSpace p.position mirror

end Action

end Funge
