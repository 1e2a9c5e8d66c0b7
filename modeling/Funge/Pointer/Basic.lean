import Funge.Fingerprint.Basic

/-!
# Pointers

A pointer walks the playfield and executes the cells it meets. It owns its stacks, the letters
bound by the fingerprints it has loaded, and its own instances of fingerprints. Pushes and pops
go to its top stack, at the ends that its flags say.
-/

namespace Funge

/-- An instruction bound to a letter, with the handprint of the fingerprint it came from. -/
structure Binding where
  code : Handprint
  instruction : Instruction

def Binding.describe (b : Binding) : String := "Binding(" ++ b.code.toHex ++ ")"

/-- The bindings of each letter, the last one loaded first. -/
structure Overrides where
  letters : Vector (List Binding) 26

namespace Overrides

def empty : Overrides := ⟨Vector.replicate 26 []⟩

def stack (o : Overrides) (letter : Fin 26) : List Binding := o.letters[letter]

def top? (o : Overrides) (letter : Fin 26) : Option Binding := (o.stack letter).head?

def push (o : Overrides) (letter : Fin 26) (b : Binding) : Overrides :=
  ⟨o.letters.set letter (b :: o.stack letter)⟩

def pop (o : Overrides) (letter : Fin 26) : Overrides :=
  ⟨o.letters.set letter (o.stack letter).tail⟩

end Overrides

structure Flags where
  string : Bool := false
  hover : Bool := false
  invert : Bool := false
  queue : Bool := false
  switch : Bool := false
deriving DecidableEq

namespace Flags

def mode (f : Flags) : Mode := { invert := f.invert, queue := f.queue }

def set (f : Flags) (flag : Flag) (on : Bool) : Flags :=
  match flag with
  | .string => { f with string := on }
  | .hover => { f with hover := on }
  | .invert => { f with invert := on }
  | .queue => { f with queue := on }
  | .switch => { f with switch := on }

def get (f : Flags) : Flag → Bool
  | .string => f.string
  | .hover => f.hover
  | .invert => f.invert
  | .queue => f.queue
  | .switch => f.switch

end Flags

structure Pointer where
  id : Nat
  dims : Nat
  «stacks» : StackStack
  position : Vec
  delta : Vec
  /-- Added to the points that the program names. -/
  offset : Vec
  flags : Flags
  alive : Bool
  overrides : Overrides
  instances : InstanceStore
  /-- The exit code with which the pointer has asked the machine to quit. -/
  quit : Option Cell

namespace Pointer

/-- A new pointer at the origin, heading along the first axis. -/
def start (id dims : Nat) : Pointer where
  id := id
  dims := max dims 1
  «stacks» := .single
  position := 0
  delta := Vec.unit 0 1
  offset := 0
  flags := {}
  alive := true
  overrides := .empty
  instances := .empty
  quit := none

/-- The stack that instructions work on. -/
def top (p : Pointer) : Stack := p.stacks.top

def setStacks (p : Pointer) (ss : StackStack) : Pointer := { p with «stacks» := ss }

def setTop (p : Pointer) (s : Stack) : Pointer := p.setStacks (p.stacks.setTop s)

def mode (p : Pointer) : Mode := p.flags.mode

def push (p : Pointer) (v : Cell) : Pointer := p.setTop (p.top.push v p.mode)

def pop (p : Pointer) : Cell × Pointer :=
  let (v, s) := p.top.pop p.mode
  (v, p.setTop s)

def pushMany (p : Pointer) (vs : List Cell) : Pointer := p.setTop (p.top.pushMany p.mode vs)

def pushVec (p : Pointer) (v : Vec) : Pointer := p.setTop (p.top.pushVec v p.dims p.mode)

def popVec (p : Pointer) : Vec × Pointer :=
  let (v, s) := p.top.popVec p.dims p.mode
  (v, p.setTop s)

def pushText (p : Pointer) (text : String) : Pointer := p.setTop (p.top.pushText text p.mode)

def popText (p : Pointer) : String × Pointer :=
  let (text, s) := p.top.popText p.mode
  (text, p.setTop s)

/-- Turns the pointer around. -/
def reflect (p : Pointer) : Pointer := { p with delta := -p.delta }

/-- Sets the direction, or adds to it in hover mode. -/
def go (p : Pointer) (delta : Vec) : Pointer :=
  { p with delta := if p.flags.hover then p.delta + delta else delta }

def stop (p : Pointer) : Pointer := { p with alive := false }

/-- Asks the machine to quit with an exit code. -/
def requestQuit (p : Pointer) (code : Cell) : Pointer := { p with quit := some code, alive := false }

end Pointer

end Funge
