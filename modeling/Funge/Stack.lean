import Funge.Vec

/-!
# Operand stacks

A stack of cells that never runs dry: past its bottom there are zeros. The mode of an access
says which end a push and a pop work on, independently of each other. Vectors and strings are
coded as runs of cells, so that what is pushed last is popped first.
-/

namespace Funge

/-- Which ends of a stack are used. -/
structure Mode where
  /-- Pushes go to the bottom. -/
  invert : Bool := false
  /-- Pops come from the bottom. -/
  queue : Bool := false
deriving DecidableEq

/-- The last-in first-out discipline. -/
def Mode.normal : Mode := {}

structure Stack where
  /-- The cells, top first. -/
  cells : List Cell
deriving DecidableEq

namespace Stack

def empty : Stack := ⟨[]⟩

instance : Inhabited Stack := ⟨empty⟩

/-- The stack with the given cells, bottom first. -/
def ofBottom (cells : List Cell) : Stack := ⟨cells.reverse⟩

/-- The cells of a stack, bottom first. -/
def toBottom (s : Stack) : List Cell := s.cells.reverse

def size (s : Stack) : Nat := s.cells.length

def isEmpty (s : Stack) : Bool := s.cells.isEmpty

def push (s : Stack) (v : Cell) (mode : Mode) : Stack :=
  if mode.invert then ⟨s.cells ++ [v]⟩ else ⟨v :: s.cells⟩

/-- The cells in the order in which they are popped. -/
def inPopOrder (s : Stack) (mode : Mode) : List Cell :=
  if mode.queue then s.cells.reverse else s.cells

/-- The stack from which the given cells are popped in turn. -/
def ofPopOrder (mode : Mode) (cells : List Cell) : Stack :=
  if mode.queue then ⟨cells.reverse⟩ else ⟨cells⟩

def pop (s : Stack) (mode : Mode) : Cell × Stack :=
  if mode.queue then (s.cells.getLastD 0, ⟨s.cells.dropLast⟩)
  else (s.cells.headD 0, ⟨s.cells.tail⟩)

/-- The `n`-th cell from the top, counted from zero. -/
def pick (s : Stack) (n : Nat) : Cell := s.cells.getD n 0

/-- Pops `n` cells, listed in the order in which they came. -/
def popMany (s : Stack) (mode : Mode) : Nat → List Cell × Stack
  | 0 => ([], s)
  | n + 1 =>
    let (v, s) := s.pop mode
    let (vs, s) := s.popMany mode n
    (v :: vs, s)

def pushMany (s : Stack) (mode : Mode) (vs : List Cell) : Stack :=
  vs.foldl (·.push · mode) s

/-- Pops a vector of `dims` components, the last component first. -/
def popVec (s : Stack) (dims : Nat) (mode : Mode) : Vec × Stack :=
  let (vs, s) := s.popMany mode dims
  (Vec.ofList vs.reverse, s)

/-- Pushes the first `dims` components of a vector, the first component first. -/
def pushVec (s : Stack) (v : Vec) (dims : Nat) (mode : Mode) : Stack :=
  s.pushMany mode (v.coordinates dims)

/-- Pushes a zero and then the characters of a text, the last one first. -/
def pushText (s : Stack) (text : String) (mode : Mode) : Stack :=
  (s.push 0 mode).pushMany mode (text.toList.reverse.map Cell.ofChar)

/-- Pushes texts, the last one first. -/
def pushTexts (s : Stack) (texts : List String) (mode : Mode) : Stack :=
  texts.reverse.foldl (·.pushText · mode) s

/-- The character a cell of a string stands for. -/
def textChar (c : Cell) : Char := (Cell.toChar? c).getD '\uFFFD'

/-- Pops the characters of a text up to and including the zero that ends it. -/
def popText (s : Stack) (mode : Mode) : String × Stack :=
  let (text, rest) := (s.inPopOrder mode).span (· ≠ 0)
  (String.ofList (text.map textChar), ofPopOrder mode (rest.drop 1))

end Stack

end Funge
