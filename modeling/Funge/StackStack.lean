import Funge.Stack

/-!
# The stack stack

The stacks of a pointer, one on top of the other. Instructions work on the top one; beginning a
block puts a new stack on top and ending it takes that stack off again, each with a transfer of
cells across. Where a transfer runs past the bottom of a stack, zeros are made up, up to a limit.
-/

namespace Funge

/-- Why an operation on the stack stack is refused. -/
inductive StackError where
  /-- There is no stack below the top one. -/
  | noSecondStack
  /-- The count asks for more zeros than are made up at once. -/
  | tooLarge (count : Cell)
deriving DecidableEq

def StackError.message : StackError → String
  | .noSecondStack => "stack-of-stacks has no second stack"
  | .tooLarge count => s!"stack count {count.toInt} is too large"

structure StackStack where
  /-- The stacks, top first. -/
  «stacks» : List Stack
deriving DecidableEq

namespace StackStack

/-- One empty stack. -/
def single : StackStack := ⟨[.empty]⟩

instance : Inhabited StackStack := ⟨single⟩

/-- Number of stacks. -/
def depth (ss : StackStack) : Nat := ss.stacks.length

/-- Sizes of the stacks, top first. -/
def sizes (ss : StackStack) : List Nat := ss.stacks.map Stack.size

/-- The top stack. -/
def top (ss : StackStack) : Stack := ss.stacks.headD .empty

/-- The stack below the top one. -/
def second? (ss : StackStack) : Option Stack := ss.stacks[1]?

def setTop (ss : StackStack) (s : Stack) : StackStack :=
  match ss.stacks with
  | [] => ss
  | _ :: rest => ⟨s :: rest⟩

def setSecond (ss : StackStack) (s : Stack) : StackStack :=
  match ss.stacks with
  | t :: _ :: rest => ⟨t :: s :: rest⟩
  | _ => ss

/-- Most zeros that one operation makes up. -/
def maxFill : Nat := 1 <<< 24

/-- Number of zeros to make up when `count` cells are taken from a stack of size `available`. -/
def shortfall (n : Cell) (available : Nat) : Except StackError Nat :=
  let zeros := n.toInt.natAbs - available
  if maxFill < zeros then .error (.tooLarge n) else .ok zeros

/-- Begins a block of `n` cells: a new stack goes on top, and the top `n` cells move there in
order, above zeros if there are fewer. A negative `n` leaves the new stack empty and puts `-n`
zeros on the old one. -/
def beginBlock (ss : StackStack) (n : Cell) : Except StackError Unit × StackStack :=
  let count := n.toInt.natAbs
  let old := ss.top.cells
  if 0 ≤ n then
    match shortfall n old.length with
    | .error e => (.error e, ss)
    | .ok fill =>
      let rest := ss.setTop ⟨old.drop count⟩
      (.ok (), ⟨⟨old.take count ++ List.replicate fill 0⟩ :: rest.stacks⟩)
  else
    match shortfall n 0 with
    | .error e => (.error e, ss)
    | .ok fill =>
      let rest := ss.setTop ⟨List.replicate fill 0 ++ old⟩
      (.ok (), ⟨.empty :: rest.stacks⟩)

/-- Ends a block: the top stack goes, and its top `n` cells move to the stack below in order,
above zeros if there are fewer. A negative `n` drops `-n` cells from the stack below. -/
def endBlock (ss : StackStack) (n : Cell) : Except StackError Unit × StackStack :=
  let count := n.toInt.natAbs
  match ss.stacks with
  | t :: u :: rest =>
    if 0 ≤ n then
      match shortfall n t.size with
      | .error e => (.error e, ss)
      | .ok fill => (.ok (), ⟨⟨t.cells.take count ++ List.replicate fill 0 ++ u.cells⟩ :: rest⟩)
    else (.ok (), ⟨⟨u.cells.drop count⟩ :: rest⟩)
  | _ => (.error .noSecondStack, ss)

/-- Moves the top `count` cells of one stack onto another one by one, and so in reverse order,
with `fill` zeros after them. -/
def pour (count fill : Nat) (source target : List Cell) : Stack × Stack :=
  (⟨source.drop count⟩, ⟨List.replicate fill 0 ++ ((source.take count).reverse ++ target)⟩)

/-- Moves `n` cells one by one from the second stack to the top one, or `-n` cells the other
way. -/
def transfer (ss : StackStack) (n : Cell) : Except StackError Unit × StackStack :=
  let count := n.toInt.natAbs
  match ss.stacks with
  | t :: u :: rest =>
    if 0 ≤ n then
      match shortfall n u.size with
      | .error e => (.error e, ss)
      | .ok fill =>
        let (u', t') := pour count fill u.cells t.cells
        (.ok (), ⟨t' :: u' :: rest⟩)
    else
      match shortfall n t.size with
      | .error e => (.error e, ss)
      | .ok fill =>
        let (t', u') := pour count fill t.cells u.cells
        (.ok (), ⟨t' :: u' :: rest⟩)
  | _ => (.error .noSecondStack, ss)

end StackStack

end Funge
