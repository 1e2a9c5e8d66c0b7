import Funge.World

/-!
# Storage

Cells of the playfield named by the program, relative to the storage offset, and the blocks that
move the offset. A block saves the old offset on the stack below.
-/

namespace Funge.Action

/-- The point that the program means by a vector. -/
def stored (v : Vec) : Action Vec := return v + (← pointer).offset

def getCell : Action Unit := do push (← readSpace (← stored (← popVec)))

def putCell : Action Unit := do
  let v ← popVec
  let c ← pop
  writeSpace (← stored v) c

/-- The stack below the top one. -/
def second : Action Stack := do
  let p ← pointer
  match p.stacks.second? with
  | some s => return s
  | none => throw .noSecondStack

def setSecond (s : Stack) : Action Unit :=
  modifyPointer fun p => p.setStacks (p.stacks.setSecond s)

/-- Changes the stacks. They are kept as they are left, also when the change is refused. -/
def restack (change : StackStack → Except StackError Unit × StackStack) : Action Unit := do
  let (result, ss) := change (← pointer).stacks
  modifyPointer (·.setStacks ss)
  attempt .ofStack result

/-- The new offset is the cell after the current one. -/
def beginBlock : Action Unit := do
  let n ← pop
  restack (·.beginBlock n)
  let p ← pointer
  modifyPointer ({ · with offset := p.position + p.delta })
  setSecond ((← second).pushVec p.offset p.dims .normal)
  switchTo (Cell.ofChar '}')

/-- A count that is too large is refused before the saved offset is taken. -/
def endBlock : Action Unit := do
  let _ ← second
  let n ← pop
  let p ← pointer
  if StackStack.maxFill < n.toCount - p.top.size then throw (.invalidArgument n)
  let (offset, rest) := (← second).popVec p.dims .normal
  setSecond rest
  modifyPointer ({ · with offset })
  restack (·.endBlock n)
  switchTo (Cell.ofChar '{')

def transfer : Action Unit := do
  let _ ← second
  let n ← pop
  restack (·.transfer n)

end Funge.Action
