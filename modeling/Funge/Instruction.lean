import Funge.Cell

/-!
# Instructions

What a cell can tell a pointer to do. The operands act on the top stack alone and cannot fail;
the courses act on direction and flags of the pointer and fail only for want of dimensions. All
other instructions reach further and stand by themselves.
-/

namespace Funge

/-- Operators on two cells. Quotients and remainders by zero are zero. -/
inductive BinaryOp where
  | add
  | sub
  | mul
  | div
  | rem
  | greater
  | and
  | or
  | xor
  /-- The remainder with the sign of the divisor. -/
  | floorRem
  /-- The magnitude of the remainder. -/
  | absRem
deriving DecidableEq

/-- Instructions that change the top stack and nothing else. -/
inductive Operand where
  | literal (value : Cell)
  | binary (op : BinaryOp)
  /-- One for zero and zero for all else. -/
  | logicalNot
  /-- All bits flipped. -/
  | complement
  | duplicate
  | swap
  | discard
  | clear
deriving DecidableEq

/-- The mode switches of a pointer. -/
inductive Flag where
  /-- Cells are pushed up to the closing quote. -/
  | string
  /-- A new direction is added to the old one. -/
  | hover
  /-- Pushes go to the bottom of the stack. -/
  | invert
  /-- Pops come from the bottom of the stack. -/
  | queue
  /-- Brackets turn into their counterpart when executed. -/
  | switch
deriving DecidableEq

/-- Instructions that set direction and flags of the pointer. -/
inductive Course where
  | nop
  /-- Forward or backward along an axis. -/
  | head (axis : Nat) (forward : Bool)
  /-- Forward along an axis if a zero is popped, else backward. -/
  | branch (axis : Nat)
  /-- A turn to the left if the lesser of two popped cells lies below, to the right if the
  greater does. -/
  | compare
  | reflect
  /-- The direction is popped. -/
  | absolute
  | raise (flag : Flag)
  | toggle (flag : Flag)
deriving DecidableEq

inductive Instruction where
  | operand (o : Operand)
  | course (c : Course)
  /-- A random direction along an axis. -/
  | wander
  | turn (left : Bool)
  /-- Skips a cell. -/
  | trampoline
  /-- Skips a popped number of cells. -/
  | jump
  /-- Skips to the next semicolon. -/
  | jumpOver
  /-- Pushes the next cell and skips it. -/
  | fetch
  /-- Pops into the next cell and skips it. -/
  | store
  | get
  | put
  | beginBlock
  | endBlock
  /-- Moves cells between the top two stacks. -/
  | transfer
  | writeNumber (radix : Nat)
  /-- Writes a number in a radix that is popped. -/
  | writeNumberIn
  | writeChar
  | readNumber
  /-- Reads a number in a radix that is popped. -/
  | readNumberIn
  | readChar
  | loadFile
  | saveFile
  /-- Pushes what the program can know about its surroundings. -/
  | report
  /-- Executes the next instruction a popped number of times. -/
  | iterate
  | stop
  | quit
  | split
  | loadSemantics
  | unloadSemantics
  /-- Trades a vector for a reference to it. -/
  | refer
  /-- Trades a reference for its vector. -/
  | dereference
  | markTimer
  | readTimer
  | eraseTimer
  /-- Pushes the microseconds of the current second. -/
  | microseconds
  /-- Fails. -/
  | refuse
  /-- An instruction that is known and not supported. -/
  | unsupported (code : Cell)
deriving DecidableEq

end Funge
