import Funge.Semantics.Channel
import Funge.Semantics.Extension
import Funge.Semantics.Lifecycle
import Funge.Semantics.Operand
import Funge.Semantics.Path
import Funge.Semantics.Report

/-!
# Execution

What the instruction at a cell is, what it does, and the step of a pointer: execute the current
cell, be reflected if that fails, and move on.
-/

namespace Funge

namespace Instruction

/-- What an instruction does, with `iterate` left to its argument. -/
def perform (iterate : Action Unit) : Instruction → Action Unit
  | .operand o => Action.modifyPointer o.apply
  | .course c => do
    let p ← Action.attempt id (c.apply (← Action.pointer))
    Action.modifyPointer fun _ => p
  | .wander => Action.wander
  | .turn left => Action.turn left
  | .trampoline => Action.trampoline
  | .jump => Action.jump
  | .jumpOver => Action.jumpOver
  | .fetch => Action.fetch
  | .store => Action.store
  | .get => Action.getCell
  | .put => Action.putCell
  | .beginBlock => Action.beginBlock
  | .endBlock => Action.endBlock
  | .transfer => Action.transfer
  | .writeNumber radix => Action.writeNumber radix
  | .writeNumberIn => Action.writeNumberIn
  | .writeChar => Action.writeChar
  | .readNumber => Action.readNumber
  | .readNumberIn => Action.readNumberIn
  | .readChar => Action.readChar
  | .loadFile => Action.loadFile
  | .saveFile => Action.saveFile
  | .report => Action.report
  | .iterate => iterate
  | .stop => Action.stop
  | .quit => Action.quit
  | .split => Action.split
  | .loadSemantics => Action.loadSemantics
  | .unloadSemantics => Action.unloadSemantics
  | .refer => Action.refer
  | .dereference => Action.dereference
  | .markTimer => Action.markTimer
  | .readTimer => Action.readTimer
  | .eraseTimer => Action.eraseTimer
  | .microseconds => Action.microseconds
  | .refuse => throw .refused
  | .unsupported code => throw (.unsupported code)

end Instruction

/-- The instruction that a code stands for, if there is one: for an upper case letter the top
binding of the pointer, for any other code the entry of the table. -/
def World.instruction? (w : World) (p : Pointer) (code : Cell) :
    Except OpError (Option Instruction) :=
  match Cell.letterIndex? code with
  | some letter =>
    match p.overrides.top? letter with
    | some b => .ok (some b.instruction)
    | none => .error (.unbound (Char.ofNat (65 + letter)))
  | none => .ok ((w.table.get? code).map Entry.instruction)

namespace Action

def resolve (code : Cell) : Action (Option Instruction) := do
  attempt id ((← world).instruction? (← pointer) code)

/-- A code that stands for no instruction. -/
def unknown (code : Cell) : Action Unit := do
  match (← world).settings.unknown with
  | .warn =>
    let p ← pointer
    note (.unknownInstruction p.id p.position code)
  | .reflect => throw (.unsupported code)

/-- Repeats an action as long as it succeeds and the pointer lives. -/
def repeatAlive (action : Action Unit) : Nat → Focus → Except OpError Unit × Focus
  | 0, f => (.ok (), f)
  | n + 1, f =>
    match action f with
    | (.error e, f) => (.error e, f)
    | (.ok (), f) => if f.pointer.alive then repeatAlive action n f else (.ok (), f)

/-- Executes the next instruction a popped number of times from the current cell and goes on
after it, unless the instruction itself has moved the pointer. Zero times skips it. -/
def iterate (execute : Cell → Action Unit) : Action Unit := do
  let n ← pop
  let p ← pointer
  let target ← attempt .fatal (p.nextPosition (← world).space)
  if n = 0 then moveTo target
  else if n < 0 then throw (.invalidArgument n)
  else
    let code ← readSpace target
    (repeatAlive (execute code) n.toCount : Action Unit)
    let q ← pointer
    if q.alive ∧ q.position = p.position then moveTo target

/-- Executes a code. Iterations may be nested up to the given depth. -/
def execute : Nat → Cell → Action Unit
  | 0, _ => throw (.fatal (.fault .nesting))
  | depth + 1, code => do
    match ← resolve code with
    | some i => i.perform (iterate (execute depth))
    | none => unknown code

/-- Greatest depth of nested iterations. -/
def maxNesting : Nat := UInt32.size

end Action

namespace Focus

/-- Executes a code in place, without moving on. -/
def execute (f : Focus) (code : Cell) : Except OpError Unit × Focus :=
  Action.execute Action.maxNesting code f

/-- Moves the pointer on, if it is alive. -/
def advance (f : Focus) : Except MachineError Unit × Focus :=
  if f.pointer.alive then
    match f.pointer.nextPosition f.world.space with
    | .error e => (.error e, f)
    | .ok position => (.ok (), { f with pointer := { f.pointer with position } })
  else (.ok (), f)

/-- What a cell does in string mode: a quote ends the mode and all else is pushed. -/
def spell (f : Focus) (cell : Cell) : Focus :=
  { f with
    pointer :=
      if cell = Cell.quote then { f.pointer with flags := { f.pointer.flags with string := false } }
      else f.pointer.push cell }

/-- One step of the pointer. A failure that is not fatal reflects it. -/
def step (f : Focus) : Except MachineError Unit × Focus :=
  match f.world.space.get f.pointer.position with
  | .error e => (.error (.space e), f)
  | .ok cell =>
    if f.pointer.flags.string then (f.spell cell).advance
    else
      match (f.note (.executed f.pointer.id f.pointer.position cell)).execute cell with
      | (.ok (), f) => f.advance
      | (.error (.fatal e), f) => (.error e, f)
      | (.error e, f) =>
        let f := f.note (.reflected f.pointer.id f.pointer.position cell e)
        advance { f with pointer := f.pointer.reflect }

end Focus

end Funge
