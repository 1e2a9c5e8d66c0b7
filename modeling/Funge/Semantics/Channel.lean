import Funge.Semantics.Storage

/-!
# Channels

Input and output of characters, numbers and files.
-/

namespace Funge.Action

def writeChar : Action Unit := do
  let v ← pop
  setHost (← attempt .channel ((← world).host.writeChar v))

def writeNumber (radix : Nat) : Action Unit := do
  let v ← pop
  setHost (← attempt .channel ((← world).host.writeNumber v radix))

/-- A radix popped from the stack. -/
def popRadix : Action Nat := do
  let v ← pop
  if Numeral.radixOk (Cell.toCount v) then return Cell.toCount v else throw (.invalidArgument v)

def writeNumberIn : Action Unit := do writeNumber (← popRadix)

/-- Reads a number, skipping what comes before it. -/
def readNumberFrom (radix : Nat) : Action Unit := do
  let (value, host) ← attempt .channel ((← world).host.readNumber radix)
  setHost host
  match value with
  | some v => push v
  | none => throw .inputExhausted

def readNumber : Action Unit := readNumberFrom 10

def readNumberIn : Action Unit := do readNumberFrom (← popRadix)

def readChar : Action Unit := do
  let (value, host) := (← world).host.readChar
  setHost host
  match value with
  | some v => push v
  | none => throw .inputExhausted

/-- The lowest bit of a flag cell. -/
def lowBit (flags : Cell) : Bool := flags &&& 1 ≠ 0

/-- Loads a file, with the lowest flag as plain bytes, and pushes size and origin. -/
def loadFile : Action Unit := do
  let path ← popText
  let flags ← pop
  let origin ← popVec
  let w ← world
  let source ← attempt (fun e => .channel (.file e)) (w.host.folder.read path)
  let place ← stored origin
  let (result, space) := w.space.load place source (lowBit flags)
  modifyWorld ({ · with space })
  let size ← attempt .ofSpace result
  note (.fileLoaded (← pointer).id path place size)
  pushVec size
  pushVec origin

/-- Writes a region to a file, with the lowest flag in linear form. -/
def saveFile : Action Unit := do
  let path ← popText
  let flags ← pop
  let origin ← popVec
  let size ← popVec
  let place ← stored origin
  let w ← world
  let text ← attempt .ofSpace (w.space.dump place size (lowBit flags))
  let folder ← attempt (fun e => .channel (.file e)) (w.host.folder.write path text)
  setHost { w.host with folder }
  note (.fileWritten (← pointer).id path place size)

end Funge.Action
