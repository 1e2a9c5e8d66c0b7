import Funge.World

/-!
# Extensions

Loading and unloading of fingerprints, and the instructions of those fingerprints that keep
instances.
-/

namespace Funge.Action

/-- Folds a popped cell into a handprint. -/
def foldHandprint (code : Handprint) (v : Cell) : Handprint := (code <<< 8) + v.toUInt64.toUInt32

/-- Pops a count and as many cells, the first of which is the most significant. Past the bottom
of the stack four zeros suffice, since they shift out all that was there. -/
def popHandprint : Action Handprint := do
  let count ← pop
  if count ≤ 0 then throw (.invalidArgument count)
  let p ← pointer
  let cells ← draw fun p' =>
    let (vs, s) := p'.top.popMany p'.mode (min count.toCount (p.top.size + 4))
    (vs, p'.setTop s)
  return cells.foldl foldHandprint 0

def loadFingerprint (code : Handprint) : Action Unit := do
  let w ← world
  let (p, shared, f) ← attempt id ((← pointer).load w.registry w.shared code)
  modifyPointer fun _ => p
  modifyWorld ({ · with shared })
  note (.fingerprintLoaded p.id f.name)

def unloadFingerprint (code : Handprint) : Action Unit := do
  let (p, f) ← attempt id ((← pointer).unload (← world).registry code)
  modifyPointer fun _ => p
  note (.fingerprintUnloaded p.id f.name)

/-- Pushes the handprint and a one after a load. -/
def loadSemantics : Action Unit := do
  let code ← popHandprint
  loadFingerprint code
  switchTo (Cell.ofChar ')')
  push (Int64.ofNat code.toNat)
  push 1

def unloadSemantics : Action Unit := do
  unloadFingerprint (← popHandprint)
  switchTo (Cell.ofChar '(')

/-- The handprint of the fingerprint with references. -/
def referencesCode : Handprint := Handprint.ofName "REFC"

/-- The handprint of the fingerprint with a timer. -/
def timerCode : Handprint := Handprint.ofName "HRTI"

/-- The table of references, which is made when it is first used. -/
def references : Action (Array Vec) := do
  let w ← world
  let shared ← attempt id (w.shared.ensure w.registry referencesCode)
  modifyWorld ({ · with shared })
  match shared.get? referencesCode with
  | some (.references table) => return table
  | _ => throw (.unknownFingerprint referencesCode)

def refer : Action Unit := do
  let v ← popVec
  let table ← references
  modifyWorld fun w => { w with shared := w.shared.put referencesCode (.references (table.push v)) }
  push (Int64.ofNat table.size)

def dereference : Action Unit := do
  let r ← pop
  let table ← references
  match if r < 0 then none else table[r.toCount]? with
  | some v => pushVec v
  | none => throw (.outOfRange r)

/-- The mark of the pointer's timer, which is made when it is first used. -/
def timer : Action (Option Nat) := do
  let own ← attempt id ((← pointer).instances.ensure (← world).registry timerCode)
  modifyPointer ({ · with instances := own })
  match own.get? timerCode with
  | some (.timer mark) => return mark
  | _ => throw (.unknownFingerprint timerCode)

def setTimer (mark : Option Nat) : Action Unit :=
  modifyPointer fun p => { p with instances := p.instances.put timerCode (.timer mark) }

def markTimer : Action Unit := do
  let _ ← timer
  setTimer (some (← world).host.stopwatch)

/-- Pushes the microseconds since the mark. -/
def readTimer : Action Unit := do
  match ← timer with
  | some mark => push (Numeral.saturate ((← world).host.stopwatch - mark : Nat))
  | none => throw .timerNotMarked

def eraseTimer : Action Unit := do
  let _ ← timer
  setTimer none

def microseconds : Action Unit := do
  push (Int64.ofNat ((← world).host.now.nanosecond / 1000))

end Funge.Action
