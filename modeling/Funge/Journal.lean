import Funge.Error

/-!
# The journal

What a machine records about its work. Each event has a level of severity, and only events of
at least the level that was asked for are kept.
-/

namespace Funge

/-- Severity of an event. -/
inductive Level where
  | trace
  | debug
  | warn
deriving DecidableEq

def Level.rank : Level → Nat
  | .trace => 0
  | .debug => 1
  | .warn => 2

def Level.name : Level → String
  | .trace => "TRACE"
  | .debug => "DEBUG"
  | .warn => "WARN"

inductive Event where
  | executed (pointer : Nat) (place : Vec) (code : Cell)
  | reflected (pointer : Nat) (place : Vec) (code : Cell) (error : OpError)
  | unknownInstruction (pointer : Nat) (place : Vec) (code : Cell)
  | fileLoaded (pointer : Nat) (path : String) (place size : Vec)
  | fileWritten (pointer : Nat) (path : String) (place size : Vec)
  | stopped (pointer : Nat) (place : Vec)
  | quitRequested (pointer : Nat) (code : Cell)
  | split (parent child : Nat) (place : Vec)
  | fingerprintLoaded (pointer : Nat) (name : String)
  | fingerprintUnloaded (pointer : Nat) (name : String)
  | spawned (pointer : Nat) (place : Vec)
  | quit (pointer : Nat) (code : Cell) (tick : Nat)
  | removed (pointer : Nat)
deriving DecidableEq

namespace Event

def level : Event → Level
  | .executed .. => .trace
  | .unknownInstruction .. => .warn
  | _ => .debug

def message : Event → String
  | .executed .. => "execute"
  | .reflected .. => "reflect"
  | .unknownInstruction .. => "unknown instruction"
  | .fileLoaded .. => "loaded file"
  | .fileWritten .. => "wrote file"
  | .stopped .. => "ip stopped"
  | .quitRequested .. => "quit requested"
  | .split .. => "split"
  | .fingerprintLoaded .. => "load fingerprint"
  | .fingerprintUnloaded .. => "unload fingerprint"
  | .spawned .. => "spawned"
  | .quit .. => "quit"
  | .removed .. => "ip removed"

/-- The name of a pointer. -/
def pointerName (id : Nat) : String := s!"ip#{id}"

/-- What the event tells, in order, each entry with its name. -/
def fields : Event → List (String × String)
  | .executed p v c => [("ip", pointerName p), ("at", v.toText), ("op", Cell.showCode c)]
  | .reflected p v c e =>
    [("ip", pointerName p), ("at", v.toText), ("op", Cell.showCode c), ("error", e.message)]
  | .unknownInstruction p v c =>
    [("ip", pointerName p), ("at", v.toText), ("op", Cell.showCode c)]
  | .fileLoaded p path v size =>
    [("ip", pointerName p), ("path", path), ("at", v.toText), ("size", size.toText)]
  | .fileWritten p path v size =>
    [("ip", pointerName p), ("path", path), ("at", v.toText), ("size", size.toText)]
  | .stopped p v => [("ip", pointerName p), ("at", v.toText)]
  | .quitRequested p c => [("ip", pointerName p), ("code", toString c.toInt)]
  | .split p c v => [("parent", pointerName p), ("child", pointerName c), ("at", v.toText)]
  | .fingerprintLoaded p name => [("ip", pointerName p), ("fingerprint", name)]
  | .fingerprintUnloaded p name => [("ip", pointerName p), ("fingerprint", name)]
  | .spawned p v => [("ip", pointerName p), ("at", v.toText)]
  | .quit p c tick =>
    [("ip", pointerName p), ("code", toString c.toInt), ("tick", Nat.repr tick)]
  | .removed p => [("ip", pointerName p)]

end Event

structure Journal where
  /-- The least level that is kept; nothing is kept without one. -/
  threshold : Option Level := none
  /-- The events kept since the last drain, newest first. -/
  recent : List Event := []
deriving DecidableEq

namespace Journal

def keeps (j : Journal) (e : Event) : Bool :=
  match j.threshold with
  | none => false
  | some l => l.rank ≤ e.level.rank

def record (j : Journal) (e : Event) : Journal :=
  if j.keeps e then { j with recent := e :: j.recent } else j

/-- Takes out the events, oldest first. -/
def drain (j : Journal) : List Event × Journal := (j.recent.reverse, { j with recent := [] })

end Journal

end Funge
