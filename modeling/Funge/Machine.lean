import Funge.Execution
import Funge.Fingerprint.Standard

/-!
# The machine

A machine runs its pointers in turn: a tick steps each live pointer once, in order. Children
born in a tick enter the list in front of their parent when the tick is over, and then the dead
leave it. A pointer that quits ends the tick on the spot, and the machine does nothing more.
-/

namespace Funge

structure Machine where
  world : World
  pointers : List Pointer
  ticks : Nat
  /-- The exit code, once the machine has quit. -/
  exit : Option Cell

namespace Machine

def start (settings : Settings) (host : Host) (table : Table) (registry : Registry) : Machine where
  world := World.start settings host table registry
  pointers := []
  ticks := 0
  exit := none

/-- A machine with the base language and the standard fingerprints. -/
def standard (settings : Settings) (host : Host) : Machine :=
  start settings host .standard .standard

def hasQuit (m : Machine) : Bool := m.exit.isSome

/-- The exit code; zero unless a pointer has quit with another. -/
def exitCode (m : Machine) : Cell := m.exit.getD 0

/-- Nothing is left to run. -/
def finished (m : Machine) : Bool := m.hasQuit || m.pointers.isEmpty

/-- Adds a new pointer on the first cell from the origin that it can execute. -/
def spawn (m : Machine) : Except MachineError Nat × Machine :=
  let id := m.world.nextId
  let world := { m.world with nextId := id + 1 }
  match (Pointer.start id world.settings.dims).settle world.space with
  | .error e => (.error e, { m with world })
  | .ok p =>
    (.ok id, { m with world := world.note (.spawned id p.position), pointers := m.pointers ++ [p] })

/-- Loads a program at the origin and starts a pointer on it. -/
def load (m : Machine) (source : List UInt8) : Except MachineError Nat × Machine :=
  let (result, space) := m.world.space.load 0 source false
  let m := { m with world := { m.world with space } }
  match result with
  | .error e => (.error (.space e), m)
  | .ok _ => m.spawn

/-- How a pass over the pointers ends. -/
inductive Pass where
  | complete
  | quit (pointer : Nat) (code : Cell)
  | failed (cause : MachineError)
deriving DecidableEq

/-- Steps the live pointers in order until one quits or fails. -/
def stepAll (w : World) : List Pointer → Pass × List Pointer × World
  | [] => (.complete, [], w)
  | p :: ps =>
    if p.alive then
      match Focus.step ⟨p, w⟩ with
      | (.error e, f) => (.failed e, f.pointer :: ps, f.world)
      | (.ok (), f) =>
        match f.pointer.quit with
        | some code => (.quit f.pointer.id code, f.pointer :: ps, f.world)
        | none =>
          let (pass, rest, w) := stepAll f.world ps
          (pass, f.pointer :: rest, w)
    else
      let (pass, rest, w) := stepAll w ps
      (pass, p :: rest, w)

/-- Puts a child in front of its parent, or in front of all if there is no parent. -/
def insertChild (pointers : List Pointer) (child : Pointer) (parent : Nat) : List Pointer :=
  pointers.insertIdx ((pointers.findIdx? (·.id = parent)).getD 0) child

/-- One tick. -/
def tick (m : Machine) : Except MachineError Unit × Machine :=
  if m.hasQuit then (.ok (), m)
  else
    let ticks := m.ticks + 1
    match stepAll m.world m.pointers with
    | (.failed e, pointers, world) => (.error e, { m with world, pointers, ticks })
    | (.quit id code, pointers, world) =>
      let world := { world.note (.quit id code ticks) with newborns := #[] }
      (.ok (), { world, pointers, ticks, exit := some code })
    | (.complete, pointers, world) =>
      let all := world.newborns.foldl (fun ps (child, parent) => insertChild ps child parent) pointers
      let dead := all.filter (!·.alive)
      let world := dead.foldl (fun w p => w.note (.removed p.id)) { world with newborns := #[] }
      (.ok (), { m with world, pointers := all.filter (·.alive), ticks })

/-- What a run comes to at one of its turns. -/
inductive Turn where
  /-- The run is over, with the exit code or a failure. -/
  | over (result : Except MachineError Cell) (machine : Machine)
  /-- The run goes on. -/
  | next (machine : Machine)

/-- A tick, unless the machine is finished or has reached its limit. -/
def turn (m : Machine) : Turn :=
  if m.finished then .over (.ok m.exitCode) m
  else
    match m.world.settings.maxTicks.filter (· ≤ m.ticks) with
    | some limit => .over (.error (.tickLimit limit)) m
    | none =>
      match m.tick with
      | (.error e, m) => .over (.error e) m
      | (.ok (), m) => .next m

/-- Takes turns until the run is over. -/
def runFor : Nat → Machine → Except MachineError Cell × Machine
  | 0, m => (.error (.fault .endless), m)
  | bound + 1, m =>
    match m.turn with
    | .over result m => (result, m)
    | .next m => runFor bound m

/-- Bound on the ticks of a run: those that a word can count. -/
def maxRun : Nat := UInt64.size

/-- Runs the machine to its end or to its tick limit. -/
def run (m : Machine) : Except MachineError Cell × Machine := runFor maxRun m

/-- A live pointer stands on an instruction of some kind, or on an iteration of whatever comes
next. -/
def awaits (m : Machine) (kind : Instruction → Bool) : Bool :=
  m.pointers.any fun p =>
    p.alive && !p.flags.string &&
      match m.world.instruction? p (m.world.space.peek p.position) with
      | .ok (some i) => i = .iterate || kind i
      | _ => false

end Machine

end Funge
