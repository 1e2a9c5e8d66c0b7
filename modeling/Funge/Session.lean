import Funge.CommandLine
import Funge.Machine

/-!
# Sessions

What a command does from start to end: the output it writes, the files it leaves and the status
it exits with.
-/

namespace Funge

/-- How a command ends. -/
structure Outcome where
  status : Nat
  output : List UInt8
  /-- The line that tells of an error. -/
  error : Option String := none
  folder : Folder

namespace Session

/-- The exit code nearest to a cell that a process can return. -/
def exitCode (c : Cell) : Int := max Int32.minValue.toInt (min Int32.maxValue.toInt c.toInt)

/-- Only the lowest byte of an exit code is seen from outside. -/
def exitStatus (c : Cell) : Nat := (exitCode c % 256).toNat

/-- The exit status after an error. -/
def failureStatus : Nat := 1

/-- The exit status after a fault of the machine. -/
def faultStatus : Nat := 101

/-- Shows a program as it is laid out in space, from the least corner of its box on. -/
def render (source : List UInt8) (dims : Nat) (linear : Bool) : Except SpaceError (List UInt8) :=
  match (Space.empty dims).load 0 source false with
  | (.error e, _) => .error e
  | (.ok _, space) =>
    match space.bounds? with
    | none => .ok []
    | some (least, greatest) =>
      space.dump least (greatest - least + Vec.ofList (List.replicate dims 1)) linear

def failure (host : Host) (message : String) : Outcome where
  status := failureStatus
  output := host.output
  error := some ("error: " ++ message)
  folder := host.folder

/-- The end of a session that an error of the machine breaks off. -/
def broken (m : Machine) (context : String) : MachineError → Outcome
  | .fault _ =>
    { status := faultStatus, output := m.world.host.output, folder := m.world.host.folder }
  | e => failure m.world.host (context ++ e.message)

/-- A file that cannot be read. -/
def unreadable (host : Host) (file : String) (e : FileError) : Outcome :=
  failure host (s!"cannot read {file}: " ++ e.message)

/-- Loads a program into a new machine. It sees its file as the first of its arguments. -/
def start (host : Host) (file : String) (settings : Settings) (arguments : List String)
    (source : Except FileError (List UInt8)) : Except Outcome Machine :=
  match source with
  | .error e => .error (unreadable host file e)
  | .ok bytes =>
    match (Machine.standard settings { host with arguments := file :: arguments }).load bytes with
    | (.error e, m) => .error (broken m s!"cannot load {file}: " e)
    | (.ok _, m) => .ok m

/-- The end of a run. -/
def finish : Except MachineError Cell × Machine → Outcome
  | (.error e, m) => broken m "" e
  | (.ok code, m) =>
    { status := exitStatus code, output := m.world.host.output, folder := m.world.host.folder }

def run (host : Host) (file : String) (settings : Settings) (arguments : List String)
    (source : Except FileError (List UInt8)) : Outcome :=
  match start host file settings arguments source with
  | .error o => o
  | .ok m => finish m.run

def dump (host : Host) (file : String) (dims : Nat) (linear : Bool)
    (source : Except FileError (List UInt8)) : Outcome :=
  match source with
  | .error e => unreadable host file e
  | .ok bytes =>
    match render bytes dims linear with
    | .error e => failure host e.message
    | .ok text => { status := 0, output := text, folder := host.folder }

def refused (host : Host) (e : UsageError) : Outcome :=
  { status := e.status, output := [], folder := host.folder }

/-- Carries out a command line on the folder of the host. -/
def perform (host : Host) (words : List String) : Outcome :=
  match CommandLine.parse words with
  | .error e => refused host e
  | .ok (.run file settings arguments) => run host file settings arguments (host.folder.read file)
  | .ok (.dump file dims linear) => dump host file dims linear (host.folder.read file)

end Session

end Funge
