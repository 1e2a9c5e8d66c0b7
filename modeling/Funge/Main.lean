import Funge.Session
import Std.Time.Zoned

/-!
# The program

Carries out the command line against the real surroundings. The machine is handed its clocks
before every tick, the input when a pointer may first read it and the files of the working
directory when a pointer may first load one; its output and the files it saves are passed on
after every tick.
-/

namespace Funge.Main

def readFile (path : String) : IO (Except FileError (List UInt8)) := do
  try return .ok (← IO.FS.readBinFile path).toList
  catch
    | .noFileOrDirectory .. => return .error .notFound
    | .inappropriateType .. => return .error .isDirectory
    | e => throw e

def systemMoment : IO Moment := do
  let now ← Std.Time.PlainDateTime.now
  return {
    year := now.date.year
    month := now.date.month.val.toNat
    day := now.date.day.val.toNat
    hour := now.time.hour.val.toNat
    minute := now.time.minute.val.toNat
    second := now.time.second.val.toNat
    nanosecond := now.time.nanosecond.val.toNat }

/-- The regular files of the working directory. -/
def workingFolder : IO Folder := do
  let mut files := []
  for entry in ← (← IO.currentDir).readDir do
    if (← entry.path.metadata).type == .file then
      files := (entry.fileName, (← IO.FS.readBinFile entry.path).toList) :: files
  return ⟨files⟩

/-- A pair written with an equals sign, which may also start the key. -/
def splitPair (s : String) : String × String :=
  let (key, value) := (s.toList.drop 1).span (· ≠ '=')
  (String.ofList (s.toList.take 1 ++ key), String.ofList (value.drop 1))

/-- The environment of the process; empty where the system does not show it. -/
def systemEnvironment : IO (List (String × String)) := do
  try
    let bytes ← IO.FS.readBinFile "/proc/self/environ"
    let entries := bytes.toList.splitOn 0 |>.filter (!·.isEmpty)
    return entries.filterMap fun entry => (String.fromUTF8? ⟨entry.toArray⟩).map splitPair
  catch _ => return []

/-- Numbers in no evident order, the `n`-th of those that belong to a seed. -/
def scatter (seed : UInt64) (n : Nat) : Nat :=
  let z := seed + n.toUInt64 * 0x9E3779B97F4A7C15
  let z := (z ^^^ (z >>> 30)) * 0xBF58476D1CE4E5B9
  let z := (z ^^^ (z >>> 27)) * 0x94D049BB133111EB
  (z ^^^ (z >>> 31)).toNat

def systemHost : IO Host := do
  return {
    input := []
    written := []
    arguments := []
    environment := ← systemEnvironment
    clock := .system (← systemMoment)
    stopwatch := (← IO.monoNanosNow) / 1000
    dice := { draws := scatter (← IO.monoNanosNow).toUInt64 }
    folder := .empty }

/-- What the machine has been handed so far. -/
structure Supply where
  input : Bool := false
  files : Bool := false

def readsInput (i : Instruction) : Bool := i = .readNumber || i = .readNumberIn || i = .readChar

/-- Hands the machine what it may need in the next tick. -/
def supply (s : Supply) (m : Machine) : IO (Supply × Machine) := do
  let mut s := s
  let mut host := { m.world.host with
    clock := .system (← systemMoment)
    stopwatch := (← IO.monoNanosNow) / 1000 }
  if !s.input && m.awaits readsInput then
    host := { host with input := (← (← IO.getStdin).readBinToEnd).toList }
    s := { s with input := true }
  if !s.files && m.awaits (· = .loadFile) then
    let saved := host.folder.files
    let folder ← workingFolder
    host := { host with folder := saved.foldl (fun f (name, c) => f.put name c) folder }
    s := { s with files := true }
  return (s, { m with world := { m.world with host } })

def emit (bytes : List UInt8) : IO Unit := do
  unless bytes.isEmpty do
    let out ← IO.getStdout
    out.write ⟨bytes.toArray⟩
    out.flush

/-- Writes the files that differ from what they were before. -/
def save (before after : Folder) : IO Unit := do
  for (name, contents) in after.files do
    if before.get? name != some contents then
      IO.FS.writeBinFile name ⟨contents.toArray⟩

partial def drive (s : Supply) (m : Machine) : IO (Except MachineError Cell × Machine) := do
  let (s, m) ← supply s m
  let saves := m.awaits (· = .saveFile)
  match m.turn with
  | .over result m => return (result, m)
  | .next m' =>
    let (bytes, host) := m'.world.host.takeOutput
    emit bytes
    if saves then save m.world.host.folder host.folder
    drive s { m' with world := { m'.world with host } }

def conclude (o : Outcome) : IO UInt32 := do
  emit o.output
  if let some line := o.error then IO.eprintln line
  return o.status.toUInt32

end Funge.Main

open Funge Funge.Main in
def main (words : List String) : IO UInt32 := do
  let host ← systemHost
  match CommandLine.parse words with
  | .error e => conclude (Session.refused host e)
  | .ok (.dump file dims linear) =>
    conclude (Session.dump host file dims linear (← readFile file))
  | .ok (.run file settings arguments) =>
    match Session.start host file settings arguments (← readFile file) with
    | .error o => conclude o
    | .ok m => conclude (Session.finish (← drive {} m))
