import Funge.Settings

/-!
# The command line

There are two commands: `run` runs a program and `dump` shows it as it is laid out in space.
Options may stand before or after the file, with their value as the next word or after an equals
sign. After two dashes no word is an option; `run` hands the words from there on to the program.

A value is looked at when the next option or file comes, or at the end. A word that cannot stand
where it does is refused at once, so it wins over a bad value before it.
-/

namespace Funge

inductive Command where
  | run (file : String) (settings : Settings) (arguments : List String)
  | dump (file : String) (dims : Nat) (linear : Bool)
deriving DecidableEq

/-- Why a command line is refused. -/
inductive UsageError where
  /-- There are no arguments. -/
  | nothing
  | unknownCommand
  /-- Help was asked for. -/
  | help
  | missingFile
  | unknownArgument
  /-- A value is missing or is none of the names allowed. -/
  | invalidValue
  /-- A number is malformed or out of range. -/
  | badNumber
  | repeated
  /-- A value was given to an option that takes none. -/
  | surplusValue
deriving DecidableEq

/-- The exit status for a refused command line; asking for help is no error. -/
def UsageError.status : UsageError → Nat
  | .help => 0
  | _ => 2

namespace CommandLine

inductive Verb where
  | run
  | dump
deriving DecidableEq

/-- Options that take a value. -/
inductive Setting where
  | dims
  | maxTicks
  | unknown
deriving DecidableEq

inductive Switch where
  | help
  | linear
deriving DecidableEq

def setting? (v : Verb) (name : String) : Option Setting :=
  if name = "dims" then some .dims
  else if v = .run ∧ name = "max-ticks" then some .maxTicks
  else if v = .run ∧ name = "unknown" then some .unknown
  else none

def switch? (v : Verb) (name : String) : Option Switch :=
  if name = "help" then some .help
  else if v = .dump ∧ name = "linear" then some .linear
  else none

/-- What has been understood so far. -/
structure Draft where
  file : Option String := none
  dims : Option Nat := none
  maxTicks : Option Nat := none
  unknown : Option UnknownPolicy := none
  linear : Bool := false
  arguments : List String := []
  /-- The last option, with its value once that is there, as long as it is not looked at. -/
  pending : Option (Setting × Option String) := none

/-- A decimal number, which may have a plus sign in front. -/
def natural? (s : String) : Option Nat :=
  let digits := if s.startsWith "+" then s.toList.drop 1 else s.toList
  if digits.isEmpty || !digits.all Char.isDigit then none
  else some (digits.foldl (fun n d => n * 10 + (d.toNat - 48)) 0)

def numberIn? (low high : Nat) (s : String) : Except UsageError Nat :=
  match natural? s with
  | some n => if low ≤ n ∧ n ≤ high then .ok n else .error .badNumber
  | none => .error .badNumber

def policy? (s : String) : Except UsageError UnknownPolicy :=
  if s = "warn" then .ok .warn
  else if s = "reflect" then .ok .reflect
  else .error .invalidValue

/-- Takes up a value. An option that was given before is refused before its value is looked at. -/
def Draft.assign (d : Draft) (o : Setting) (value : String) : Except UsageError Draft := do
  match o with
  | .dims =>
    if d.dims.isSome then throw .repeated
    return { d with dims := some (← numberIn? 1 255 value) }
  | .maxTicks =>
    if d.maxTicks.isSome then throw .repeated
    return { d with maxTicks := some (← numberIn? 0 (UInt64.size - 1) value) }
  | .unknown =>
    if d.unknown.isSome then throw .repeated
    return { d with unknown := some (← policy? value) }

/-- Takes up the last option. -/
def Draft.settle (d : Draft) : Except UsageError Draft :=
  let bare := { d with pending := none }
  match d.pending with
  | none => .ok bare
  | some (_, none) => .error .invalidValue
  | some (o, some value) => bare.assign o value

/-- A word that starts with two dashes: its name and the value after the equals sign. -/
def longOption (word : String) : String × Option String :=
  let (name, rest) := (word.toList.drop 2).span (· ≠ '=')
  (String.ofList name, if rest.isEmpty then none else some (String.ofList (rest.drop 1)))

def takeLong (v : Verb) (d : Draft) (word : String) : Except UsageError Draft := do
  let (name, value) := longOption word
  match setting? v name, switch? v name, value with
  | some o, _, none => return { ← d.settle with pending := some (o, none) }
  | some o, _, some value => (← d.settle).assign o value
  | none, some _, some _ => throw .surplusValue
  | none, some .help, none => let _ ← d.settle; throw .help
  | none, some .linear, none =>
    let d ← d.settle
    if d.linear then throw .repeated
    return { d with linear := true }
  | none, none, _ => throw .unknownArgument

/-- A word that starts with one dash. Only the letter for help is known. -/
def takeShort (d : Draft) (word : String) : Except UsageError Draft := do
  if word.startsWith "-h" then
    let _ ← d.settle
    throw .help
  else throw .unknownArgument

/-- A word that is no option: the value of the last option, or the file. -/
def takePlain (d : Draft) (word : String) : Except UsageError Draft := do
  match d.pending, d.file with
  | some (o, none), _ => return { d with pending := some (o, some word) }
  | _, none => return { ← d.settle with file := some word }
  | _, some _ => throw .unknownArgument

/-- The words after two dashes. -/
def takeRest (v : Verb) (d : Draft) (words : List String) : Except UsageError Draft := do
  match v, words, d.file with
  | .run, _, _ => return { ← d.settle with arguments := words }
  | .dump, [], _ => return d
  | .dump, [word], none => return { ← d.settle with file := some word }
  | .dump, _, none => let _ ← d.settle; throw .unknownArgument
  | .dump, _, some _ => throw .unknownArgument

def takeWords (v : Verb) (d : Draft) : List String → Except UsageError Draft
  | [] => .ok d
  | word :: rest =>
    if word = "--" then takeRest v d rest
    else if word.startsWith "--" then do takeWords v (← takeLong v d word) rest
    else if word.startsWith "-" ∧ word ≠ "-" then do takeWords v (← takeShort d word) rest
    else do takeWords v (← takePlain d word) rest

/-- The command that the words after its name make up. -/
def command (v : Verb) (words : List String) : Except UsageError Command := do
  let d ← (← takeWords v {} words).settle
  match d.file with
  | none => throw .missingFile
  | some file =>
    let dims := d.dims.getD 2
    match v with
    | .run =>
      let settings := { dims, unknown := d.unknown.getD .warn, maxTicks := d.maxTicks }
      return .run file settings d.arguments
    | .dump => return .dump file dims d.linear

/-- The names that help can be asked for. -/
def names : List String := ["run", "dump", "help"]

/-- Understands a command line. -/
def parse : List String → Except UsageError Command
  | [] => .error .nothing
  | "run" :: words => command .run words
  | "dump" :: words => command .dump words
  | ["help"] => .error .help
  | ["help", name] => .error (if name ∈ names then .help else .unknownCommand)
  | "help" :: _ => .error .unknownCommand
  | ["--"] => .error .nothing
  | "--" :: word :: _ => .error (if word ∈ names then .unknownArgument else .unknownCommand)
  | word :: _ =>
    if word.startsWith "--" then
      match longOption word with
      | ("help", none) => .error .help
      | ("help", some _) => .error .surplusValue
      | _ => .error .unknownArgument
    else if word.startsWith "-" ∧ word ≠ "-" then
      .error (if word.startsWith "-h" then .help else .unknownArgument)
    else .error .unknownCommand

end CommandLine

end Funge
