import Funge.Folder
import Funge.Moment
import Funge.Text.Quoted

/-!
# The host

All that a program sees of its surroundings: the input still unread, the output written so far,
arguments and environment, the clocks, a source of chance and a folder of files. The input is
read byte by byte and in numerals; a number is written as a numeral and a space.
-/

namespace Funge

/-- Why input or output fails. -/
inductive ChannelError where
  | notACharacter
  | radixOutOfRange
  | file (cause : FileError)
deriving DecidableEq

def ChannelError.message : ChannelError → String
  | .notACharacter => "not a character"
  | .radixOutOfRange => "radix out of range"
  | .file cause => cause.message

/-- Where the time of day comes from. -/
inductive Clock where
  /-- The clock of the system, as last read. -/
  | system (reading : Moment)
  /-- A clock that stands still. -/
  | fixed (moment : Moment)
deriving DecidableEq

def Clock.now : Clock → Moment
  | .system m => m
  | .fixed m => m

def Clock.describe : Clock → String
  | .system _ => "System"
  | .fixed m => "Fixed(" ++ m.toText "T" ++ ")"

/-- A source of chance: the numbers it has in store, one for each roll. -/
structure Dice where
  draws : Nat → Nat
  /-- The rolls made so far. -/
  rolled : Nat := 0

/-- The next number, brought below `sides`, and the dice after it. -/
def Dice.roll (d : Dice) (sides : Nat) : Nat × Dice :=
  (d.draws d.rolled % sides, { d with rolled := d.rolled + 1 })

structure Host where
  /-- The bytes not yet read. -/
  input : List UInt8
  /-- The bytes written since the output was last taken, newest first. -/
  written : List UInt8
  arguments : List String
  environment : List (String × String)
  clock : Clock
  /-- Microseconds since some fixed moment. -/
  stopwatch : Nat
  dice : Dice
  folder : Folder

namespace Host

/-- The bytes written since the output was last taken, in order. -/
def output (h : Host) : List UInt8 := h.written.reverse

/-- Appends bytes to the output. -/
def emit (h : Host) (bytes : List UInt8) : Host := { h with written := bytes.reverse ++ h.written }

@[simp] theorem output_emit (h : Host) (bytes : List UInt8) :
    (h.emit bytes).output = h.output ++ bytes := by
  simp [output, emit]

/-- Writes a character: a value up to 255 as that byte, a greater one as UTF-8. -/
def writeChar (h : Host) (v : Cell) : Except ChannelError Host :=
  match Cell.toByte? v with
  | some b => .ok (h.emit [b])
  | none =>
    match Cell.toChar? v with
    | some c => .ok (h.emit (String.utf8EncodeChar c))
    | none => .error .notACharacter

/-- Writes the numeral of a number and a space. -/
def writeNumber (h : Host) (v : Cell) (radix : Nat) : Except ChannelError Host :=
  match Numeral.format? radix v with
  | some text => .ok (h.emit ((text ++ " ").toList.flatMap String.utf8EncodeChar))
  | none => .error .radixOutOfRange

/-- Reads a byte; there is none at the end of the input. -/
def readChar (h : Host) : Option Cell × Host :=
  match h.input with
  | [] => (none, h)
  | b :: rest => (some (Cell.ofByte b), { h with input := rest })

/-- Reads the next numeral; there is none if the input ends first. -/
def readNumber (h : Host) (radix : Nat) : Except ChannelError (Option Cell × Host) :=
  if Numeral.radixOk radix then
    let (value, rest) := Numeral.read radix h.input
    .ok (value, { h with input := rest })
  else .error .radixOutOfRange

def atEnd (h : Host) : Bool := h.input.isEmpty

/-- Takes away the output. -/
def takeOutput (h : Host) : List UInt8 × Host := (h.output, { h with written := [] })

def now (h : Host) : Moment := h.clock.now

/-- A description without the contents of the channels. -/
def describe (h : Host) : String :=
  "Host \x7b args: [" ++ ", ".intercalate (h.arguments.map Text.quoted) ++ "], env: " ++
    Nat.repr h.environment.length ++ ", clock: " ++ h.clock.describe ++ ", .. \x7d"

end Host

end Funge
