import Funge.Instruction
import Funge.Text.Quoted

/-!
# The instruction table

The instructions of the base language by their codes. Upper case letters are not in the table:
what they mean is up to the fingerprints that a pointer has loaded.
-/

namespace Funge

structure Entry where
  code : Cell
  name : String
  /-- Number of cells popped as a rule; a vector counts one. -/
  arity : Nat
  instruction : Instruction

/-- Entries in the order of their codes. -/
structure Table where
  entries : List Entry

namespace Table

def empty : Table := ⟨[]⟩

def get? (t : Table) (code : Cell) : Option Entry := t.entries.find? (·.code = code)

def size (t : Table) : Nat := t.entries.length

def isEmpty (t : Table) : Bool := t.entries.isEmpty

/-- The base language. -/
def standard : Table where
  entries := [
    ⟨32, "space", 0, .course .nop⟩,
    ⟨33, "not", 1, .operand .logicalNot⟩,
    ⟨34, "string_mode", 0, .course (.raise .string)⟩,
    ⟨35, "trampoline", 0, .trampoline⟩,
    ⟨36, "pop", 1, .operand .discard⟩,
    ⟨37, "rem", 2, .operand (.binary .rem)⟩,
    ⟨38, "input_int", 0, .readNumber⟩,
    ⟨39, "fetch", 0, .fetch⟩,
    ⟨40, "load_semantics", 1, .loadSemantics⟩,
    ⟨41, "unload_semantics", 1, .unloadSemantics⟩,
    ⟨42, "mul", 2, .operand (.binary .mul)⟩,
    ⟨43, "add", 2, .operand (.binary .add)⟩,
    ⟨44, "output_char", 1, .writeChar⟩,
    ⟨45, "sub", 2, .operand (.binary .sub)⟩,
    ⟨46, "output_int", 1, .writeNumber 10⟩,
    ⟨47, "div", 2, .operand (.binary .div)⟩,
    ⟨48, "digit", 0, .operand (.literal 0)⟩,
    ⟨49, "digit", 0, .operand (.literal 1)⟩,
    ⟨50, "digit", 0, .operand (.literal 2)⟩,
    ⟨51, "digit", 0, .operand (.literal 3)⟩,
    ⟨52, "digit", 0, .operand (.literal 4)⟩,
    ⟨53, "digit", 0, .operand (.literal 5)⟩,
    ⟨54, "digit", 0, .operand (.literal 6)⟩,
    ⟨55, "digit", 0, .operand (.literal 7)⟩,
    ⟨56, "digit", 0, .operand (.literal 8)⟩,
    ⟨57, "digit", 0, .operand (.literal 9)⟩,
    ⟨58, "dup", 1, .operand .duplicate⟩,
    ⟨59, "jump_over", 0, .jumpOver⟩,
    ⟨60, "west", 0, .course (.head 0 false)⟩,
    ⟨61, "execute", 1, .unsupported 61⟩,
    ⟨62, "east", 0, .course (.head 0 true)⟩,
    ⟨63, "away", 0, .wander⟩,
    ⟨64, "stop", 0, .stop⟩,
    ⟨91, "turn_left", 0, .turn true⟩,
    ⟨92, "swap", 2, .operand .swap⟩,
    ⟨93, "turn_right", 0, .turn false⟩,
    ⟨94, "north", 0, .course (.head 1 false)⟩,
    ⟨95, "east_west_if", 1, .course (.branch 0)⟩,
    ⟨96, "greater", 2, .operand (.binary .greater)⟩,
    ⟨97, "hex", 0, .operand (.literal 10)⟩,
    ⟨98, "hex", 0, .operand (.literal 11)⟩,
    ⟨99, "hex", 0, .operand (.literal 12)⟩,
    ⟨100, "hex", 0, .operand (.literal 13)⟩,
    ⟨101, "hex", 0, .operand (.literal 14)⟩,
    ⟨102, "hex", 0, .operand (.literal 15)⟩,
    ⟨103, "get", 1, .get⟩,
    ⟨104, "high", 0, .course (.head 2 false)⟩,
    ⟨105, "input_file", 3, .loadFile⟩,
    ⟨106, "jump", 1, .jump⟩,
    ⟨107, "iterate", 1, .iterate⟩,
    ⟨108, "low", 0, .course (.head 2 true)⟩,
    ⟨109, "high_low_if", 1, .course (.branch 2)⟩,
    ⟨110, "clear", 0, .operand .clear⟩,
    ⟨111, "output_file", 4, .saveFile⟩,
    ⟨112, "put", 2, .put⟩,
    ⟨113, "quit", 1, .quit⟩,
    ⟨114, "reflect", 0, .course .reflect⟩,
    ⟨115, "store", 1, .store⟩,
    ⟨116, "split", 0, .split⟩,
    ⟨117, "stack_under_stack", 1, .transfer⟩,
    ⟨118, "south", 0, .course (.head 1 true)⟩,
    ⟨119, "compare", 2, .course .compare⟩,
    ⟨120, "absolute_delta", 1, .course .absolute⟩,
    ⟨121, "sysinfo", 1, .report⟩,
    ⟨122, "nop", 0, .course .nop⟩,
    ⟨123, "begin_block", 1, .beginBlock⟩,
    ⟨124, "north_south_if", 1, .course (.branch 1)⟩,
    ⟨125, "end_block", 1, .endBlock⟩,
    ⟨126, "input_char", 0, .readChar⟩]

/-- A description by the number of entries. -/
def describe (t : Table) : String := "OpTable(" ++ Nat.repr t.size ++ " entries)"

end Table

def Entry.describe (e : Entry) : String :=
  "OpEntry(" ++ Text.quotedChar (Char.ofNat e.code.toInt.toNat) ++ " " ++ e.name ++ " /" ++
    Nat.repr e.arity ++ ")"

end Funge
