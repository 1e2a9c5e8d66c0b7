import Funge.Document.Basic
import Funge.Settings
import Funge.StackStack

/-!
# Values as documents

Vectors, stacks and settings as they are written to documents and taken from them. A record is
an object with a member for each field, in any order and with others among them, or a list of
all fields in order. A field that is given twice is refused. Numbers must fit their words and
are not clamped further.
-/

namespace Funge

namespace Document

def toBool? : Document → Option Bool
  | .bool b => some b
  | _ => none

def toCell? : Document → Option Cell
  | .integer n =>
    if Int64.minValue.toInt ≤ n ∧ n ≤ Int64.maxValue.toInt then some (Int64.ofInt n) else none
  | _ => none

/-- A number of at most 64 bits. -/
def toWord? : Document → Option Nat
  | .integer n => if 0 ≤ n ∧ n < UInt64.size then some n.toNat else none
  | _ => none

def toList? {α : Type} (item : Document → Option α) : Document → Option (List α)
  | .list items => items.mapM item
  | _ => none

theorem map_of_mapM {α β : Type} {f : α → Option β} {xs : List α} {ys : List β}
    (read : xs.mapM f = some ys) : xs.map f = ys.map some := by
  induction xs generalizing ys with
  | nil =>
    cases read
    rfl
  | cons x xs ih =>
    simp only [List.mapM_cons, Option.bind_eq_bind, Option.bind_eq_some_iff] at read
    obtain ⟨y, first, zs, others, same⟩ := read
    cases same
    simp [first, ih others]

/-- A list is read from a list, item by item. -/
theorem of_toList? {α : Type} {item : Document → Option α} {d : Document} {xs : List α}
    (read : toList? item d = some xs) :
    ∃ items, d = .list items ∧ items.map item = xs.map some := by
  cases d with
  | list items => exact ⟨items, rfl, map_of_mapM read⟩
  | null | bool | integer | fraction | text | object => cases read

/-- The value of a field among members. -/
def member? (members : List (Option String × Document)) (name : String) : Option Document :=
  members.lookup (some name)

/-- The fields of a record, each with its value if it is there. -/
def fields? (names : List String) : Document → Option (List (Option Document))
  | .list items => if items.length = names.length then some (items.map some) else none
  | .object members =>
    if members.any (·.1.isNone) || names.any fun n => 1 < members.countP (·.1 = some n) then none
    else some (names.map (member? members))
  | _ => none

def ofCell (c : Cell) : Document := .integer c.toInt

def ofText (s : String) : Document := .text (some s)

/-- An object with members in order. -/
def record (members : List (String × Document)) : Document :=
  .object (members.map fun (name, d) => (some name, d))

end Document

open Document

def Vec.ofDocument? (d : Document) : Option Vec := (toList? toCell? d).map Vec.ofList

def Vec.toDocument (v : Vec) : Document := .list (v.entries.map ofCell)

def Mode.ofDocument? (d : Document) : Option Mode := do
  match ← fields? ["invert", "queue"] d with
  | [some invert, some queue] => return { invert := ← toBool? invert, queue := ← toBool? queue }
  | _ => none

def Mode.toDocument (m : Mode) : Document :=
  record [("invert", .bool m.invert), ("queue", .bool m.queue)]

def Stack.ofDocument? (d : Document) : Option Stack := do
  match ← fields? ["cells"] d with
  | [some cells] => return Stack.ofBottom (← toList? toCell? cells)
  | _ => none

def Stack.toDocument (s : Stack) : Document := record [("cells", .list (s.toBottom.map ofCell))]

/-- The stacks are listed bottom first. -/
def StackStack.ofDocument? (d : Document) : Option StackStack := do
  match ← fields? ["stacks"] d with
  | [some listed] => return ⟨(← toList? Stack.ofDocument? listed).reverse⟩
  | _ => none

def StackStack.toDocument (ss : StackStack) : Document :=
  record [("stacks", .list (ss.stacks.reverse.map Stack.toDocument))]

def UnknownPolicy.name : UnknownPolicy → String
  | .warn => "warn"
  | .reflect => "reflect"

def UnknownPolicy.ofName? (name : String) : Option UnknownPolicy :=
  [UnknownPolicy.warn, .reflect].find? (·.name = name)

/-- A policy is a name, or an object with the name as its one member and nothing in it. -/
def UnknownPolicy.ofDocument? : Document → Option UnknownPolicy
  | .text (some name) => ofName? name
  | .object [(some name, .null)] => ofName? name
  | _ => none

def UnknownPolicy.toDocument (p : UnknownPolicy) : Document := ofText p.name

/-- A tick limit that is absent or null is none. -/
def Settings.ofDocument? (d : Document) : Option Settings := do
  match ← fields? ["dimensions", "unknown_opcode", "max_ticks"] d with
  | [some dims, some unknown, ticks] =>
    let maxTicks ←
      match ticks with
      | none => pure none
      | some .null => pure none
      | some n => (toWord? n).map some
    return { dims := ← toWord? dims, unknown := ← UnknownPolicy.ofDocument? unknown, maxTicks }
  | _ => none

def Settings.toDocument (s : Settings) : Document :=
  record [
    ("dimensions", .integer s.dims),
    ("unknown_opcode", s.unknown.toDocument),
    ("max_ticks", match s.maxTicks with | some n => .integer n | none => .null)]

end Funge
