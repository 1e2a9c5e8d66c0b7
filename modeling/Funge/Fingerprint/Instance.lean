import Funge.Numeral
import Funge.Vec

/-!
# Instances of fingerprints

A fingerprint is known by its handprint, the last four bytes of its name. Some fingerprints
keep data: a table of vectors that references lead to, or a timer. How many such instances there
are is said by the instancing of the fingerprint.
-/

namespace Funge

/-- The number that names a fingerprint. -/
abbrev Handprint := UInt32

namespace Handprint

/-- Appends a byte to a handprint. The oldest byte of four drops out. -/
def append (code : Handprint) (b : UInt8) : Handprint := (code <<< 8) ||| b.toUInt32

/-- The handprint of a name. -/
def ofName (name : String) : Handprint := (name.toList.flatMap String.utf8EncodeChar).foldl append 0

/-- A handprint in hexadecimal with eight digits. -/
def toHex (code : Handprint) : String :=
  let digits := Numeral.ofNat 16 code.toNat
  "0x" ++ String.ofList (List.replicate (8 - digits.length) '0' ++ digits)

end Handprint

/-- Whose the data of a fingerprint are. -/
inductive Instancing where
  /-- There are none. -/
  | global
  /-- All pointers share them. -/
  | interpreter
  /-- They belong to the space. This is not supported. -/
  | space
  /-- Each pointer has its own. -/
  | pointer
deriving DecidableEq

def Instancing.name : Instancing → String
  | .global => "Global"
  | .interpreter => "Interpreter"
  | .space => "Space"
  | .pointer => "Ip"

/-- The data of a fingerprint. -/
inductive Instance where
  /-- The vectors that references `0`, `1`, … lead to. -/
  | references (table : Array Vec)
  /-- A timer with the stopwatch reading at its mark. -/
  | timer (mark : Option Nat)

/-- Instances by handprint. -/
structure InstanceStore where
  entries : List (Handprint × Instance)

namespace InstanceStore

def empty : InstanceStore := ⟨[]⟩

def get? (s : InstanceStore) (code : Handprint) : Option Instance := s.entries.lookup code

def contains (s : InstanceStore) (code : Handprint) : Bool := (s.get? code).isSome

def size (s : InstanceStore) : Nat := s.entries.length

def isEmpty (s : InstanceStore) : Bool := s.entries.isEmpty

/-- Replaces an instance, or adds it. -/
def put (s : InstanceStore) (code : Handprint) (i : Instance) : InstanceStore :=
  if s.contains code then
    ⟨s.entries.map fun (c, j) => if c = code then (c, i) else (c, j)⟩
  else ⟨s.entries ++ [(code, i)]⟩

def describe (s : InstanceStore) : String :=
  "\x7b" ++ ", ".intercalate (s.entries.map fun (c, _) => "\"" ++ c.toHex ++ "\"") ++ "\x7d"

end InstanceStore

end Funge
