import Funge.Fingerprint.Basic

/-!
# The standard fingerprints
-/

namespace Funge.Fingerprint

/-- Every letter fails. -/
def null : Fingerprint where
  name := "NULL"
  instancing := .global
  bindings := "ABCDEFGHIJKLMNOPQRSTUVWXYZ".toList.map (·, .refuse)

/-- Roman numerals. -/
def roma : Fingerprint where
  name := "ROMA"
  instancing := .global
  bindings := [
    ('C', .operand (.literal 100)), ('D', .operand (.literal 500)), ('I', .operand (.literal 1)),
    ('L', .operand (.literal 50)), ('M', .operand (.literal 1000)), ('V', .operand (.literal 5)),
    ('X', .operand (.literal 10))]

/-- Logic on bits. -/
def bool : Fingerprint where
  name := "BOOL"
  instancing := .global
  bindings := [
    ('A', .operand (.binary .and)), ('N', .operand .complement), ('O', .operand (.binary .or)),
    ('X', .operand (.binary .xor))]

/-- Three conventions for the remainder. -/
def modu : Fingerprint where
  name := "MODU"
  instancing := .global
  bindings := [
    ('M', .operand (.binary .floorRem)), ('R', .operand (.binary .rem)),
    ('U', .operand (.binary .absRem))]

/-- Mode switches. -/
def mode : Fingerprint where
  name := "MODE"
  instancing := .global
  bindings := [
    ('H', .course (.toggle .hover)), ('I', .course (.toggle .invert)),
    ('Q', .course (.toggle .queue)), ('S', .course (.toggle .switch))]

/-- Numbers in other radices. -/
def base : Fingerprint where
  name := "BASE"
  instancing := .global
  bindings := [
    ('B', .writeNumber 2), ('H', .writeNumber 16), ('I', .readNumberIn), ('N', .writeNumberIn),
    ('O', .writeNumber 8)]

/-- References to vectors, shared by all pointers. -/
def refc : Fingerprint where
  name := "REFC"
  instancing := .interpreter
  bindings := [('D', .dereference), ('R', .refer)]
  start := some (.references #[])

/-- A timer for each pointer. Its granularity is a microsecond. -/
def hrti : Fingerprint where
  name := "HRTI"
  instancing := .pointer
  bindings := [
    ('E', .eraseTimer), ('G', .operand (.literal 1)), ('M', .markTimer), ('S', .microseconds),
    ('T', .readTimer)]
  start := some (.timer none)

end Funge.Fingerprint

namespace Funge

/-- All fingerprints that come with the machine. -/
def Registry.standard : Registry :=
  [Fingerprint.null, .roma, .bool, .modu, .mode, .base, .refc, .hrti].foldl Registry.register .empty

end Funge
