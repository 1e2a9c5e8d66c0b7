/-!
# Cells

A cell is a signed 64-bit word. Arithmetic on cells wraps, so coordinates, counts and stack
entries form the ring of integers modulo 2^64. A cell that nothing was written to holds a blank.
-/

namespace Funge

/-- A word of the playfield: a stored value, a coordinate or a stack entry. -/
abbrev Cell := Int64

namespace Cell

/-- What a cell holds that nothing was written to: the space character. -/
def blank : Cell := 32

/-- The double quote, which opens and closes a string. -/
def quote : Cell := 34

/-- The semicolon, which opens and closes a stretch that is jumped over. -/
def semicolon : Cell := 59

def ofBool (b : Bool) : Cell := if b then 1 else 0

def ofByte (b : UInt8) : Cell := Int64.ofNat b.toNat

def ofChar (c : Char) : Cell := Int64.ofNat c.toNat

/-- The byte a cell stands for, if it is one. -/
def toByte? (c : Cell) : Option UInt8 :=
  if 0 ≤ c ∧ c ≤ 255 then some (UInt8.ofNat c.toInt.toNat) else none

/-- The Unicode scalar value a cell stands for, if it is one. -/
def toChar? (c : Cell) : Option Char :=
  if 0 ≤ c ∧ c.toInt.toNat.isValidChar then some (Char.ofNat c.toInt.toNat) else none

/-- A count read off a cell, with no upper limit. A negative cell counts nothing. -/
def toCount (c : Cell) : Nat := c.toInt.toNat

/-- The readable form of an instruction code: a printable character in quotes, any other code
as a number. -/
def showCode (c : Cell) : String :=
  if 32 ≤ c ∧ c ≤ 126 then "'" ++ String.singleton (Char.ofNat c.toInt.toNat) ++ "'"
  else toString c.toInt

/-- Position of an upper case letter in the alphabet. -/
def letterIndex? (c : Cell) : Option (Fin 26) :=
  if h : 65 ≤ c.toInt.toNat ∧ c.toInt.toNat < 91 then some ⟨c.toInt.toNat - 65, by omega⟩ else none

end Cell

end Funge
