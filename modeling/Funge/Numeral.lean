import Funge.Cell

/-!
# Numerals

The text of a number in a radix from 2 to 36 and its reading. Written numerals use lower case
letters for the digits from ten on, have no leading zero and start with a minus sign when the
number is negative. Reading skips to the first digit, takes either case, knows no sign and
stays at the greatest cell once a number exceeds it.
-/

namespace Funge.Numeral

/-- The digits of `n`, least significant first. Zero has one digit. -/
def digits (radix n : Nat) : List Nat :=
  if radix < 2 ∨ n < radix then [n] else n % radix :: digits radix (n / radix)
termination_by n
decreasing_by
  rename_i h
  exact Nat.div_lt_self (by omega) (by omega)

def digitChar (d : Nat) : Char := Char.ofNat (if d < 10 then 48 + d else 87 + d)

/-- The numeral of a natural number. -/
def ofNat (radix n : Nat) : List Char := ((digits radix n).map digitChar).reverse

/-- The radices that have numerals. -/
def radixOk (radix : Nat) : Bool := 2 ≤ radix && radix ≤ 36

/-- The character of a digit, if the radix has that digit. -/
def digitChar? (radix d : Nat) : Option Char := if d < radix then some (digitChar d) else none

/-- The numeral of a cell by way of its digits. They come least significant first, so the sign goes
behind them before all is turned round. -/
def spell? (radix : Nat) (v : Cell) : Option String := do
  let backwards ← (digits radix v.toInt.natAbs).mapM (digitChar? radix)
  return String.ofList (if v < 0 then backwards ++ ['-'] else backwards).reverse

/-- The numeral of a cell, if there are numerals in that radix. The decimal one is the usual text of
the number. -/
def format? (radix : Nat) (v : Cell) : Option String :=
  if radixOk radix then
    if radix = 10 then some (toString v.toInt) else spell? radix v
  else none

/-- The value of a byte as a digit. -/
def digitValue? (radix : Nat) (b : UInt8) : Option Nat :=
  let n := b.toNat
  let value? :=
    if 48 ≤ n ∧ n ≤ 57 then some (n - 48)
    else if 97 ≤ n ∧ n ≤ 122 then some (n - 87)
    else if 65 ≤ n ∧ n ≤ 90 then some (n - 55)
    else none
  value?.filter (· < radix)

def isDigit (radix : Nat) (b : UInt8) : Bool := (digitValue? radix b).isSome

/-- The cell nearest to a number. -/
def saturate (n : Int) : Cell :=
  if n < Int64.minValue.toInt then Int64.minValue
  else if Int64.maxValue.toInt < n then Int64.maxValue
  else Int64.ofInt n

/-- Takes one more digit into a value. The product and the sum saturate one after the other. -/
def accumulate (radix : Nat) (acc : Cell) (b : UInt8) : Cell :=
  let shifted := saturate (acc.toInt * radix)
  saturate (shifted.toInt + (digitValue? radix b).getD 0)

/-- Reads the first numeral of the input. Gives its value, if there is one, and what is left. -/
def read (radix : Nat) (input : List UInt8) : Option Cell × List UInt8 :=
  let found := input.dropWhile fun b => !isDigit radix b
  let (taken, rest) := found.span (isDigit radix)
  if taken.isEmpty then (none, rest) else (some (taken.foldl (accumulate radix) 0), rest)

end Funge.Numeral
