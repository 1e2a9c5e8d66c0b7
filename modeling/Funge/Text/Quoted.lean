import Funge.Numeral
import Funge.Text.Printable

/-!
# Quoted text

The form in which texts are shown in descriptions: in double quotes, with escapes for what
would not be seen as it stands.
-/

namespace Funge.Text

/-- The escape of a character by its number. -/
def escapeCode (c : Char) : String := "\\u\x7b" ++ String.ofList (Numeral.ofNat 16 c.toNat) ++ "\x7d"

/-- A character as it is shown between quotes of the given kind. -/
def escapeChar (mark : Char) (c : Char) : String :=
  if c = '\x00' then "\\0"
  else if c = '\t' then "\\t"
  else if c = '\r' then "\\r"
  else if c = '\n' then "\\n"
  else if c = '\\' || c = mark then "\\" ++ String.singleton c
  else if isPrintable c then String.singleton c
  else escapeCode c

/-- A text in double quotes. -/
def quoted (s : String) : String :=
  "\"" ++ String.join (s.toList.map (escapeChar (Char.ofNat 34))) ++ "\""

/-- A character in single quotes. -/
def quotedChar (c : Char) : String := "'" ++ escapeChar (Char.ofNat 39) c ++ "'"

end Funge.Text
