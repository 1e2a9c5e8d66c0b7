/-!
# Documents

The data that settings and stacks are kept in: JSON values, as far as their readers tell them
apart. A number that is not written as an integer is only known to be one, and a text can hold
escapes that stand for no character.
-/

namespace Funge

inductive Document where
  | null
  | bool (b : Bool)
  | integer (n : Int)
  /-- A number with a fraction or an exponent, or minus zero. -/
  | fraction
  /-- A text; none if it holds an unpaired surrogate. -/
  | text (s : Option String)
  | list (items : List Document)
  | object (members : List (Option String × Document))

end Funge
