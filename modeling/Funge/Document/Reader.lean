import Funge.Document.Basic

/-!
# Reading documents

The grammar is strict: no comments, no leading zeros, no commas before a closing bracket, no
control characters inside a text and nothing after the value but blanks. Each reader gives what
it has read and what is left of the text.
-/

namespace Funge.Document

def isBlank (c : Char) : Bool := c = ' ' || c = '\n' || c = '\t' || c = '\r'

def skipBlanks (cs : List Char) : List Char := cs.dropWhile isBlank

/-- What is left after a word, if the text starts with it. -/
def dropWord? (word : String) (cs : List Char) : Option (List Char) :=
  if word.toList.isPrefixOf cs then some (cs.drop word.length) else none

/-- One or more digits. -/
def digits? (cs : List Char) : Option (List Char × List Char) :=
  let (ds, rest) := cs.span Char.isDigit
  if ds.isEmpty then none else some (ds, rest)

/-- A numeral with no zero in front. -/
def numeral? (cs : List Char) : Option (Nat × List Char) := do
  let (ds, rest) ← digits? cs
  if ds.head? = some '0' ∧ ds.length ≠ 1 then none
  else some (ds.foldl (fun n d => n * 10 + (d.toNat - 48)) 0, rest)

/-- The fraction of a number, if there is one. -/
def fraction? (cs : List Char) : Option (Bool × List Char) :=
  match cs with
  | '.' :: rest => (digits? rest).map fun (_, rest) => (true, rest)
  | _ => some (false, cs)

def dropSign : List Char → List Char
  | '+' :: cs => cs
  | '-' :: cs => cs
  | cs => cs

/-- The exponent of a number, if there is one. -/
def exponent? (cs : List Char) : Option (Bool × List Char) :=
  match cs with
  | c :: rest =>
    if c = 'e' ∨ c = 'E' then (digits? (dropSign rest)).map fun (_, rest) => (true, rest)
    else some (false, cs)
  | [] => some (false, [])

def number? (cs : List Char) : Option (Document × List Char) := do
  let negative := cs.head? = some '-'
  let (magnitude, rest) ← numeral? (if negative then cs.drop 1 else cs)
  let (hasFraction, rest) ← fraction? rest
  let (hasExponent, rest) ← exponent? rest
  let whole := !hasFraction && !hasExponent && !(negative && magnitude = 0)
  let value : Int := if negative then -magnitude else magnitude
  return (if whole then .integer value else .fraction, rest)

/-- A piece of a text: a character, or a code unit written as an escape. -/
inductive Piece where
  | char (c : Char)
  | unit (n : Nat)

def hexValue? (c : Char) : Option Nat :=
  if '0' ≤ c ∧ c ≤ '9' then some (c.toNat - 48)
  else if 'a' ≤ c ∧ c ≤ 'f' then some (c.toNat - 87)
  else if 'A' ≤ c ∧ c ≤ 'F' then some (c.toNat - 55)
  else none

def codeUnit? (a b c d : Char) : Option Nat := do
  return (((← hexValue? a) * 16 + (← hexValue? b)) * 16 + (← hexValue? c)) * 16 + (← hexValue? d)

/-- The character that a backslash and a letter stand for. -/
def escape? (c : Char) : Option Char :=
  if c = Char.ofNat 34 ∨ c = '\\' ∨ c = '/' then some c
  else if c = 'b' then some (Char.ofNat 8)
  else if c = 'f' then some (Char.ofNat 12)
  else if c = 'n' then some '\n'
  else if c = 'r' then some '\r'
  else if c = 't' then some '\t'
  else none

/-- The pieces of a text up to its closing quote. -/
def pieces? : List Char → Option (List Piece × List Char)
  | [] => none
  | '\\' :: 'u' :: a :: b :: c :: d :: cs => do
    let unit ← codeUnit? a b c d
    let (ps, rest) ← pieces? cs
    return (.unit unit :: ps, rest)
  | '\\' :: e :: cs => do
    let c ← escape? e
    let (ps, rest) ← pieces? cs
    return (.char c :: ps, rest)
  | c :: cs =>
    if c = Char.ofNat 34 then some ([], cs)
    else if c.toNat < 32 ∨ c = '\\' then none
    else do
      let (ps, rest) ← pieces? cs
      return (.char c :: ps, rest)

/-- The text that pieces make up, with surrogate pairs put together. -/
def assemble : List Piece → Option (List Char)
  | [] => some []
  | .char c :: ps => (assemble ps).map (c :: ·)
  | .unit hi :: .unit lo :: ps =>
    if 0xD800 ≤ hi ∧ hi < 0xDC00 then
      if 0xDC00 ≤ lo ∧ lo < 0xE000 then
        (assemble ps).map (Char.ofNat (0x10000 + (hi - 0xD800) * 0x400 + (lo - 0xDC00)) :: ·)
      else none
    else if 0xDC00 ≤ hi ∧ hi < 0xE000 then none
    else (assemble (.unit lo :: ps)).map (Char.ofNat hi :: ·)
  | .unit n :: ps =>
    if 0xD800 ≤ n ∧ n < 0xE000 then none else (assemble ps).map (Char.ofNat n :: ·)

/-- A text whose opening quote has been read. -/
def text? (cs : List Char) : Option (Option String × List Char) := do
  let (ps, rest) ← pieces? cs
  return ((assemble ps).map String.ofList, rest)

mutual

/-- A value. The first argument bounds the depth of the recursion. -/
def value? : Nat → List Char → Option (Document × List Char)
  | 0, _ => none
  | bound + 1, cs =>
    match skipBlanks cs with
    | [] => none
    | c :: rest =>
      if c = Char.ofNat 34 then (text? rest).map fun (s, rest) => (.text s, rest)
      else if c = '[' then
        match skipBlanks rest with
        | ']' :: rest => some (.list [], rest)
        | rest => (items? bound rest).map fun (ds, rest) => (.list ds, rest)
      else if c = '{' then
        match skipBlanks rest with
        | '}' :: rest => some (.object [], rest)
        | rest => (members? bound rest).map fun (ms, rest) => (.object ms, rest)
      else if c = 'n' then (dropWord? "null" (c :: rest)).map (.null, ·)
      else if c = 't' then (dropWord? "true" (c :: rest)).map (.bool true, ·)
      else if c = 'f' then (dropWord? "false" (c :: rest)).map (.bool false, ·)
      else number? (c :: rest)

/-- The items of a list up to its closing bracket; there is at least one. -/
def items? : Nat → List Char → Option (List Document × List Char)
  | 0, _ => none
  | bound + 1, cs => do
    let (d, rest) ← value? bound cs
    match skipBlanks rest with
    | ',' :: rest =>
      let (ds, rest) ← items? bound rest
      return (d :: ds, rest)
    | ']' :: rest => return ([d], rest)
    | _ => none

/-- The members of an object up to its closing bracket; there is at least one. -/
def members? : Nat → List Char → Option (List (Option String × Document) × List Char)
  | 0, _ => none
  | bound + 1, cs =>
    match skipBlanks cs with
    | [] => none
    | q :: rest =>
      if q = Char.ofNat 34 then do
        let (key, rest) ← text? rest
        match skipBlanks rest with
        | ':' :: rest =>
          let (d, rest) ← value? bound rest
          match skipBlanks rest with
          | ',' :: rest =>
            let (ms, rest) ← members? bound rest
            return ((key, d) :: ms, rest)
          | '}' :: rest => return ([(key, d)], rest)
          | _ => none
        | _ => none
      else none

end

/-- Reads a document. Every level of the recursion takes at least one character. -/
def read? (s : String) : Option Document :=
  match value? (s.length + 1) s.toList with
  | some (d, rest) => if (skipBlanks rest).isEmpty then some d else none
  | none => none

end Funge.Document
