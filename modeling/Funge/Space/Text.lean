import Funge.Numeral
import Funge.Space.Basic

/-!
# Text and the playfield

Text is laid out by columns, lines and pages on the first three axes, as far as the space has
them. `Space.load` puts text into the space and `Space.dump` writes a region out again. A
loaded blank leaves the cell below it alone.

The linear form of a dump drops the blanks, lines and pages at the end and shortens each run of
filler to its length and one filler.
-/

namespace Funge

namespace Text

def lineFeed : UInt8 := 10

def formFeed : UInt8 := 12

def carriageReturn : UInt8 := 13

def space : UInt8 := 32

/-- A place in a text. -/
structure Cursor where
  column : Nat := 0
  line : Nat := 0
  page : Nat := 0
deriving DecidableEq

namespace Cursor

def right (c : Cursor) : Cursor := { c with column := c.column + 1 }

/-- The start of the next line. In one dimension a line break is dropped. -/
def nextLine (dims : Nat) (c : Cursor) : Cursor :=
  if 2 ≤ dims then { c with column := 0, line := c.line + 1 } else c

/-- The start of the next page. In less than three dimensions a page break is dropped. -/
def nextPage (dims : Nat) (c : Cursor) : Cursor :=
  if 3 ≤ dims then { column := 0, line := 0, page := c.page + 1 } else c

def toVec (c : Cursor) : Vec :=
  Vec.ofList [Int64.ofNat c.column, Int64.ofNat c.line, Int64.ofNat c.page]

/-- The greater of two cursors on every axis. -/
def join (a b : Cursor) : Cursor :=
  { column := max a.column b.column, line := max a.line b.line, page := max a.page b.page }

end Cursor

/-- Drops the elements at the end that satisfy `p`. -/
def dropTrailing {α : Type} (p : α → Bool) (xs : List α) : List α :=
  (xs.reverse.dropWhile p).reverse

/-- Pages are divided by form feeds and lines by line feeds. -/
def joinPages (pages : List (List (List UInt8))) : List UInt8 :=
  [formFeed].intercalate (pages.map fun lines => [lineFeed].intercalate lines)

/-- Drops blanks at line ends, empty lines at page ends and empty pages at the end. -/
def trimPages (pages : List (List (List UInt8))) : List (List (List UInt8)) :=
  dropTrailing List.isEmpty (pages.map fun lines =>
    dropTrailing List.isEmpty (lines.map fun line => dropTrailing (· == space) line))

def isFiller (b : UInt8) : Bool := b == space || b == lineFeed || b == formFeed

/-- A run of one byte: its length, if that is not one, and the byte. -/
def shortenRun (run : List UInt8) : List UInt8 :=
  if 1 < run.length then
    (Numeral.ofNat 10 run.length).map (fun c => UInt8.ofNat c.toNat) ++ run.take 1
  else run

/-- Shortens every run of filler. -/
def shortenRuns (bytes : List UInt8) : List UInt8 :=
  (bytes.splitBy fun a b => a == b && isFiller a).flatMap shortenRun

end Text

namespace Space

open Text

/-- Puts one byte at a place of the text. A blank byte is not written. The corner is the join of
all places written so far. -/
def putByte (origin : Vec) (c : Cursor) (b : UInt8) (s : Space) (corner : Option Cursor) :
    Except SpaceError (Space × Option Cursor) :=
  if b = Text.space then .ok (s, corner)
  else (s.set (origin + c.toVec) (Cell.ofByte b)).map fun s' =>
    (s', some (c.join (corner.getD {})))

/-- Puts every byte into the next column. -/
def putBytes (origin : Vec) (c : Cursor) (s : Space) (corner : Option Cursor) :
    List UInt8 → Except SpaceError (Option Cursor) × Space
  | [] => (.ok corner, s)
  | b :: rest =>
    match putByte origin c b s corner with
    | .error e => (.error e, s)
    | .ok (s', corner') => putBytes origin c.right s' corner' rest

/-- Puts text. A carriage return, a line feed or both in this order break the line, and a form
feed breaks the page. -/
def putText (origin : Vec) (c : Cursor) (s : Space) (corner : Option Cursor) :
    List UInt8 → Except SpaceError (Option Cursor) × Space
  | [] => (.ok corner, s)
  | b :: rest =>
    if b = carriageReturn && rest.head? = some lineFeed then putText origin c s corner rest
    else if b = carriageReturn || b = lineFeed then
      putText origin (c.nextLine s.dims) s corner rest
    else if b = formFeed then putText origin (c.nextPage s.dims) s corner rest
    else
      match putByte origin c b s corner with
      | .error e => (.error e, s)
      | .ok (s', corner') => putText origin c.right s' corner' rest

/-- Size of the box from the origin to a corner, on the axes that text has. -/
def cornerSize (dims : Nat) : Option Cursor → Vec
  | none => 0
  | some c =>
    Vec.ofList ((([c.column + 1, c.line + 1, c.page + 1] : List Nat).take dims).map Int64.ofNat)

/-- Loads text, or plain bytes if `binary`, at an origin. Gives the size of the box from the
origin that holds every cell written. The cells written before a failure stay. -/
def load (s : Space) (origin : Vec) (source : List UInt8) (binary : Bool) :
    Except SpaceError Vec × Space :=
  let (result, s') :=
    if binary then putBytes origin {} s none source else putText origin {} s none source
  (result.map (cornerSize s.dims), s')

/-- Most cells that a dump writes. -/
def maxDump : Nat := 1 <<< 26

/-- Length of a region on an axis. An axis the space does not have counts one. -/
def regionLength (s : Space) (size : Vec) (axis : Nat) : Nat :=
  if axis < s.dims then (size.get axis).toCount else 1

/-- The byte a cell is written as. A cell that holds no byte is written as a question mark. -/
def cellByte (c : Cell) : UInt8 := (Cell.toByte? c).getD 63

/-- Writes out the region from `origin` on. An empty axis still has its breaks, so it counts
one against the limit. -/
def dump (s : Space) (origin size : Vec) (linear : Bool) : Except SpaceError (List UInt8) := do
  let columns := s.regionLength size 0
  let lines := s.regionLength size 1
  let pages := s.regionLength size 2
  if maxDump < max columns 1 * max lines 1 * max pages 1 then throw (.tooLarge size)
  let text ← (List.range pages).mapM fun z => (List.range lines).mapM fun y =>
    (List.range columns).mapM fun x =>
      cellByte <$> s.get (origin + (Cursor.mk x y z).toVec)
  return if linear then shortenRuns (joinPages (trimPages text)) else joinPages text

end Space

end Funge
