import Funge.Space.Text

/-!
# The layout of a text

A text is read in two stages: its bytes become marks, where a carriage return and a line feed
after it are one break, and the marks become places of bytes. Loading a text puts its bytes one
by one into their places, and so does loading plain bytes, whose places are the columns of one
line.
-/

namespace Funge

namespace Text

/-- What a text consists of. -/
inductive Mark where
  | ink (byte : UInt8)
  | lineBreak
  | pageBreak
deriving DecidableEq

/-- The marks of a text. -/
def marks : List UInt8 → List Mark
  | [] => []
  | b :: rest =>
    if b = carriageReturn ∧ rest.head? = some lineFeed then marks rest
    else if b = carriageReturn ∨ b = lineFeed then .lineBreak :: marks rest
    else if b = formFeed then .pageBreak :: marks rest
    else .ink b :: marks rest

/-- The bytes of a text with their places, from a cursor on. -/
def layout (dims : Nat) (c : Cursor) : List Mark → List (Cursor × UInt8)
  | [] => []
  | .ink b :: rest => (c, b) :: layout dims c.right rest
  | .lineBreak :: rest => layout dims (c.nextLine dims) rest
  | .pageBreak :: rest => layout dims (c.nextPage dims) rest

/-- Plain bytes with their places, from a cursor on. -/
def row (c : Cursor) (bytes : List UInt8) : List (Cursor × UInt8) :=
  (bytes.zipIdx c.column).map fun (b, column) => ({ c with column }, b)

/-- The bytes of a source with their places. -/
def placed (dims : Nat) (binary : Bool) (source : List UInt8) : List (Cursor × UInt8) :=
  if binary then row {} source else layout dims {} (marks source)

theorem row_cons (c : Cursor) (b : UInt8) (bytes : List UInt8) :
    row c (b :: bytes) = (c, b) :: row c.right bytes := by
  simp [row, Cursor.right]

/-- A cursor that has left the first column, line or page only along the axes of the space. -/
def Cursor.Within (dims : Nat) (c : Cursor) : Prop :=
  (dims < 2 → c.line = 0) ∧ (dims < 3 → c.page = 0)

theorem Cursor.within_nextLine {dims : Nat} {c : Cursor} (h : c.Within dims) :
    (c.nextLine dims).Within dims := by
  by_cases two : 2 ≤ dims
  · simp only [Cursor.nextLine, if_pos two]
    exact ⟨fun small => by omega, h.2⟩
  · simpa only [Cursor.nextLine, if_neg two] using h

theorem Cursor.within_nextPage {dims : Nat} {c : Cursor} (h : c.Within dims) :
    (c.nextPage dims).Within dims := by
  by_cases three : 3 ≤ dims
  · simp only [Cursor.nextPage, if_pos three]
    exact ⟨fun _ => rfl, fun small => by omega⟩
  · simpa only [Cursor.nextPage, if_neg three] using h

theorem layout_within {dims : Nat} {c : Cursor} (h : c.Within dims) (ms : List Mark) :
    ∀ place ∈ layout dims c ms, place.1.Within dims := by
  induction ms generalizing c with
  | nil => simp [layout]
  | cons m ms ih =>
    cases m with
    | ink b =>
      intro place hp
      rcases List.mem_cons.mp hp with rfl | hp
      · exact h
      · exact ih (c := c.right) h place hp
    | lineBreak => exact ih (Cursor.within_nextLine h)
    | pageBreak => exact ih (Cursor.within_nextPage h)

/-- No byte is placed beyond the axes of the space. -/
theorem placed_within (dims : Nat) (binary : Bool) (source : List UInt8) :
    ∀ place ∈ placed dims binary source, place.1.Within dims := by
  have start : Cursor.Within dims {} := ⟨fun _ => rfl, fun _ => rfl⟩
  cases binary with
  | false => exact layout_within start (marks source)
  | true =>
    intro place hp
    simp only [placed, row, if_true, List.mem_map] at hp
    obtain ⟨entry, _, rfl⟩ := hp
    exact start

end Text

namespace Space

open Text

/-- Puts bytes into their places one after the other, until one is refused. -/
def putPlaced (origin : Vec) (s : Space) (corner : Option Cursor) :
    List (Cursor × UInt8) → Except SpaceError (Option Cursor) × Space
  | [] => (.ok corner, s)
  | (c, b) :: rest =>
    match putByte origin c b s corner with
    | .error e => (.error e, s)
    | .ok (s', corner') => putPlaced origin s' corner' rest

@[simp] theorem dims_write (s : Space) (v : Vec) (c : Cell) : (s.write v c).dims = s.dims := by
  unfold write
  split
  · split <;> rfl
  · rfl

theorem dims_set {s s' : Space} {v : Vec} {c : Cell} (h : s.set v c = .ok s') :
    s'.dims = s.dims := by
  by_cases fits : v.fits s.dims = true
  · have written : s.write v c = s' := by simpa [set, fits] using h
    rw [← written, dims_write]
  · simp [set, fits] at h

theorem dims_putByte {origin : Vec} {c : Cursor} {b : UInt8} {s s' : Space}
    {corner corner' : Option Cursor} (h : putByte origin c b s corner = .ok (s', corner')) :
    s'.dims = s.dims := by
  unfold putByte at h
  split at h
  · cases h
    rfl
  · cases hs : s.set (origin + c.toVec) (Cell.ofByte b) with
    | error e => simp [hs, Except.map] at h
    | ok t =>
      simp only [hs, Except.map, Except.ok.injEq, Prod.mk.injEq] at h
      rw [← h.1]
      exact dims_set hs

theorem putBytes_eq (origin : Vec) (c : Cursor) (s : Space) (corner : Option Cursor)
    (bytes : List UInt8) :
    putBytes origin c s corner bytes = putPlaced origin s corner (row c bytes) := by
  induction bytes generalizing c s corner with
  | nil => rfl
  | cons b bytes ih =>
    rw [row_cons, putBytes, putPlaced]
    cases putByte origin c b s corner with
    | error e => rfl
    | ok result => exact ih c.right result.1 result.2

theorem putText_eq (origin : Vec) (c : Cursor) (s : Space) (corner : Option Cursor)
    (bytes : List UInt8) :
    putText origin c s corner bytes =
      putPlaced origin s corner (layout s.dims c (marks bytes)) := by
  induction bytes generalizing c s corner with
  | nil => rfl
  | cons b bytes ih =>
    rw [putText, marks]
    by_cases pair : b = carriageReturn ∧ bytes.head? = some lineFeed
    · simp only [pair, and_self, if_true, decide_true, Bool.and_self]
      exact ih c s corner
    · have unpaired : ¬ (decide (b = carriageReturn) && decide (bytes.head? = some lineFeed)) = true := by
        simpa using pair
      rw [if_neg unpaired, if_neg pair]
      by_cases line : b = carriageReturn ∨ b = lineFeed
      · have line' : (decide (b = carriageReturn) || decide (b = lineFeed)) = true := by
          simpa using line
        rw [if_pos line', if_pos line]
        exact ih (c.nextLine s.dims) s corner
      · have line' : ¬ (decide (b = carriageReturn) || decide (b = lineFeed)) = true := by
          simpa using line
        rw [if_neg line', if_neg line]
        by_cases page : b = formFeed
        · rw [if_pos page, if_pos page]
          exact ih (c.nextPage s.dims) s corner
        · rw [if_neg page, if_neg page, layout, putPlaced]
          cases put : putByte origin c b s corner with
          | error e => rfl
          | ok result =>
            obtain ⟨after, corner'⟩ := result
            rw [← dims_putByte put]
            exact ih c.right after corner'

/-- A load puts the bytes of its source into their places. -/
theorem load_eq (s : Space) (origin : Vec) (source : List UInt8) (binary : Bool) :
    s.load origin source binary =
      ((putPlaced origin s none (placed s.dims binary source)).1.map (cornerSize s.dims),
        (putPlaced origin s none (placed s.dims binary source)).2) := by
  cases binary with
  | false => simp [load, placed, putText_eq]
  | true => simp [load, placed, putBytes_eq]

end Space

end Funge
