import Funge.Pointer.Motion
import Funge.Proofs.Layout
import Funge.Proofs.Vec

/-!
# Points stay in their dimensions

Every way to get a point of the playfield from points that fit gives a point that fits: steps,
wraps, searches, jumps and the places of a text. So reads and writes at such points are granted,
and what computes with them ends with a value or with a fault of the machine, never with a
refusal of the playfield.
-/

namespace Funge

/-- The computation gives a value with `Q`, unless the machine faults. -/
def Yields {α : Type} (Q : α → Prop) : Except MachineError α → Prop
  | .ok x => Q x
  | .error e => ∃ cause, e = .fault cause

namespace Space

theorem get_of_fits {s : Space} {v : Vec} (h : v.fits s.dims = true) : s.get v = .ok (s.peek v) := by
  simp [get, h]

theorem set_of_fits {s : Space} {v : Vec} (h : v.fits s.dims = true) (c : Cell) :
    s.set v c = .ok (s.write v c) := by
  simp [set, h]

/-- A wrapped point lies a number of steps back on its path. -/
theorem wrap_eq {s : Space} {position delta v : Vec} (h : s.wrap position delta = .ok v) :
    ∃ n, v = position - delta.scale n := by
  have unmoved : position = position - delta.scale 0 := by
    apply Vec.ext_get
    intro i
    simp
  simp only [wrap, bind, Except.bind, pure, Except.pure] at h
  split at h
  · cases h
    exact ⟨0, unmoved⟩
  · split at h
    · cases h
    · split at h
      · cases h
        exact ⟨0, unmoved⟩
      · cases h
        exact ⟨_, rfl⟩

theorem wrap_fits {s : Space} {position delta v : Vec} {dims : Nat}
    (hp : position.fits dims = true) (hd : delta.fits dims = true)
    (h : s.wrap position delta = .ok v) : v.fits dims = true := by
  obtain ⟨n, rfl⟩ := wrap_eq h
  exact Vec.fits_sub hp (Vec.fits_scale hd n)

theorem travel_fits (s : Space) {position delta : Vec} {dims : Nat}
    (hp : position.fits dims = true) (hd : delta.fits dims = true) (n : Cell) :
    (s.travel position delta n).fits dims = true := by
  unfold travel
  split
  · exact hp
  · simp only
    split
    · exact hp
    · exact Vec.fits_add hp (Vec.fits_scale hd _)

end Space

namespace Text.Cursor

/-- The place of a cursor has no component beyond the axes of the space. -/
theorem toVec_fits {dims : Nat} (positive : 0 < dims) {c : Cursor} (h : c.Within dims) :
    c.toVec.fits dims = true := by
  rw [Vec.fits_iff]
  intro i hi
  match i with
  | 0 => omega
  | 1 => simp [toVec, h.1 (by omega)]
  | 2 => simp [toVec, h.2 (by omega)]
  | i + 3 => simp [toVec]

end Text.Cursor

namespace Space

open Text

theorem putByte_of_fits {s : Space} {origin : Vec} {c : Cursor} {b : UInt8}
    (corner : Option Cursor) (fits : (origin + c.toVec).fits s.dims = true) :
    ∃ s' corner', putByte origin c b s corner = .ok (s', corner') ∧ s'.dims = s.dims := by
  by_cases blank : b = Text.space
  · exact ⟨s, corner, by simp [putByte, blank], rfl⟩
  · refine ⟨s.write (origin + c.toVec) (Cell.ofByte b), some (c.join (corner.getD {})), ?_, ?_⟩
    · simp [putByte, blank, set_of_fits fits, Except.map]
    · exact dims_write s _ _

theorem putPlaced_of_fits {s : Space} {origin : Vec} (corner : Option Cursor)
    {places : List (Cursor × UInt8)}
    (fits : ∀ place ∈ places, (origin + place.1.toVec).fits s.dims = true) :
    ∃ corner' s', putPlaced origin s corner places = (.ok corner', s') ∧ s'.dims = s.dims := by
  induction places generalizing s corner with
  | nil => exact ⟨corner, s, rfl, rfl⟩
  | cons place places ih =>
    obtain ⟨s', corner', put, same⟩ :=
      putByte_of_fits (b := place.2) corner (fits place List.mem_cons_self)
    obtain ⟨corner'', s'', rest, same'⟩ := ih (s := s') corner' fun q hq => by
      rw [same]
      exact fits q (List.mem_cons_of_mem place hq)
    refine ⟨corner'', s'', ?_, same'.trans same⟩
    rw [putPlaced, put]
    exact rest

/-- A load at an origin that fits is granted. -/
theorem load_of_fits {s : Space} (positive : 0 < s.dims) {origin : Vec}
    (fits : origin.fits s.dims = true) (source : List UInt8) (binary : Bool) :
    ∃ size s', s.load origin source binary = (.ok size, s') ∧ s'.dims = s.dims := by
  have within : ∀ place ∈ placed s.dims binary source,
      (origin + place.1.toVec).fits s.dims = true := fun place hp =>
    Vec.fits_add fits (Cursor.toVec_fits positive (placed_within s.dims binary source place hp))
  obtain ⟨corner, s', put, same⟩ := putPlaced_of_fits none within
  refine ⟨cornerSize s.dims corner, s', ?_, same⟩
  rw [load_eq, put]
  rfl

/-- A cursor of a region has no component on an axis that the space lacks. -/
theorem region_within {s : Space} {size : Vec} {x y z : Nat} (hy : y < s.regionLength size 1)
    (hz : z < s.regionLength size 2) : (Cursor.mk x y z).Within s.dims := by
  constructor
  · intro small
    simp only [regionLength, if_neg (show ¬ 1 < s.dims by omega)] at hy
    exact Nat.lt_one_iff.mp hy
  · intro small
    simp only [regionLength, if_neg (show ¬ 2 < s.dims by omega)] at hz
    exact Nat.lt_one_iff.mp hz

/-- The bytes that the cells of a region are written as, by pages and lines. -/
def region (s : Space) (origin size : Vec) : List (List (List UInt8)) :=
  (List.range (s.regionLength size 2)).map fun z =>
    (List.range (s.regionLength size 1)).map fun y =>
      (List.range (s.regionLength size 0)).map fun x =>
        cellByte (s.peek (origin + (Cursor.mk x y z).toVec))

theorem mapM_eq_map {α β ε : Type} {f : α → Except ε β} {g : α → β} {xs : List α}
    (h : ∀ x ∈ xs, f x = .ok (g x)) : xs.mapM f = .ok (xs.map g) := by
  induction xs with
  | nil => rfl
  | cons x xs ih =>
    have tail := ih fun y hy => h y (List.mem_cons_of_mem x hy)
    rw [List.mapM_cons, h x List.mem_cons_self, tail]
    rfl

/-- A dump of a region that is not too large joins its pages, trimmed and shortened in the linear
form. -/
theorem dump_eq {s : Space} (positive : 0 < s.dims) {origin : Vec}
    (fits : origin.fits s.dims = true) (size : Vec) (linear : Bool) :
    s.dump origin size linear =
      if maxDump < max (s.regionLength size 0) 1 * max (s.regionLength size 1) 1 *
          max (s.regionLength size 2) 1 then .error (.tooLarge size)
      else .ok (if linear then shortenRuns (joinPages (trimPages (s.region origin size)))
        else joinPages (s.region origin size)) := by
  have text : ((List.range (s.regionLength size 2)).mapM fun z =>
      (List.range (s.regionLength size 1)).mapM fun y =>
        (List.range (s.regionLength size 0)).mapM fun x =>
          cellByte <$> s.get (origin + (Cursor.mk x y z).toVec)) =
      .ok (s.region origin size) := by
    apply mapM_eq_map
    intro z hz
    apply mapM_eq_map
    intro y hy
    apply mapM_eq_map
    intro x _
    have within : (Cursor.mk x y z).Within s.dims :=
      region_within (List.mem_range.mp hy) (List.mem_range.mp hz)
    rw [get_of_fits (Vec.fits_add fits (Cursor.toVec_fits positive within))]
    rfl
  simp only [dump]
  rw [text]
  split <;> rfl

/-- A dump from an origin that fits is refused only for its size. -/
theorem dump_of_fits {s : Space} (positive : 0 < s.dims) {origin : Vec}
    (fits : origin.fits s.dims = true) (size : Vec) (linear : Bool) {e : SpaceError}
    (h : s.dump origin size linear = .error e) : e = .tooLarge size := by
  rw [dump_eq positive fits] at h
  split at h
  · cases h
    rfl
  · cases h

end Space

namespace Pointer

/-- The point that a search goes on from or ends at. -/
def Landing.point : Landing → Vec
  | .final p => p
  | .visit p _ => p

theorem land_fits {s : Space} {delta point : Vec} {entry : Option Vec} {l : Landing} {dims : Nat}
    (hd : delta.fits dims = true) (hp : point.fits dims = true)
    (h : land s delta point entry = .ok l) : l.point.fits dims = true := by
  unfold land at h
  split at h
  · cases hw : s.wrap point delta with
    | error fault => simp [hw, bind, Except.bind] at h
    | ok wrapped =>
      have inside := Space.wrap_fits hp hd hw
      simp only [hw, bind, Except.bind] at h
      split at h
      · cases h
        exact inside
      · cases h
        exact inside
  · cases h
    exact hp

theorem scan_fits {s : Space} {delta : Vec} {string startBlank : Bool} {dims : Nat}
    (hd : delta.fits dims = true) (bound : Nat) {point : Vec} {inComment : Bool}
    {entry : Option Vec} (hp : point.fits dims = true) {v : Vec}
    (h : scan s delta string startBlank bound point inComment entry = .ok v) :
    v.fits dims = true := by
  induction bound generalizing point inComment entry with
  | zero => cases h
  | succ bound ih =>
    rw [scan] at h
    cases hl : land s delta point entry with
    | error fault => simp [hl] at h
    | ok l =>
      have inside := land_fits hd hp hl
      cases l with
      | final p =>
        simp only [hl, Except.ok.injEq] at h
        exact h ▸ inside
      | visit p entry' =>
        simp only [hl] at h
        split at h
        · exact ih (Vec.fits_add inside hd) h
        · split at h
          · exact ih (Vec.fits_add inside hd) h
          · cases h
            exact inside

theorem search_yields {p : Pointer} (s : Space) {point : Vec} {dims : Nat} (startBlank : Bool)
    (hd : p.delta.fits dims = true) (hp : point.fits dims = true) :
    Yields (·.fits dims = true) (p.search s point startBlank) := by
  unfold search
  cases h : scan s p.delta p.flags.string startBlank scanBound point false none with
  | error cause => exact ⟨cause, rfl⟩
  | ok v => exact scan_fits hd scanBound hp h

/-- The next position fits, if there is one. -/
theorem nextPosition_yields {p : Pointer} {s : Space} (hp : p.position.fits s.dims = true)
    (hd : p.delta.fits s.dims = true) : Yields (·.fits s.dims = true) (p.nextPosition s) := by
  unfold nextPosition
  split
  · exact hp
  · rw [Space.get_of_fits hp]
    exact search_yields s _ hd (Vec.fits_add hp hd)

theorem adjacent_fits {p : Pointer} {s : Space} {dims : Nat} (hp : p.position.fits dims = true)
    (hd : p.delta.fits dims = true) {v : Vec} (h : p.adjacent s = .ok v) : v.fits dims = true := by
  have next := Vec.fits_add hp hd
  simp only [adjacent] at h
  split at h
  · exact Space.wrap_fits next hd h
  · cases h
    exact next

/-- A search for the end of a comment moves the pointer only, to a point that fits, and breaks
off only by a fault. -/
theorem skipComment_fits {s : Space} (home : Vec) (bound : Nat) {p : Pointer}
    (hp : p.position.fits s.dims = true) (hd : p.delta.fits s.dims = true) :
    ∃ position, (skipComment s home bound p).2 = { p with position } ∧
      position.fits s.dims = true ∧ Yields (fun _ => True) (skipComment s home bound p).1 := by
  induction bound generalizing p with
  | zero => exact ⟨p.position, rfl, hp, .endless, rfl⟩
  | succ bound ih =>
    rw [skipComment]
    cases ha : p.adjacent s with
    | error cause => exact ⟨p.position, rfl, hp, cause, rfl⟩
    | ok next =>
      have inside := adjacent_fits hp hd ha
      simp only
      split
      · exact ⟨next, rfl, inside, trivial⟩
      · rw [Space.get_of_fits inside]
        simp only
        split
        · exact ⟨next, rfl, inside, trivial⟩
        · obtain ⟨position, moved, fits, ends⟩ := ih (p := { p with position := next }) inside hd
          exact ⟨position, moved, fits, ends⟩

end Pointer

end Funge
