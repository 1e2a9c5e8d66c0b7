import Funge.Proofs.Faults
import Funge.Proofs.Playfield
import Funge.Proofs.Reachable

/-!
# Division with overflow

A path that counts down on an axis and leaves the box is led back by a division by minus one. The
dividend is the way from the far end of the box, and when that way is half of all words long, the
division overflows. This needs a box of at least that length, or a pointer that stands just that
far outside of it; no other division of a search or a walk overflows, and no tick faults that way
with its pointers anywhere else.
-/

namespace Funge

namespace Space

/-- Leading the point back along its path divides the least cell by minus one. -/
def Overflows (s : Space) (point delta : Vec) : Prop :=
  ∃ axis lo hi, axis < s.dims ∧ s.extent? axis = some (lo, hi) ∧ delta.get axis = -1 ∧
    point.get axis - hi = Int64.minValue

theorem divide_eq_error {a b : Cell} {cause : Fault} :
    divide a b = .error cause ↔ cause = .divideOverflow ∧ a = Int64.minValue ∧ b = -1 := by
  unfold divide
  split
  · rename_i extreme
    simp [extreme, eq_comm]
  · rename_i moderate
    simp [moderate]

/-- Only a path that counts down from the far end of the extent can overflow. -/
theorem stepsInside_eq_error {extent : Cell × Cell} {p d : Cell} {cause : Fault} :
    stepsInside extent p d = .error cause ↔
      cause = .divideOverflow ∧ p - extent.2 = Int64.minValue ∧ d = -1 := by
  rw [stepsInside, divide_eq_error]
  by_cases down : d = -1
  · have negative : ¬ (0 : Cell) < -1 := by decide
    simp [down, negative]
  · simp [down]

section Traversals

variable {α β : Type}

theorem mem_mapM_some {f : α → Option β} {xs : List α} {ys : List β} (h : xs.mapM f = some ys)
    (y : β) : y ∈ ys ↔ ∃ x ∈ xs, f x = some y := by
  induction xs generalizing ys with
  | nil =>
    cases h
    simp
  | cons x xs ih =>
    rw [List.mapM_cons] at h
    cases hx : f x with
    | none => simp [hx] at h
    | some z =>
      cases hxs : xs.mapM f with
      | none => simp [hx, hxs] at h
      | some zs =>
        simp only [hx, hxs, Option.bind_eq_bind, Option.bind_some, pure, Option.some.injEq] at h
        subst h
        simp [ih hxs, hx, eq_comm]

theorem mapM_eq_some_of_forall {f : α → Option β} {xs : List α} (h : ∀ x ∈ xs, (f x).isSome) :
    ∃ ys, xs.mapM f = some ys := by
  induction xs with
  | nil => exact ⟨[], rfl⟩
  | cons x xs ih =>
    obtain ⟨y, hy⟩ := Option.isSome_iff_exists.mp (h x List.mem_cons_self)
    obtain ⟨ys, hys⟩ := ih fun z hz => h z (List.mem_cons_of_mem x hz)
    exact ⟨y :: ys, by simp [List.mapM_cons, hy, hys]⟩

/-- A traversal whose entries fail in one way only fails exactly when one of them does. -/
theorem mapM_eq_error_iff {f : α → Except Fault β} {cause : Fault}
    (only : ∀ x e, f x = .error e → e = cause) {xs : List α} :
    xs.mapM f = .error cause ↔ ∃ x ∈ xs, f x = .error cause := by
  induction xs with
  | nil => simp [pure, Except.pure]
  | cons x xs ih =>
    rw [List.mapM_cons]
    cases hx : f x with
    | error e =>
      obtain rfl := only x e hx
      simp [hx, bind, Except.bind]
    | ok y =>
      cases hxs : xs.mapM f with
      | error e =>
        rw [hxs] at ih
        simpa [hx, bind, Except.bind] using ih
      | ok ys =>
        rw [hxs] at ih
        simpa [hx, bind, Except.bind, pure, Except.pure] using ih

theorem bind_eq_error {a : Except Fault α} {k : α → Except Fault β} {cause : Fault}
    (h : a = .error cause) : (a >>= k) = .error cause := by
  rw [h]
  rfl

end Traversals

theorem overflows_of_wrap {s : Space} {point delta : Vec}
    (h : s.wrap point delta = .error .divideOverflow) : s.Overflows point delta := by
  simp only [wrap, bind, Except.bind, pure, Except.pure] at h
  split at h
  · cases h
  · rename_i extents located
    split at h
    · rename_i e failed
      cases h
      obtain ⟨⟨axis, lo, hi⟩, member, overflow⟩ := (mapM_eq_error_iff
        fun _ _ failed => (stepsInside_eq_error.mp failed).1).mp failed
      obtain ⟨_, least, down⟩ := stepsInside_eq_error.mp overflow
      obtain ⟨i, moving, found⟩ := (mem_mapM_some located _).mp member
      obtain ⟨extent, he, same⟩ := Option.map_eq_some_iff.mp found
      cases same
      have bound : axis < s.dims := List.mem_range.mp (List.mem_filter.mp moving).1
      exact ⟨axis, lo, hi, bound, he, down, least⟩
    · split at h <;> cases h

/-- In a space with sound books a point fails to be led back exactly when that overflows. -/
theorem Sound.wrap_eq_error_iff {s : Space} (sound : s.Sound) {point delta : Vec} :
    s.wrap point delta = .error .divideOverflow ↔ s.Overflows point delta := by
  constructor
  · exact overflows_of_wrap
  · rintro ⟨axis, lo, hi, bound, found, down, least⟩
    -- One axis has an extent, so all have.
    have spanned : ∀ i ∈ (List.range s.dims).filter fun i => delta.get i ≠ 0,
        ((s.extent? i).map (i, ·)).isSome := by
      intro i moving
      have inside : i < s.dims := List.mem_range.mp (List.mem_filter.mp moving).1
      rw [Option.isSome_map, Option.isSome_iff_ne_none, ne_eq, sound.extent?_eq_none_iff inside,
        ← sound.extent?_eq_none_iff bound, found]
      exact Option.some_ne_none _
    obtain ⟨extents, located⟩ := mapM_eq_some_of_forall spanned
    have moving : axis ∈ (List.range s.dims).filter fun i => delta.get i ≠ 0 := by
      simp [bound, down]
    have member : (axis, lo, hi) ∈ extents :=
      (mem_mapM_some located _).mpr ⟨axis, moving, by simp [found]⟩
    simp only [wrap, located]
    refine bind_eq_error ((mapM_eq_error_iff ?_).mpr ⟨(axis, lo, hi), member, ?_⟩)
    · exact fun _ _ failed => (stepsInside_eq_error.mp failed).1
    · exact stepsInside_eq_error.mpr ⟨rfl, least, down⟩

/-- A point inside the box lies inside every extent. -/
theorem inside_extent {s : Space} {v : Vec} (inside : s.outside v = false) {axis : Nat}
    (bound : axis < s.dims) {lo hi : Cell} (found : s.extent? axis = some (lo, hi)) :
    lo ≤ v.get axis ∧ v.get axis ≤ hi := by
  simp only [outside, Bool.or_eq_false_iff, List.any_eq_false] at inside
  obtain ⟨o, listed, spans⟩ := Option.bind_eq_some_iff.mp found
  have entry : (s.axes.zip (v.coordinates s.dims))[axis]? = some (o, v.get axis) :=
    List.getElem?_zip_eq_some.mpr ⟨listed, Vec.getElem?_coordinates v bound⟩
  have included := inside.2 _ (List.mem_of_getElem? entry)
  simpa [Occupancy.excludes, spans] using included

/-- One step down from a cell, half of all words from the far end. -/
theorem half_span {lo c hi : Cell} (low : lo ≤ c) (high : c ≤ hi)
    (least : c - 1 - hi = Int64.minValue) : 2 ^ 63 - 1 ≤ hi.toInt - lo.toInt := by
  have above : lo.toInt ≤ c.toInt := Int64.le_iff_toInt_le.mp low
  have below : c.toInt ≤ hi.toInt := Int64.le_iff_toInt_le.mp high
  have value := congrArg Int64.toInt least
  have c_low := c.le_toInt
  have c_high := c.toInt_lt
  have hi_low := hi.le_toInt
  have hi_high := hi.toInt_lt
  rw [Int64.toInt_sub, Int64.toInt_sub, Int64.toInt_minValue] at value
  simp only [Int64.toInt_one, Int.bmod] at value
  split at value
  · omega
  · omega

/-- Where the step after a point inside the box overflows, the box is half of all words long. -/
theorem span_of_overflows {s : Space} {v delta : Vec} (inside : s.outside v = false)
    (overflows : s.Overflows (v + delta) delta) :
    ∃ axis lo hi, axis < s.dims ∧ s.extent? axis = some (lo, hi) ∧ delta.get axis = -1 ∧
      2 ^ 63 - 1 ≤ hi.toInt - lo.toInt := by
  obtain ⟨axis, lo, hi, bound, found, down, least⟩ := overflows
  obtain ⟨low, high⟩ := inside_extent inside bound found
  rw [Vec.get_add, down, ← Int64.sub_eq_add_neg] at least
  exact ⟨axis, lo, hi, bound, found, down, half_span low high least⟩

end Space

namespace Pointer

/-- On an axis along which the pointer steps one cell at a time, it stands one step before half
of all words from the end of the box, or the box is that long itself. -/
def AtBrink (p : Pointer) (s : Space) : Prop :=
  ∃ axis lo hi, axis < s.dims ∧ s.extent? axis = some (lo, hi) ∧
    (p.delta.get axis = -1 ∨ p.delta.get axis = 1) ∧
    (p.position.get axis - 1 - hi = Int64.minValue ∨ 2 ^ 63 - 1 ≤ hi.toInt - lo.toInt)

/-- The pointer turned around is at the same brinks. -/
theorem AtBrink.of_reflect {p : Pointer} {s : Space} (h : p.reflect.AtBrink s) : p.AtBrink s := by
  obtain ⟨axis, lo, hi, bound, found, steps, brink⟩ := h
  refine ⟨axis, lo, hi, bound, found, ?_, brink⟩
  simp only [reflect, Vec.get_neg] at steps
  rcases steps with down | up
  · exact .inr (Int64.neg_inj.mp down)
  · exact .inl (Int64.neg_inj.mp up)

theorem atBrink_of_overflows {p : Pointer} {s : Space}
    (h : s.Overflows (p.position + p.delta) p.delta) : p.AtBrink s := by
  obtain ⟨axis, lo, hi, bound, found, down, least⟩ := h
  rw [Vec.get_add, down, ← Int64.sub_eq_add_neg] at least
  exact ⟨axis, lo, hi, bound, found, .inl down, .inl least⟩

theorem atBrink_of_span {p : Pointer} {s : Space} {v : Vec} (inside : s.outside v = false)
    (h : s.Overflows (v + p.delta) p.delta) : p.AtBrink s := by
  obtain ⟨axis, lo, hi, bound, found, down, long⟩ := Space.span_of_overflows inside h
  exact ⟨axis, lo, hi, bound, found, .inl down, .inr long⟩

theorem atBrink_of_adjacent {p : Pointer} {s : Space}
    (h : p.adjacent s = .error .divideOverflow) : p.AtBrink s := by
  simp only [adjacent] at h
  split at h
  · exact atBrink_of_overflows (Space.overflows_of_wrap h)
  · cases h

theorem overflows_of_land {s : Space} {delta point : Vec} {entry : Option Vec}
    (h : land s delta point entry = .error .divideOverflow) : s.Overflows point delta := by
  unfold land at h
  split at h
  · cases wrapped : s.wrap point delta with
    | error cause =>
      simp only [wrapped, bind, Except.bind, Except.error.injEq] at h
      subst h
      exact Space.overflows_of_wrap wrapped
    | ok v =>
      simp only [wrapped, bind, Except.bind, pure, Except.pure] at h
      split at h <;> cases h
  · cases h

/-- A search goes on from points inside the box only. -/
theorem inside_of_land {s : Space} {delta point v : Vec} {entry entry' : Option Vec}
    (h : land s delta point entry = .ok (.visit v entry')) : s.outside v = false := by
  unfold land at h
  split at h
  · cases wrapped : s.wrap point delta with
    | error cause => simp [wrapped, bind, Except.bind] at h
    | ok u =>
      simp only [wrapped, bind, Except.bind, pure, Except.pure] at h
      split at h
      · cases h
      · rename_i going
        cases h
        simp only [Bool.or_eq_true, not_or, Bool.not_eq_true] at going
        exact going.1
  · rename_i inside
    cases h
    simpa using inside

/-- A search overflows at its first point or one step after a point inside the box. -/
theorem scan_overflows {s : Space} {delta : Vec} {string startBlank : Bool} {bound : Nat}
    {point : Vec} {inComment : Bool} {entry : Option Vec}
    (h : scan s delta string startBlank bound point inComment entry = .error .divideOverflow) :
    s.Overflows point delta ∨
      ∃ v, s.outside v = false ∧ s.Overflows (v + delta) delta := by
  induction bound generalizing point inComment entry with
  | zero => cases h
  | succ bound ih =>
    rw [scan] at h
    cases landed : land s delta point entry with
    | error cause =>
      simp only [landed, Except.error.injEq] at h
      subst h
      exact .inl (overflows_of_land landed)
    | ok l =>
      cases l with
      | final v => simp [landed] at h
      | visit v entry' =>
        have inside := inside_of_land landed
        have later {inComment : Bool} (searched : scan s delta string startBlank bound (v + delta)
            inComment entry' = .error .divideOverflow) :
            s.Overflows point delta ∨
              ∃ v, s.outside v = false ∧ s.Overflows (v + delta) delta := by
          rcases ih searched with first | further
          · exact .inr ⟨v, inside, first⟩
          · exact .inr further
        simp only [landed] at h
        split at h
        · exact later h
        · split at h
          · exact later h
          · cases h

/-- A search that overflows counts down on some axis. -/
theorem search_overflows {p : Pointer} {s : Space} {point : Vec} {startBlank : Bool}
    (h : p.search s point startBlank = .error (.fault .divideOverflow)) :
    s.Overflows point p.delta ∨
      ∃ v, s.outside v = false ∧ s.Overflows (v + p.delta) p.delta := by
  unfold search at h
  cases scanned : scan s p.delta p.flags.string startBlank scanBound point false none with
  | ok v => simp [scanned, Except.mapError] at h
  | error cause =>
    simp only [scanned, Except.mapError, Except.error.injEq, MachineError.fault.injEq] at h
    subst h
    exact scan_overflows scanned

theorem atBrink_of_nextPosition {p : Pointer} {s : Space}
    (h : p.nextPosition s = .error (.fault .divideOverflow)) : p.AtBrink s := by
  unfold nextPosition at h
  split at h
  · cases h
  · cases read : s.get p.position with
    | error e => simp [read, Except.mapError, bind, Except.bind] at h
    | ok cell =>
      simp only [read, Except.mapError, bind, Except.bind] at h
      rcases search_overflows h with first | ⟨v, inside, further⟩
      · exact atBrink_of_overflows first
      · exact atBrink_of_span inside further

/-- A new pointer counts up, so it never overflows on its way to its first cell. -/
theorem settle_start_calm (id dims : Nat) (s : Space) :
    (start id dims).settle s ≠ .error (.fault .divideOverflow) := by
  have rising {point : Vec} : ¬ s.Overflows point (start id dims).delta := by
    rintro ⟨axis, lo, hi, _, _, down, _⟩
    simp only [start, Vec.unit, Vec.get_set, Vec.get_zero] at down
    split at down <;> revert down <;> decide
  intro h
  unfold settle at h
  split at h
  · cases h
  · cases read : s.get (start id dims).position with
    | error e => simp [read, Except.mapError, bind, Except.bind] at h
    | ok cell =>
      simp only [read, Except.mapError, bind, Except.bind, pure, Except.pure] at h
      split at h
      · split at h
        · rename_i e searched
          cases h
          rcases search_overflows searched with first | ⟨v, _, further⟩
          · exact rising first
          · exact rising further
        · cases h
      · cases h

end Pointer

theorem Focus.Breaks.atBrink {f : Focus} (h : f.Breaks .divideOverflow) :
    f.pointer.AtBrink f.world.space := by
  cases h with
  | walk walked => exact Pointer.atBrink_of_adjacent walked
  | search searched => exact Pointer.atBrink_of_nextPosition searched
  | back searched => exact (Pointer.atBrink_of_nextPosition searched).of_reflect

namespace Machine

theorem spawn_calm (m : Machine) : m.spawn.1 ≠ .error (.fault .divideOverflow) := by
  intro h
  unfold spawn at h
  dsimp only at h
  split at h
  · rename_i e settled
    cases h
    exact Pointer.settle_start_calm _ _ _ settled
  · cases h

/-- Leading a point back into the box overflows exactly on an axis that counts down, half of all
words from the far end. Starting a pointer never comes to that, and a tick only at a pointer on
the brink, whatever instructions are executed. -/
theorem overflow_only_at_brink (m : Machine) :
    (m.world.space.Sound → ∀ point delta,
      m.world.space.wrap point delta = .error .divideOverflow ↔
        m.world.space.Overflows point delta) ∧
    m.spawn.1 ≠ .error (.fault .divideOverflow) ∧
    (m.tick.1 = .error (.fault .divideOverflow) →
      ∃ p ∈ m.tick.2.pointers, p.AtBrink m.tick.2.world.space) := by
  refine ⟨fun sound point delta => sound.wrap_eq_error_iff, m.spawn_calm, ?_⟩
  intro faulted
  have ticked : m.tick = (.error (.fault .divideOverflow), m.tick.2) := Prod.ext faulted rfl
  obtain ⟨p, member, breaks⟩ := tick_breaks ticked
  exact ⟨p, member, breaks.atBrink⟩

/-- A program that puts a cell on the greatest row, at a column where it then turns north, with
the number of that row to read. -/
def northbound : Machine :=
  ((standard {} { Host.bare with
    input := [57, 50, 50, 51, 51, 55, 50, 48, 51, 54, 56, 53, 52, 55, 55, 53, 56, 48, 55] }).load
      [39, 64, 53, 38, 112, 94]).2.tick.2.tick.2.tick.2.tick.2

/-- All pointers of the program fit, and its next tick overflows. -/
theorem northbound_overflows :
    northbound.pointers ≠ [] ∧
    (∀ p ∈ northbound.pointers, p.position.fits northbound.world.space.dims = true ∧
      p.delta.fits northbound.world.space.dims = true ∧
      p.offset.fits northbound.world.space.dims = true) ∧
    northbound.tick.1 = .error (.fault .divideOverflow) := by
  refine ⟨?_, ?_, ?_⟩ <;> decide +kernel

theorem northbound_at_brink :
    northbound.tick.1 = .error (.fault .divideOverflow) ∧
    ∃ p ∈ northbound.tick.2.pointers, p.AtBrink northbound.tick.2.world.space := by
  have faulted : northbound.tick.1 = .error (.fault .divideOverflow) := by decide +kernel
  exact ⟨faulted, (overflow_only_at_brink northbound).2.2 faulted⟩

end Machine

end Funge
