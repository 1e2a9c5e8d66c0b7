import Funge.Proofs.Entry

/-!
# Paths that miss the box

A search that is not led into the box gives up at the point that it has been led to. The steps of
the way there are counted on each axis and rounded toward zero. Past the side of entry these are
the steps that fit into the way. Before the side of entry they are one too few, unless the way is
a whole number of steps. So a path that starts before the box may give up right in front of it, at
a point from which one more step leads inside. From all other points it gives up only if no point
of its line is inside.
-/

namespace Funge

namespace Space

variable {s : Space} {x d : Vec} {i j : Int}

/-- On every axis along which the path moves, the point is past the side of entry or a whole number
of steps before it. -/
def WholeSteps (s : Space) (x d : Vec) : Prop :=
  ∀ axis extent, axis < s.dims → s.extent? axis = some extent → d.get axis ≠ 0 →
    0 ≤ gone extent (x.get axis) (d.get axis) ∨
      pace (d.get axis) ∣ gone extent (x.get axis) (d.get axis)

/-- A path that moves by one at most on each axis always has whole steps to go. -/
theorem wholeSteps_of_unit (unit : ∀ axis, pace (d.get axis) ≤ 1) : s.WholeSteps x d := by
  intro axis extent _ _ moving
  have one : pace (d.get axis) = 1 := by
    have positive := pace_pos moving
    have small := unit axis
    omega
  rw [one]
  exact .inr (Int.one_dvd _)

/-- Rounding toward zero leaves less than one step. -/
theorem tdiv_remainder_gt (g : Int) {m : Int} (positive : 0 < m) : -m < g - g.tdiv m * m := by
  have remainder := Int.lt_tmod_of_pos g positive
  rwa [Int.tmod_def, Int.mul_comm] at remainder

theorem tdiv_remainder_nonneg {g m : Int} (whole : 0 ≤ g ∨ m ∣ g) : 0 ≤ g - g.tdiv m * m := by
  rw [Int.mul_comm, ← Int.tmod_def]
  rcases whole with past | divides
  · exact Int.tmod_nonneg m past
  · exact Int.le_of_eq (Int.tmod_eq_zero_of_dvd divides).symm

/-- A line that is in the box further on is in it from where it has passed all sides of entry. -/
theorem InBox.earlier (inside : s.InBox x d j) (before : i ≤ j)
    (entered : ∀ axis extent, axis < s.dims → s.extent? axis = some extent → d.get axis ≠ 0 →
      0 ≤ gone extent (x.get axis) (d.get axis) + i * pace (d.get axis)) : s.InBox x d i := by
  intro axis bound
  obtain ⟨extent, found, between⟩ := inside axis bound
  refine ⟨extent, found, ?_⟩
  by_cases moving : d.get axis = 0
  · rw [moving] at between ⊢
    simpa using between
  · rw [within_iff moving] at between ⊢
    have onward := Int.mul_le_mul_of_nonneg_right before (Int.le_of_lt (pace_pos moving))
    exact ⟨entered axis extent bound found moving, by omega⟩

namespace LedBack

variable {n : Cell}

/-- No point of the line before the one that a point is led to is in the box. -/
theorem le_number (back : s.LedBack x d n) (inside : s.InBox x d j) : -n.toInt ≤ j := by
  obtain ⟨axis, extent, bound, found, moving, steps⟩ := back.attained
  have positive := pace_pos moving
  have entered := inside.gone_nonneg bound found moving
  have remainder := (tdiv_remainder (g := gone extent (x.get axis) (d.get axis)) positive).1
  rw [← steps] at remainder
  by_contra early
  have short := Int.mul_le_mul_of_nonneg_right (show j ≤ -n.toInt - 1 by omega)
    (Int.le_of_lt positive)
  rw [Int.sub_mul, Int.neg_mul, Int.one_mul] at short
  omega

/-- On each axis a point is led to less than one step before the side of entry. -/
theorem nearly_entered (back : s.LedBack x d n) {axis : Nat} {extent : Cell × Cell}
    (bound : axis < s.dims) (found : s.extent? axis = some extent) (moving : d.get axis ≠ 0) :
    0 ≤ gone extent (x.get axis) (d.get axis) + (1 - n.toInt) * pace (d.get axis) := by
  have positive := pace_pos moving
  have remainder := tdiv_remainder_gt (gone extent (x.get axis) (d.get axis)) positive
  have allowed := Int.mul_le_mul_of_nonneg_right (back.allowed axis extent bound found moving)
    (Int.le_of_lt positive)
  rw [Int.sub_mul, Int.one_mul]
  omega

/-- From a point with whole steps to go it is led past the side of entry on each axis. -/
theorem entered (back : s.LedBack x d n) (whole : s.WholeSteps x d) {axis : Nat}
    {extent : Cell × Cell} (bound : axis < s.dims) (found : s.extent? axis = some extent)
    (moving : d.get axis ≠ 0) :
    0 ≤ gone extent (x.get axis) (d.get axis) + -n.toInt * pace (d.get axis) := by
  have remainder := tdiv_remainder_nonneg (whole axis extent bound found moving)
  have allowed := Int.mul_le_mul_of_nonneg_right (back.allowed axis extent bound found moving)
    (Int.le_of_lt (pace_pos moving))
  rw [Int.neg_mul]
  omega

/-- A point that is led to the outside of the box, though its line is in it somewhere, had no whole
steps to go, and the next point of the line is the first one inside. -/
theorem one_short (back : s.LedBack x d n) (inside : s.InBox x d j)
    (out : ¬ s.InBox x d (-n.toInt)) :
    ¬ s.WholeSteps x d ∧ s.InBox x d (1 - n.toInt) := by
  have beyond := back.le_number inside
  constructor
  · intro whole
    exact out (inside.earlier beyond fun _ _ bound found moving =>
      back.entered whole bound found moving)
  · have later : -n.toInt ≠ j := by
      rintro rfl
      exact out inside
    exact inside.earlier (by omega) fun _ _ bound found moving =>
      back.nearly_entered bound found moving

end LedBack

end Space

namespace Pointer

variable {p : Pointer} {s : Space}

/-- No operation of the next motion overflows: neither the step ahead, nor leading it back, nor
the search from there. -/
structure MovesExactly (p : Pointer) (s : Space) : Prop
    extends SearchesExactly p s (p.position + p.delta) where
  ahead : Vec.OnLine p.position p.delta 1 (p.position + p.delta)
  wraps : s.outside (p.position + p.delta) = true →
    s.WrapsExactly (p.position + p.delta) p.delta

/-- Nothing overflows when all coordinates are small where the pointer stands and one step ahead. -/
theorem movesExactly_of_compact (sound : s.Sound) (hd : p.delta.fits s.dims = true)
    (moving : p.delta.isZero = false) (here : s.Compact p.position p.delta)
    (there : s.Compact (p.position + p.delta) p.delta) : p.MovesExactly s := by
  have searches : p.SearchesExactly s (p.position + p.delta) := by
    apply searchesExactly_of_roomy here.roomy sound moving hd
    intro axis
    have small := there.point axis
    omega
  refine { searches with ahead := ?_, wraps := fun _ => there.wrapsExactly }
  intro axis
  have point := here.point axis
  have step := here.step axis
  rw [Vec.get_add, Int64.toInt_add, Int.one_mul]
  exact Int.bmod_eq_of_le (by omega) (by omega)

/-- A search that ends outside the box ends where its starting point has been led. -/
theorem Finds.outside {start v : Vec} {startBlank : Bool} (finds : p.Finds s startBlank start v)
    (out : s.outside v = true) : s.outside start = true ∧ s.wrap start p.delta = .ok v := by
  obtain ⟨origin, starts, beyond, stops⟩ := finds
  have left : s.outside origin = true := by
    by_contra inside
    obtain ⟨c, w, arrival, limit, trail, stopped⟩ := stops (Bool.eq_false_iff.mpr inside)
    have within : s.outside v = false := by
      rcases stopped with ⟨j, _, _, _, rfl⟩ | ⟨_, rfl⟩
      · exact trail.inside j
      · rw [← trail.wrapped limit trail.second]
        exact trail.inside limit
    rw [out] at within
    cases within
  obtain rfl := beyond left
  unfold Space.enter at starts
  split at starts
  · rename_i out
    exact ⟨out, starts⟩
  · rename_i inside
    cases starts
    exact absurd left inside

/-- As long as nothing overflows, a pointer that moves has a next position. If that is outside the
box, the path misses the box, or it has stopped one step short of it. The latter happens only to a
pointer that is before the box and has no whole number of steps to go, and so not to one that moves
by one at most on each axis. -/
theorem gives_up_one_short (sound : s.Sound) (live : ∃ v, s.peek v ≠ Cell.blank)
    (hp : p.position.fits s.dims = true) (hd : p.delta.fits s.dims = true)
    (moving : p.delta.isZero = false) :
    (p.MovesExactly s → ∃ v, p.nextPosition s = .ok v ∧
      (s.outside v = true →
        (∀ k, ¬ s.InBox p.position p.delta k) ∨
        ¬ s.WholeSteps (p.position + p.delta) p.delta ∧
          ∃ k, Vec.OnLine p.position p.delta k v ∧ s.InBox p.position p.delta (k + 1) ∧
            ∀ j, j ≤ k → ¬ s.InBox p.position p.delta j)) ∧
    ((∀ axis, Space.pace (p.delta.get axis) ≤ 1) →
      s.WholeSteps (p.position + p.delta) p.delta) ∧
    (s.Compact p.position p.delta → s.Compact (p.position + p.delta) p.delta →
      p.MovesExactly s) := by
  refine ⟨?_, Space.wholeSteps_of_unit, movesExactly_of_compact sound hd moving⟩
  intro exact
  obtain ⟨v, found, finds⟩ := search_finds sound moving hd exact.toSearchesExactly
    (s.peek p.position = Cell.blank)
  refine ⟨v, ?_, ?_⟩
  · simp only [nextPosition, moving, Space.get_of_fits hp, Except.mapError, bind, Except.bind,
      Bool.false_eq_true, if_false, found]
  · intro out
    obtain ⟨left, wrapped⟩ := finds.outside out
    have wraps := exact.wraps left
    have spanned (axis : Nat) (bound : axis < s.dims) :
        ∃ extent, s.extent? axis = some extent := by
      obtain ⟨u, ink⟩ := live
      exact sound.extent_of_inside (sound.inside_of_live ink) bound
    obtain ⟨n, led, back⟩ := wraps.wrap spanned (Vec.exists_moving moving hd)
    obtain rfl : p.position + p.delta - p.delta.scale n = v := Except.ok.inj (led.symm.trans wrapped)
    have on := exact.ahead.trans (wraps.onLine back)
    have numbered (j : Int) := Space.inBox_rebase (s := s) exact.ahead j
    have beyond : ¬ s.InBox p.position p.delta (1 + -n.toInt) := by
      rw [← sound.inside_iff (on.fits hp hd) on, out]
      decide
    by_cases misses : ∀ k, ¬ s.InBox p.position p.delta k
    · exact .inl misses
    · obtain ⟨k, inside⟩ := not_forall_not.mp misses
      have inside' : s.InBox (p.position + p.delta) p.delta (k - 1) := by
        rw [numbered, show 1 + (k - 1) = k by omega]
        exact inside
      obtain ⟨broken, next⟩ := back.one_short inside' (by rwa [numbered])
      refine .inr ⟨broken, 1 + -n.toInt, on, ?_, ?_⟩
      · rw [numbered] at next
        rwa [show 1 + -n.toInt + 1 = 1 + (1 - n.toInt) by omega]
      · intro j early within
        have within' : s.InBox (p.position + p.delta) p.delta (j - 1) := by
          rw [numbered, show 1 + (j - 1) = j by omega]
          exact within
        have late := back.le_number within'
        obtain rfl : j = 1 + -n.toInt := by omega
        exact beyond within

end Pointer

namespace Space

/-- Three letters on a line, after a margin of three blanks. -/
def margined : Space := ((empty 1).load 0 [32, 32, 32, 97, 98, 99] false).2

theorem sound_margined : margined.Sound :=
  (holds_lastWritten 1 [.load 0 [32, 32, 32, 97, 98, 99] false]).1.sound

/-- On a line there is the extent of its columns. -/
theorem extent_margined {axis : Nat} {extent : Cell × Cell} (bound : axis < margined.dims)
    (found : margined.extent? axis = some extent) : extent = (3, 5) := by
  have line : margined.dims = 1 := by decide +kernel
  have columns : margined.extent? 0 = some (3, 5) := by decide +kernel
  obtain rfl : axis = 0 := by omega
  exact Option.some.inj (found.symm.trans columns)

end Space

namespace Pointer

/-- A pointer in the margin that moves by two columns. -/
def striding : Pointer := { start 0 1 with position := 0, delta := Vec.ofList [2] }

theorem striding_onLine : Vec.OnLine striding.position striding.delta 2 (Vec.ofList [4]) := by
  intro axis
  match axis with
  | 0 => decide
  | axis + 1 => simp [striding]

/-- The path of the pointer meets the second letter, and the pointer is left in the margin. -/
theorem striding_gives_up :
    striding.nextPosition .margined = .ok (Vec.ofList [2]) ∧
    Space.margined.outside (Vec.ofList [2]) = true ∧
    Space.margined.InBox striding.position striding.delta 2 := by
  have inside : Space.margined.outside (Vec.ofList [4]) = false := by decide +kernel
  refine ⟨by decide +kernel, by decide +kernel, ?_⟩
  exact (Space.sound_margined.inside_iff (by decide +kernel) striding_onLine).mp inside

/-- The pointer is left one step before the first cell of its path inside the box. -/
theorem striding_one_short :
    striding.nextPosition .margined = .ok (Vec.ofList [2]) ∧
    ¬ Space.margined.WholeSteps (striding.position + striding.delta) striding.delta ∧
    ∃ k, Vec.OnLine striding.position striding.delta k (Vec.ofList [2]) ∧
      Space.margined.InBox striding.position striding.delta (k + 1) ∧
      ∀ j, j ≤ k → ¬ Space.margined.InBox striding.position striding.delta j := by
  have stopped : striding.nextPosition .margined = .ok (Vec.ofList [2]) := by decide +kernel
  have out : Space.margined.outside (Vec.ofList [2]) = true := by decide +kernel
  have met : Space.margined.InBox striding.position striding.delta 2 :=
    (Space.sound_margined.inside_iff (by decide +kernel) striding_onLine).mp (by decide +kernel)
  have compact (cs : List Cell) (small : cs.all (·.toInt.natAbs < 2 ^ 30) = true) :
      Space.margined.Compact (Vec.ofList cs) striding.delta := by
    constructor
    · intro axis extent bound found
      rw [Space.extent_margined bound found]
      decide
    · exact Vec.natAbs_get_ofList_lt (by decide) small
    · exact Vec.natAbs_get_ofList_lt (by decide) (by decide)
  obtain ⟨gives_up, _, exact⟩ := gives_up_one_short (p := striding) Space.sound_margined
    ⟨Vec.ofList [3], by decide +kernel⟩ (by decide +kernel) (by decide +kernel) (by decide)
  obtain ⟨v, moved, short⟩ := gives_up (exact (compact [] (by decide))
    (compact [2] (by decide)))
  obtain rfl : Vec.ofList [2] = v := Except.ok.inj (stopped.symm.trans moved)
  rcases short out with misses | ⟨broken, first⟩
  · exact absurd met (misses 2)
  · exact ⟨stopped, broken, first⟩

end Pointer

end Funge
