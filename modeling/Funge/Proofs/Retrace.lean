import Funge.Proofs.Laps
import Funge.Proofs.Search

/-!
# Retracing a path

A pointer that is turned around after it has moved on comes back to where it was. It skips the same
blanks the other way, and the same comments from their other ends, since between two cells that are
executed one after the other the number of semicolons is even. Whether the path wraps in between
does not matter, as both ways go around one loop.

For that the loop as a whole must have an even number of semicolons. Then a pointer that stands on
a cell to execute finds one ahead at the latest when it comes around to its own.
-/

namespace Funge

namespace Space

variable {s : Space} {p d q : Vec}

/-- No single step from a point of the line inside the box overflows, in either direction. -/
structure LoopsExactly (s : Space) (p d : Vec) : Prop where
  turned : d.NegatesExactly
  ahead : ∀ v ∈ s.loop p d, s.StepsExactly d v
  back : ∀ v ∈ s.loop p d, s.StepsExactly (-d) v

theorem Roomy.loopsExactly (roomy : s.Roomy d) (sound : s.Sound) : s.LoopsExactly p d where
  turned := roomy.negatesExactly
  ahead _ member := roomy.stepsExactly sound member.1
  back _ member := roomy.reverse.stepsExactly sound member.1

/-- The loop is the same from each of its points. -/
theorem loop_subset {k : Int} (on : Vec.OnLine p d k q) : s.loop q d ⊆ s.loop p d := by
  rintro v ⟨inside, j, further⟩
  exact ⟨inside, k + j, on.trans further⟩

/-- The loop is the same in both directions. -/
theorem loop_neg_subset (turned : d.NegatesExactly) : s.loop p (-d) ⊆ s.loop p d := by
  rintro v ⟨inside, j, on⟩
  exact ⟨inside, -j, on.of_neg turned⟩

theorem semicolons_eq_count (s : Space) (c : Nat → Vec) (j : Nat) :
    s.semicolons c j = Nat.count (fun i => s.peek (c i) = Cell.semicolon) j := by
  induction j with
  | zero => rfl
  | succ j ih => rw [semicolons_succ, Nat.count_succ, ih]

section Mirror

variable {c c' : Nat → Vec} {j : Nat}

/-- What is counted on the way back and what is left of the way there make up the way there. -/
theorem semicolons_mirror (mirror : ∀ i, i < j → c' i = c (j - 1 - i)) {i : Nat} (within : i ≤ j) :
    s.semicolons c' i + s.semicolons c (j - i) = s.semicolons c j := by
  induction i with
  | zero => simp [semicolons]
  | succ i ih =>
    have before := ih (by omega)
    have split := s.semicolons_succ c (j - 1 - i)
    rw [show j - 1 - i + 1 = j - i by omega] at split
    rw [semicolons_succ, mirror i (by omega), show j - (i + 1) = j - 1 - i by omega]
    omega

/-- On the way back from the first cell that can be executed to the cell before the first of the
trail, no other can. -/
theorem Executable.mirror (mirror : ∀ i, i < j → c' i = c (j - 1 - i)) {blank : Bool}
    (stop : s.Executable false blank c j)
    (earliest : ∀ i, i < j → ¬ s.Executable false blank c i)
    (ink : s.peek (c' j) ≠ Cell.blank) (plain : s.peek (c' j) ≠ Cell.semicolon) {blank' : Bool} :
    s.Executable false blank' c' j ∧ ∀ i, i < j → ¬ s.Executable false blank' c' i := by
  obtain ⟨_, _, even⟩ := stop
  constructor
  · have whole := semicolons_mirror (s := s) mirror (Nat.le_refl j)
    rw [Nat.sub_self, show s.semicolons c 0 = 0 from rfl, Nat.add_zero] at whole
    exact ⟨ink, plain, whole ▸ even⟩
  · rintro i before ⟨ink', plain', even'⟩
    apply earliest (j - 1 - i) (by omega)
    rw [mirror i before] at ink' plain'
    have parts := semicolons_mirror (s := s) mirror (Nat.le_of_lt before)
    have split := s.semicolons_succ c (j - 1 - i)
    rw [show j - 1 - i + 1 = j - i by omega, if_neg plain', Nat.add_zero] at split
    rw [split] at parts
    rw [← parts, Nat.even_add] at even
    exact ⟨ink', plain', even.mp even'⟩

end Mirror

end Space

namespace Pointer

variable {s : Space} {p : Pointer} {first last : Int}

theorem Stops.eq_of_first {string startBlank : Bool} {c : Nat → Vec} {w v : Vec} {limit j : Nat}
    (stops : Stops s string startBlank c w limit v) (before : j < limit)
    (stop : s.Executable string startBlank c j)
    (earliest : ∀ i, i < j → ¬ s.Executable string startBlank c i) : v = c j := by
  rcases stops with ⟨i, _, stop', earliest', same⟩ | ⟨none, _⟩
  · rcases Nat.lt_trichotomy i j with lower | equal | higher
    · exact absurd stop' (earliest i lower)
    · rw [same, equal]
    · exact absurd stop (earliest' j higher)
  · exact absurd stop (none j before)

/-- A single step goes one further on the loop, and it wraps at the last point of the chord. -/
theorem adjacent_onLoop {origin v : Vec} {k : Int} (sound : s.Sound)
    (chord : s.Chord origin p.delta first last) (ho : origin.fits s.dims = true)
    (hd : p.delta.fits s.dims = true) (moving : p.delta.isZero = false)
    (on : Vec.OnLoop origin p.delta first last k p.position)
    (exact : s.StepsExactly p.delta p.position) (stepped : p.adjacent s = .ok v) :
    Vec.OnLoop origin p.delta first last (k + 1) v ∧
    (s.outside (p.position + p.delta) = true → last - first + 1 ∣ k - last) := by
  obtain ⟨j, numbered, laps, on⟩ := on
  obtain ⟨leaves, u, stepped', arrives⟩ :=
    adjacent_of_chord sound chord ho hd moving numbered on exact
  obtain rfl : u = v := Except.ok.inj (stepped'.symm.trans stepped)
  constructor
  · refine ⟨_, ?_, ?_, arrives⟩
    · split <;> omega
    · split
      · -- From the last point to the first, one lap is done.
        have lap : k + 1 - first = (k - j) + (last - first + 1) := by omega
        rw [lap]
        exact Int.dvd_add laps (Int.dvd_refl _)
      · rwa [Int.add_sub_add_right]
  · intro out
    rw [out, eq_comm, decide_eq_true_eq] at leaves
    exact leaves ▸ laps

/-- The cells of a trail follow on the pointer's own, and the trail goes around the loop at least
once. -/
theorem Trail.onLoop {c : Nat → Vec} {w : Vec} {arrival limit : Nat}
    (trail : p.Trail s (p.position + p.delta) c w arrival limit) (sound : s.Sound)
    (inside : s.outside p.position = false) (moving : p.delta.isZero = false)
    (fits : p.delta.fits s.dims = true) (chord : s.Chord p.position p.delta first last)
    (steps : ∀ v ∈ s.loop p.position p.delta, s.StepsExactly p.delta v) :
    (∀ j : Nat, Vec.OnLoop p.position p.delta first last (j + 1) (c j)) ∧
      last - first + 1 ≤ limit := by
  have ho := sound.fits_of_inside inside
  have next {k : Int} {u v : Vec} (on : Vec.OnLoop p.position p.delta first last k u)
      (stepped : { p with position := u }.adjacent s = .ok v) :=
    adjacent_onLoop (p := { p with position := u }) sound chord ho fits moving on
      (steps u (chord.mem_loop_of_onLoop sound ho fits on)) stepped
  have start := chord.onLoop_start sound inside
  have numbers (j : Nat) : Vec.OnLoop p.position p.delta first last (j + 1) (c j) := by
    induction j with
    | zero => simpa using (next start trail.starts).1
    | succ j ih => simpa using (next ih (trail.steps j)).1
  -- The trail wraps from the last point of the chord both times.
  have wraps (j : Nat)
      (out : s.outside (candidate p.delta (p.position + p.delta) c j) = true) :
      last - first + 1 ∣ j - last := by
    cases j with
    | zero => simpa using (next start trail.starts).2 out
    | succ j => simpa using (next (numbers j) (trail.steps j)).2 out
  refine ⟨numbers, ?_⟩
  have laps := Int.dvd_sub (wraps limit trail.second) (wraps arrival trail.first)
  have ordered := trail.ordered
  have whole := Int.le_of_dvd (by omega) laps
  omega

/-- No search along a loop overflows if no single step on it does. -/
theorem searchesExactly_of_loop (sound : s.Sound) (inside : s.outside p.position = false)
    (moving : p.delta.isZero = false) (fits : p.delta.fits s.dims = true)
    (steps : ∀ v ∈ s.loop p.position p.delta, s.StepsExactly p.delta v) :
    p.SearchesExactly s (p.position + p.delta) := by
  have here := steps p.position ⟨inside, 0, .start _ _⟩
  refine ⟨here.led, ?_⟩
  intro origin entered within n
  obtain ⟨first, last, chord, _⟩ := sound.travel_on_chord inside moving fits
  have ho := sound.fits_of_inside inside
  obtain ⟨_, v, stepped, on⟩ :=
    adjacent_of_chord sound chord ho fits moving (chord.home sound inside) (.start _ _) here
  obtain rfl : v = origin := Except.ok.inj (stepped.symm.trans entered)
  apply walksExactly_of_steps (p := { p with position := v }) sound within moving fits
  intro u k further inner
  exact steps u (Space.loop_subset on ⟨inner, k, further⟩)

/-- A pointer inside the box moves on to the first cell of its loop that can be executed, and it
looks for that at every cell of the loop. -/
theorem nextPosition_on_loop (sound : s.Sound) (inside : s.outside p.position = false)
    (moving : p.delta.isZero = false) (fits : p.delta.fits s.dims = true)
    (chord : s.Chord p.position p.delta first last)
    (steps : ∀ v ∈ s.loop p.position p.delta, s.StepsExactly p.delta v) :
    ∃ v c w, ∃ limit : Nat, p.nextPosition s = .ok v ∧
      (∀ j : Nat, Vec.OnLoop p.position p.delta first last (j + 1) (c j)) ∧
      last - first + 1 ≤ limit ∧
      Stops s p.flags.string (s.peek p.position = Cell.blank) c w limit v := by
  have ho := sound.fits_of_inside inside
  obtain ⟨v, found, origin, starts, _, stops⟩ := search_finds sound moving fits
    (searchesExactly_of_loop sound inside moving fits steps) (s.peek p.position = Cell.blank)
  have within : s.outside origin = false := by
    obtain ⟨on, _⟩ := adjacent_onLoop sound chord ho fits moving
      (chord.onLoop_start sound inside) (steps p.position ⟨inside, 0, .start _ _⟩) starts
    exact (chord.mem_loop_of_onLoop sound ho fits on).1
  obtain ⟨c, w, arrival, limit, trail, stopped⟩ := stops within
  obtain ⟨numbers, long⟩ := trail.onLoop sound inside moving fits chord steps
  refine ⟨v, c, w, limit, ?_, numbers, long, stopped⟩
  simp only [nextPosition, moving, Space.get_of_fits ho, Except.mapError, bind, Except.bind,
    Bool.false_eq_true, if_false, found]

/-- Around a loop with an even number of semicolons, a cell that can be executed by itself can be
executed when the trail comes back to it, so the trail stops there or before. -/
theorem Stops.of_even_loop {origin d w v : Vec} {c : Nat → Vec} {limit : Nat} {blank : Bool}
    (sound : s.Sound) (inside : s.outside origin = false) (moving : d.isZero = false)
    (hd : d.fits s.dims = true) (chord : s.Chord origin d first last)
    (ink : s.peek origin ≠ Cell.blank) (code : s.peek origin ≠ Cell.semicolon)
    (even : Even {v ∈ s.loop origin d | s.peek v = Cell.semicolon}.ncard)
    (numbers : ∀ j : Nat, Vec.OnLoop origin d first last (j + 1) (c j))
    (long : last - first + 1 ≤ limit) (stops : Stops s false blank c w limit v) :
    ∃ j : Nat, j ≤ last - first ∧ s.Executable false blank c j ∧
      (∀ i, i < j → ¬ s.Executable false blank c i) ∧ v = c j := by
  have ho := sound.fits_of_inside inside
  have home := chord.home sound inside
  obtain ⟨rest, length⟩ := Int.eq_ofNat_of_zero_le (show 0 ≤ last - first by omega)
  have around : c rest = origin := by
    apply (numbers rest).unique (chord.onLoop_start sound inside)
    rw [length, Int.sub_zero]
  have stop : s.Executable false blank c rest := by
    have visits (i : Nat) (_ : i < rest + 1) : Vec.OnLoop origin d first last (1 + i) (c i) := by
      rw [Int.add_comm]
      exact numbers i
    rw [chord.ncard_loop sound ho hd moving (by rw [length]; rfl) (Nat.succ_pos rest) visits,
      ← Space.semicolons_eq_count, Space.semicolons_succ, around, if_neg code] at even
    rw [← around] at ink code
    exact ⟨ink, code, even⟩
  rcases stops with ⟨j, _, first_stop, earliest, same⟩ | ⟨none, _⟩
  · refine ⟨j, ?_, first_stop, earliest, same⟩
    by_contra later
    exact earliest rest (by omega) stop
  · exact absurd stop (none rest (by omega))

/-- From a cell that can be executed, on a line whose points inside the box hold an even number of
semicolons, a pointer outside of string mode moves on to a cell that is neither a blank nor a
semicolon, and turned around there it moves back, as long as no single step along the line
overflows. None does when the box and the step are less than 2^61 in magnitude. -/
theorem reflection_retraces (sound : s.Sound) (hd : p.delta.fits s.dims = true)
    (moving : p.delta.isZero = false) (plain : p.flags.string = false)
    (ink : s.peek p.position ≠ Cell.blank) (code : s.peek p.position ≠ Cell.semicolon)
    (even : Even {v ∈ s.loop p.position p.delta | s.peek v = Cell.semicolon}.ncard) :
    (s.LoopsExactly p.position p.delta → ∃ q, p.nextPosition s = .ok q ∧
      s.peek q ≠ Cell.blank ∧ s.peek q ≠ Cell.semicolon ∧
      { p.reflect with position := q }.nextPosition s = .ok p.position) ∧
    (s.Roomy p.delta → s.LoopsExactly p.position p.delta) := by
  refine ⟨?_, fun roomy => roomy.loopsExactly sound⟩
  intro exact
  have inside := sound.inside_of_live ink
  obtain ⟨first, last, chord, _⟩ := sound.travel_on_chord inside moving hd
  obtain ⟨q, c, w, limit, moved, numbers, long, stops⟩ :=
    nextPosition_on_loop sound inside moving hd chord exact.ahead
  rw [plain] at stops
  obtain ⟨j, few, stop, earliest, rfl⟩ :=
    stops.of_even_loop sound inside moving hd chord ink code even numbers long
  refine ⟨c j, moved, stop.1, stop.2.1, ?_⟩
  obtain ⟨k, _, laps, on⟩ := numbers j
  have steps (v : Vec) (member : v ∈ s.loop (c j) (-p.delta)) : s.StepsExactly (-p.delta) v :=
    exact.back v (Space.loop_subset on (Space.loop_neg_subset exact.turned member))
  obtain ⟨q', c', w', limit', moved', numbers', long', stops'⟩ :=
    nextPosition_on_loop (p := { p.reflect with position := c j }) sound
      (sound.inside_of_live stop.1) (Vec.isZero_neg moving hd) (Vec.fits_neg hd)
      ((chord.rebase on).reverse exact.turned) steps
  -- Counted from where the pointer was, the way back has the numbers of the way there.
  have numbered (i : Nat) : Vec.OnLoop p.position p.delta first last (k + -(i + 1)) (c' i) :=
    ((numbers' i).of_neg exact.turned).rebase on
  have lapped {n : Int} (same : n = -(j + 1 - k)) : last - first + 1 ∣ n := by
    rw [same]
    exact Int.dvd_neg.mpr laps
  have mirror (i : Nat) (before : i < j) : c' i = c (j - 1 - i) :=
    (numbered i).unique (numbers (j - 1 - i)) (lapped (by omega))
  have back : c' j = p.position :=
    (numbered j).unique (chord.onLoop_start sound inside) (lapped (by omega))
  rw [← back] at ink code
  obtain ⟨arrives, none_before⟩ := stop.mirror mirror earliest ink code
  have string : ({ p.reflect with position := c j } : Pointer).flags.string = false := plain
  rw [string] at stops'
  rw [moved', stops'.eq_of_first (by omega) arrives none_before, back]

end Pointer

namespace Space

/-- A line on which the second comment goes from the last cell but one over the wrap to the
second. -/
def hoop : Space := ((empty 2).load 0 [120, 59, 97, 98, 59, 99] false).2

theorem sound_hoop : hoop.Sound :=
  (holds_lastWritten 2 [.load 0 [120, 59, 97, 98, 59, 99] false]).1.sound

end Space

namespace Pointer

/-- A pointer in front of the comment over the wrap. -/
def hooped : Pointer :=
  { start 0 2 with position := Vec.ofList [3], delta := Vec.ofList [1, 0] }

theorem chord_hoop : Space.hoop.Chord hooped.position hooped.delta (-3) 2 := by
  have across : Space.hoop.extent? 0 = some (0, 5) := by decide +kernel
  have down : Space.hoop.extent? 1 = some (0, 0) := by decide +kernel
  have plane : Space.hoop.dims = 2 := by decide +kernel
  intro k
  constructor
  · intro within
    obtain ⟨extent, found, low, high⟩ := within 0 (by omega)
    obtain rfl := Option.some.inj (across.symm.trans found)
    change 0 ≤ 3 + k * 1 at low
    change 3 + k * 1 ≤ 5 at high
    omega
  · intro numbered axis bound
    match axis with
    | 0 => exact ⟨(0, 5), across, show 0 ≤ 3 + k * 1 by omega, show 3 + k * 1 ≤ 5 by omega⟩
    | 1 => exact ⟨(0, 0), down, by simp [hooped]⟩
    | axis + 2 => omega

/-- The next cell is in front of the place where the pointer is, on the other side of the comment,
and from there the pointer comes back. -/
theorem hooped_retraces :
    hooped.nextPosition .hoop = .ok (Vec.ofList [2]) ∧
    { hooped.reflect with position := Vec.ofList [2] }.nextPosition .hoop =
      .ok hooped.position := by
  have fits : hooped.delta.fits Space.hoop.dims = true := by decide +kernel
  have roomy : Space.hoop.Roomy hooped.delta :=
    .of_plane (0, 5) (0, 0) (by decide +kernel) (by decide +kernel) (by decide +kernel) (by decide)
  have length : 2 - -3 + 1 = ((6 : Nat) : Int) := rfl
  have visits (i : Nat) (bound : i < 6) : Vec.OnLoop hooped.position hooped.delta (-3) 2
      (-3 + i) (Vec.ofList [Int64.ofNat i]) := by
    refine .of_onLine (by omega) ?_
    intro axis
    match axis with
    | 0 => simp [hooped, Int64.toInt_ofNat_of_lt (show i < 2 ^ 63 by omega)]
    | 1 => simp [hooped]
    | axis + 2 => simp [hooped]
  have even : Even {v ∈ Space.hoop.loop hooped.position hooped.delta |
      Space.hoop.peek v = Cell.semicolon}.ncard := by
    rw [chord_hoop.ncard_loop Space.sound_hoop (by decide +kernel) fits (by decide) length
      (by decide) visits]
    decide +kernel
  have next : hooped.nextPosition .hoop = .ok (Vec.ofList [2]) := by decide +kernel
  obtain ⟨retraces, exact⟩ := reflection_retraces Space.sound_hoop fits (by decide) rfl
    (by decide +kernel) (by decide +kernel) even
  obtain ⟨q, moved, _, _, back⟩ := retraces (exact roomy)
  obtain rfl : Vec.ofList [2] = q := Except.ok.inj (next.symm.trans moved)
  exact ⟨next, back⟩

end Pointer

end Funge
