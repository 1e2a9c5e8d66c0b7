import Funge.Proofs.Line

/-!
# Single steps and jumps

A pointer that walks in single steps goes along the chord of its line and from the last point of
the chord back to the first. So after `n` steps it stands at the point of the chord whose number
differs from `n` by whole laps, which is where `Space.travel` jumps to. Turned around, it goes
through the same points in the opposite order.

This holds as long as the single steps do not overflow. They cannot when the box and the step are
small enough.
-/

namespace Funge

namespace Vec

/-- No component of the vector overflows when it is negated. -/
def NegatesExactly (d : Vec) : Prop :=
  ∀ axis, ((-d).get axis).toInt = -(d.get axis).toInt

theorem isZero_neg {d : Vec} {dims : Nat} (moving : d.isZero = false)
    (fits : d.fits dims = true) : (-d).isZero = false := by
  obtain ⟨axis, _, moves⟩ := exists_moving moving fits
  by_contra still
  have empty : (-d).entries = [] := by simpa [isZero] using still
  have zero : (-d).get axis = 0 := by simp [get, empty]
  rw [get_neg] at zero
  exact moves (Int64.neg_inj.mp (zero.trans Int64.neg_zero.symm))

/-- All components of a vector are as small as those that are listed. -/
theorem natAbs_get_ofList_lt {cs : List Cell} {bound : Nat} (positive : 0 < bound)
    (small : cs.all (·.toInt.natAbs < bound) = true) (axis : Nat) :
    ((ofList cs).get axis).toInt.natAbs < bound := by
  simp only [List.all_eq_true, decide_eq_true_eq] at small
  rw [get_ofList, List.getD_eq_getElem?_getD]
  cases listed : cs[axis]? with
  | none => exact positive
  | some c => exact small c (List.mem_of_getElem? listed)

theorem OnLine.of_neg {p d v : Vec} {k : Int} (turned : d.NegatesExactly)
    (on : OnLine p (-d) k v) : OnLine p d (-k) v := by
  intro axis
  rw [on axis, turned axis, Int.mul_neg, Int.neg_mul]

end Vec

namespace Space

/-- A single step from the point overflows nowhere: its sum is exact, and so is what it takes to
lead that back if it lies outside. -/
structure StepsExactly (s : Space) (d q : Vec) : Prop where
  sum : ∀ axis, ((q + d).get axis).toInt = (q.get axis).toInt + (d.get axis).toInt
  led : s.outside (q + d) = true → s.LedExactly (q + d) d

section Chord

variable {s : Space} {p d q : Vec} {first last k : Int}

theorem StepsExactly.onLine (exact : s.StepsExactly d q) (on : Vec.OnLine p d k q) :
    Vec.OnLine p d (k + 1) (q + d) := by
  intro axis
  rw [exact.sum axis, on axis, Int.add_mul, Int.one_mul, Int.add_assoc]

/-- Numbers of a chord that differ by whole laps are the same. -/
theorem eq_of_laps {a b : Int} (ha : first ≤ a ∧ a ≤ last) (hb : first ≤ b ∧ b ≤ last)
    (laps : last - first + 1 ∣ a - b) : a = b := by
  have none := Int.eq_zero_of_abs_lt_dvd laps (by rw [abs_lt]; omega)
  omega

theorem Chord.reverse (chord : s.Chord p d first last)
    (turned : d.NegatesExactly) : s.Chord p (-d) (-last) (-first) := by
  intro k
  have mirrored : s.InBox p (-d) k ↔ s.InBox p d (-k) := by
    simp only [InBox, turned _, Int.mul_neg, Int.neg_mul]
  rw [mirrored, chord (-k)]
  omega

end Chord

section Room

variable {s : Space} {d x q : Vec}

/-- A plane has the extents of its columns and of its rows. -/
theorem extents_of_plane (columns rows : Cell × Cell) (plane : s.dims = 2)
    (across : s.extent? 0 = some columns) (down : s.extent? 1 = some rows) {axis : Nat}
    {extent : Cell × Cell} (bound : axis < s.dims) (found : s.extent? axis = some extent) :
    extent = columns ∨ extent = rows := by
  match axis with
  | 0 => exact .inl (Option.some.inj (found.symm.trans across))
  | 1 => exact .inr (Option.some.inj (found.symm.trans down))
  | axis + 2 => omega

/-- The coordinates of the box and of a step are less than 2^61 in magnitude. -/
structure Roomy (s : Space) (d : Vec) : Prop where
  box : ∀ axis extent, axis < s.dims → s.extent? axis = some extent →
    extent.1.toInt.natAbs < 2 ^ 61 ∧ extent.2.toInt.natAbs < 2 ^ 61
  step : ∀ axis, (d.get axis).toInt.natAbs < 2 ^ 61

namespace Roomy

theorem negatesExactly (roomy : s.Roomy d) : d.NegatesExactly := by
  intro axis
  have small := roomy.step axis
  rw [Vec.get_neg, Int64.toInt_neg]
  exact Int.bmod_eq_of_le (by omega) (by omega)

theorem reverse (roomy : s.Roomy d) : s.Roomy (-d) where
  box := roomy.box
  step axis := by
    rw [roomy.negatesExactly axis, Int.natAbs_neg]
    exact roomy.step axis

/-- A point that is not far from the box is led back exactly. -/
theorem ledExactly (roomy : s.Roomy d) (near : ∀ axis, (x.get axis).toInt.natAbs < 2 ^ 62) :
    s.LedExactly x d := by
  have exact (axis : Nat) {side : Cell} (small : side.toInt.natAbs < 2 ^ 61) :
      (x.get axis - side).toInt = (x.get axis).toInt - side.toInt := by
    have close := near axis
    rw [Int64.toInt_sub]
    exact Int.bmod_eq_of_le (by omega) (by omega)
  constructor
  · intro axis extent bound found _
    apply exact
    obtain ⟨low, high⟩ := roomy.box axis extent bound found
    unfold entrySide
    split <;> assumption
  · rintro ⟨axis, lo, hi, bound, found, _, least⟩
    have small := (roomy.box axis (lo, hi) bound found).2
    have close := near axis
    have value := exact axis small
    rw [least, Int64.toInt_minValue] at value
    omega

theorem stepsExactly (roomy : s.Roomy d) (sound : s.Sound) (inside : s.outside q = false) :
    s.StepsExactly d q := by
  have close : ∀ axis, (q.get axis).toInt.natAbs < 2 ^ 61 := by
    intro axis
    by_cases bound : axis < s.dims
    · obtain ⟨⟨lo, hi⟩, found⟩ := sound.extent_of_inside inside bound
      obtain ⟨low, high⟩ := inside_extent inside bound found
      have small := roomy.box axis _ bound found
      rw [Int64.le_iff_toInt_le] at low high
      dsimp only at small
      omega
    · rw [Vec.fits_iff.mp (sound.fits_of_inside inside) axis (by omega)]
      decide
  have exact : ∀ axis, ((q + d).get axis).toInt = (q.get axis).toInt + (d.get axis).toInt := by
    intro axis
    have small := roomy.step axis
    have near := close axis
    rw [Vec.get_add, Int64.toInt_add]
    exact Int.bmod_eq_of_le (by omega) (by omega)
  constructor
  · exact exact
  · intro _
    apply roomy.ledExactly
    intro axis
    have small := roomy.step axis
    have near := close axis
    rw [exact axis]
    omega

/-- A plane on which all numbers have two digits has room enough. -/
theorem of_plane {dx dy : Cell} (columns rows : Cell × Cell) (plane : s.dims = 2)
    (across : s.extent? 0 = some columns) (down : s.extent? 1 = some rows)
    (short : [columns.1, columns.2, rows.1, rows.2, dx, dy].all (·.toInt.natAbs < 100) = true) :
    s.Roomy (Vec.ofList [dx, dy]) := by
  simp only [List.all_cons, List.all_nil, Bool.and_true, Bool.and_eq_true, decide_eq_true_eq] at short
  constructor
  · intro axis extent bound found
    rcases extents_of_plane columns rows plane across down bound found with rfl | rfl <;> omega
  · intro axis
    have small : ((Vec.ofList [dx, dy]).get axis).toInt.natAbs < 100 :=
      Vec.natAbs_get_ofList_lt (by decide) (by simp; omega) axis
    omega

end Roomy

end Room

end Space

namespace Pointer

/-- The point that the pointer comes to in a number of single steps, whatever the cells on its way
hold. -/
def walk (p : Pointer) (s : Space) : Nat → Except Fault Vec
  | 0 => .ok p.position
  | n + 1 => do
    let position ← p.walk s n
    { p with position }.adjacent s

/-- None of the first `n` single steps of the pointer overflows. -/
def WalksExactly (p : Pointer) (s : Space) (n : Nat) : Prop :=
  ∀ k, k < n → ∀ v, p.walk s k = .ok v → s.StepsExactly p.delta v

variable {s : Space} {p : Pointer} {origin : Vec} {first last k : Int}

/-- A single step along a chord leads to the next point, and from the last one back to the
first. -/
theorem adjacent_of_chord (sound : s.Sound) (chord : s.Chord origin p.delta first last)
    (ho : origin.fits s.dims = true) (hd : p.delta.fits s.dims = true)
    (moving : p.delta.isZero = false) (numbered : first ≤ k ∧ k ≤ last)
    (on : Vec.OnLine origin p.delta k p.position) (exact : s.StepsExactly p.delta p.position) :
    s.outside (p.position + p.delta) = decide (k = last) ∧
    ∃ v, p.adjacent s = .ok v ∧
      Vec.OnLine origin p.delta (if k = last then first else k + 1) v := by
  have next := exact.onLine on
  have within := (sound.inside_iff (next.fits ho hd) next).trans (chord (k + 1))
  by_cases final : k = last
  · subst final
    have out : s.outside (p.position + p.delta) = true := by
      rw [← Bool.not_eq_false, within]
      omega
    obtain ⟨n, wrapped, arrives⟩ :=
      chord.wrap (by omega) ho hd moving next (exact.led out)
    refine ⟨by simp [out], _, ?_, by simpa using arrives⟩
    simp only [adjacent, out, if_true, wrapped]
  · have inside : s.outside (p.position + p.delta) = false := within.mpr (by omega)
    refine ⟨by simp [inside, final], _, ?_, by simpa [final] using next⟩
    simp [adjacent, inside]

/-- A walk stays on the chord, and its steps give the number of its point up to whole laps. -/
theorem walk_on_chord (sound : s.Sound) (inside : s.outside p.position = false)
    (moving : p.delta.isZero = false) (fits : p.delta.fits s.dims = true)
    (chord : s.Chord p.position p.delta first last) (n : Nat) (exact : p.WalksExactly s n) :
    ∃ v k, p.walk s n = .ok v ∧ (first ≤ k ∧ k ≤ last) ∧ last - first + 1 ∣ n - k ∧
      Vec.OnLine p.position p.delta k v := by
  induction n with
  | zero =>
    have home := (sound.inside_iff (sound.fits_of_inside inside) (.start _ p.delta)).mp inside
    exact ⟨p.position, 0, rfl, (chord 0).mp home, by simp, .start _ _⟩
  | succ n ih =>
    obtain ⟨u, k, walked, numbered, laps, on⟩ := ih fun j hj => exact j (by omega)
    obtain ⟨_, v, stepped, arrives⟩ := adjacent_of_chord (p := { p with position := u }) sound chord
      (sound.fits_of_inside inside) fits moving numbered on (exact n (by omega) u walked)
    refine ⟨v, _, ?_, ?_, ?_, arrives⟩
    · rw [walk, walked]
      exact stepped
    · split <;> omega
    · push_cast
      split
      · -- From the last point to the first, one lap is done.
        have lap : (n : Int) + 1 - first = (n - k) + (last - first + 1) := by omega
        rw [lap]
        exact Int.dvd_add laps (Int.dvd_refl _)
      · rwa [Int.add_sub_add_right]

/-- A walk overflows nowhere if no single step from a point of its line inside the box does. -/
theorem walksExactly_of_steps (sound : s.Sound) (inside : s.outside p.position = false)
    (moving : p.delta.isZero = false) (fits : p.delta.fits s.dims = true)
    (steps : ∀ v k, Vec.OnLine p.position p.delta k v → s.outside v = false →
      s.StepsExactly p.delta v) (n : Nat) : p.WalksExactly s n := by
  obtain ⟨first, last, chord, _⟩ := sound.travel_on_chord inside moving fits
  induction n with
  | zero =>
    intro k before
    omega
  | succ n ih =>
    intro k before v walked
    by_cases earlier : k < n
    · exact ih k earlier v walked
    · obtain rfl : k = n := by omega
      obtain ⟨u, j, walked', numbered, _, on⟩ := walk_on_chord sound inside moving fits chord k ih
      rw [walked] at walked'
      cases walked'
      have fitting := on.fits (sound.fits_of_inside inside) fits
      exact steps v j on ((sound.inside_iff fitting on).mpr ((chord j).mpr numbered))

/-- The walk of a box and a step that are small enough overflows nowhere. -/
theorem walksExactly_of_roomy (roomy : s.Roomy p.delta) (sound : s.Sound)
    (inside : s.outside p.position = false) (moving : p.delta.isZero = false)
    (fits : p.delta.fits s.dims = true) (n : Nat) : p.WalksExactly s n :=
  walksExactly_of_steps sound inside moving fits
    (fun _ _ _ within => roomy.stepsExactly sound within) n

/-- From a point inside the box, travel by a number of steps leads where as many single steps lead,
and travel by a negative number where the pointer comes to when it is turned around, as long as
nothing that the single steps compute overflows. In a box and with a step whose coordinates are
less than 2^61 in magnitude nothing does. -/
theorem walk_eq_travel (sound : s.Sound) (inside : s.outside p.position = false)
    (moving : p.delta.isZero = false) (fits : p.delta.fits s.dims = true) (n : Nat) (steps : Cell) :
    (steps.toInt = n → p.WalksExactly s n →
      p.walk s n = .ok (s.travel p.position p.delta steps)) ∧
    (steps.toInt = -n → p.delta.NegatesExactly → p.reflect.WalksExactly s n →
      p.reflect.walk s n = .ok (s.travel p.position p.delta steps)) ∧
    (s.Roomy p.delta →
      p.WalksExactly s n ∧ p.delta.NegatesExactly ∧ p.reflect.WalksExactly s n) := by
  have turned_moving := Vec.isZero_neg moving fits
  have turned_fits := Vec.fits_neg fits
  obtain ⟨first, last, chord, travelled⟩ := sound.travel_on_chord inside moving fits
  obtain ⟨k, low, high, laps, on⟩ := travelled steps
  refine ⟨?_, ?_, ?_⟩
  · intro count exact
    obtain ⟨v, j, walked, numbered, laps', on'⟩ :=
      walk_on_chord sound inside moving fits chord n exact
    have same : j = k := by
      apply Space.eq_of_laps numbered ⟨low, high⟩
      have difference : j - k = (steps.toInt - k) - (n - j) := by omega
      rw [difference]
      exact Int.dvd_sub laps laps'
    subst same
    rw [walked, on'.unique on]
  · intro count turned exact
    obtain ⟨v, j, walked, numbered, laps', on'⟩ := walk_on_chord (p := p.reflect) sound inside
      turned_moving turned_fits (chord.reverse turned) n exact
    have same : -j = k := by
      apply Space.eq_of_laps (by omega) ⟨low, high⟩
      have difference : -j - k = (steps.toInt - k) + (n - j) := by omega
      have lap : last - first + 1 = -first - -last + 1 := by omega
      rw [difference]
      rw [← lap] at laps'
      exact Int.dvd_add laps laps'
    subst same
    rw [walked, (on'.of_neg turned).unique on]
  · intro roomy
    exact ⟨walksExactly_of_roomy roomy sound inside moving fits n, roomy.negatesExactly,
      walksExactly_of_roomy (p := p.reflect) roomy.reverse sound inside turned_moving turned_fits n⟩

end Pointer

namespace Space

/-- A plane of seven columns and five rows with live cells in two corners. -/
def corners : Space := ((empty 2).write 0 49).write (Vec.ofList [6, 4]) 49

theorem sound_corners : corners.Sound :=
  ((sound_empty 2).write (by decide) 49).write (by decide) 49

end Space

namespace Pointer

/-- A pointer on a slant through a plane. -/
def slanted : Pointer :=
  { start 0 2 with position := Vec.ofList [1, 3], delta := Vec.ofList [2, -1] }

/-- Nineteen steps on the slant, there and back. -/
theorem slanted_travels :
    slanted.walk .corners 19 = .ok (Space.corners.travel slanted.position slanted.delta 19) ∧
    slanted.reflect.walk .corners 19 =
      .ok (Space.corners.travel slanted.position slanted.delta (-19)) := by
  have inside : Space.corners.outside slanted.position = false := by decide +kernel
  have roomy : Space.corners.Roomy slanted.delta :=
    .of_plane (0, 6) (0, 4) (by decide +kernel) (by decide +kernel) (by decide +kernel) (by decide)
  have law := walk_eq_travel Space.sound_corners inside (by decide) (by decide) 19
  obtain ⟨ahead, turned, back⟩ := (law 19).2.2 roomy
  exact ⟨(law 19).1 (by decide) ahead, (law (-19)).2.1 (by decide) turned back⟩

end Pointer

end Funge
