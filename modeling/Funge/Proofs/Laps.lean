import Funge.Proofs.Stepping
import Mathlib.Data.Int.ModEq
import Mathlib.Data.Nat.Count
import Mathlib.Data.Set.Card

/-!
# Laps

The points of a line that lie inside the box make a loop: after the last comes the first. So a
number of steps along the line matters only up to whole laps, and a lap has as many steps as the
loop has points. `Space.travel` goes around the loop in this way for every number of steps, and it
does so wherever the box lies: what it computes may leave the words on the way, but the point that
it comes to is a point of the loop.
-/

namespace Funge

namespace Vec

/-- Only one number belongs to a point of a line. -/
theorem OnLine.number_unique {p d v : Vec} {j k : Int} {axis : Nat} (moves : d.get axis ≠ 0)
    (first : OnLine p d j v) (second : OnLine p d k v) : j = k := by
  have nonzero : (d.get axis).toInt ≠ 0 := fun zero => moves (Int64.toInt_inj.mp zero)
  have same := (first axis).symm.trans (second axis)
  exact Int.eq_of_mul_eq_mul_right nonzero (Int.add_left_cancel same)

/-- Up to whole laps of the chord from `first` to `last`, the vector is point number `k` of the
line. -/
def OnLoop (p d : Vec) (first last k : Int) (v : Vec) : Prop :=
  ∃ j, (first ≤ j ∧ j ≤ last) ∧ last - first + 1 ∣ k - j ∧ OnLine p d j v

namespace OnLoop

variable {p d q u v : Vec} {first last k l : Int}

theorem of_onLine (numbered : first ≤ k ∧ k ≤ last) (on : OnLine p d k v) :
    OnLoop p d first last k v :=
  ⟨k, numbered, by simp, on⟩

/-- Numbers that differ by whole laps belong to one point. -/
theorem unique (hu : OnLoop p d first last k u) (hv : OnLoop p d first last l v)
    (laps : last - first + 1 ∣ k - l) : u = v := by
  obtain ⟨i, inner, near, on⟩ := hu
  obtain ⟨j, inner', near', on'⟩ := hv
  have same : i = j := by
    apply Space.eq_of_laps inner inner'
    have difference : i - j = (k - l) - (k - i) + (l - j) := by omega
    rw [difference]
    exact Int.dvd_add (Int.dvd_sub laps near) near'
  subst same
  exact on.unique on'

/-- Numbers of one point differ by whole laps. -/
theorem laps {axis : Nat} (moves : d.get axis ≠ 0) (hk : OnLoop p d first last k v)
    (hl : OnLoop p d first last l v) : last - first + 1 ∣ k - l := by
  obtain ⟨i, _, near, on⟩ := hk
  obtain ⟨j, _, near', on'⟩ := hl
  obtain rfl := on.number_unique moves on'
  have difference : k - l = (k - i) - (l - i) := by omega
  rw [difference]
  exact Int.dvd_sub near near'

/-- Counting from another point of the line. -/
theorem rebase {n : Int} (base : OnLine p d n q)
    (h : OnLoop q d (first - n) (last - n) k v) : OnLoop p d first last (n + k) v := by
  obtain ⟨j, inner, near, on⟩ := h
  refine ⟨n + j, by omega, ?_, base.trans on⟩
  have lap : last - first + 1 = last - n - (first - n) + 1 := by omega
  rw [lap, Int.add_sub_add_left]
  exact near

/-- Counting the other way. -/
theorem of_neg (turned : d.NegatesExactly) (h : OnLoop p (-d) (-last) (-first) k v) :
    OnLoop p d first last (-k) v := by
  obtain ⟨j, inner, near, on⟩ := h
  refine ⟨-j, by omega, ?_, on.of_neg turned⟩
  have lap : last - first + 1 = -first - -last + 1 := by omega
  have difference : -k - -j = -(k - j) := by omega
  rw [lap, difference]
  exact Int.dvd_neg.mpr near

end OnLoop

end Vec

namespace Space

/-- The points of a line that lie inside the box. -/
def loop (s : Space) (p d : Vec) : Set Vec := {v | s.outside v = false ∧ ∃ k, Vec.OnLine p d k v}

section Loop

variable {s : Space} {p d q v : Vec} {first last k : Int}

/-- A line has one chord. -/
theorem Chord.unique {first' last' : Int} (chord : s.Chord p d first last)
    (chord' : s.Chord p d first' last') (nonempty : first ≤ last) :
    first' = first ∧ last' = last := by
  have same (k : Int) := (chord k).symm.trans (chord' k)
  have low := same first
  have high := same last
  have low' := same first'
  have high' := same last'
  omega

/-- Counting the points of a line from another of its points. -/
theorem inBox_rebase (base : Vec.OnLine p d k q) (j : Int) :
    s.InBox q d j ↔ s.InBox p d (k + j) := by
  simp only [InBox, base _, Int.add_mul, Int.add_assoc]

theorem Chord.rebase (chord : s.Chord p d first last) (base : Vec.OnLine p d k q) :
    s.Chord q d (first - k) (last - k) := by
  intro j
  rw [inBox_rebase base, chord (k + j)]
  omega

theorem Chord.mem_loop (chord : s.Chord p d first last) (sound : s.Sound)
    (hp : p.fits s.dims = true) (hd : d.fits s.dims = true) :
    v ∈ s.loop p d ↔ ∃ k, (first ≤ k ∧ k ≤ last) ∧ Vec.OnLine p d k v := by
  constructor
  · rintro ⟨inside, k, on⟩
    exact ⟨k, (chord k).mp ((sound.inside_iff (on.fits hp hd) on).mp inside), on⟩
  · rintro ⟨k, numbered, on⟩
    exact ⟨(sound.inside_iff (on.fits hp hd) on).mpr ((chord k).mpr numbered), k, on⟩

theorem Chord.mem_loop_of_onLoop (chord : s.Chord p d first last) (sound : s.Sound)
    (hp : p.fits s.dims = true) (hd : d.fits s.dims = true)
    (on : Vec.OnLoop p d first last k v) : v ∈ s.loop p d := by
  obtain ⟨j, numbered, _, there⟩ := on
  exact (chord.mem_loop sound hp hd).mpr ⟨j, numbered, there⟩

theorem Chord.onLoop_start (chord : s.Chord p d first last) (sound : s.Sound)
    (inside : s.outside p = false) : Vec.OnLoop p d first last 0 p :=
  .of_onLine (chord.home sound inside) (.start p d)

/-- One lap from any point on visits every point of the loop once. -/
theorem Chord.loop_eq (chord : s.Chord p d first last) (sound : s.Sound)
    (hp : p.fits s.dims = true) (hd : d.fits s.dims = true) {lap : Nat}
    (length : last - first + 1 = lap) (positive : 0 < lap) {c : Nat → Vec} {n : Int}
    (visits : ∀ i, i < lap → Vec.OnLoop p d first last (n + i) (c i)) (P : Vec → Prop)
    [DecidablePred P] :
    {v ∈ s.loop p d | P v} = c '' ((Finset.range lap).filter fun i => P (c i) : Finset Nat) := by
  ext v
  simp only [Finset.coe_filter, Finset.mem_range, Set.mem_image]
  constructor
  · rintro ⟨member, holds⟩
    obtain ⟨k, numbered, on⟩ := (chord.mem_loop sound hp hd).mp member
    have low := Int.emod_nonneg (k - n) (b := lap) (by omega)
    have high := Int.emod_lt_of_pos (k - n) (b := lap) (by omega)
    obtain ⟨i, rest⟩ := Int.eq_ofNat_of_zero_le low
    have bound : i < lap := by omega
    have whole := Int.dvd_self_sub_emod (x := k - n) (m := (lap : Int))
    have same : v = c i := by
      apply (Vec.OnLoop.of_onLine numbered on).unique (visits i bound)
      rwa [length, ← Int.sub_sub, ← rest]
    exact ⟨i, ⟨bound, same ▸ holds⟩, same.symm⟩
  · rintro ⟨i, ⟨bound, holds⟩, rfl⟩
    obtain ⟨j, numbered, _, on⟩ := visits i bound
    exact ⟨(chord.mem_loop sound hp hd).mpr ⟨j, numbered, on⟩, holds⟩

theorem injOn_lap {axis : Nat} (moves : d.get axis ≠ 0) {lap : Nat}
    (length : last - first + 1 = lap) {c : Nat → Vec} {n : Int}
    (visits : ∀ i, i < lap → Vec.OnLoop p d first last (n + i) (c i)) :
    Set.InjOn c (Finset.range lap) := by
  intro i hi j hj same
  rw [Finset.coe_range, Set.mem_Iio] at hi hj
  have there := visits j hj
  rw [← same] at there
  have whole := Vec.OnLoop.laps moves (visits i hi) there
  rw [length, Int.add_sub_add_left] at whole
  have none := Int.eq_zero_of_abs_lt_dvd whole (by rw [abs_lt]; omega)
  omega

/-- The points of the loop with a property are counted on one lap. -/
theorem Chord.ncard_loop (chord : s.Chord p d first last) (sound : s.Sound)
    (hp : p.fits s.dims = true) (hd : d.fits s.dims = true) (moving : d.isZero = false) {lap : Nat}
    (length : last - first + 1 = lap) (positive : 0 < lap) {c : Nat → Vec} {n : Int}
    (visits : ∀ i, i < lap → Vec.OnLoop p d first last (n + i) (c i)) (P : Vec → Prop)
    [DecidablePred P] : {v ∈ s.loop p d | P v}.ncard = Nat.count (fun i => P (c i)) lap := by
  obtain ⟨axis, _, moves⟩ := Vec.exists_moving moving hd
  have apart := (injOn_lap moves length visits).mono
    (Finset.coe_subset.mpr (Finset.filter_subset (fun i => P (c i)) _))
  rw [chord.loop_eq sound hp hd length positive visits P, apart.ncard_image,
    Set.ncard_coe_finset, Nat.count_eq_card_filter_range]

/-- A loop has as many points as its chord has numbers. -/
theorem Chord.card_loop (chord : s.Chord p d first last) (sound : s.Sound)
    (hp : p.fits s.dims = true) (hd : d.fits s.dims = true) (moving : d.isZero = false)
    (nonempty : first ≤ last) :
    (s.loop p d).Finite ∧ ((s.loop p d).ncard : Int) = last - first + 1 := by
  obtain ⟨lap, length⟩ := Int.eq_ofNat_of_zero_le (show 0 ≤ last - first + 1 by omega)
  have visits (i : Nat) (bound : i < lap) :
      Vec.OnLoop p d first last (first + i) (p + d.scale (Int64.ofInt (first + i))) :=
    .of_onLine (by omega) (((chord _).mpr (by omega)).onLine_scale hp hd)
  have all : s.loop p d = {v ∈ s.loop p d | True} := by simp
  constructor
  · rw [all, chord.loop_eq sound hp hd length (by omega) visits]
    exact Set.Finite.image _ (Finset.finite_toSet _)
  · rw [all, chord.ncard_loop sound hp hd moving length (by omega) visits, length]
    simp

end Loop

section Travel

variable {s : Space} {p d : Vec} {first last : Int}

/-- Travel goes as many steps around the loop as it is asked for. -/
theorem Sound.travel_onLoop (sound : s.Sound) (inside : s.outside p = false)
    (moving : d.isZero = false) (fits : d.fits s.dims = true)
    (chord : s.Chord p d first last) (n : Cell) :
    Vec.OnLoop p d first last n.toInt (s.travel p d n) := by
  obtain ⟨first', last', chord', travelled⟩ := sound.travel_on_chord inside moving fits
  obtain ⟨k, low, high, laps, on⟩ := travelled n
  obtain ⟨rfl, rfl⟩ := chord'.unique chord (by omega)
  exact ⟨k, ⟨low, high⟩, laps, on⟩

/-- From a point inside the box, travel by any number of steps comes to a point of the line inside
the box, in exact integers. Travel by no step stays, travel by a number of steps and then by
another is travel by their sum, and two numbers of steps lead to the same point exactly when they
are congruent modulo the number of points of the line inside the box. Box and step may have any
coordinates. -/
theorem travel_cyclic (sound : s.Sound) (inside : s.outside p = false)
    (moving : d.isZero = false) (fits : d.fits s.dims = true) :
    (s.loop p d).Finite ∧
    (∀ n, s.travel p d n ∈ s.loop p d) ∧
    s.travel p d 0 = p ∧
    (∀ a b c : Cell, c.toInt = a.toInt + b.toInt →
      s.travel (s.travel p d a) d b = s.travel p d c) ∧
    ∀ a b : Cell, s.travel p d a = s.travel p d b ↔
      a.toInt ≡ b.toInt [ZMOD (s.loop p d).ncard] := by
  obtain ⟨first, last, chord, _⟩ := sound.travel_on_chord inside moving fits
  obtain ⟨axis, _, moves⟩ := Vec.exists_moving moving fits
  have hp := sound.fits_of_inside inside
  have home := chord.home sound inside
  obtain ⟨finite, size⟩ := chord.card_loop sound hp fits moving (by omega)
  have travelled := sound.travel_onLoop inside moving fits chord
  have stays (n : Cell) : s.travel p d n ∈ s.loop p d :=
    chord.mem_loop_of_onLoop sound hp fits (travelled n)
  refine ⟨finite, stays, ?_, ?_, ?_⟩
  · exact (travelled 0).unique (chord.onLoop_start sound inside) (by simp)
  · intro a b c sum
    obtain ⟨k, numbered, laps, on⟩ := travelled a
    have second := sound.travel_onLoop (stays a).1 moving fits (chord.rebase on) b
    apply (second.rebase on).unique (travelled c)
    have difference : k + b.toInt - c.toInt = -(a.toInt - k) := by omega
    rw [difference]
    exact Int.dvd_neg.mpr laps
  · intro a b
    rw [Int.modEq_iff_dvd, size]
    constructor
    · intro same
      have there := travelled a
      rw [same] at there
      exact Vec.OnLoop.laps moves (travelled b) there
    · intro laps
      exact ((travelled b).unique (travelled a) laps).symm

/-- An axis with live cells at both ends of the words. -/
def widest : Space :=
  ((empty 1).write (Vec.ofList [Int64.minValue]) 49).write (Vec.ofList [Int64.maxValue]) 49

theorem sound_widest : widest.Sound :=
  ((sound_empty 1).write (by decide) 49).write (by decide) 49

/-- A quarter of all words. -/
def quarter : Vec := Vec.ofList [4611686018427387904]

/-- In steps of a quarter the whole axis is a loop of four points, and the greatest number of steps
leads to the third of them. -/
theorem widest_cyclic :
    (widest.loop 0 quarter).ncard = 4 ∧
    widest.travel 0 quarter Int64.maxValue = Vec.ofList [-4611686018427387904] ∧
    widest.travel (widest.travel 0 quarter Int64.maxValue) quarter (-4) =
      widest.travel 0 quarter (Int64.maxValue - 4) := by
  have inside : widest.outside 0 = false := by decide +kernel
  obtain ⟨_, _, _, composed, same_iff⟩ := travel_cyclic sound_widest inside
    (show quarter.isZero = false by decide) (show quarter.fits widest.dims = true by decide +kernel)
  have whole : widest.travel 0 quarter 4 = widest.travel 0 quarter 0 := by decide +kernel
  have half : widest.travel 0 quarter 2 ≠ widest.travel 0 quarter 0 := by decide +kernel
  have divides : (widest.loop 0 quarter).ncard ∣ 4 :=
    Int.natCast_dvd_natCast.mp (Int.modEq_zero_iff_dvd.mp ((same_iff 4 0).mp whole))
  have misses : ¬ (widest.loop 0 quarter).ncard ∣ 2 := fun smaller =>
    half ((same_iff 2 0).mpr (Int.modEq_zero_iff_dvd.mpr (Int.natCast_dvd_natCast.mpr smaller)))
  have only : ∀ n ≤ 4, n ∣ 4 → ¬ n ∣ 2 → n = 4 := by decide
  exact ⟨only _ (Nat.le_of_dvd (by decide) divides) divides misses, by decide +kernel,
    composed _ _ _ (by decide)⟩

end Travel

end Space

end Funge
