import Funge.Proofs.Overflow
import Mathlib.Tactic.Ring

/-!
# Lines through the box

A path runs along the points `p + k * d` of a line, for whole numbers `k`. On each axis along which
it moves, a point has gone some way from the side of the box where the path enters, and has some
way ahead to the side where it leaves. Both ways change by the pace of the axis from point to
point, so the points inside the box are those from a first to a last number. `Space.travel` finds
these two numbers. `Space.wrap` leads a point back by as many steps as the axis with the least way
behind it allows, which is to the first of these points when it comes from the last.

All of this is said in integers. Cells agree with them as long as no result leaves the words.
-/

namespace Funge

namespace Vec

/-- The vector is point number `k` of the line, in exact integers. -/
def OnLine (p d : Vec) (k : Int) (v : Vec) : Prop :=
  ∀ axis, (v.get axis).toInt = (p.get axis).toInt + k * (d.get axis).toInt

namespace OnLine

variable {p d u v : Vec} {k : Int}

theorem unique (first : OnLine p d k u) (second : OnLine p d k v) : u = v := by
  apply ext_get
  intro axis
  apply Int64.toInt_inj.mp
  rw [first axis, second axis]

theorem start (p d : Vec) : OnLine p d 0 p := by
  intro axis
  omega

theorem trans {n : Int} (first : OnLine p d n u) (second : OnLine u d k v) :
    OnLine p d (n + k) v := by
  intro axis
  rw [second axis, first axis, Int.add_mul, Int.add_assoc]

theorem fits {dims : Nat} (h : OnLine p d k v) (hp : p.fits dims = true) (hd : d.fits dims = true) :
    v.fits dims = true := by
  rw [fits_iff] at *
  intro axis beyond
  have value := h axis
  rw [hp axis beyond, hd axis beyond] at value
  apply Int64.toInt_inj.mp
  simpa using value

end OnLine

/-- A vector that is not zero has a component on one of the axes that it fits. -/
theorem exists_moving {d : Vec} {dims : Nat} (moving : d.isZero = false)
    (fits : d.fits dims = true) : ∃ axis, axis < dims ∧ d.get axis ≠ 0 := by
  have stored : d.size ≠ 0 := by
    simpa [isZero, size] using moving
  obtain ⟨n, size⟩ := Nat.exists_eq_succ_of_ne_zero stored
  have last := get_last_ne_zero size
  have bound : n < dims := by
    by_contra beyond
    exact last (fits_iff.mp fits n (by omega))
  exact ⟨n, bound, last⟩

end Vec

namespace Space

section Axes

/-- The side of an extent at which a path with step `d` enters. -/
def entrySide (extent : Cell × Cell) (d : Cell) : Cell := if 0 < d then extent.1 else extent.2

/-- How far a path with step `d` has gone at a coordinate, from the side where it enters. -/
def gone (extent : Cell × Cell) (p d : Cell) : Int :=
  if 0 < d then p.toInt - extent.1.toInt else extent.2.toInt - p.toInt

/-- How far it is from a coordinate to the side where a path with step `d` leaves. -/
def ahead (extent : Cell × Cell) (p d : Cell) : Int :=
  if 0 < d then extent.2.toInt - p.toInt else p.toInt - extent.1.toInt

/-- The distance that one step covers on an axis. -/
def pace (d : Cell) : Int := d.toInt.natAbs

variable {extent : Cell × Cell} {p d : Cell}

theorem pace_cases (moving : d ≠ 0) :
    0 < d ∧ 0 < d.toInt ∧ pace d = d.toInt ∨ ¬ 0 < d ∧ d.toInt < 0 ∧ pace d = -d.toInt := by
  have nonzero : d.toInt ≠ 0 := fun zero => moving (Int64.toInt_inj.mp zero)
  by_cases up : 0 < d
  · have positive : 0 < d.toInt := by simpa using Int64.lt_iff_toInt_lt.mp up
    exact .inl ⟨up, positive, by unfold pace; omega⟩
  · have negative : d.toInt ≤ 0 := by
      have low := Int64.le_iff_toInt_le.mp (Int64.not_lt.mp up)
      simpa using low
    exact .inr ⟨up, by omega, by unfold pace; omega⟩

theorem pace_pos (moving : d ≠ 0) : 0 < pace d := by
  rcases pace_cases moving with ⟨_, sign, same⟩ | ⟨_, sign, same⟩ <;> omega

/-- Point `k` lies in the extent when it is past the side of entry and not past the other one. -/
theorem within_iff (moving : d ≠ 0) (k : Int) :
    extent.1.toInt ≤ p.toInt + k * d.toInt ∧ p.toInt + k * d.toInt ≤ extent.2.toInt ↔
      0 ≤ gone extent p d + k * pace d ∧ k * pace d ≤ ahead extent p d := by
  rcases pace_cases moving with ⟨up, _, same⟩ | ⟨down, _, same⟩
  · simp only [gone, ahead, if_pos up, same]
    omega
  · simp only [gone, ahead, if_neg down, same, Int.mul_neg]
    omega

/-- The ways of a coordinate `k` steps on. -/
theorem gone_add {q : Cell} (moving : d ≠ 0) {k : Int} (exact : q.toInt = p.toInt + k * d.toInt) :
    gone extent q d = gone extent p d + k * pace d := by
  rcases pace_cases moving with ⟨up, _, same⟩ | ⟨down, _, same⟩
  · simp only [gone, if_pos up, same]
    omega
  · simp only [gone, if_neg down, same, Int.mul_neg]
    omega

theorem stepRange_eq (moving : d ≠ 0) :
    stepRange extent p d = (-(gone extent p d / pace d), ahead extent p d / pace d) := by
  have positive := pace_pos moving
  rcases pace_cases moving with ⟨up, _, same⟩ | ⟨down, _, same⟩
  · have floor (x : Int) : x.fdiv d.toInt = x / d.toInt :=
      Int.fdiv_eq_ediv_of_nonneg x (by omega)
    simp only [stepRange, gone, ahead, if_pos up, same, ceilDiv, floor, Int.neg_sub]
  · have floor (x : Int) : x.fdiv d.toInt = (-x) / (-d.toInt) := by
      rw [← Int.fdiv_eq_ediv_of_nonneg (-x) (by omega), Int.neg_fdiv_neg]
    simp only [stepRange, gone, ahead, if_neg down, same, ceilDiv, floor, Int.neg_sub]

/-- The range of an axis holds the numbers of the points in its extent. -/
theorem stepRange_iff (moving : d ≠ 0) (k : Int) :
    (stepRange extent p d).1 ≤ k ∧ k ≤ (stepRange extent p d).2 ↔
      extent.1.toInt ≤ p.toInt + k * d.toInt ∧ p.toInt + k * d.toInt ≤ extent.2.toInt := by
  have positive := pace_pos moving
  rw [stepRange_eq moving, within_iff moving]
  have low : -(gone extent p d / pace d) ≤ k ↔ 0 ≤ gone extent p d + k * pace d := by
    have steps := Int.le_ediv_iff_mul_le (a := -k) (b := gone extent p d) positive
    rw [Int.neg_mul] at steps
    omega
  have high := Int.le_ediv_iff_mul_le (a := k) (b := ahead extent p d) positive
  rw [low, high]

theorem tdiv_entrySide (moving : d ≠ 0) :
    (p.toInt - (entrySide extent d).toInt).tdiv d.toInt = (gone extent p d).tdiv (pace d) := by
  rcases pace_cases moving with ⟨up, _, same⟩ | ⟨down, _, same⟩
  · simp only [entrySide, gone, if_pos up, same]
  · rw [same, ← Int.neg_tdiv_neg]
    simp only [entrySide, gone, if_neg down, Int.neg_sub]

end Axes

section Box

variable {s : Space} {p d v : Vec} {k : Int}

/-- Point number `k` of the line lies in the box: no axis leaves its exact coordinate out. -/
def InBox (s : Space) (p d : Vec) (k : Int) : Prop :=
  ∀ axis, axis < s.dims → ∃ extent, s.extent? axis = some extent ∧
    extent.1.toInt ≤ (p.get axis).toInt + k * (d.get axis).toInt ∧
    (p.get axis).toInt + k * (d.get axis).toInt ≤ extent.2.toInt

/-- Around a point inside the box every axis has an extent. -/
theorem Sound.extent_of_inside (sound : s.Sound) (inside : s.outside v = false) {axis : Nat}
    (bound : axis < s.dims) : ∃ extent, s.extent? axis = some extent := by
  cases found : s.extent? axis with
  | some extent => exact ⟨extent, rfl⟩
  | none =>
    have blank := (sound.extent?_eq_none_iff bound).mp found
    have out := (sound.outside_iff v).mpr (.inr (.inl blank))
    rw [out] at inside
    cases inside

theorem Sound.fits_of_inside (sound : s.Sound) (inside : s.outside v = false) :
    v.fits s.dims = true := by
  by_contra unfit
  have out := (sound.outside_iff v).mpr (.inl (Bool.eq_false_iff.mpr unfit))
  rw [out] at inside
  cases inside

/-- A point of the line that is a vector is inside the box exactly when its number says so. -/
theorem Sound.inside_iff (sound : s.Sound) (fits : v.fits s.dims = true)
    (on : Vec.OnLine p d k v) : s.outside v = false ↔ s.InBox p d k := by
  constructor
  · intro inside axis bound
    obtain ⟨extent, found⟩ := sound.extent_of_inside inside bound
    obtain ⟨low, high⟩ := inside_extent inside bound found
    rw [Int64.le_iff_toInt_le, on axis] at low high
    exact ⟨extent, found, low, high⟩
  · intro within
    by_contra out
    rcases (sound.outside_iff v).mp (Bool.not_eq_false _ ▸ out) with
      unfit | blank | ⟨axis, lo, hi, bound, found, beyond⟩
    · rw [fits] at unfit
      cases unfit
    · obtain ⟨extent, found, _⟩ := within 0 sound.positive
      rw [(sound.extent?_eq_none_iff sound.positive).mpr blank] at found
      cases found
    · obtain ⟨⟨_, _⟩, found', low, high⟩ := within axis bound
      rw [found] at found'
      cases found'
      dsimp only at low high
      rw [Int64.lt_iff_toInt_lt, Int64.lt_iff_toInt_lt, on axis] at beyond
      omega

theorem InBox.gone_nonneg (within : s.InBox p d k) {axis : Nat} {extent : Cell × Cell}
    (bound : axis < s.dims) (found : s.extent? axis = some extent) (moving : d.get axis ≠ 0) :
    0 ≤ gone extent (p.get axis) (d.get axis) + k * pace (d.get axis) := by
  obtain ⟨extent', found', between⟩ := within axis bound
  rw [found] at found'
  cases found'
  exact ((within_iff moving k).mp between).1

/-- Computing with words gives a point in the box exactly. -/
theorem InBox.onLine (within : s.InBox p d k) (hp : p.fits s.dims = true)
    (hd : d.fits s.dims = true)
    (same : ∀ axis, v.get axis = Int64.ofInt ((p.get axis).toInt + k * (d.get axis).toInt)) :
    Vec.OnLine p d k v := by
  intro axis
  rw [same axis]
  by_cases bound : axis < s.dims
  · obtain ⟨extent, _, low, high⟩ := within axis bound
    have least := extent.1.le_toInt
    have greatest := extent.2.toInt_lt
    exact Int64.toInt_ofInt_of_le (by omega) (by omega)
  · rw [Vec.fits_iff.mp hp axis (by omega), Vec.fits_iff.mp hd axis (by omega)]
    simp

/-- Every number of a point in the box is the number of a vector. -/
theorem InBox.onLine_scale (within : s.InBox p d k) (hp : p.fits s.dims = true)
    (hd : d.fits s.dims = true) : Vec.OnLine p d k (p + d.scale (Int64.ofInt k)) := by
  apply within.onLine hp hd
  intro axis
  simp only [Vec.get_add, Vec.get_scale, Int64.ofInt_add, Int64.ofInt_mul, Int64.ofInt_toInt,
    Int64.mul_comm]

/-- The points of the line in the box are those from number `first` to number `last`. -/
def Chord (s : Space) (p d : Vec) (first last : Int) : Prop :=
  ∀ k, s.InBox p d k ↔ first ≤ k ∧ k ≤ last

/-- A point inside the box is on its own chord. -/
theorem Chord.home {first last : Int} (chord : s.Chord p d first last) (sound : s.Sound)
    (inside : s.outside p = false) : first ≤ 0 ∧ 0 ≤ last :=
  (chord 0).mp ((sound.inside_iff (sound.fits_of_inside inside) (.start p d)).mp inside)

theorem foldl_meet_iff (r : Int × Int) (rs : List (Int × Int)) (k : Int) :
    (rs.foldl meet r).1 ≤ k ∧ k ≤ (rs.foldl meet r).2 ↔
      ∀ range ∈ r :: rs, range.1 ≤ k ∧ k ≤ range.2 := by
  induction rs generalizing r with
  | nil => simp
  | cons q rs ih =>
    rw [List.foldl_cons, ih (meet r q)]
    simp only [List.forall_mem_cons, meet]
    constructor
    · rintro ⟨both, rest⟩
      exact ⟨by omega, by omega, rest⟩
    · rintro ⟨left, right, rest⟩
      exact ⟨by omega, rest⟩

/-- The ranges of the axes along which a path moves. -/
def ranges (s : Space) (p d : Vec) : List (Int × Int) :=
  (List.range s.dims).filterMap fun i =>
    if d.get i = 0 then none
    else (s.extent? i).map fun e => stepRange e (p.get i) (d.get i)

theorem mem_ranges {r : Int × Int} : r ∈ s.ranges p d ↔ ∃ axis extent, axis < s.dims ∧
    s.extent? axis = some extent ∧ d.get axis ≠ 0 ∧
    r = stepRange extent (p.get axis) (d.get axis) := by
  simp only [ranges, List.mem_filterMap, List.mem_range]
  constructor
  · rintro ⟨axis, bound, found⟩
    split at found
    · cases found
    · rename_i moving
      obtain ⟨extent, spanned, same⟩ := Option.map_eq_some_iff.mp found
      exact ⟨axis, extent, bound, spanned, moving, same.symm⟩
  · rintro ⟨axis, extent, bound, spanned, moving, rfl⟩
    exact ⟨axis, bound, by simp [moving, spanned]⟩

/-- From a point inside the box, a point of the line is in the box when all ranges hold its
number. On an axis along which the path does not move, it has the coordinate of that point. -/
theorem Sound.inBox_iff_ranges (sound : s.Sound) (inside : s.outside p = false) :
    s.InBox p d k ↔ ∀ r ∈ s.ranges p d, r.1 ≤ k ∧ k ≤ r.2 := by
  constructor
  · intro within r member
    obtain ⟨axis, extent, bound, found, moving, rfl⟩ := mem_ranges.mp member
    obtain ⟨extent', found', between⟩ := within axis bound
    rw [found] at found'
    cases found'
    exact (stepRange_iff moving k).mpr between
  · intro held axis bound
    obtain ⟨extent, found⟩ := sound.extent_of_inside inside bound
    by_cases moving : d.get axis = 0
    · obtain ⟨low, high⟩ := inside_extent inside bound found
      rw [Int64.le_iff_toInt_le] at low high
      refine ⟨extent, found, ?_⟩
      rw [moving]
      simpa using ⟨low, high⟩
    · have member : stepRange extent (p.get axis) (d.get axis) ∈ s.ranges p d :=
        mem_ranges.mpr ⟨axis, extent, bound, found, moving, rfl⟩
      exact ⟨extent, found, (stepRange_iff moving k).mp (held _ member)⟩

theorem Sound.exists_chord (sound : s.Sound) (inside : s.outside p = false)
    (moving : d.isZero = false) (fits : d.fits s.dims = true) :
    ∃ r rs, s.ranges p d = r :: rs ∧ s.Chord p d (rs.foldl meet r).1 (rs.foldl meet r).2 := by
  obtain ⟨axis, bound, moves⟩ := Vec.exists_moving moving fits
  obtain ⟨extent, found⟩ := sound.extent_of_inside inside bound
  have member : stepRange extent (p.get axis) (d.get axis) ∈ s.ranges p d :=
    mem_ranges.mpr ⟨axis, extent, bound, found, moves, rfl⟩
  obtain ⟨r, rs, spans⟩ := List.exists_cons_of_ne_nil (List.ne_nil_of_mem member)
  refine ⟨r, rs, spans, ?_⟩
  intro k
  rw [sound.inBox_iff_ranges inside, spans, foldl_meet_iff]

theorem travel_eq (inside : s.outside p = false) (moving : d.isZero = false) {r : Int × Int}
    {rs : List (Int × Int)} (spans : s.ranges p d = r :: rs) (n : Cell) :
    s.travel p d n = p + d.scale (Int64.ofInt ((rs.foldl meet r).1 +
      (n.toInt - (rs.foldl meet r).1) % ((rs.foldl meet r).2 - (rs.foldl meet r).1 + 1))) := by
  unfold ranges at spans
  simp only [travel, moving, inside, Bool.or_self, Bool.false_eq_true, if_false, spans]

/-- The points inside the box make a chord, and travel stays on it. The number of the point where
it ends is the number of steps, up to whole laps. -/
theorem Sound.travel_on_chord (sound : s.Sound) (inside : s.outside p = false)
    (moving : d.isZero = false) (fits : d.fits s.dims = true) :
    ∃ first last, s.Chord p d first last ∧ ∀ n : Cell, ∃ k, first ≤ k ∧ k ≤ last ∧
      last - first + 1 ∣ n.toInt - k ∧ Vec.OnLine p d k (s.travel p d n) := by
  obtain ⟨r, rs, spans, chord⟩ := sound.exists_chord inside moving fits
  have travelled := travel_eq inside moving spans
  generalize (rs.foldl meet r).1 = first at *
  generalize (rs.foldl meet r).2 = last at *
  have hp := sound.fits_of_inside inside
  have home := chord.home sound inside
  refine ⟨first, last, chord, ?_⟩
  intro n
  rw [travelled n]
  have low := Int.emod_nonneg (n.toInt - first) (b := last - first + 1) (by omega)
  have high := Int.emod_lt_of_pos (n.toInt - first) (b := last - first + 1) (by omega)
  have laps := Int.dvd_self_sub_emod (x := n.toInt - first) (m := last - first + 1)
  rw [Int.sub_sub] at laps
  generalize (n.toInt - first) % (last - first + 1) = rest at *
  have within : s.InBox p d (first + rest) := (chord (first + rest)).mpr (by omega)
  exact ⟨first + rest, by omega, by omega, laps, within.onLine_scale hp fits⟩

end Box

section Wrap

variable {s : Space} {p d x : Vec}

/-- Leading the point back overflows nowhere: on each axis the way from the side of entry is
exact, and so is its quotient. The one quotient that is not a word is a negation. -/
structure LedExactly (s : Space) (x d : Vec) : Prop where
  distance : ∀ axis extent, axis < s.dims → s.extent? axis = some extent → d.get axis ≠ 0 →
    (x.get axis - entrySide extent (d.get axis)).toInt =
      (x.get axis).toInt - (entrySide extent (d.get axis)).toInt
  quotient : ¬ s.Overflows x d

/-- The point is `n` steps past the side of entry on the axis where that is least, among those
along which the path moves. -/
structure LedBack (s : Space) (x d : Vec) (n : Cell) : Prop where
  allowed : ∀ axis extent, axis < s.dims → s.extent? axis = some extent → d.get axis ≠ 0 →
    n.toInt ≤ (gone extent (x.get axis) (d.get axis)).tdiv (pace (d.get axis))
  attained : ∃ axis extent, axis < s.dims ∧ s.extent? axis = some extent ∧ d.get axis ≠ 0 ∧
    n.toInt = (gone extent (x.get axis) (d.get axis)).tdiv (pace (d.get axis))

/-- The steps that an axis with its extent allows, computed with words. -/
def allowance (x d : Vec) (entry : Nat × Cell × Cell) : Cell :=
  (x.get entry.1 - entrySide entry.2 (d.get entry.1)) / d.get entry.1

theorem LedExactly.steps (led : s.LedExactly x d) {axis : Nat} {extent : Cell × Cell}
    (bound : axis < s.dims) (found : s.extent? axis = some extent) (moving : d.get axis ≠ 0) :
    stepsInside extent (x.get axis) (d.get axis) = .ok (allowance x d (axis, extent)) ∧
      (allowance x d (axis, extent)).toInt =
        (gone extent (x.get axis) (d.get axis)).tdiv (pace (d.get axis)) := by
  have moderate : ¬ (x.get axis - entrySide extent (d.get axis) = Int64.minValue ∧
      d.get axis = -1) := by
    rintro ⟨least, down⟩
    apply led.quotient
    refine ⟨axis, extent.1, extent.2, bound, found, down, ?_⟩
    rw [down] at least
    exact least
  constructor
  · exact if_neg moderate
  · have quotient : (allowance x d (axis, extent)).toInt =
        (x.get axis - entrySide extent (d.get axis)).toInt.tdiv (d.get axis).toInt := by
      by_cases least : x.get axis - entrySide extent (d.get axis) = Int64.minValue
      · exact Int64.toInt_div_of_ne_right _ _ fun down => moderate ⟨least, down⟩
      · exact Int64.toInt_div_of_ne_left _ _ least
    rw [quotient, led.distance axis extent bound found moving, tdiv_entrySide moving]

theorem LedExactly.wrap (led : s.LedExactly x d)
    (spanned : ∀ axis, axis < s.dims → ∃ extent, s.extent? axis = some extent)
    (moves : ∃ axis, axis < s.dims ∧ d.get axis ≠ 0) :
    ∃ n, s.wrap x d = .ok (x - d.scale n) ∧ s.LedBack x d n := by
  have every : ∀ i ∈ (List.range s.dims).filter fun i => d.get i ≠ 0,
      ((s.extent? i).map (i, ·)).isSome := by
    intro i member
    obtain ⟨extent, found⟩ := spanned i (List.mem_range.mp (List.mem_filter.mp member).1)
    simp [found]
  obtain ⟨extents, located⟩ := mapM_eq_some_of_forall every
  have mem_extents (i : Nat) (e : Cell × Cell) :
      (i, e) ∈ extents ↔ i < s.dims ∧ s.extent? i = some e ∧ d.get i ≠ 0 := by
    rw [mem_mapM_some located]
    constructor
    · rintro ⟨j, member, found⟩
      obtain ⟨e', spanned', same⟩ := Option.map_eq_some_iff.mp found
      cases same
      simpa [spanned', and_assoc] using member
    · rintro ⟨bound, found, moving⟩
      exact ⟨i, by simp [bound, moving], by simp [found]⟩
  cases least : (extents.map (allowance x d)).min? with
  | none =>
    obtain ⟨axis, bound, moving⟩ := moves
    obtain ⟨extent, found⟩ := spanned axis bound
    have member := (mem_extents axis extent).mpr ⟨bound, found, moving⟩
    rw [List.min?_eq_none_iff, List.map_eq_nil_iff] at least
    rw [least] at member
    cases member
  | some n =>
    obtain ⟨attained, below⟩ := List.min?_eq_some_iff.mp least
    refine ⟨n, ?_, ?_, ?_⟩
    · simp only [Space.wrap, located]
      rw [mapM_eq_map (g := allowance x d)]
      · simp only [least, bind, Except.bind, pure, Except.pure]
      · rintro ⟨i, e⟩ member
        obtain ⟨bound, found, moving⟩ := (mem_extents i e).mp member
        exact (led.steps bound found moving).1
    · intro axis extent bound found moving
      have member := (mem_extents axis extent).mpr ⟨bound, found, moving⟩
      have le := below _ (List.mem_map_of_mem member)
      rw [← (led.steps bound found moving).2]
      exact Int64.le_iff_toInt_le.mp le
    · obtain ⟨⟨axis, extent⟩, member, rfl⟩ := List.mem_map.mp attained
      obtain ⟨bound, found, moving⟩ := (mem_extents axis extent).mp member
      exact ⟨axis, extent, bound, found, moving, (led.steps bound found moving).2⟩

/-- What truncated division leaves lies between zero and the dividend. -/
theorem tdiv_remainder {g m : Int} (positive : 0 < m) :
    g - g.tdiv m * m < m ∧
      (0 ≤ g - g.tdiv m * m ∧ g - g.tdiv m * m ≤ g ∨
        g ≤ g - g.tdiv m * m ∧ g - g.tdiv m * m ≤ 0) := by
  have floored {h : Int} (nonneg : 0 ≤ h) :
      0 ≤ h - h.tdiv m * m ∧ h - h.tdiv m * m < m ∧ 0 ≤ h.tdiv m * m := by
    have whole := Int.mul_tdiv_add_tmod h m
    have low := Int.tmod_nonneg m nonneg
    have high := Int.tmod_lt_of_pos h positive
    have quotient := Int.mul_nonneg (Int.tdiv_nonneg nonneg (Int.le_of_lt positive))
      (Int.le_of_lt positive)
    rw [Int.mul_comm] at whole
    omega
  rcases Int.le_total 0 g with up | down
  · have facts := floored up
    omega
  · have facts := floored (h := -g) (by omega)
    rw [Int.neg_tdiv, Int.neg_mul] at facts
    omega

/-- A coordinate led back, before it is reduced to a word. -/
theorem get_back (x d : Vec) (n : Cell) (axis : Nat) : (x - d.scale n).get axis =
    Int64.ofInt ((x.get axis).toInt + -(n.toInt * (d.get axis).toInt)) := by
  simp only [Vec.get_sub, Vec.get_scale, Int64.ofInt_add, Int64.ofInt_mul, Int64.ofInt_neg,
    Int64.ofInt_toInt, Int64.sub_eq_add_neg, Int64.mul_comm]

/-- A point led back has, on some axis, less than one step behind it. -/
theorem LedBack.not_inBox {n : Cell} (back : s.LedBack x d n) :
    ¬ s.InBox (x - d.scale n) d (-1) := by
  obtain ⟨axis, extent, bound, found, moving, steps⟩ := back.attained
  have remainder := tdiv_remainder (g := gone extent (x.get axis) (d.get axis)) (pace_pos moving)
  rw [← steps] at remainder
  -- On this axis the result lies between the side of entry and the point, so it is a word.
  have exact : ((x - d.scale n).get axis).toInt =
      (x.get axis).toInt + -n.toInt * (d.get axis).toInt := by
    rw [get_back, Int.neg_mul]
    have x_low := (x.get axis).le_toInt
    have x_high := (x.get axis).toInt_lt
    have lo_low := extent.1.le_toInt
    have lo_high := extent.1.toInt_lt
    have hi_low := extent.2.le_toInt
    have hi_high := extent.2.toInt_lt
    rcases pace_cases moving with ⟨up, _, paced⟩ | ⟨down, _, paced⟩
    · simp only [gone, if_pos up, paced] at remainder
      exact Int64.toInt_ofInt_of_le (by omega) (by omega)
    · simp only [gone, if_neg down, paced, Int.mul_neg] at remainder
      exact Int64.toInt_ofInt_of_le (by omega) (by omega)
  intro within
  have behind := within.gone_nonneg bound found moving
  rw [gone_add moving exact, Int.neg_mul] at behind
  omega

variable {first last : Int}

/-- One step before a chord, some axis along which the path moves is the one that leaves the point
out, and it does so at the side of entry. -/
theorem Chord.before_first (chord : s.Chord p d first last) (nonempty : first ≤ last) :
    ∃ axis extent, axis < s.dims ∧ s.extent? axis = some extent ∧ d.get axis ≠ 0 ∧
      gone extent (p.get axis) (d.get axis) + (first - 1) * pace (d.get axis) < 0 := by
  by_contra none
  have within : s.InBox p d (first - 1) := by
    intro axis bound
    obtain ⟨extent, found, between⟩ := (chord first).mpr ⟨Int.le_refl _, nonempty⟩ axis bound
    refine ⟨extent, found, ?_⟩
    by_cases moving : d.get axis = 0
    · rw [moving] at between ⊢
      simpa using between
    · rw [within_iff moving] at between ⊢
      have positive := pace_pos moving
      have split : (first - 1) * pace (d.get axis) =
          first * pace (d.get axis) - pace (d.get axis) := by rw [Int.sub_mul, Int.one_mul]
      have entered : ¬ gone extent (p.get axis) (d.get axis) +
          (first - 1) * pace (d.get axis) < 0 := fun short =>
        none ⟨axis, extent, bound, found, moving, short⟩
      omega
  have numbered := (chord (first - 1)).mp within
  omega

/-- On an axis along which the path moves, a chord has no more points than there are words. -/
theorem Chord.length_lt (chord : s.Chord p d first last) (nonempty : first ≤ last)
    (moves : ∃ axis, axis < s.dims ∧ d.get axis ≠ 0) : last - first < 2 ^ 64 := by
  obtain ⟨axis, bound, moving⟩ := moves
  obtain ⟨extent, found, between⟩ := (chord last).mpr ⟨nonempty, Int.le_refl _⟩ axis bound
  have entered := ((chord first).mpr ⟨Int.le_refl _, nonempty⟩).gone_nonneg bound found moving
  have left := ((within_iff moving last).mp between).2
  have positive := pace_pos moving
  have steps := Int.mul_le_mul_of_nonneg_left (show 1 ≤ pace (d.get axis) by omega)
    (show 0 ≤ last - first by omega)
  rw [Int.mul_one, Int.sub_mul] at steps
  have least := extent.1.le_toInt
  have greatest := extent.2.toInt_lt
  have width : gone extent (p.get axis) (d.get axis) + ahead extent (p.get axis) (d.get axis) =
      extent.2.toInt - extent.1.toInt := by
    unfold gone ahead
    split <;> omega
  omega

/-- Led back from one step after its last point, a path comes to the first. -/
theorem Chord.wrap (chord : s.Chord p d first last) (nonempty : first ≤ last)
    (hp : p.fits s.dims = true) (hd : d.fits s.dims = true) (moving : d.isZero = false)
    (on : Vec.OnLine p d (last + 1) x) (led : s.LedExactly x d) :
    ∃ n, s.wrap x d = .ok (x - d.scale n) ∧ Vec.OnLine p d first (x - d.scale n) := by
  have start : s.InBox p d first := (chord first).mpr ⟨Int.le_refl _, nonempty⟩
  have spanned : ∀ axis, axis < s.dims → ∃ extent, s.extent? axis = some extent := by
    intro axis bound
    obtain ⟨extent, found, _⟩ := start axis bound
    exact ⟨extent, found⟩
  obtain ⟨n, wrapped, back⟩ := led.wrap spanned (Vec.exists_moving moving hd)
  -- Every axis allows the steps from the last point to the first, and one allows no more.
  have steps : n.toInt = last + 1 - first := by
    apply Int.le_antisymm
    · obtain ⟨axis, extent, bound, found, moves, short⟩ := chord.before_first nonempty
      have allowed := back.allowed axis extent bound found moves
      have positive := pace_pos moves
      have entered := start.gone_nonneg bound found moves
      rw [gone_add moves (on axis)] at allowed
      have beyond := Int.mul_le_mul_of_nonneg_right (show first ≤ last + 1 by omega)
        (Int.le_of_lt positive)
      rw [Int.tdiv_eq_ediv_of_nonneg (by omega)] at allowed
      have split : (last + 1 - first + 1) * pace (d.get axis) =
          (last + 1) * pace (d.get axis) - (first - 1) * pace (d.get axis) := by ring
      have few := (Int.ediv_lt_iff_lt_mul (b := last + 1 - first + 1)
        (a := gone extent (p.get axis) (d.get axis) + (last + 1) * pace (d.get axis))
        positive).mpr (by omega)
      omega
    · obtain ⟨axis, extent, bound, found, moves, attained⟩ := back.attained
      have entered := start.gone_nonneg bound found moves
      rw [attained, gone_add moves (on axis)]
      apply Int.le_tdiv_of_mul_le (pace_pos moves)
      rw [Int.sub_mul]
      omega
  refine ⟨n, wrapped, start.onLine hp hd ?_⟩
  intro axis
  rw [get_back, on axis, steps]
  congr 1
  ring

end Wrap

end Space

end Funge
