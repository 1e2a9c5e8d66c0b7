import Funge.Proofs.Laps
import Funge.Proofs.Search

/-!
# Where a line enters the box

A point is led back along its line until some axis allows no further step. If that leads into the
box, it leads to the point where the line enters: before it, that axis leaves all points of the
line out. It always does so for a path that has just left the box, whose last points all lie
between there and the point of entry.

A point that is far behind the box on some axis is led forward instead, by as many steps as that
axis lacks, whatever the other axes have. These steps may be long, so a statement about them needs
small numbers also for the way from where the point is to where it is led.
-/

namespace Funge

namespace Space

variable {s : Space} {p d q x : Vec} {i j k : Int}

/-- Between two points in the box the line stays inside. -/
theorem InBox.between (low : s.InBox p d i) (high : s.InBox p d k) (above : i ≤ j)
    (below : j ≤ k) : s.InBox p d j := by
  intro axis bound
  obtain ⟨extent, found, from_low⟩ := low axis bound
  obtain ⟨extent', found', to_high⟩ := high axis bound
  rw [found] at found'
  cases found'
  refine ⟨extent, found, ?_⟩
  by_cases moving : d.get axis = 0
  · rw [moving] at from_low ⊢
    simpa using from_low
  · rw [within_iff moving] at from_low to_high ⊢
    have forward := Int.mul_le_mul_of_nonneg_right above (Int.le_of_lt (pace_pos moving))
    have onward := Int.mul_le_mul_of_nonneg_right below (Int.le_of_lt (pace_pos moving))
    omega

/-- Nothing of the line lies in the box before the point that a point is led back to. -/
theorem LedBack.none_before {n : Cell} (back : s.LedBack x d n)
    (inside : s.InBox (x - d.scale n) d 0) (positive : 0 < j) :
    ¬ s.InBox (x - d.scale n) d (-j) := by
  intro behind
  exact back.not_inBox (behind.between inside (by omega) (by omega))

/-- Leading the point back overflows nowhere: the way back is exact on each axis, and so are the
product and the difference that lead to the result. -/
structure WrapsExactly (s : Space) (x d : Vec) : Prop extends LedExactly s x d where
  product : ∀ n, s.LedBack x d n → ∀ axis,
    ((d.scale n).get axis).toInt = (d.get axis).toInt * n.toInt
  difference : ∀ n, s.LedBack x d n → ∀ axis,
    ((x - d.scale n).get axis).toInt = (x.get axis).toInt - ((d.scale n).get axis).toInt

theorem WrapsExactly.onLine (exact : s.WrapsExactly x d) {n : Cell} (back : s.LedBack x d n) :
    Vec.OnLine x d (-n.toInt) (x - d.scale n) := by
  intro axis
  rw [exact.difference n back axis, exact.product n back axis, Int.mul_comm, Int.neg_mul,
    Int.sub_eq_add_neg]

/-- One step after its last point in the box, a path is led back to the first point of a stretch
inside that ends where it left. -/
theorem Sound.wrap_of_leaving (sound : s.Sound) (hd : d.fits s.dims = true)
    (moving : d.isZero = false) (led : s.LedExactly p d) (inside : s.outside q = false)
    (out : s.outside p = true) (next : Vec.OnLine q d 1 p) :
    ∃ w, s.wrap p d = .ok w ∧ s.outside w = false ∧
      ∃ m, 0 ≤ m ∧ Vec.OnLine w d m q ∧ ∀ j, 0 ≤ j → j ≤ m → s.InBox w d j := by
  obtain ⟨first, last, chord, _⟩ := sound.travel_on_chord inside moving hd
  have hq := sound.fits_of_inside inside
  have home := chord.home sound inside
  have beyond : ¬ (first ≤ 1 ∧ 1 ≤ last) := by
    rw [← chord 1, ← sound.inside_iff (next.fits hq hd) next, out]
    decide
  obtain rfl : last = 0 := by omega
  obtain ⟨n, wrapped, on⟩ := chord.wrap home.1 hq hd moving next led
  have entered := chord.rebase on
  refine ⟨_, wrapped, ?_, -first, by omega, ?_, ?_⟩
  · exact (sound.inside_iff (on.fits hq hd) on).mpr ((chord first).mpr ⟨Int.le_refl _, home.1⟩)
  · intro axis
    rw [on axis, Int.neg_mul]
    omega
  · intro j low high
    exact (entered j).mpr (by omega)

/-- The coordinates of the box, of a point and of a step are less than 2^30 in magnitude. -/
structure Compact (s : Space) (x d : Vec) : Prop where
  box : ∀ axis extent, axis < s.dims → s.extent? axis = some extent →
    extent.1.toInt.natAbs < 2 ^ 30 ∧ extent.2.toInt.natAbs < 2 ^ 30
  point : ∀ axis, (x.get axis).toInt.natAbs < 2 ^ 30
  step : ∀ axis, (d.get axis).toInt.natAbs < 2 ^ 30

namespace Compact

theorem roomy (compact : s.Compact x d) : s.Roomy d where
  box axis extent bound found := by
    have small := compact.box axis extent bound found
    omega
  step axis := by
    have small := compact.step axis
    omega

/-- Some axis is at most as far away as the box and the point together, and that limits the
steps. -/
theorem steps_lt (compact : s.Compact x d) {n : Cell} (back : s.LedBack x d n) :
    n.toInt.natAbs < 2 ^ 31 := by
  obtain ⟨axis, extent, bound, found, _, steps⟩ := back.attained
  have box := compact.box axis extent bound found
  have point := compact.point axis
  have distance : (gone extent (x.get axis) (d.get axis)).natAbs < 2 ^ 31 := by
    unfold gone
    split <;> omega
  rw [steps]
  exact Nat.lt_of_le_of_lt (Int.natAbs_tdiv_le_natAbs _ _) distance

theorem wrapsExactly (compact : s.Compact x d) : s.WrapsExactly x d := by
  have short {n : Cell} (back : s.LedBack x d n) (axis : Nat) :
      ((d.get axis).toInt * n.toInt).natAbs < 2 ^ 61 := by
    have below := Nat.mul_lt_mul'' (compact.step axis) (compact.steps_lt back)
    rw [Int.natAbs_mul]
    omega
  have product {n : Cell} (back : s.LedBack x d n) (axis : Nat) :
      ((d.scale n).get axis).toInt = (d.get axis).toInt * n.toInt := by
    have small := short back axis
    rw [Vec.get_scale, Int64.toInt_mul]
    exact Int.bmod_eq_of_le (by omega) (by omega)
  have led : s.LedExactly x d := by
    apply compact.roomy.ledExactly
    intro axis
    have small := compact.point axis
    omega
  refine { led with product := fun n back => product back, difference := ?_ }
  intro n back axis
  have small := short back axis
  have point := compact.point axis
  rw [Vec.get_sub, Int64.toInt_sub, product back axis]
  exact Int.bmod_eq_of_le (by omega) (by omega)

end Compact

/-- A point of a space that is not blank is led back along its line, as long as nothing overflows.
Where that comes inside the box, no point of the line before is inside. It does come inside for a
point outside that is one step from a point inside, and then the line is inside from there up to
that one. Nothing overflows when all coordinates are less than 2^30 in magnitude. -/
theorem wrap_enters (sound : s.Sound) (live : ∃ v, s.peek v ≠ Cell.blank)
    (hd : d.fits s.dims = true) (moving : d.isZero = false) :
    (s.WrapsExactly p d → ∃ w, s.wrap p d = .ok w ∧
      (∃ n, Vec.OnLine p d (-n) w) ∧
      (s.outside w = false → ∀ j, 0 < j → ¬ s.InBox w d (-j)) ∧
      ∀ q, s.outside q = false → s.outside p = true → Vec.OnLine q d 1 p →
        s.outside w = false ∧
        ∃ m, 0 ≤ m ∧ Vec.OnLine w d m q ∧ ∀ j, 0 ≤ j → j ≤ m → s.InBox w d j) ∧
    (s.Compact p d → s.WrapsExactly p d) := by
  refine ⟨?_, Compact.wrapsExactly⟩
  intro exact
  have spanned (axis : Nat) (bound : axis < s.dims) : ∃ extent, s.extent? axis = some extent := by
    obtain ⟨v, ink⟩ := live
    exact sound.extent_of_inside (sound.inside_of_live ink) bound
  obtain ⟨n, wrapped, back⟩ := exact.wrap spanned (Vec.exists_moving moving hd)
  refine ⟨_, wrapped, ⟨n.toInt, exact.onLine back⟩, ?_, ?_⟩
  · intro inside j positive
    have fits := sound.fits_of_inside inside
    exact back.none_before ((sound.inside_iff fits (.start _ d)).mp inside) positive
  · intro q inside out next
    obtain ⟨w, arrived, entered⟩ :=
      sound.wrap_of_leaving hd moving exact.toLedExactly inside out next
    obtain rfl : p - d.scale n = w := Except.ok.inj (wrapped.symm.trans arrived)
    exact entered

/-- A path on a slant leaves the plane by a corner and is led back into the middle of it, to the
third point from the end of its line. -/
theorem corners_entered :
    corners.wrap (Vec.ofList [7, -1]) (Vec.ofList [2, -1]) = .ok (Vec.ofList [1, 2]) ∧
    (∀ j, 0 < j → ¬ corners.InBox (Vec.ofList [1, 2]) (Vec.ofList [2, -1]) (-j)) ∧
    ∃ m, 0 ≤ m ∧ Vec.OnLine (Vec.ofList [1, 2]) (Vec.ofList [2, -1]) m (Vec.ofList [5]) ∧
      ∀ j, 0 ≤ j → j ≤ m → corners.InBox (Vec.ofList [1, 2]) (Vec.ofList [2, -1]) j := by
  have wrapped : corners.wrap (Vec.ofList [7, -1]) (Vec.ofList [2, -1]) =
      .ok (Vec.ofList [1, 2]) := by decide +kernel
  have inside : corners.outside (Vec.ofList [1, 2]) = false := by decide +kernel
  have compact : corners.Compact (Vec.ofList [7, -1]) (Vec.ofList [2, -1]) := by
    constructor
    · intro axis extent bound found
      rcases extents_of_plane (0, 6) (0, 4) (by decide +kernel) (by decide +kernel)
        (by decide +kernel) bound found with rfl | rfl <;> decide
    · exact Vec.natAbs_get_ofList_lt (by decide) (by decide)
    · exact Vec.natAbs_get_ofList_lt (by decide) (by decide)
  have next : Vec.OnLine (Vec.ofList [5]) (Vec.ofList [2, -1]) 1 (Vec.ofList [7, -1]) := by
    intro axis
    match axis with
    | 0 => decide
    | 1 => decide
    | axis + 2 => simp
  obtain ⟨enters, exact⟩ := wrap_enters (p := Vec.ofList [7, -1]) sound_corners
    ⟨0, by decide +kernel⟩ (show (Vec.ofList [2, -1]).fits corners.dims = true by decide +kernel)
    (by decide)
  obtain ⟨w, arrived, _, first, stretch⟩ := enters (exact compact)
  obtain rfl : Vec.ofList [1, 2] = w := Except.ok.inj (wrapped.symm.trans arrived)
  have last : corners.outside (Vec.ofList [5]) = false := by decide +kernel
  exact ⟨wrapped, first inside, (stretch _ last (by decide +kernel) next).2⟩

end Space

end Funge
