import Funge.Proofs.Stepping

/-!
# Searches along a path

A search visits the cells of a walk and stops at the first one that can be executed. Whether a cell
can depends on what it holds and on the number of semicolons before it, and in string mode on the
cell that the pointer stands on. A path that leaves the box comes back to the point where its line
enters, each time to the same one. So a search that comes there by a wrap has read the whole line
since it last did, and the second time it ends.

A walk has no more cells than there are words before it begins again, so the bound of a search is
never met.
-/

namespace Funge

namespace Space

/-- A point of a path, led back if it lies outside the box. -/
def enter (s : Space) (d v : Vec) : Except Fault Vec :=
  if s.outside v then s.wrap v d else .ok v

/-- The line enters the box at the point: it is inside, and no point of the line before it is. -/
def EntersAt (s : Space) (p d w : Vec) : Prop :=
  ∃ k, Vec.OnLine p d k w ∧ s.InBox p d k ∧ ∀ j, j < k → ¬ s.InBox p d j

/-- Number of semicolons among the first cells visited. -/
def semicolons (s : Space) (c : Nat → Vec) (j : Nat) : Nat :=
  (List.range j).countP fun i => s.peek (c i) = Cell.semicolon

/-- A search may stop at the cell that it visits after `j` others. -/
def Executable (s : Space) (string startBlank : Bool) (c : Nat → Vec) (j : Nat) : Prop :=
  if string then s.peek (c j) ≠ Cell.blank ∨ startBlank = false
  else s.peek (c j) ≠ Cell.blank ∧ s.peek (c j) ≠ Cell.semicolon ∧ Even (s.semicolons c j)

/-- Points of a blank space are not led anywhere. -/
theorem Sound.wrap_of_blank {s : Space} (sound : s.Sound) (blank : ∀ v, s.peek v = Cell.blank)
    (x d : Vec) : s.wrap x d = .ok x := by
  cases located : ((List.range s.dims).filter fun i => d.get i ≠ 0).mapM fun i =>
      (s.extent? i).map (i, ·) with
  | none => simp only [wrap, located, pure, Except.pure]
  | some extents =>
    have none : extents = [] := by
      rw [List.eq_nil_iff_forall_not_mem]
      intro entry member
      obtain ⟨i, moving, found⟩ := (mem_mapM_some located entry).mp member
      have bound : i < s.dims := List.mem_range.mp (List.mem_filter.mp moving).1
      rw [(sound.extent?_eq_none_iff bound).mpr blank] at found
      cases found
    subst none
    simp only [wrap, located]
    rfl

/-- A point that is led back exactly enters, and where it comes inside is where its line does. -/
theorem Sound.enter_ok {s : Space} (sound : s.Sound) {x d : Vec} (moving : d.isZero = false)
    (fits : d.fits s.dims = true) (led : s.outside x = true → s.LedExactly x d) :
    ∃ v, s.enter d x = .ok v ∧
      (s.outside x = true → s.outside v = false → ¬ s.InBox v d (-1)) := by
  cases out : s.outside x with
  | false => exact ⟨x, by simp [enter, out], fun h => by cases h⟩
  | true =>
    simp only [enter, out, if_true]
    by_cases blank : ∀ v, s.peek v = Cell.blank
    · refine ⟨x, sound.wrap_of_blank blank x d, ?_⟩
      intro _ inside
      rw [out] at inside
      cases inside
    · have spanned (axis : Nat) (bound : axis < s.dims) :
          ∃ extent, s.extent? axis = some extent := by
        apply Option.ne_none_iff_exists'.mp
        rwa [ne_eq, sound.extent?_eq_none_iff bound]
      obtain ⟨n, wrapped, back⟩ := (led out).wrap spanned (Vec.exists_moving moving fits)
      exact ⟨_, wrapped, fun _ _ => back.not_inBox⟩

theorem Sound.inside_of_live {s : Space} (sound : s.Sound) {v : Vec}
    (live : s.peek v ≠ Cell.blank) : s.outside v = false := by
  have fits := sound.fitting v ((sound.mem_iff v).mpr live)
  rw [sound.inside_iff fits (.start v 0)]
  intro axis bound
  have spans := sound.spans bound
  cases found : s.extent? axis with
  | none =>
    rw [found] at spans
    exact False.elim (spans (v.get axis) ⟨v, live, rfl⟩)
  | some extent =>
    rw [found] at spans
    obtain ⟨low, high⟩ := spans.2.2 (v.get axis) ⟨v, live, rfl⟩
    rw [Int64.le_iff_toInt_le] at low high
    exact ⟨extent, rfl, by omega, by omega⟩

theorem semicolons_succ (s : Space) (c : Nat → Vec) (j : Nat) : s.semicolons c (j + 1) =
    s.semicolons c j + if s.peek (c j) = Cell.semicolon then 1 else 0 := by
  simp [semicolons, List.range_succ, List.countP_append, List.countP_cons]

end Space

namespace Pointer

/-- The point from which a search comes to the cell that it visits after `j` others. -/
def candidate (d start : Vec) (c : Nat → Vec) : Nat → Vec
  | 0 => start
  | j + 1 => c j + d

/-- The cells that a search visits from a starting point on, if it does not stop. It comes to the
point where the line enters the box whenever it wraps, at `arrival` for the first time and at
`limit` for the second. -/
structure Trail (p : Pointer) (s : Space) (start : Vec) (c : Nat → Vec) (w : Vec)
    (arrival limit : Nat) : Prop where
  starts : s.enter p.delta start = .ok (c 0)
  steps : ∀ j, { p with position := c j }.adjacent s = .ok (c (j + 1))
  inside : ∀ j, s.outside (c j) = false
  entry : s.EntersAt (c 0) p.delta w
  wrapped : ∀ j, s.outside (candidate p.delta start c j) = true → c j = w
  first : s.outside (candidate p.delta start c arrival) = true
  second : s.outside (candidate p.delta start c limit) = true
  between : ∀ j, j < limit → s.outside (candidate p.delta start c j) = true → j = arrival
  ordered : arrival < limit

/-- What a search remembers of its first wrap. -/
def remembered (w : Vec) (arrival j : Nat) : Option Vec := if arrival < j then some w else none

/-- What a search remembers of the semicolons. -/
def commented (s : Space) (string : Bool) (c : Nat → Vec) (j : Nat) : Bool :=
  !string && s.semicolons c j % 2 = 1

theorem commented_succ (s : Space) (string : Bool) (c : Nat → Vec) (j : Nat) :
    commented s string c (j + 1) =
      if (s.peek (c j) = Cell.semicolon && !string) = true then !commented s string c j
      else commented s string c j := by
  simp only [commented, Space.semicolons_succ]
  cases string with
  | true => simp
  | false =>
    by_cases mark : s.peek (c j) = Cell.semicolon
    · rcases Nat.mod_two_eq_zero_or_one (s.semicolons c j) with even | odd
      · simp [mark, even, Nat.add_mod]
      · simp [mark, odd, Nat.add_mod]
    · simp [mark]

/-- The tests that a search makes at a cell let it stop at those that can be executed. -/
theorem executable_iff (s : Space) (string startBlank : Bool) (c : Nat → Vec) (j : Nat) :
    s.Executable string startBlank c j ↔
      (s.peek (c j) = Cell.semicolon && !string) = false ∧
      (commented s string c j ||
        (s.peek (c j) = Cell.blank && (!string || startBlank))) = false := by
  cases string with
  | true => by_cases blank : s.peek (c j) = Cell.blank <;> simp [Space.Executable, commented, blank]
  | false =>
    simp only [Space.Executable, commented, Nat.even_iff, Bool.false_eq_true, if_false,
      Bool.not_false, Bool.and_true, Bool.true_and, Bool.true_or, Bool.or_eq_false_iff,
      decide_eq_false_iff_not]
    constructor
    · rintro ⟨ink, plain, even⟩
      exact ⟨plain, by omega, ink⟩
    · rintro ⟨plain, odd, ink⟩
      exact ⟨ink, plain, by omega⟩

/-- The search ends at the first cell of its trail that can be executed, or at the point of entry
if there is none up to the second time that it comes there by a wrap. -/
def Stops (s : Space) (string startBlank : Bool) (c : Nat → Vec) (w : Vec) (limit : Nat)
    (v : Vec) : Prop :=
  (∃ j, j < limit ∧ s.Executable string startBlank c j ∧
    (∀ i, i < j → ¬ s.Executable string startBlank c i) ∧ v = c j) ∨
  (∀ j, j < limit → ¬ s.Executable string startBlank c j) ∧ v = w

namespace Trail

variable {p : Pointer} {s : Space} {start w : Vec} {c : Nat → Vec} {arrival limit : Nat}

theorem enters (trail : p.Trail s start c w arrival limit) (j : Nat) :
    s.enter p.delta (candidate p.delta start c j) = .ok (c j) := by
  cases j with
  | zero => exact trail.starts
  | succ j => exact trail.steps j

theorem land_before (trail : p.Trail s start c w arrival limit) {j : Nat} (before : j < limit) :
    land s p.delta (candidate p.delta start c j) (remembered w arrival j) =
      .ok (.visit (c j) (remembered w arrival (j + 1))) := by
  have enters := trail.enters j
  have inside := trail.inside j
  cases out : s.outside (candidate p.delta start c j) with
  | true =>
    obtain rfl := trail.between j before out
    obtain rfl := trail.wrapped j out
    simp only [Space.enter, out, if_true] at enters
    simp [land, out, enters, remembered, inside, bind, Except.bind, pure, Except.pure]
  | false =>
    have other : j ≠ arrival := by
      rintro rfl
      rw [trail.first] at out
      cases out
    have same : arrival < j + 1 ↔ arrival < j := by omega
    simp only [Space.enter, out, Bool.false_eq_true, if_false, Except.ok.injEq] at enters
    simp [land, remembered, same, enters, inside, pure, Except.pure]

theorem land_limit (trail : p.Trail s start c w arrival limit) :
    land s p.delta (candidate p.delta start c limit) (remembered w arrival limit) =
      .ok (.final w) := by
  have enters := trail.enters limit
  have arrived := trail.wrapped limit trail.second
  simp only [Space.enter, trail.second, if_true, arrived] at enters
  simp [land, trail.second, enters, remembered, trail.ordered, bind, Except.bind, pure, Except.pure]

/-- A search that has not stopped yet at its first `j` cells ends where it should, if its bound
allows for the rest of the trail. -/
theorem scan (trail : p.Trail s start c w arrival limit) (string startBlank : Bool) (bound : Nat)
    {j : Nat} (before : j ≤ limit) (room : limit - j < bound)
    (none : ∀ i, i < j → ¬ s.Executable string startBlank c i) :
    ∃ v, Pointer.scan s p.delta string startBlank bound (candidate p.delta start c j)
        (commented s string c j) (remembered w arrival j) = .ok v ∧
      Stops s string startBlank c w limit v := by
  -- Along the trail the search carries the parity of the semicolons and the first wrap.
  induction bound generalizing j with
  | zero => omega
  | succ bound ih =>
    by_cases final : j = limit
    · subst final
      refine ⟨w, ?_, .inr ⟨none, rfl⟩⟩
      rw [Pointer.scan, trail.land_limit]
    · have earlier : j < limit := by omega
      have further (skipped : ¬ s.Executable string startBlank c j) :=
        ih (j := j + 1) (by omega) (by omega) fun i hi => by
          rcases Nat.lt_succ_iff_lt_or_eq.mp hi with before | rfl
          · exact none i before
          · exact skipped
      rw [commented_succ] at further
      rw [Pointer.scan, trail.land_before earlier]
      dsimp only
      split
      · rename_i mark
        rw [if_pos mark] at further
        apply further
        rw [executable_iff]
        simp [mark]
      · rename_i plain
        rw [if_neg plain] at further
        split
        · rename_i passed
          apply further
          rw [executable_iff]
          simp [passed]
        · rename_i stopped
          refine ⟨c j, rfl, .inl ⟨j, earlier, ?_, none, rfl⟩⟩
          rw [executable_iff]
          exact ⟨by simpa using plain, by simpa using stopped⟩

end Trail

/-- A walk that goes round on the chord of its line. It reaches the last point in `last` steps and
each time after in as many as the chord has points. -/
structure Rounds (p : Pointer) (s : Space) (c : Nat → Vec) (last lap : Nat) : Prop where
  steps : ∀ j, { p with position := c j }.adjacent s = .ok (c (j + 1))
  inside : ∀ j, s.outside (c j) = false
  entry : s.EntersAt (c 0) p.delta (c (last + 1))
  leaves : ∀ j, j ≤ last + lap →
    (s.outside (c j + p.delta) = true ↔ j = last ∨ j = last + lap)
  arrives : ∀ j, s.outside (c j + p.delta) = true → c (j + 1) = c (last + 1)
  closed : ¬ s.InBox (c 0) p.delta (-1) → c 0 = c (last + 1)
  ordered : last < lap
  bounded : lap ≤ 2 ^ 64

section Course

variable {p : Pointer} {s : Space} {start : Vec}

/-- Numbers of the cells of a walk on a chord from `lo` to `last`, each determined up to whole
laps. -/
theorem walk_numbers {k : Nat → Int} {lo : Int} {last lap : Nat} (home : lo ≤ 0)
    (length : (last : Int) - lo + 1 = lap) (numbered : ∀ j, lo ≤ k j ∧ k j ≤ last)
    (laps : ∀ j : Nat, (lap : Int) ∣ j - k j) :
    k 0 = 0 ∧ (∀ j, k j = last → k (j + 1) = lo) ∧
    ∀ j, j ≤ last + lap → (k j = last ↔ j = last ∨ j = last + lap) := by
  have number (j : Nat) (a : Int) (on_chord : lo ≤ a ∧ a ≤ last) (whole : (lap : Int) ∣ j - a) :
      k j = a := by
    apply Space.eq_of_laps (numbered j) on_chord
    rw [length, show k j - a = (j - a) - (j - k j) by omega]
    exact Int.dvd_sub whole (laps j)
  refine ⟨number 0 0 (by omega) (by simp), ?_, ?_⟩
  · intro j final
    apply number _ _ (by omega)
    have whole := laps j
    rw [final] at whole
    rw [show ((j + 1 : Nat) : Int) - lo = (j - last) + lap by omega]
    exact Int.dvd_add whole (Int.dvd_refl _)
  · intro j before
    by_cases early : j ≤ last
    · rw [number j j (by omega) (by simp)]
      omega
    · rw [number j (j - lap) (by omega) (by simp)]
      omega

theorem exists_rounds (sound : s.Sound) {origin : Vec} (inside : s.outside origin = false)
    (moving : p.delta.isZero = false) (fits : p.delta.fits s.dims = true)
    (exact : ∀ n, { p with position := origin }.WalksExactly s n) :
    ∃ c last lap, c 0 = origin ∧ p.Rounds s c last lap := by
  obtain ⟨lo, hi, chord, _⟩ := sound.travel_on_chord inside moving fits
  have ho := sound.fits_of_inside inside
  have home := chord.home sound inside
  have short := chord.length_lt (by omega) (Vec.exists_moving moving fits)
  obtain ⟨last, rfl⟩ := Int.eq_ofNat_of_zero_le home.2
  obtain ⟨lap, length⟩ := Int.eq_ofNat_of_zero_le (show 0 ≤ (last : Int) - lo + 1 by omega)
  choose c k walked numbered laps on using fun n =>
    walk_on_chord (p := { p with position := origin }) sound inside moving fits chord n (exact n)
  obtain ⟨zero, back, final⟩ := walk_numbers home.1 length numbered (length ▸ laps)
  obtain rfl : origin = c 0 := Except.ok.inj (walked 0)
  have leaves (j : Nat) : s.outside (c j + p.delta) = true ↔ k j = last := by
    rw [(adjacent_of_chord (p := { p with position := c j }) sound chord ho fits moving
      (numbered j) (on j) (exact (j + 1) j (by omega) (c j) (walked j))).1, decide_eq_true_eq]
  have first : Vec.OnLine (c 0) p.delta lo (c (last + 1)) := by
    have there := on (last + 1)
    rwa [back last ((final last (by omega)).mpr (.inl rfl))] at there
  refine ⟨c, last, lap, rfl, ?_⟩
  constructor
  · intro j
    have next := walked (j + 1)
    rwa [walk, walked j] at next
  · intro j
    exact (sound.inside_iff ((on j).fits ho fits) (on j)).mpr ((chord (k j)).mpr (numbered j))
  · refine ⟨lo, first, (chord lo).mpr (by omega), ?_⟩
    intro j before within
    have inner := (chord j).mp within
    omega
  · intro j before
    rw [leaves, final j before]
  · intro j out
    have here := on (j + 1)
    rw [back j ((leaves j).mp out)] at here
    exact here.unique first
  · intro behind
    rw [chord (-1)] at behind
    have here := on 0
    rw [zero, show (0 : Int) = lo by omega] at here
    exact here.unique first
  · omega
  · omega

/-- The trail of a search that has been led to its first cell, or that finds it inside the box. -/
theorem Rounds.trail {c : Nat → Vec} {last lap : Nat} (rounds : p.Rounds s c last lap)
    (starts : s.enter p.delta start = .ok (c 0))
    (led : s.outside start = true → ¬ s.InBox (c 0) p.delta (-1)) :
    ∃ w arrival limit, p.Trail s start c w arrival limit ∧ limit ≤ 2 ^ 65 := by
  have bounded := rounds.bounded
  have ordered := rounds.ordered
  have arrives : ∀ j, s.outside (candidate p.delta start c j) = true → c j = c (last + 1) := by
    intro j out
    cases j with
    | zero => exact rounds.closed (led out)
    | succ j => exact rounds.arrives j out
  cases out : s.outside start with
  | true =>
    refine ⟨c (last + 1), 0, last + 1, ?_, by omega⟩
    refine ⟨starts, rounds.steps, rounds.inside, rounds.entry, arrives, out, ?_, ?_, by omega⟩
    · exact (rounds.leaves last (by omega)).mpr (.inl rfl)
    · intro j before leaving
      cases j with
      | zero => rfl
      | succ j =>
        have ends := (rounds.leaves j (by omega)).mp leaving
        omega
  | false =>
    refine ⟨c (last + 1), last + 1, last + lap + 1, ?_, by omega⟩
    refine ⟨starts, rounds.steps, rounds.inside, rounds.entry, arrives, ?_, ?_, ?_, by omega⟩
    · exact (rounds.leaves last (by omega)).mpr (.inl rfl)
    · exact (rounds.leaves (last + lap) (by omega)).mpr (.inr rfl)
    · intro j before leaving
      cases j with
      | zero =>
        rw [candidate, out] at leaving
        cases leaving
      | succ j =>
        have ends := (rounds.leaves j (by omega)).mp leaving
        omega

/-- No operation of a search from the starting point overflows: neither leading that point back,
nor a single step from a cell that the search can come to. -/
structure SearchesExactly (p : Pointer) (s : Space) (start : Vec) : Prop where
  led : s.outside start = true → s.LedExactly start p.delta
  walks : ∀ origin, s.enter p.delta start = .ok origin → s.outside origin = false →
    ∀ n, { p with position := origin }.WalksExactly s n

/-- A search from the starting point should end at `v`: where that point is led to if this is
outside the box, and else where its trail stops. -/
def Finds (p : Pointer) (s : Space) (startBlank : Bool) (start v : Vec) : Prop :=
  ∃ origin, s.enter p.delta start = .ok origin ∧
    (s.outside origin = true → v = origin) ∧
    (s.outside origin = false → ∃ c w arrival limit, p.Trail s start c w arrival limit ∧
      Stops s p.flags.string startBlank c w limit v)

theorem exists_trail (sound : s.Sound) (moving : p.delta.isZero = false)
    (fits : p.delta.fits s.dims = true) (exact : p.SearchesExactly s start) {origin : Vec}
    (starts : s.enter p.delta start = .ok origin) (inside : s.outside origin = false) :
    ∃ c w arrival limit, c 0 = origin ∧ p.Trail s start c w arrival limit ∧ limit ≤ 2 ^ 65 := by
  obtain ⟨v, entered, led⟩ := sound.enter_ok moving fits exact.led
  obtain rfl : v = origin := Except.ok.inj (entered.symm.trans starts)
  obtain ⟨c, last, lap, rfl, rounds⟩ :=
    exists_rounds sound inside moving fits (exact.walks v starts inside)
  obtain ⟨w, arrival, limit, trail, bounded⟩ := rounds.trail starts fun out => led out inside
  exact ⟨c, w, arrival, limit, rfl, trail, bounded⟩

/-- A search whose starting point is not led into the box ends at once. -/
theorem scan_of_outside {d origin : Vec} (starts : s.enter d start = .ok origin)
    (out : s.outside origin = true) (string startBlank : Bool) {bound : Nat} (room : 0 < bound) :
    scan s d string startBlank bound start false none = .ok origin := by
  obtain ⟨n, rfl⟩ := Nat.exists_eq_succ_of_ne_zero (Nat.ne_of_gt room)
  have landed : land s d start none = .ok (.final origin) := by
    unfold Space.enter at starts
    split at starts
    · rename_i beyond
      simp [land, beyond, starts, out, bind, Except.bind, pure, Except.pure]
    · rename_i inside
      cases starts
      exact absurd out inside
  rw [scan, landed]

/-- A search ends, and where it should. -/
theorem search_finds (sound : s.Sound) (moving : p.delta.isZero = false)
    (fits : p.delta.fits s.dims = true) (exact : p.SearchesExactly s start) (startBlank : Bool) :
    ∃ v, p.search s start startBlank = .ok v ∧ p.Finds s startBlank start v := by
  obtain ⟨origin, starts, _⟩ := sound.enter_ok moving fits exact.led
  cases out : s.outside origin with
  | true =>
    refine ⟨origin, ?_, origin, starts, fun _ => rfl, ?_⟩
    · have ended := scan_of_outside starts out p.flags.string startBlank
        (show 0 < scanBound by decide)
      exact congrArg (Except.mapError MachineError.fault) ended
    · intro inside
      rw [out] at inside
      cases inside
  | false =>
    obtain ⟨c, w, arrival, limit, rfl, trail, bounded⟩ :=
      exists_trail sound moving fits exact starts out
    have room : limit - 0 < scanBound := by
      have large : 2 ^ 65 < scanBound := by decide
      omega
    obtain ⟨v, scanned, stops⟩ := trail.scan p.flags.string startBlank scanBound
      (Nat.zero_le _) room fun i before => by omega
    refine ⟨v, ?_, c 0, starts, ?_, fun _ => ⟨c, w, arrival, limit, trail, stops⟩⟩
    · have fresh : commented s p.flags.string c 0 = false := by simp [commented, Space.semicolons]
      rw [fresh] at scanned
      exact congrArg (Except.mapError MachineError.fault) scanned
    · intro outside
      rw [out] at outside
      cases outside

/-- From a cell that is not blank, it does not matter to a search whether it is told so: in string
mode it stops there, and else it does not ask. -/
theorem Stops.of_ink {string : Bool} {c : Nat → Vec} {w : Vec} {limit : Nat} {v : Vec}
    (ink : s.peek (c 0) ≠ Cell.blank) (positive : 0 < limit) (startBlank : Bool)
    (stops : Stops s string true c w limit v) : Stops s string startBlank c w limit v := by
  cases string with
  | false => exact stops
  | true =>
    have at_once (told : Bool) : s.Executable true told c 0 := by
      simp [Space.Executable, ink]
    rcases stops with ⟨j, _, _, earliest, same⟩ | ⟨none, _⟩
    · cases j with
      | zero => exact .inl ⟨0, positive, at_once startBlank, by simp, same⟩
      | succ j => exact absurd (at_once true) (earliest 0 (by omega))
    · exact absurd (at_once true) (none 0 positive)

theorem Finds.of_ink {v : Vec} (sound : s.Sound) (ink : s.peek p.position ≠ Cell.blank)
    (startBlank : Bool) (finds : p.Finds s true p.position v) :
    p.Finds s startBlank p.position v := by
  obtain ⟨origin, starts, beyond, stops⟩ := finds
  have here : s.enter p.delta p.position = .ok p.position := by
    simp [Space.enter, sound.inside_of_live ink]
  refine ⟨origin, starts, beyond, ?_⟩
  intro inside
  obtain ⟨c, w, arrival, limit, trail, stopped⟩ := stops inside
  have same : c 0 = p.position := Except.ok.inj (trail.starts.symm.trans here)
  have ordered := trail.ordered
  exact ⟨c, w, arrival, limit, trail, stopped.of_ink (same ▸ ink) (by omega) startBlank⟩

/-- From a cell that can be executed, a search from there goes nowhere. -/
theorem finds_self (sound : s.Sound) (moving : p.delta.isZero = false)
    (fits : p.delta.fits s.dims = true) (exact : p.SearchesExactly s p.position)
    (ink : s.peek p.position ≠ Cell.blank) (plain : s.peek p.position ≠ Cell.semicolon)
    (startBlank : Bool) : p.Finds s startBlank p.position p.position := by
  have inside := sound.inside_of_live ink
  have here : s.enter p.delta p.position = .ok p.position := by simp [Space.enter, inside]
  refine ⟨p.position, here, fun _ => rfl, fun _ => ?_⟩
  obtain ⟨c, w, arrival, limit, same, trail, _⟩ := exists_trail sound moving fits exact here inside
  have ordered := trail.ordered
  refine ⟨c, w, arrival, limit, trail, .inl ⟨0, by omega, ?_, by simp, same.symm⟩⟩
  rw [← same] at ink plain
  cases string : p.flags.string with
  | true => exact .inl ink
  | false => exact ⟨ink, plain, by simp [Space.semicolons]⟩

theorem searchesExactly_of_roomy (roomy : s.Roomy p.delta) (sound : s.Sound)
    (moving : p.delta.isZero = false) (fits : p.delta.fits s.dims = true)
    (near : ∀ axis, (start.get axis).toInt.natAbs < 2 ^ 62) : p.SearchesExactly s start where
  led _ := roomy.ledExactly near
  walks origin _ inside n :=
    walksExactly_of_roomy (p := { p with position := origin }) roomy sound inside moving fits n

/-- As long as nothing overflows, every pointer that moves has a next position and a place to settle
at, and both are the first cells to execute on their trails: the one from one step ahead, the other
from where the pointer stands. Nothing overflows when the box, the step and the position are less
than 2^61 in magnitude. -/
theorem motion_finds (sound : s.Sound) (hp : p.position.fits s.dims = true)
    (hd : p.delta.fits s.dims = true) (moving : p.delta.isZero = false) :
    (p.SearchesExactly s (p.position + p.delta) →
      ∃ v, p.nextPosition s = .ok v ∧
        p.Finds s (s.peek p.position = Cell.blank) (p.position + p.delta) v) ∧
    (p.SearchesExactly s p.position →
      ∃ v, p.settle s = .ok { p with position := v } ∧
        p.Finds s (s.peek p.position = Cell.blank) p.position v) ∧
    (s.Roomy p.delta → (∀ axis, (p.position.get axis).toInt.natAbs < 2 ^ 61) →
      p.SearchesExactly s (p.position + p.delta) ∧ p.SearchesExactly s p.position) := by
  have read := Space.get_of_fits hp
  refine ⟨?_, ?_, ?_⟩
  · intro exact
    obtain ⟨v, found, finds⟩ := search_finds sound moving hd exact (s.peek p.position = Cell.blank)
    refine ⟨v, ?_, finds⟩
    simp only [nextPosition, moving, read, Except.mapError, bind, Except.bind, Bool.false_eq_true,
      if_false, found]
  · intro exact
    by_cases skipped : s.peek p.position = Cell.blank ∨ s.peek p.position = Cell.semicolon
    · obtain ⟨v, found, finds⟩ := search_finds sound moving hd exact true
      refine ⟨v, ?_, ?_⟩
      · simp only [settle, moving, read, Except.mapError, bind, Except.bind, Bool.false_eq_true,
          if_false, if_pos skipped, found, pure, Except.pure]
      · by_cases blank : s.peek p.position = Cell.blank
        · simpa [blank] using finds
        · exact finds.of_ink sound blank _
    · obtain ⟨ink, plain⟩ := not_or.mp skipped
      refine ⟨p.position, ?_, finds_self sound moving hd exact ink plain _⟩
      simp only [settle, moving, read, Except.mapError, bind, Except.bind, Bool.false_eq_true,
        if_false, if_neg skipped, pure, Except.pure]
  · intro roomy near
    constructor
    · apply searchesExactly_of_roomy roomy sound moving hd
      intro axis
      have close := near axis
      have small := roomy.step axis
      rw [Vec.get_add, Int64.toInt_add, Int.bmod_eq_of_le (by omega) (by omega)]
      omega
    · apply searchesExactly_of_roomy roomy sound moving hd
      intro axis
      have close := near axis
      omega

end Course

end Pointer

namespace Space

/-- A line with a comment from its last cell over the wrap to its second. -/
def ring : Space := ((empty 2).load 0 [98, 59, 120, 59, 97, 59] false).2

theorem sound_ring : ring.Sound :=
  (holds_lastWritten 2 [.load 0 [98, 59, 120, 59, 97, 59] false]).1.sound

end Space

namespace Pointer

/-- A pointer at the end of a line, heading on. -/
def ringed : Pointer :=
  { start 0 2 with position := Vec.ofList [5], delta := Vec.ofList [1, 0] }

/-- The next position is past the wrap, where the line begins. The place to settle at is where the
comment has ended. -/
theorem ringed_finds :
    ringed.nextPosition .ring = .ok 0 ∧
    ringed.Finds .ring false (ringed.position + ringed.delta) 0 ∧
    ringed.settle .ring = .ok { ringed with position := Vec.ofList [2] } ∧
    ringed.Finds .ring false ringed.position (Vec.ofList [2]) := by
  have roomy : Space.ring.Roomy ringed.delta :=
    .of_plane (0, 5) (0, 0) (by decide +kernel) (by decide +kernel) (by decide +kernel) (by decide)
  have near (axis : Nat) : (ringed.position.get axis).toInt.natAbs < 2 ^ 61 := by
    match axis with
    | 0 => decide
    | axis + 1 => simp [ringed]
  have ink : decide (Space.ring.peek ringed.position = Cell.blank) = false := by decide +kernel
  have first : ringed.nextPosition .ring = .ok 0 := by decide +kernel
  have third : (ringed.settle .ring).map position = .ok (Vec.ofList [2]) := by decide +kernel
  obtain ⟨next, settles, exact⟩ := motion_finds (p := ringed) Space.sound_ring (by decide +kernel)
    (by decide +kernel) (by decide)
  rw [ink] at next settles
  obtain ⟨ahead, here⟩ := exact roomy near
  obtain ⟨v, moved, finds⟩ := next ahead
  obtain ⟨u, settled, finds'⟩ := settles here
  rw [first, Except.ok.injEq] at moved
  rw [settled, Except.map, Except.ok.injEq] at third
  subst moved third
  exact ⟨first, finds, settled, finds'⟩

end Pointer

end Funge
