import Funge.Proofs.Blocks
import Funge.Proofs.Retrace

/-!
# Jumping over comments

A semicolon that is executed sends the pointer on in single steps to the next semicolon or back to
where it was. Nothing counts these steps. They come to an end because single steps inside the box
go around a loop through the point where they began, and the loop has no more points than there
are words.
-/

namespace Funge

namespace Pointer

/-- After a number of single steps the pointer is on a semicolon or back where it was, and it has
not been so before. -/
structure ComesToRest (p : Pointer) (s : Space) (n : Nat) (v : Vec) : Prop where
  moved : 0 < n
  walked : p.walk s n = .ok v
  rests : v = p.position ∨ s.peek v = Cell.semicolon
  passes : ∀ j, 0 < j → j < n →
    ∃ u, p.walk s j = .ok u ∧ u ≠ p.position ∧ s.peek u ≠ Cell.semicolon

variable {s : Space} {p : Pointer} {n : Nat} {u v : Vec}

theorem walk_succ (walked : p.walk s n = .ok v) :
    p.walk s (n + 1) = { p with position := v }.adjacent s := by
  rw [walk, walked]
  rfl

theorem walk_before (walked : p.walk s n = .ok v) {j : Nat} (before : j ≤ n) :
    ∃ u, p.walk s j = .ok u := by
  induction n generalizing v with
  | zero =>
    obtain rfl : j = 0 := Nat.le_zero.mp before
    exact ⟨v, walked⟩
  | succ n ih =>
    by_cases last : j = n + 1
    · exact ⟨v, last ▸ walked⟩
    · rw [walk] at walked
      cases earlier : p.walk s n with
      | error fault =>
        rw [earlier] at walked
        cases walked
      | ok u => exact ih earlier (by omega)

theorem walk_fits (hp : p.position.fits s.dims = true) (hd : p.delta.fits s.dims = true)
    (walked : p.walk s n = .ok v) : v.fits s.dims = true := by
  induction n generalizing v with
  | zero =>
    cases walked
    exact hp
  | succ n ih =>
    obtain ⟨u, earlier⟩ := walk_before walked (Nat.le_succ n)
    rw [walk_succ earlier] at walked
    exact adjacent_fits (p := { p with position := u }) (ih earlier) hd walked

/-- A walk that comes back comes to rest, at the latest when it is back. -/
theorem exists_rest (moved : 0 < n) (back : p.walk s n = .ok p.position) :
    ∃ k v, k ≤ n ∧ p.ComesToRest s k v := by
  classical
  have ends : ∃ k, 0 < k ∧ ∃ v, p.walk s k = .ok v ∧
      (v = p.position ∨ s.peek v = Cell.semicolon) := ⟨n, moved, _, back, .inl rfl⟩
  have early : Nat.find ends ≤ n := Nat.find_min' ends ⟨moved, _, back, .inl rfl⟩
  obtain ⟨positive, v, walked, rests⟩ := Nat.find_spec ends
  refine ⟨Nat.find ends, v, early, positive, walked, rests, ?_⟩
  intro j started before
  obtain ⟨u, passed⟩ := walk_before walked (Nat.le_of_lt before)
  have not_yet := Nat.find_min ends before
  refine ⟨u, passed, ?_, ?_⟩
  · intro home
    exact not_yet ⟨started, u, passed, .inl home⟩
  · intro semicolon
    exact not_yet ⟨started, u, passed, .inr semicolon⟩

/-- From any point of the walk, the search follows it to where it comes to rest. -/
theorem skipComment_of_rest (rest : p.ComesToRest s n v) (hp : p.position.fits s.dims = true)
    (hd : p.delta.fits s.dims = true) {j : Nat} (walked : p.walk s j = .ok u) (before : j < n)
    {bound : Nat} (enough : n ≤ j + bound) :
    skipComment s p.position bound { p with position := u } =
      (.ok (), { p with position := v }) := by
  induction bound generalizing j u with
  | zero => omega
  | succ bound ih =>
    have next := walk_succ walked
    by_cases final : j + 1 = n
    · rw [final, rest.walked] at next
      have read := Space.get_of_fits (walk_fits hp hd rest.walked)
      rw [skipComment, ← next]
      by_cases home : v = p.position
      · simp only [if_pos home]
      · simp only [if_neg home, read, if_pos (rest.rests.resolve_left home)]
    · obtain ⟨w, passed, away, plain⟩ := rest.passes (j + 1) (by omega) (by omega)
      rw [passed] at next
      have read := Space.get_of_fits (walk_fits hp hd passed)
      rw [skipComment, ← next]
      simp only [if_neg away, read, if_neg plain]
      exact ih passed (by omega) (by omega)

theorem walk_still (inside : s.outside p.position = false) (still : p.delta.isZero = true) (n : Nat) :
    p.walk s n = .ok p.position := by
  have here : p.position + p.delta = p.position := by
    have none : p.delta.entries = [] := List.isEmpty_iff.mp still
    apply Vec.ext_get
    intro axis
    have zero : p.delta.get axis = 0 := by simp [Vec.get, none]
    rw [Vec.get_add, zero, Int64.add_zero]
  induction n with
  | zero => rfl
  | succ n ih => simp [walk_succ ih, adjacent, here, inside]

/-- Single steps go around the points of a line inside the box if none of them overflows. -/
theorem walk_around (sound : s.Sound) (inside : s.outside p.position = false)
    (moving : p.delta.isZero = false) (fits : p.delta.fits s.dims = true)
    (exact : ∀ v ∈ s.loop p.position p.delta, s.StepsExactly p.delta v) :
    ∃ first last, s.Chord p.position p.delta first last ∧ ∀ n : Nat, ∃ v k, p.walk s n = .ok v ∧
      (first ≤ k ∧ k ≤ last) ∧ last - first + 1 ∣ n - k ∧ Vec.OnLine p.position p.delta k v := by
  obtain ⟨first, last, chord, _⟩ := sound.travel_on_chord inside moving fits
  refine ⟨first, last, chord, fun n => walk_on_chord sound inside moving fits chord n ?_⟩
  exact walksExactly_of_steps sound inside moving fits (fun v k on within => exact v ⟨within, k, on⟩) n

theorem walk_mem_loop (sound : s.Sound) (inside : s.outside p.position = false)
    (fits : p.delta.fits s.dims = true)
    (exact : ∀ v ∈ s.loop p.position p.delta, s.StepsExactly p.delta v)
    (walked : p.walk s n = .ok v) : v ∈ s.loop p.position p.delta := by
  cases still : p.delta.isZero with
  | true =>
    rw [walk_still inside still] at walked
    cases walked
    exact ⟨inside, 0, .start _ _⟩
  | false =>
    obtain ⟨first, last, chord, around⟩ := walk_around sound inside still fits exact
    obtain ⟨u, k, walked', numbered, _, on⟩ := around n
    obtain rfl : v = u := Except.ok.inj (walked.symm.trans walked')
    exact (chord.mem_loop sound (sound.fits_of_inside inside) fits).mpr ⟨k, numbered, on⟩

/-- Single steps come back to where they began, in no more of them than there are words. -/
theorem walk_returns (sound : s.Sound) (inside : s.outside p.position = false)
    (fits : p.delta.fits s.dims = true)
    (exact : ∀ v ∈ s.loop p.position p.delta, s.StepsExactly p.delta v) :
    ∃ n, 0 < n ∧ n ≤ 2 ^ 64 ∧ p.walk s n = .ok p.position := by
  cases still : p.delta.isZero with
  | true => exact ⟨1, by decide, by decide, walk_still inside still 1⟩
  | false =>
    obtain ⟨first, last, chord, around⟩ := walk_around sound inside still fits exact
    have home := chord.home sound inside
    have short := chord.length_lt (by omega) (Vec.exists_moving still fits)
    obtain ⟨lap, length⟩ := Int.eq_ofNat_of_zero_le (show 0 ≤ last - first + 1 by omega)
    obtain ⟨v, k, walked, numbered, laps, on⟩ := around lap
    -- A whole lap leads to the number of the start.
    have start : k = 0 := by
      apply Space.eq_of_laps numbered home
      have difference : k - 0 = lap - (lap - k) := by omega
      rw [difference]
      exact Int.dvd_sub (length ▸ Int.dvd_refl _) laps
    subst start
    rw [on.unique (.start _ _)] at walked
    exact ⟨lap, by omega, by omega, walked⟩

end Pointer

namespace Action

variable {f : Focus}

theorem run_jumpOver {q : Pointer} (skipped : f.pointer.skipComment f.world.space
    f.pointer.position Pointer.pathBound = (.ok (), q)) :
    jumpOver f = (.ok (), { f with pointer := q }) := by
  rw [jumpOver, run_bind_ok (run_pointer f), run_bind_ok (run_world f), skipped]
  rfl

end Action

namespace Focus

variable {f : Focus}

theorem execute_semicolon (table : f.world.table = .standard) :
    f.execute Cell.semicolon = Action.jumpOver f := by
  have known : f.world.instruction? f.pointer Cell.semicolon = .ok (some .jumpOver) := by
    rw [World.instruction?, table]
    rfl
  obtain ⟨_, performed⟩ := execute_known known
  rw [performed, Instruction.perform]

/-- From a point inside the box, a semicolon that is executed succeeds and leaves the pointer, with
nothing else changed, at the first point that single steps lead to which holds a semicolon or is
the one they began at. So it stays where it is if its line has no other semicolon inside the box.
This holds as long as no single step along the line overflows, and none does when the box and the
step are less than 2^61 in magnitude. -/
theorem jump_over_rests (table : f.world.table = .standard) (sound : f.world.space.Sound)
    (inside : f.world.space.outside f.pointer.position = false)
    (fits : f.pointer.delta.fits f.world.space.dims = true) :
    ((∀ v ∈ f.world.space.loop f.pointer.position f.pointer.delta,
        f.world.space.StepsExactly f.pointer.delta v) →
      ∃ n v, f.pointer.ComesToRest f.world.space n v ∧
        f.execute Cell.semicolon =
          (.ok (), { f with pointer := { f.pointer with position := v } }) ∧
        ((∀ u ∈ f.world.space.loop f.pointer.position f.pointer.delta,
            f.world.space.peek u = Cell.semicolon → u = f.pointer.position) →
          v = f.pointer.position)) ∧
    (f.world.space.Roomy f.pointer.delta →
      ∀ v ∈ f.world.space.loop f.pointer.position f.pointer.delta,
        f.world.space.StepsExactly f.pointer.delta v) := by
  constructor
  · intro exact
    have hp := sound.fits_of_inside inside
    obtain ⟨lap, positive, short, back⟩ := Pointer.walk_returns sound inside fits exact
    obtain ⟨n, v, within, rest⟩ := Pointer.exists_rest positive back
    have enough : n ≤ 0 + Pointer.pathBound := by
      have room : 2 ^ 64 ≤ Pointer.pathBound := by decide
      omega
    refine ⟨n, v, rest, ?_, ?_⟩
    · rw [execute_semicolon table]
      exact Action.run_jumpOver (Pointer.skipComment_of_rest rest hp fits rfl rest.moved enough)
    · intro only
      rcases rest.rests with home | semicolon
      · exact home
      · exact only v (Pointer.walk_mem_loop sound inside fits exact rest.walked) semicolon
  · intro roomy v member
    exact roomy.stepsExactly sound member.1

/-- A pointer on the semicolon from which a comment goes over the wrap. -/
def wrapping : Focus where
  pointer := { Pointer.start 0 2 with position := Vec.ofList [4], delta := Vec.ofList [1, 0] }
  world := { World.start {} .bare .standard .standard with space := .hoop }

/-- Its steps lead to the semicolon at the other end. -/
theorem wrapping_rests :
    (∃ n, wrapping.pointer.ComesToRest .hoop n (Vec.ofList [1])) ∧
    wrapping.execute Cell.semicolon =
      (.ok (), { wrapping with pointer := { wrapping.pointer with position := Vec.ofList [1] } }) := by
  have roomy : Space.hoop.Roomy wrapping.pointer.delta :=
    .of_plane (0, 5) (0, 0) (by decide +kernel) (by decide +kernel) (by decide +kernel) (by decide)
  obtain ⟨resting, steps⟩ := jump_over_rests (f := wrapping) rfl Space.sound_hoop
    (by decide +kernel) (by decide +kernel)
  obtain ⟨n, v, rest, executed, _⟩ := resting (steps roomy)
  have there : (wrapping.execute Cell.semicolon).2.pointer.position = Vec.ofList [1] := by
    decide +kernel
  rw [executed] at there
  obtain rfl : v = Vec.ofList [1] := there
  exact ⟨⟨n, rest⟩, executed⟩

end Focus

end Funge
