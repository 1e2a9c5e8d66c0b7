import Funge.Proofs.Blocks
import Funge.Proofs.Search
import Mathlib.Data.List.Destutter

/-!
# String literals

Between two quotes a pointer pushes what it meets, with no regard to what it would mean elsewhere.
From a blank it goes on to the next cell that is not one, so of a run of blanks it pushes the first
only. A literal thus takes one step for each quote and one for each cell that is left of its text
when runs of blanks count one.
-/

namespace Funge

namespace Cell

/-- A text without the blanks that follow a blank. -/
def collapse (text : List Cell) : List Cell :=
  text.destutter fun a b => a ≠ blank ∨ b ≠ blank

theorem collapse_cons {c : Cell} (ink : c ≠ blank) (text : List Cell) :
    collapse (c :: text) = c :: collapse text := by
  cases text with
  | nil => rfl
  | cons b rest =>
    rw [collapse, List.destutter_cons_cons, if_pos (.inl ink)]
    rfl

theorem collapse_blank (text : List Cell) :
    collapse (blank :: text) = blank :: collapse (text.dropWhile (· = blank)) := by
  induction text with
  | nil => rfl
  | cons b rest ih =>
    rw [collapse, List.destutter_cons_cons]
    by_cases again : b = blank
    · rw [if_neg (by simp [again]), List.dropWhile_cons_of_pos (by simp [again])]
      exact ih
    · rw [if_pos (.inr again), List.dropWhile_cons_of_neg (by simp [again])]
      rfl

end Cell

namespace Vec

theorem add_scale_zero (v d : Vec) : v + d.scale (Int64.ofNat 0) = v := by
  apply ext_get
  simp

theorem add_scale_succ (v d : Vec) (k : Nat) :
    v + d.scale (Int64.ofNat (k + 1)) = v + d + d.scale (Int64.ofNat k) := by
  apply ext_get
  intro axis
  simp only [get_add, get_scale, Int64.ofNat_add]
  grind

end Vec

/-- From a point on, a text without quotes stands cell by cell on a path inside the box, up to a
quote at the given end. -/
structure Space.Spells (s : Space) (d start last : Vec) (text : List Cell) : Prop where
  inside : ∀ k, k ≤ text.length → s.outside (start + d.scale (Int64.ofNat k)) = false
  reads : ∀ k (h : k < text.length), s.peek (start + d.scale (Int64.ofNat k)) = text[k]
  ends : start + d.scale (Int64.ofNat text.length) = last
  closed : s.peek last = Cell.quote
  unquoted : Cell.quote ∉ text

namespace Space.Spells

variable {s : Space} {d start last : Vec} {c : Cell} {text : List Cell}

theorem starts_inside (spells : s.Spells d start last text) : s.outside start = false := by
  have first := spells.inside 0 (Nat.zero_le _)
  rwa [Vec.add_scale_zero] at first

theorem ended (spells : s.Spells d start last []) : start = last := by
  have ends := spells.ends
  rwa [List.length_nil, Vec.add_scale_zero] at ends

theorem first (spells : s.Spells d start last (c :: text)) :
    s.peek start = c ∧ c ≠ Cell.quote := by
  have first := spells.reads 0 (by simp)
  rw [Vec.add_scale_zero] at first
  exact ⟨first, (List.ne_of_not_mem_cons spells.unquoted).symm⟩

theorem rest (spells : s.Spells d start last (c :: text)) :
    s.Spells d (start + d) last text where
  inside k within := by
    rw [← Vec.add_scale_succ]
    exact spells.inside (k + 1) (by simpa using within)
  reads k within := by
    rw [← Vec.add_scale_succ]
    exact spells.reads (k + 1) (by simpa using within)
  ends := by
    rw [← Vec.add_scale_succ]
    exact spells.ends
  closed := spells.closed
  unquoted := List.not_mem_of_not_mem_cons spells.unquoted

/-- A text that begins after a quote is shorter than a path that comes back to it. -/
theorem length_lt {opening : Vec} (spells : s.Spells d (opening + d) last text)
    (opened : s.peek opening = Cell.quote) : text.length < 2 ^ 64 := by
  by_contra long
  have back : opening + d + d.scale (Int64.ofNat (2 ^ 64 - 1)) = opening := by
    rw [← Vec.add_scale_succ]
    exact Vec.add_scale_zero opening d
  have quoted := spells.reads (2 ^ 64 - 1) (by omega)
  rw [back, opened] at quoted
  apply spells.unquoted
  rw [quoted]
  exact List.getElem_mem _

end Space.Spells

namespace Pointer

variable {s : Space} {d start last : Vec} {text : List Cell}

theorem land_inside (inside : s.outside start = false) :
    land s d start none = .ok (.visit start none) := by
  simp [land, inside, pure, Except.pure]

/-- In string mode a search that does not come from a blank stops at once. -/
theorem scan_string (inside : s.outside start = false) {bound : Nat} (room : 0 < bound) :
    scan s d true false bound start false none = .ok start := by
  obtain ⟨n, rfl⟩ := Nat.exists_eq_succ_of_ne_zero (Nat.ne_of_gt room)
  simp [scan, land_inside inside]

/-- From a blank it goes on to the end of the run of blanks. -/
theorem scan_blanks {bound : Nat} (spells : s.Spells d start last text)
    (room : text.length < bound) :
    ∃ v, scan s d true true bound start false none = .ok v ∧
      s.Spells d v last (text.dropWhile (· = Cell.blank)) := by
  induction text generalizing start bound with
  | nil =>
    obtain ⟨n, rfl⟩ := Nat.exists_eq_succ_of_ne_zero (Nat.ne_of_gt room)
    have quoted : s.peek start = Cell.quote := spells.ended ▸ spells.closed
    refine ⟨start, ?_, spells⟩
    simp [scan, land_inside spells.starts_inside, quoted, Cell.quote, Cell.blank]
  | cons c rest ih =>
    obtain ⟨n, rfl⟩ := Nat.exists_eq_succ_of_ne_zero (show bound ≠ 0 by omega)
    have here := spells.first.1
    by_cases blank : c = Cell.blank
    · have left : rest.length < n := by simpa using room
      obtain ⟨v, found, further⟩ := ih spells.rest left
      refine ⟨v, ?_, by rwa [List.dropWhile_cons_of_pos (by simpa using blank)]⟩
      simp [scan, land_inside spells.starts_inside, here, blank, found]
    · refine ⟨start, ?_, by rwa [List.dropWhile_cons_of_neg (by simpa using blank)]⟩
      simp [scan, land_inside spells.starts_inside, here, blank]

theorem pushMany_cons (p : Pointer) (c : Cell) (cs : List Cell) :
    p.pushMany (c :: cs) = (p.push c).pushMany cs := by
  rcases p with ⟨id, dims, ⟨layers⟩⟩
  cases layers <;> rfl

/-- In string mode the next position is where a search from one step ahead stops. -/
theorem nextPosition_string {p : Pointer} {v : Vec} {c : Cell} (moving : p.delta.isZero = false)
    (string : p.flags.string = true) (here : s.get p.position = .ok c)
    (found : scan s p.delta true (c = Cell.blank) scanBound (p.position + p.delta) false none =
      .ok v) : p.nextPosition s = .ok v := by
  simp [nextPosition, moving, here, search, string, found, Except.mapError, bind, Except.bind]

end Pointer

namespace Focus

variable {f g : Focus} {last : Vec} {c : Cell} {text : List Cell}

/-- A number of steps, up to one that breaks off. -/
def steps : Nat → Focus → Except MachineError Unit × Focus
  | 0, f => (.ok (), f)
  | n + 1, f =>
    match f.step with
    | (.error e, g) => (.error e, g)
    | (.ok (), g) => steps n g

theorem steps_succ (first : f.step = (.ok (), g)) (n : Nat) : f.steps (n + 1) = g.steps n := by
  rw [steps, first]

theorem steps_add {m : Nat} (first : f.steps m = (.ok (), g)) (n : Nat) :
    f.steps (m + n) = g.steps n := by
  induction m generalizing f with
  | zero =>
    obtain rfl : f = g := congrArg Prod.snd first
    rw [Nat.zero_add]
  | succ m ih =>
    cases stepped : f.step with
    | mk result h =>
      cases result with
      | error e => simp [steps, stepped] at first
      | ok =>
        rw [steps_succ stepped] at first
        rw [Nat.succ_add, steps_succ stepped, ih first]

theorem advance_ok {v : Vec} (alive : f.pointer.alive = true)
    (next : f.pointer.nextPosition f.world.space = .ok v) :
    f.advance = (.ok (), { f with pointer := { f.pointer with position := v } }) := by
  simp [advance, alive, next]

theorem step_string (string : f.pointer.flags.string = true)
    (here : f.world.space.get f.pointer.position = .ok c) : f.step = (f.spell c).advance := by
  simp [step, here, string]

/-- The pointer is in string mode at the beginning of a text, or of what is left of it. -/
structure Reads (f : Focus) (last : Vec) (text : List Cell) : Prop where
  sound : f.world.space.Sound
  alive : f.pointer.alive = true
  string : f.pointer.flags.string = true
  moving : f.pointer.delta.isZero = false
  spells : f.world.space.Spells f.pointer.delta f.pointer.position last text
  short : text.length < Pointer.scanBound

namespace Reads

/-- A pointer moves past the cell that it stands on and past the blanks that this stands for. -/
theorem next (reads : f.Reads last (c :: text)) :
    ∃ v left, f.pointer.nextPosition f.world.space = .ok v ∧
      f.world.space.Spells f.pointer.delta v last left ∧ left.length ≤ text.length ∧
      Cell.collapse (c :: text) = c :: Cell.collapse left := by
  have here : f.world.space.get f.pointer.position = .ok c := by
    rw [Space.get_of_fits (reads.sound.fits_of_inside reads.spells.starts_inside),
      reads.spells.first.1]
  have ahead := reads.spells.rest
  have short := reads.short
  rw [List.length_cons] at short
  by_cases blank : c = Cell.blank
  · obtain ⟨v, found, left⟩ := Pointer.scan_blanks ahead (Nat.lt_of_succ_lt short)
    refine ⟨v, _, ?_, left, (List.dropWhile_sublist _).length_le, ?_⟩
    · exact Pointer.nextPosition_string reads.moving reads.string here (by simpa [blank] using found)
    · rw [blank, Cell.collapse_blank]
  · have found := Pointer.scan_string (d := f.pointer.delta) ahead.starts_inside
      (show 0 < Pointer.scanBound by decide)
    refine ⟨_, text, ?_, ahead, Nat.le_refl _, Cell.collapse_cons blank text⟩
    exact Pointer.nextPosition_string reads.moving reads.string here (by simpa [blank] using found)

/-- One step pushes a cell and leaves the pointer at the rest of the text. -/
theorem step (reads : f.Reads last (c :: text)) :
    ∃ v left, left.length ≤ text.length ∧ Cell.collapse (c :: text) = c :: Cell.collapse left ∧
      f.step = (.ok (), ⟨{ f.pointer.push c with position := v }, f.world⟩) ∧
      Reads ⟨{ f.pointer.push c with position := v }, f.world⟩ last left := by
  obtain ⟨v, left, next, spells, shorter, collapsed⟩ := reads.next
  have inside := reads.spells.starts_inside
  obtain ⟨here, plain⟩ := reads.spells.first
  have read := Space.get_of_fits (reads.sound.fits_of_inside inside)
  rw [here] at read
  have short := reads.short
  rw [List.length_cons] at short
  refine ⟨v, left, shorter, collapsed, ?_, ?_⟩
  · rw [step_string reads.string read, spell, if_neg plain]
    exact advance_ok reads.alive next
  · exact ⟨reads.sound, reads.alive, reads.string, reads.moving, spells, by omega⟩

/-- The steps through a text push it without the blanks that follow a blank. -/
theorem steps (reads : f.Reads last text) :
    f.steps (Cell.collapse text).length =
      (.ok (), ⟨{ f.pointer.pushMany (Cell.collapse text) with position := last }, f.world⟩) ∧
    ∀ n, n ≤ (Cell.collapse text).length → (f.steps n).2.pointer.flags.string = true := by
  -- A step may pass several blanks, so the induction is on the length of what is left.
  induction size : text.length using Nat.strong_induction_on generalizing f text with
  | _ size ih =>
    cases text with
    | nil =>
      obtain rfl := reads.spells.ended
      refine ⟨?_, ?_⟩
      · have none : f.pointer.pushMany (Cell.collapse []) = f.pointer := Pointer.setTop_top f.pointer
        rw [none]
        rfl
      · intro n none
        obtain rfl : n = 0 := Nat.le_zero.mp none
        exact reads.string
    | cons c text =>
      obtain ⟨v, left, shorter, collapsed, stepped, further⟩ := reads.step
      obtain ⟨run, string⟩ := ih left.length (by rw [← size, List.length_cons]; omega) further rfl
      rw [collapsed, List.length_cons]
      constructor
      · rw [steps_succ stepped, run, Pointer.pushMany_cons]
        rfl
      · intro n before
        cases n with
        | zero => exact reads.string
        | succ n =>
          rw [steps_succ stepped]
          exact string n (by omega)

end Reads

/-- A quote that is executed puts the pointer into string mode. -/
theorem execute_quote (f : Focus) (table : f.world.table = .standard) :
    f.execute Cell.quote =
      (.ok (), { f with pointer :=
        { f.pointer with flags := { f.pointer.flags with string := true } } }) := by
  have known : f.world.instruction? f.pointer Cell.quote =
      .ok (some (.course (.raise .string))) := by
    rw [World.instruction?, table]
    rfl
  obtain ⟨_, performed⟩ := execute_known known
  rw [performed]
  rfl

/-- The step from the opening quote goes to the cell after it, whatever it holds. -/
theorem step_opening (sound : f.world.space.Sound) (table : f.world.table = .standard)
    (alive : f.pointer.alive = true) (plain : f.pointer.flags.string = false)
    (moving : f.pointer.delta.isZero = false)
    (opened : f.world.space.peek f.pointer.position = Cell.quote)
    (spells : f.world.space.Spells f.pointer.delta (f.pointer.position + f.pointer.delta) last
      text) :
    let inside : Focus := ⟨{ f.pointer with
        position := f.pointer.position + f.pointer.delta
        flags := { f.pointer.flags with string := true } },
      f.world.note (.executed f.pointer.id f.pointer.position Cell.quote)⟩
    f.step = (.ok (), inside) ∧ inside.Reads last text := by
  intro inside
  have live : f.world.space.peek f.pointer.position ≠ Cell.blank := by
    rw [opened]
    decide
  have read := Space.get_of_fits (sound.fits_of_inside (sound.inside_of_live live))
  rw [opened] at read
  have found := Pointer.scan_string (d := f.pointer.delta) spells.starts_inside
    (show 0 < Pointer.scanBound by decide)
  have short : text.length < Pointer.scanBound :=
    Nat.lt_trans (spells.length_lt opened) (by decide)
  constructor
  · simp only [step, read, plain, Bool.false_eq_true, if_false]
    rw [execute_quote (f.note _) table]
    exact advance_ok alive (Pointer.nextPosition_string moving rfl read found)
  · exact ⟨sound, alive, rfl, moving, spells, short⟩

/-- The step from the closing quote ends string mode and goes on from there as it would else. -/
theorem step_closing {p : Pointer} {w : World} {v : Vec} (alive : p.alive = true)
    (plain : p.flags.string = false) (closed : w.space.get last = .ok Cell.quote)
    (next : Pointer.nextPosition { p with position := last } w.space = .ok v) :
    step ⟨{ p with position := last, flags := { p.flags with string := true } }, w⟩ =
      (.ok (), ⟨{ p with position := v }, w⟩) := by
  have restored : { p.flags with string := false } = p.flags := by
    rw [← plain]
  rw [step_string rfl closed, spell, if_pos rfl]
  dsimp only
  rw [restored]
  exact advance_ok alive next

/-- A live pointer that stands on a quote, with a text without quotes ahead of it and a quote after
that, all in the box, takes one step for each quote and each cell of the text, less the blanks that
follow a blank. In these steps it pushes those cells in order and goes on from the closing quote,
and nothing else changes but the journal. It is in string mode from the first step to before the
last. -/
theorem literal_pushes (sound : f.world.space.Sound) (table : f.world.table = .standard)
    (alive : f.pointer.alive = true) (plain : f.pointer.flags.string = false)
    (moving : f.pointer.delta.isZero = false)
    (fits : f.pointer.delta.fits f.world.space.dims = true)
    (opened : f.world.space.peek f.pointer.position = Cell.quote)
    (spells : f.world.space.Spells f.pointer.delta (f.pointer.position + f.pointer.delta) last text)
    (exact : Pointer.SearchesExactly { f.pointer with position := last } f.world.space
      (last + f.pointer.delta)) :
    ∃ v, Pointer.nextPosition { f.pointer with position := last } f.world.space = .ok v ∧
      f.steps ((Cell.collapse text).length + 2) =
        (.ok (), ⟨{ f.pointer.pushMany (Cell.collapse text) with position := v },
          f.world.note (.executed f.pointer.id f.pointer.position Cell.quote)⟩) ∧
      ∀ n, 0 < n → n < (Cell.collapse text).length + 2 →
        (f.steps n).2.pointer.flags.string = true := by
  have closing : last.fits f.world.space.dims = true := by
    have inside := spells.inside text.length (Nat.le_refl _)
    rw [spells.ends] at inside
    exact sound.fits_of_inside inside
  have read := Space.get_of_fits closing
  rw [spells.closed] at read
  obtain ⟨v, next, _⟩ := (Pointer.motion_finds (p := { f.pointer with position := last }) sound
    closing fits moving).1 exact
  obtain ⟨opening, reads⟩ := step_opening sound table alive plain moving opened spells
  obtain ⟨run, string⟩ := reads.steps
  refine ⟨v, next, ?_, ?_⟩
  · have closed := step_closing (p := f.pointer.pushMany (Cell.collapse text))
      (w := f.world.note (.executed f.pointer.id f.pointer.position Cell.quote)) alive plain read next
    rw [steps_succ opening, steps_add run]
    exact steps_succ closed 0
  · intro n positive before
    obtain ⟨n, rfl⟩ := Nat.exists_eq_succ_of_ne_zero (Nat.ne_of_gt positive)
    rw [steps_succ opening]
    exact string n (by omega)

end Focus

/-- A line with a literal that begins and ends with blanks. -/
def Space.sentence : Space :=
  ((empty 2).load 0 [34, 32, 32, 97, 59, 32, 32, 98, 32, 34, 49, 64] false).2

/-- A pointer before the literal, with a five on its stack and its pushes going to the bottom. -/
def Focus.reader : Focus where
  pointer := { Pointer.start 0 2 with
    delta := Vec.ofList [1, 0], «stacks» := ⟨[⟨[5]⟩]⟩, flags := { invert := true } }
  world := { World.start {} .bare .standard .standard with space := .sentence }

/-- The semicolon is pushed as it stands, and one blank for each of the three runs. -/
theorem reader_pushes :
    Cell.collapse [32, 32, 97, 59, 32, 32, 98, 32] = [32, 97, 59, 32, 98, 32] ∧
    ∃ w, Focus.reader.steps 8 =
      (.ok (), ⟨{ Focus.reader.pointer with
        position := Vec.ofList [10], «stacks» := ⟨[⟨[5, 32, 97, 59, 32, 98, 32]⟩]⟩ }, w⟩) := by
  have sound : Space.sentence.Sound := (Space.holds_lastWritten 2
    [.load 0 [34, 32, 32, 97, 59, 32, 32, 98, 32, 34, 49, 64] false]).1.sound
  have roomy : Space.sentence.Roomy Focus.reader.pointer.delta :=
    .of_plane (0, 11) (0, 0) (by decide +kernel) (by decide +kernel) (by decide +kernel) (by decide)
  have spells : Space.sentence.Spells Focus.reader.pointer.delta
      (Focus.reader.pointer.position + Focus.reader.pointer.delta) (Vec.ofList [9])
      [32, 32, 97, 59, 32, 32, 98, 32] := by
    constructor
    · decide +kernel
    · decide +kernel
    · decide +kernel
    · decide +kernel
    · decide
  have near (axis : Nat) : ((Vec.ofList [10]).get axis).toInt.natAbs < 2 ^ 62 :=
    Vec.natAbs_get_ofList_lt (by decide) (by decide) axis
  have exact : Pointer.SearchesExactly { Focus.reader.pointer with position := Vec.ofList [9] }
      Focus.reader.world.space (Vec.ofList [9] + Focus.reader.pointer.delta) :=
    Pointer.searchesExactly_of_roomy (p := { Focus.reader.pointer with position := Vec.ofList [9] })
      roomy sound (by decide) (by decide) near
  obtain ⟨v, next, run, _⟩ := Focus.literal_pushes (f := .reader) sound rfl rfl rfl (by decide)
    (by decide) (by decide +kernel) spells exact
  have ahead : Pointer.nextPosition { Focus.reader.pointer with position := Vec.ofList [9] }
      Focus.reader.world.space = .ok (Vec.ofList [10]) := by decide +kernel
  obtain rfl : v = Vec.ofList [10] := Except.ok.inj (next.symm.trans ahead)
  exact ⟨by decide, _, run⟩

end Funge
