import Funge.Proofs.Codes
import Funge.Proofs.Upkeep
import Mathlib.Data.List.GetD

/-!
# Reading the report

A report lies on the stack as one run of cells, and a program that knows its layout pops it part by
part: fixed numbers first, then vectors as long as the dimensions say, then as many sizes as there
are stacks, and two lists of texts that each end with an empty one. Every part ends where it says,
so all of them are read back as they were, and what lay below the report is left. A single cell of
the report is the one that would be found at its place in the whole.
-/

namespace Funge

namespace Cell

/-- The unsigned number that a cell stands for. -/
def toWord (c : Cell) : Nat := c.toUInt64.toNat

theorem toWord_ofNat {n : Nat} (small : n < 2 ^ 64) : toWord (Int64.ofNat n) = n := by
  simpa [toWord] using small

theorem map_toWord_ofNat {ns : List Nat} (small : ∀ n ∈ ns, n < 2 ^ 64) :
    (ns.map Int64.ofNat).map toWord = ns := by
  rw [List.map_map]
  exact (List.map_congr_left fun n member => toWord_ofNat (small n member)).trans ns.map_id

end Cell

namespace Stack

end Stack

namespace Pointer

variable {p : Pointer}

end Pointer

namespace Focus

variable {f : Focus}

theorem execute_report (table : f.world.table = .standard) :
    f.execute (Cell.ofChar 'y') = Action.report f := by
  have known : f.world.instruction? f.pointer (Cell.ofChar 'y') = .ok (some .report) := by
    rw [World.instruction?, table]
    rfl
  obtain ⟨_, performed⟩ := execute_known known
  rw [performed, Instruction.perform]

/-- The report is made of what is left after the number is popped, and goes on top of that. -/
theorem execute_report_whole (table : f.world.table = .standard) (whole : f.pointer.pop.1 ≤ 0) :
    f.execute (Cell.ofChar 'y') = (.ok (), { f with
      pointer := f.pointer.pop.2.pushMany (Report.assemble f.pointer.pop.2 f.world).toBottom }) := by
  have popped : Action.pop f = (.ok f.pointer.pop.1, { f with pointer := f.pointer.pop.2 }) := rfl
  rw [execute_report table, Action.report, Action.run_bind_ok popped,
    Action.run_bind_ok (Action.run_pointer _), Action.run_bind_ok (Action.run_world _), if_pos whole]
  rfl

end Focus

namespace Report

/-- What a report says. -/
structure Contents where
  /-- What is the same in every report of this machine. -/
  machine : List Cell
  dims : Nat
  id : Nat
  team : Cell
  position : Vec
  delta : Vec
  offset : Vec
  /-- The least corner of the box around the live cells. -/
  least : Vec
  /-- The way from there to the greatest corner. -/
  span : Vec
  date : Cell
  time : Cell
  /-- Number of stacks. -/
  depth : Nat
  /-- Sizes of the stacks, top first. -/
  sizes : List Nat
  arguments : List String
  /-- The pairs of the environment, each as one text. -/
  environment : List String
deriving DecidableEq

/-- What is to be reported of a pointer and its world. A date and a time are three numbers in one
cell each. -/
def contents (p : Pointer) (w : World) : Contents where
  machine := [7, 8, 1313230407, 1, 0, 47]
  dims := p.dims
  id := p.id
  team := 0
  position := p.position
  delta := p.delta
  offset := p.offset
  least := (w.space.bounds?.getD (0, 0)).1
  span := (w.space.bounds?.getD (0, 0)).2 - (w.space.bounds?.getD (0, 0)).1
  date := Int64.ofInt
    ((w.host.now.year - 1900) * 65536 + w.host.now.month * 256 + w.host.now.day)
  time := Int64.ofInt (w.host.now.hour * 65536 + w.host.now.minute * 256 + w.host.now.second)
  depth := p.stacks.stacks.length
  sizes := p.stacks.stacks.map (·.cells.length)
  arguments := w.host.arguments
  environment := w.host.environment.map fun (key, value) => key ++ "=" ++ value

/-- Pops a report: nine numbers, five vectors, date and time, a count and that many sizes, and two
lists of texts. -/
def read (mode : Mode) (s : Stack) : Contents × Stack :=
  let (machine, s) := s.popMany mode 6
  let (dims, s) := s.pop mode
  let (id, s) := s.pop mode
  let (team, s) := s.pop mode
  let (position, s) := s.popVec dims.toWord mode
  let (delta, s) := s.popVec dims.toWord mode
  let (offset, s) := s.popVec dims.toWord mode
  let (least, s) := s.popVec dims.toWord mode
  let (span, s) := s.popVec dims.toWord mode
  let (date, s) := s.pop mode
  let (time, s) := s.pop mode
  let (depth, s) := s.pop mode
  let (sizes, s) := s.popMany mode depth.toWord
  let (arguments, s) := s.popTexts mode
  let (environment, s) := s.popTexts mode
  ({ machine, dims := dims.toWord, id := id.toWord, team, position, delta, offset, least, span, date,
     time, depth := depth.toWord, sizes := sizes.map Cell.toWord, arguments, environment }, s)

/-- The cells of a report with the given contents, first cell on top. -/
def Contents.layout (c : Contents) : List Cell :=
  c.machine ++ [Int64.ofNat c.dims, Int64.ofNat c.id, c.team]
  ++ Stack.vectorRun c.dims c.position
  ++ Stack.vectorRun c.dims c.delta
  ++ Stack.vectorRun c.dims c.offset
  ++ Stack.vectorRun c.dims c.least
  ++ Stack.vectorRun c.dims c.span
  ++ [c.date, c.time, Int64.ofNat c.depth]
  ++ c.sizes.map Int64.ofNat
  ++ c.arguments.flatMap Stack.textRun ++ [0]
  ++ c.environment.flatMap Stack.textRun ++ [0]

/-- Every part of the contents ends where a reader takes it to end. -/
structure Contents.Readable (c : Contents) : Prop where
  machine : c.machine.length = 6
  dims : c.dims < 2 ^ 64
  id : c.id < 2 ^ 64
  position : c.position.fits c.dims = true
  delta : c.delta.fits c.dims = true
  offset : c.offset.fits c.dims = true
  least : c.least.fits c.dims = true
  span : c.span.fits c.dims = true
  depth : c.depth < 2 ^ 64
  counted : c.sizes.length = c.depth
  sizes : ∀ size ∈ c.sizes, size < 2 ^ 64
  arguments : ∀ text ∈ c.arguments, text ≠ "" ∧ '\x00' ∉ text.toList
  environment : ∀ text ∈ c.environment, text ≠ "" ∧ '\x00' ∉ text.toList

/-- Contents are read back as they were laid out, and no cell more. -/
theorem read_layout (mode : Mode) {c : Contents} (readable : c.Readable) (rest : List Cell) :
    read mode (Stack.ofPopOrder mode (c.layout ++ rest)) = (c, Stack.ofPopOrder mode rest) := by
  have vectors {v : Vec} (fits : v.fits c.dims = true) := Stack.popVec_append mode fits
  have counted : (c.sizes.map Int64.ofNat).length = c.depth := by
    rw [List.length_map, readable.counted]
  simp only [Contents.layout, List.append_assoc, List.cons_append, List.nil_append, read,
    Stack.popMany_append mode readable.machine, Stack.pop_cons,
    Cell.toWord_ofNat readable.dims, Cell.toWord_ofNat readable.id, Cell.toWord_ofNat readable.depth,
    vectors readable.position, vectors readable.delta, vectors readable.offset,
    vectors readable.least, vectors readable.span, Stack.popMany_append mode counted,
    Cell.map_toWord_ofNat readable.sizes, Stack.popTexts_append mode readable.arguments,
    Stack.popTexts_append mode readable.environment]

variable {p : Pointer} {w : World}

/-- What is pushed last to first lies first to last. -/
theorem assemble_eq_layout (p : Pointer) (w : World) : assemble p w = ⟨(contents p w).layout⟩ := by
  have named : Int64.ofNat machine.toNat = 1313230407 := by decide +kernel
  have one (s : Stack) (v : Cell) : s.push v .normal = ⟨v :: s.cells⟩ := rfl
  have vectors (s : Stack) (v : Vec) :
      s.pushVec v p.dims .normal = ⟨Stack.vectorRun p.dims v ++ s.cells⟩ :=
    Stack.pushVec_ofPopOrder rfl s.cells v p.dims
  have texts (s : Stack) (list : List String) :
      s.pushTexts list .normal = ⟨list.flatMap Stack.textRun ++ s.cells⟩ :=
    Stack.pushTexts_ofPopOrder rfl s.cells list
  simp only [assemble, one, vectors, texts, Stack.pushMany_normal, named]
  simp [contents, Contents.layout, Stack.empty, StackStack.sizes, StackStack.depth, Stack.size,
    capabilities, cellBytes, version, paradigm, separator, team, date, time, packed]

/-- The numbers that a report tells of a pointer are words, as all counts of a machine are that has
64 bits to a word. -/
structure Countable (p : Pointer) : Prop where
  dims : p.dims < 2 ^ 64
  id : p.id < 2 ^ 64
  depth : p.stacks.stacks.length < 2 ^ 64
  sizes : ∀ s ∈ p.stacks.stacks, s.cells.length < 2 ^ 64

/-- No argument is empty, and there is no zero in an argument or in a pair of the environment. -/
structure Plain (h : Host) : Prop where
  arguments : ∀ text ∈ h.arguments, text ≠ "" ∧ '\x00' ∉ text.toList
  environment : ∀ pair ∈ h.environment, '\x00' ∉ pair.1.toList ∧ '\x00' ∉ pair.2.toList

/-- A pair of the environment is never an empty text, since there is a sign between its parts. -/
theorem Plain.pairs (plain : Plain w.host) :
    ∀ text ∈ (contents p w).environment, text ≠ "" ∧ '\x00' ∉ text.toList := by
  intro text member
  obtain ⟨⟨key, value⟩, listed, rfl⟩ := List.mem_map.mp member
  obtain ⟨keyed, valued⟩ := plain.environment _ listed
  constructor
  · intro empty
    have letters := congrArg String.toList empty
    simp at letters
  · simpa using ⟨keyed, valued⟩

theorem fits_box (space : w.space.Sound) :
    (contents p w).least.fits w.space.dims = true ∧
    (contents p w).span.fits w.space.dims = true := by
  cases bounds : w.space.bounds? with
  | none =>
    simp only [contents, bounds, Option.getD_none]
    exact ⟨Vec.fits_zero _, Vec.fits_sub (Vec.fits_zero _) (Vec.fits_zero _)⟩
  | some box =>
    obtain ⟨least, greatest, _⟩ := space.bounds?.2 box.1 box.2 bounds
    simp only [contents, bounds, Option.getD_some]
    exact ⟨least, Vec.fits_sub greatest least⟩

theorem contents_readable (sound : p.Sound w.space.dims) (space : w.space.Sound)
    (countable : Countable p) (plain : Plain w.host) : (contents p w).Readable := by
  have agrees : (contents p w).dims = w.space.dims := sound.agrees
  exact {
    machine := rfl
    dims := countable.dims
    id := countable.id
    position := agrees ▸ sound.position
    delta := agrees ▸ sound.delta
    offset := agrees ▸ sound.offset
    least := agrees ▸ (fits_box space).1
    span := agrees ▸ (fits_box space).2
    depth := countable.depth
    counted := List.length_map _
    sizes := List.forall_mem_map.mpr countable.sizes
    arguments := plain.arguments
    environment := plain.pairs }

end Report

namespace Machine

variable {settings : Settings} {host : Host} {m : Machine} {f : Focus}

/-- A host with two arguments and one variable, in the morning. -/
def informant : Host :=
  { Host.bare with
    arguments := ["a", "bc"]
    environment := [("K", "v")]
    clock := .fixed ⟨2024, 5, 6, 7, 8, 9, 0⟩ }

/-- A machine with a pointer on a short line. -/
def briefed : Machine := ((standard {} informant).load [32, 97, 64]).2

/-- Its pointer after some codes. -/
def inquiring (codes : List Cell) : Focus :=
  executing ⟨briefed.pointers.headD (Pointer.start 0 2), briefed.world⟩ codes

theorem briefed_reachable : Reachable {} informant briefed := by
  have loaded : ((standard {} informant).load [32, 97, 64]).1 = .ok 0 := by decide +kernel
  exact .load _ .start (.of_ok loaded)

theorem briefed_visits (codes : List Cell) (done : succeeding (inquiring []) codes = true) :
    briefed.Visits (inquiring codes) := by
  have one : briefed.pointers.length = 1 := by decide +kernel
  have start : briefed.Visits (inquiring []) := .rest (headD_mem (by omega) _)
  exact start.executing codes done

/-- Anywhere on the way of a reachable machine where pushes and pops work on the same end, a report
is read back as what it tells of the pointer and its world, and the stack is then as it was before
the report. -/
theorem report_decodes (reached : Reachable settings host m) (visited : m.Visits f)
    (lifo : f.pointer.flags.invert = f.pointer.flags.queue) (whole : f.pointer.pop.1 ≤ 0)
    (countable : Report.Countable f.pointer.pop.2) (plain : Report.Plain f.world.host) :
    ∃ full, f.execute (Cell.ofChar 'y') = (.ok (), full) ∧
      Report.read f.pointer.mode full.pointer.top =
        (Report.contents f.pointer.pop.2 f.world, f.pointer.pop.2.top) := by
  have sound := visited.sound reached.sound
  have popped : f.pointer.pop.2.Sound f.world.space.dims := by
    rw [sound.world.space]
    exact sound.pointer.setTop _
  have space := visited.soundSpace reached.soundSpace
  have readable := Report.contents_readable popped space countable plain
  refine ⟨_, Focus.execute_report_whole sound.world.table whole, ?_⟩
  have top : (f.pointer.pop.2.pushMany (Report.assemble f.pointer.pop.2 f.world).toBottom).top =
      .ofPopOrder f.pointer.mode ((Report.assemble f.pointer.pop.2 f.world).cells ++
        f.pointer.pop.2.top.inPopOrder f.pointer.mode) := by
    have same : f.pointer.mode.invert = f.pointer.mode.queue := lifo
    have pushed := Stack.pushMany_ofPopOrder same (f.pointer.pop.2.top.inPopOrder f.pointer.mode)
      (Report.assemble f.pointer.pop.2 f.world).cells.reverse
    rw [List.reverse_reverse, Stack.ofPopOrder_inPopOrder] at pushed
    rw [Pointer.pushMany, Pointer.top_setTop_of_stacked popped.stacked]
    exact pushed
  rw [top, Report.assemble_eq_layout, Report.read_layout _ readable, Stack.ofPopOrder_inPopOrder]

/-- All that is told of a pointer on the second cell of its line, inside a block with two cells. The
stack below it holds a nine and the old storage offset. -/
theorem inquiring_decodes :
    ∃ full, (inquiring [57, 53, 54, 50, 123, 48]).execute (Cell.ofChar 'y') = (.ok (), full) ∧
      Report.read .normal full.pointer.top =
        ({ machine := [7, 8, 1313230407, 1, 0, 47], dims := 2, id := 0, team := 0,
           position := Vec.ofList [1], delta := Vec.ofList [1], offset := Vec.ofList [2],
           least := Vec.ofList [1], span := Vec.ofList [1], date := 8127750, time := 460809,
           depth := 2, sizes := [2, 3], arguments := ["a", "bc"], environment := ["K=v"] },
          ⟨[6, 5]⟩) := by
  let f := inquiring [57, 53, 54, 50, 123, 48]
  have visited : briefed.Visits f := briefed_visits _ (by decide +kernel)
  have countable : Report.Countable f.pointer.pop.2 :=
    ⟨by decide +kernel, by decide +kernel, by decide +kernel, by decide +kernel⟩
  have plain : Report.Plain f.world.host := ⟨by decide +kernel, by decide +kernel⟩
  obtain ⟨full, executed, decoded⟩ := report_decodes briefed_reachable visited (by decide +kernel)
    (by decide +kernel) countable plain
  refine ⟨full, executed, ?_⟩
  have mode : f.pointer.mode = .normal := by decide +kernel
  rw [mode] at decoded
  exact decoded.trans (by decide +kernel)

end Machine

end Funge
