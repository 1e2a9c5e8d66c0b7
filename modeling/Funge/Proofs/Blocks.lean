import Funge.Proofs.Framing
import Funge.Proofs.Transfers

/-!
# Blocks

A block saves the storage offset on the stack below its own and takes it back from there when it
ends. In between, instructions work on the stack of the block, and blocks inside of it put back
what they take, so the saved offset is where it was left. Hence a block restores the offset and
all stacks below the one it began on, and that one changes by the two transfers alone.
-/

namespace Funge

namespace Vec

theorem ofList_coordinates {v : Vec} {dims : Nat} (fits : v.fits dims = true) :
    ofList (v.coordinates dims) = v := by
  apply ext_get
  intro i
  rw [get_ofList, List.getD_eq_getElem?_getD]
  by_cases inside : i < dims
  · rw [getElem?_coordinates v inside]
    rfl
  · have beyond : (v.coordinates dims)[i]? = none := by simp; omega
    rw [beyond, fits_iff.mp fits i (by omega)]
    rfl

end Vec

/-- A vector is popped as it was pushed, and what lies below it stays. -/
theorem Stack.popVec_pushVec (s : Stack) {v : Vec} {dims : Nat} (fits : v.fits dims = true) :
    (s.pushVec v dims .normal).popVec dims .normal = (v, s) := by
  simp [pushVec, popVec, pushMany_normal, popMany_normal, size, Vec.ofList_coordinates fits]

namespace StackStack

/-- The stack on which a block of `n` cells was begun, as it stands below the block. -/
def below (n : Cell) (t : Stack) : Stack :=
  if 0 ≤ n then ⟨t.cells.drop n.toInt.natAbs⟩ else ⟨List.replicate n.toInt.natAbs 0 ++ t.cells⟩

theorem singly_beginBlock (n : Cell) (t : Stack) (rest : List Stack) :
    ∃ fresh, Operation.singly n .beginBlock (t :: rest) = fresh :: below n t :: rest := by
  by_cases positive : 0 ≤ n
  · simp [Operation.singly, below, positive, Stack.popMany_normal]
  · simp [Operation.singly, below, positive, Stack.pushMany_normal]

theorem toBottom_below (n : Cell) (t : Stack) :
    (below n t).toBottom =
      if 0 ≤ n then t.toBottom.take (t.toBottom.length - n.toInt.natAbs)
      else t.toBottom ++ List.replicate n.toInt.natAbs 0 := by
  by_cases positive : 0 ≤ n
  · simp [below, Stack.toBottom, positive, List.reverse_drop]
  · simp [below, Stack.toBottom, positive]

/-- The stack on which a block ends gets the cells of the block on top, or loses its own. -/
theorem singly_endBlock (m : Cell) (t u : Stack) (rest : List Stack) :
    Operation.singly m .endBlock (t :: u :: rest) =
      .ofBottom (if 0 ≤ m then u.toBottom ++ List.replicate (m.toInt.natAbs - t.toBottom.length) 0 ++
          t.toBottom.drop (t.toBottom.length - m.toInt.natAbs)
        else u.toBottom.take (u.toBottom.length - m.toInt.natAbs)) :: rest := by
  by_cases positive : 0 ≤ m
  · simp [Operation.singly, positive, Stack.popMany_normal, Stack.pushMany_normal, Stack.toBottom,
      Stack.ofBottom, List.reverse_drop, Stack.size]
    omega
  · simp [Operation.singly, positive, Stack.popMany_normal, Stack.toBottom, Stack.ofBottom,
      List.reverse_take]
    omega

end StackStack

namespace Pointer

theorem stacked_pop {p : Pointer} (stacked : p.stacks.stacks ≠ []) :
    ∃ rest, p.pop.2.stacks = ⟨p.pop.2.top :: rest⟩ ∧ p.stacks.stacks.tail = rest := by
  rcases p with ⟨id, dims, ⟨layers⟩⟩
  cases layers with
  | nil => exact absurd rfl stacked
  | cons t rest => exact ⟨rest, rfl, rfl⟩

end Pointer

namespace Action

theorem pointer_switchTo (mirror : Cell) (f : Focus) :
    (switchTo mirror f).2.pointer = f.pointer := by
  rw [switchTo, run_bind_ok (run_pointer f)]
  split
  · rw [writeSpace, run_bind_ok (run_world f)]
    cases f.world.space.set f.pointer.position mirror <;> rfl
  · rfl

/-- A block begins with its own stack on top and the offset saved on the stack below. -/
theorem beginBlock_ok {f g : Focus} (stacked : f.pointer.stacks.stacks ≠ [])
    (run : beginBlock f = (.ok (), g)) :
    ∃ fresh, g.pointer.stacks.stacks = fresh ::
      (StackStack.below f.pointer.pop.1 f.pointer.pop.2.top).pushVec f.pointer.offset f.pointer.dims
        .normal :: f.pointer.stacks.stacks.tail := by
  obtain ⟨rest, shape, tail⟩ := Pointer.stacked_pop stacked
  obtain ⟨fresh, moved⟩ :=
    StackStack.singly_beginBlock f.pointer.pop.1 f.pointer.pop.2.top rest
  have popped : pop f = (.ok f.pointer.pop.1, { f with pointer := f.pointer.pop.2 }) := rfl
  rw [beginBlock, run_bind_ok popped] at run
  obtain ⟨_, begun, restacked, run⟩ := bind_ok run
  obtain ⟨granted, rfl⟩ := restack_ok restacked
  have layers : (f.pointer.pop.2.stacks.beginBlock f.pointer.pop.1).2 = _ :=
    StackStack.Operation.apply_granted (o := .beginBlock) (by simp [shape, StackStack.depth]) granted
  rw [shape, moved] at layers
  rw [shape, layers] at run
  rw [run_bind_ok (run_pointer _), run_bind_ok (run_modifyPointer _ _), run_bind_ok (run_second rfl),
    setSecond, run_bind_ok (run_modifyPointer _ _)] at run
  have turned := congrArg (fun result => result.2.pointer) run
  rw [pointer_switchTo] at turned
  rw [← turned, tail]
  exact ⟨fresh, rfl⟩

/-- A block ends with the offset taken from the stack below. -/
theorem endBlock_ok {f g : Focus} {t u : Stack} {rest : List Stack}
    (shape : f.pointer.pop.2.stacks = ⟨t :: u :: rest⟩) (run : endBlock f = (.ok (), g)) :
    g.pointer.offset = (u.popVec f.pointer.dims .normal).1 ∧
    g.pointer.stacks.stacks = StackStack.Operation.singly f.pointer.pop.1 .endBlock
      (t :: (u.popVec f.pointer.dims .normal).2 :: rest) := by
  have popped : pop f = (.ok f.pointer.pop.1, { f with pointer := f.pointer.pop.2 }) := rfl
  have below : f.pointer.stacks.second? = some u := by
    rw [← StackStack.second?_pop, shape]
    rfl
  rw [endBlock, run_bind_ok (run_second below), run_bind_ok popped,
    run_bind_ok (run_pointer _)] at run
  split at run
  · cases run
  have again : f.pointer.pop.2.stacks.second? = some u := by rw [shape]; rfl
  have same : f.pointer.pop.2.dims = f.pointer.dims := rfl
  dsimp only at run
  rw [run_bind_ok (run_second again), same] at run
  simp only [setSecond] at run
  rw [run_bind_ok (run_modifyPointer _ _), run_bind_ok (run_modifyPointer _ _)] at run
  simp only [Pointer.setStacks, shape, StackStack.setSecond] at run
  obtain ⟨_, ended, restacked, run⟩ := bind_ok run
  obtain ⟨granted, rfl⟩ := restack_ok restacked
  have layers : (StackStack.endBlock ⟨t :: (u.popVec f.pointer.dims .normal).2 :: rest⟩
      f.pointer.pop.1).2 = _ :=
    StackStack.Operation.apply_granted (o := .endBlock) (Nat.succ_pos _) granted
  rw [layers] at run
  have turned := congrArg (fun result => result.2.pointer) run
  rw [pointer_switchTo] at turned
  rw [← turned]
  exact ⟨rfl, rfl⟩

/-- A code that stands for an instruction performs it. -/
theorem execute_known (depth : Nat) {code : Cell} {f : Focus} {i : Instruction}
    (known : f.world.instruction? f.pointer code = .ok (some i)) :
    execute (depth + 1) code f = i.perform (iterate (execute depth)) f := by
  have resolved : resolve code f = (.ok (some i), f) := by
    change attempt id (f.world.instruction? f.pointer code) f = _
    rw [known]
    rfl
  rw [execute, run_bind_ok resolved]

/-- A code that stands for an instruction and succeeds has performed it. -/
theorem performed {depth : Nat} {code : Cell} {f g : Focus} {i : Instruction}
    (known : f.world.instruction? f.pointer code = .ok (some i))
    (run : execute depth code f = (.ok (), g)) :
    ∃ iteration, i.perform iteration f = (.ok (), g) := by
  cases depth with
  | zero => cases run
  | succ depth =>
    rw [execute_known depth known] at run
    exact ⟨_, run⟩

end Action

/-- Foci between which instructions are executed in place, all of them with success, in which
every block that begins is ended. -/
inductive Focus.Balanced : Focus → Focus → Prop
  | done (f : Focus) : Balanced f f
  | plain {f g h : Focus} {code : Cell} : code ∉ ['{', '}', 'u', 'k'].map Cell.ofChar →
      f.execute code = (.ok (), g) → Balanced g h → Balanced f h
  | block {f g h k l : Focus} : f.execute (Cell.ofChar '{') = (.ok (), g) → Balanced g h →
      h.execute (Cell.ofChar '}') = (.ok (), k) → Balanced k l → Balanced f l

namespace Focus

variable {dims : Nat} {f g h k : Focus}

theorem execute_known {code : Cell} {i : Instruction}
    (known : f.world.instruction? f.pointer code = .ok (some i)) :
    ∃ iteration, f.execute code = i.perform iteration f := by
  obtain ⟨depth, deep⟩ := Nat.exists_eq_succ_of_ne_zero (show Action.maxNesting ≠ 0 by decide)
  refine ⟨Action.iterate (Action.execute depth), ?_⟩
  rw [execute, deep, Action.execute_known depth known]

theorem Sound.executed (sound : f.Sound dims) {code : Cell} (run : f.execute code = (.ok (), g)) :
    g.Sound dims := by
  have ends := Action.safe_execute Action.maxNesting code f sound
  rw [← execute, run] at ends
  exact ends.2

theorem Orthodox.executed (orthodox : f.Orthodox) {code : Cell}
    (run : f.execute code = (.ok (), g)) : g.Orthodox := by
  have kept := orthodox.execute Action.maxNesting code
  rw [← Focus.execute, run] at kept
  exact kept

theorem begun_of_execute (sound : f.Sound dims)
    (run : f.execute (Cell.ofChar '{') = (.ok (), g)) : Action.beginBlock f = (.ok (), g) := by
  have known : f.world.instruction? f.pointer (Cell.ofChar '{') = .ok (some .beginBlock) := by
    rw [World.instruction?, sound.world.table]
    rfl
  obtain ⟨_, performed⟩ := Action.performed known run
  exact performed

theorem ended_of_execute (sound : f.Sound dims)
    (run : f.execute (Cell.ofChar '}') = (.ok (), g)) : Action.endBlock f = (.ok (), g) := by
  have known : f.world.instruction? f.pointer (Cell.ofChar '}') = .ok (some .endBlock) := by
    rw [World.instruction?, sound.world.table]
    rfl
  obtain ⟨_, performed⟩ := Action.performed known run
  exact performed

/-- The stacks below the top one and the storage offset are the same. -/
def Shielded (f g : Focus) : Prop :=
  g.pointer.stacks.stacks.tail = f.pointer.stacks.stacks.tail ∧ g.pointer.offset = f.pointer.offset

/-- A code that neither begins nor ends a block and does not transfer or iterate leaves the lower
stacks and the offset alone. -/
theorem shielded_of_plain (sound : f.Sound dims) (orthodox : f.Orthodox) {code : Cell}
    (plain : code ∉ ['{', '}', 'u', 'k'].map Cell.ofChar) (run : f.execute code = (.ok (), g)) :
    f.Shielded g := by
  have other : code ≠ 107 := by
    rintro rfl
    exact plain (by decide)
  have reach (part : Part) (framed : part ∈ Part.framed)
      (listed : ∀ e ∈ Table.standard.entries, part ∈ e.instruction.footprint →
        e.code ∈ ['{', '}', 'u', 'k'].map Cell.ofChar) : Part.of g part = Part.of f part := by
    rcases framed_cases sound orthodox other Action.maxNesting framed with
      same | ⟨e, member, rfl, touched, _⟩
    · rw [← execute, run] at same
      exact same
    · exact absurd (listed e member touched) plain
  have lower := reach .lower (by decide) (by decide)
  exact ⟨congrArg Prod.snd lower, reach .offset (by decide) (by decide)⟩

/-- What a block does, given that its body leaves the stacks below it alone. -/
theorem block_effect (sound : f.Sound dims) (opened : f.execute (Cell.ofChar '{') = (.ok (), g))
    (inside : h.Sound dims) (kept : h.pointer.stacks.stacks.tail = g.pointer.stacks.stacks.tail)
    (closed : h.execute (Cell.ofChar '}') = (.ok (), k)) :
    k.pointer.offset = f.pointer.offset ∧
    k.pointer.stacks.stacks = StackStack.Operation.singly h.pointer.pop.1 .endBlock
      (h.pointer.pop.2.top :: StackStack.below f.pointer.pop.1 f.pointer.pop.2.top ::
        f.pointer.stacks.stacks.tail) := by
  obtain ⟨fresh, shape⟩ :=
    Action.beginBlock_ok sound.pointer.stacked (begun_of_execute sound opened)
  obtain ⟨rest, popped, tail⟩ := Pointer.stacked_pop inside.pointer.stacked
  rw [kept, shape, List.tail_cons] at tail
  subst tail
  obtain ⟨offset, layers⟩ := Action.endBlock_ok popped (ended_of_execute inside closed)
  have same : h.pointer.dims = f.pointer.dims :=
    inside.pointer.agrees.trans sound.pointer.agrees.symm
  have fits : f.pointer.offset.fits f.pointer.dims = true := by
    rw [sound.pointer.agrees]
    exact sound.pointer.offset
  -- The offset comes back off the stack below, and nothing else is taken from there with it.
  rw [same, Stack.popVec_pushVec _ fits] at offset layers
  exact ⟨offset, layers⟩

theorem Shielded.trans (first : f.Shielded g) (second : g.Shielded h) : f.Shielded h :=
  ⟨second.1.trans first.1, second.2.trans first.2⟩

/-- A run in which every block is ended leaves the lower stacks and the offset alone. -/
theorem Balanced.shielded (run : f.Balanced h) (sound : f.Sound dims) (orthodox : f.Orthodox) :
    h.Sound dims ∧ h.Orthodox ∧ f.Shielded h := by
  induction run with
  | done f => exact ⟨sound, orthodox, rfl, rfl⟩
  | plain plain executed _ ih =>
    obtain ⟨last, bound, later⟩ := ih (sound.executed executed) (orthodox.executed executed)
    exact ⟨last, bound, (shielded_of_plain sound orthodox plain executed).trans later⟩
  | block opened _ closed _ inner outer =>
    obtain ⟨inside, settled, kept, _⟩ := inner (sound.executed opened) (orthodox.executed opened)
    obtain ⟨last, bound, later⟩ := outer (inside.executed closed) (settled.executed closed)
    obtain ⟨offset, layers⟩ := block_effect sound opened inside kept closed
    have lower := congrArg List.tail layers
    rw [StackStack.singly_endBlock, List.tail_cons] at lower
    exact ⟨last, bound, Shielded.trans ⟨lower, offset⟩ later⟩

end Focus

namespace Machine

/-- Anywhere on the way of a reachable machine, a block with nested blocks in it, all executed
in place with success, restores the storage offset and every stack below the one it was begun on.
That one loses the cells that went into the block, or gets zeros on top, and then gets the top
cells of the block over zeros where these are too few, or loses cells. All stacks are written from
the bottom to the top. -/
theorem block_restores {settings : Settings} {host : Host} {m : Machine} {f g h k : Focus}
    (reached : Reachable settings host m) (visited : m.Visits f)
    (opened : f.execute (Cell.ofChar '{') = (.ok (), g)) (body : g.Balanced h)
    (closed : h.execute (Cell.ofChar '}') = (.ok (), k)) :
    let taken := f.pointer.pop.1
    let outer := f.pointer.pop.2.top.cells.reverse
    let left :=
      if 0 ≤ taken then outer.take (outer.length - taken.toInt.natAbs)
      else outer ++ List.replicate taken.toInt.natAbs 0
    let given := h.pointer.pop.1
    let inner := h.pointer.pop.2.top.cells.reverse
    let restored :=
      if 0 ≤ given then
        left ++ List.replicate (given.toInt.natAbs - inner.length) 0 ++
          inner.drop (inner.length - given.toInt.natAbs)
      else left.take (left.length - given.toInt.natAbs)
    k.pointer.offset = f.pointer.offset ∧
    k.pointer.stacks.stacks = ⟨restored.reverse⟩ :: f.pointer.stacks.stacks.tail := by
  intro taken outer left given inner restored
  have sound := visited.sound reached.sound
  have orthodox := visited.orthodox reached.orthodox
  obtain ⟨inside, _, kept, _⟩ :=
    body.shielded (sound.executed opened) (orthodox.executed opened)
  obtain ⟨offset, layers⟩ := Focus.block_effect sound opened inside kept closed
  rw [StackStack.singly_endBlock, StackStack.toBottom_below] at layers
  exact ⟨offset, layers⟩

/-- The focus after codes have been executed in place. -/
def executing (f : Focus) (codes : List Cell) : Focus :=
  codes.foldl (fun f code => (f.execute code).2) f

/-- Every one of these codes succeeds. -/
def succeeding (f : Focus) : List Cell → Bool
  | [] => true
  | code :: codes => (f.execute code).1 = .ok () && succeeding (f.execute code).2 codes

theorem Visits.executing {m : Machine} {f : Focus} (visited : m.Visits f) (codes : List Cell)
    (done : succeeding f codes = true) : m.Visits (executing f codes) := by
  induction codes generalizing f with
  | nil => exact visited
  | cons code codes ih =>
    rw [succeeding, Bool.and_eq_true, decide_eq_true_eq] at done
    exact ih (.execute _ code visited (Prod.ext done.1 rfl)) done.2

/-- Codes that have nothing to do with blocks or with other stacks are a body of their own. -/
theorem balanced_executing {f : Focus} (codes : List Cell)
    (plain : codes.all (· ∉ ['{', '}', 'u', 'k'].map Cell.ofChar) = true)
    (done : succeeding f codes = true) : f.Balanced (executing f codes) := by
  induction codes generalizing f with
  | nil => exact .done f
  | cons code codes ih =>
    rw [succeeding, Bool.and_eq_true, decide_eq_true_eq] at done
    rw [List.all_cons, Bool.and_eq_true, decide_eq_true_eq] at plain
    exact .plain plain.1 (Prod.ext done.1 rfl) (ih plain.2 done.2)

/-- A new machine with a pointer in its blank space. -/
def vacant : Machine := (standard {} .bare).spawn.2

/-- Its pointer. -/
def resting : Focus := ⟨vacant.pointers.headD (Pointer.start 0 2), vacant.world⟩

theorem vacant_reachable : Reachable {} .bare vacant := by
  have spawned : (standard {} .bare).spawn.1 = .ok 0 := by decide +kernel
  exact .spawn .start (.of_ok spawned)

theorem vacant_visits (codes : List Cell) (done : succeeding resting codes = true) :
    vacant.Visits (executing resting codes) := by
  have one : vacant.pointers.length = 1 := by decide +kernel
  have start : vacant.Visits resting := .rest (headD_mem (by omega) _)
  exact start.executing codes done

/-- A 9 goes into a block, where a 3 follows, an empty block, and a 4; the last two come back. From a
stack with one cell three go into a block that drops them, and three come back though there is only a
7. Less than none goes in and comes back: two zeros are put on the 8, and one of them is dropped. -/
theorem counted_restores :
    let nested := executing resting [56, 57, 49, 123, 51, 48, 123, 48, 125, 52, 50]
    let padded := executing resting [56, 51, 123, 36, 36, 36, 55, 51]
    let negative := executing resting [56, 48, 50, 45, 123, 53, 48, 49, 45]
    nested.pointer.offset = Vec.ofList [1] ∧
    (nested.execute (Cell.ofChar '}')).2.pointer.offset = 0 ∧
    (nested.execute (Cell.ofChar '}')).2.pointer.stacks.stacks = [⟨[4, 3, 8]⟩] ∧
    (padded.execute (Cell.ofChar '}')).2.pointer.stacks.stacks = [⟨[7, 0, 0]⟩] ∧
    (negative.execute (Cell.ofChar '}')).2.pointer.stacks.stacks = [⟨[0, 8]⟩] := by
  intro nested padded negative
  have success {f : Focus} {code : Cell} (done : (f.execute code).1 = .ok ()) :
      f.execute code = (.ok (), (f.execute code).2) := Prod.ext done rfl
  have first : (executing resting [56, 57, 49, 123]).Balanced nested :=
    .plain (by decide) (success (by decide +kernel)) <|
    .plain (by decide) (success (by decide +kernel)) <|
    .block (success (by decide +kernel))
      (.plain (by decide) (success (by decide +kernel)) (.done _)) (success (by decide +kernel)) <|
    .plain (by decide) (success (by decide +kernel)) <|
    .plain (by decide) (success (by decide +kernel)) (.done _)
  have second : (executing resting [56, 51, 123]).Balanced padded :=
    balanced_executing [36, 36, 36, 55, 51] (by decide) (by decide +kernel)
  have third : (executing resting [56, 48, 50, 45, 123]).Balanced negative :=
    balanced_executing [53, 48, 49, 45] (by decide) (by decide +kernel)
  have nests := block_restores vacant_reachable (vacant_visits [56, 57, 49] (by decide +kernel))
    (success (by decide +kernel)) first (success (by decide +kernel))
  have pads := block_restores vacant_reachable (vacant_visits [56, 51] (by decide +kernel))
    (success (by decide +kernel)) second (success (by decide +kernel))
  have drops := block_restores vacant_reachable (vacant_visits [56, 48, 50, 45] (by decide +kernel))
    (success (by decide +kernel)) third (success (by decide +kernel))
  have moved : nested.pointer.offset = Vec.ofList [1] := by decide +kernel
  have back : (executing resting [56, 57, 49]).pointer.offset = 0 := by decide +kernel
  refine ⟨moved, nests.1.trans back, ?_, ?_, ?_⟩
  · refine nests.2.trans ?_
    decide +kernel
  · refine pads.2.trans ?_
    decide +kernel
  · refine drops.2.trans ?_
    decide +kernel

end Machine

end Funge
