import Funge.Proofs.Chronicle
import Funge.Proofs.Framing

/-!
# Quitting

A pointer that asks to quit dies by that, and whatever it has begun ends there with success: an
iteration goes no further, and the pointer does not move on. So a step that has asked to quit never
fails, and the machine comes to see that it has. It stops the tick where it is, with the pointers
before as they were left and those after untouched, and from then on it does nothing.
-/

namespace Funge

/-- A pointer that has asked to quit is dead. -/
def Pointer.Resigned (p : Pointer) : Prop := p.quit ≠ none → p.alive = false

theorem Pointer.Resigned.of_none {p : Pointer} (silent : p.quit = none) : p.Resigned :=
  fun asked => absurd silent asked

theorem Pointer.Resigned.silent {p : Pointer} (h : p.Resigned) (alive : p.alive = true) :
    p.quit = none := by
  by_contra asked
  rw [h asked] at alive
  cases alive

/-- The pointer and the newborn children are dead if they have asked to quit. -/
structure Focus.Resigned (f : Focus) : Prop where
  pointer : f.pointer.Resigned
  newborns : ∀ child ∈ f.world.newborns, child.1.Resigned

namespace Focus.Resigned

variable {f g : Focus} {parts : List Part}

theorem pointer_of_differs (h : f.Resigned) (frame : f.Differs parts g) (life : .life ∉ parts)
    (quit : .quit ∉ parts) : g.pointer.Resigned := by
  have alive : g.pointer.alive = f.pointer.alive := frame .life life
  have asked : g.pointer.quit = f.pointer.quit := frame .quit quit
  rw [Pointer.Resigned, alive, asked]
  exact h.pointer

theorem of_differs (h : f.Resigned) (frame : f.Differs parts g) (life : .life ∉ parts)
    (quit : .quit ∉ parts) (newborns : .newborns ∉ parts) : g.Resigned := by
  have born : g.world.newborns = f.world.newborns := frame .newborns newborns
  constructor
  · exact h.pointer_of_differs frame life quit
  · rw [born]
    exact h.newborns

end Focus.Resigned

/-- A child is born without a wish to quit. -/
theorem Action.split_resigned {f : Focus} (h : f.Resigned) : (split f).2.Resigned := by
  constructor
  · exact h.pointer_of_differs (touches_split f) (by decide) (by decide)
  · intro child member
    rcases mem_newborns_split member with old | ⟨id, position, new⟩
    · exact h.newborns child old
    · rw [new]
      exact .of_none rfl

namespace Instruction

theorem life_mem_footprint {i : Instruction} (h : .life ∈ i.footprint) : i = .stop ∨ i = .quit := by
  cases i <;> simp [footprint] at h ⊢

theorem quit_mem_footprint {i : Instruction} (h : .quit ∈ i.footprint) : i = .quit := by
  cases i <;> simp [footprint] at h ⊢

theorem resigned {i : Instruction} (single : i ≠ .iterate) (iteration : Action Unit) {f : Focus}
    (h : f.Resigned) : (i.perform iteration f).2.Resigned := by
  by_cases dies : .life ∈ i.footprint
  · rcases life_mem_footprint dies with rfl | rfl
    · exact ⟨fun _ => rfl, h.newborns⟩
    · exact ⟨fun _ => rfl, h.newborns⟩
  · by_cases bears : .newborns ∈ i.footprint
    · obtain rfl := newborns_mem_footprint bears
      exact Action.split_resigned h
    · refine h.of_differs (i.touches single iteration f) dies ?_ bears
      intro asks
      obtain rfl := quit_mem_footprint asks
      exact dies (by decide)

end Instruction

theorem Focus.Resigned.step {f : Focus} (h : f.Resigned) : f.step.2.Resigned := by
  refine Focus.step_follows (R := fun f g => f.Resigned → g.Resigned) ?_ ?_ ?_ f h
  · exact fun _ _ _ first second => second ∘ first
  · exact fun _ _ frame h => h.of_differs frame (by decide) (by decide) (by decide)
  · exact fun _ single iteration _ h => Instruction.resigned single iteration h

namespace Action

/-- The pointer has not asked to quit. -/
def Silent (f : Focus) : Prop := f.pointer.quit = none

theorem Touches.silent {α : Type} {parts : List Part} {a : Action α} (h : Touches parts a)
    (quit : .quit ∉ parts) : Meets Silent a (fun _ => Silent) (fun _ => Silent) := by
  intro f silent
  have same : (a f).2.pointer.quit = f.pointer.quit := h f .quit quit
  have kept := same.trans silent
  rcases run : a f with ⟨result, g⟩
  rw [run] at kept
  cases result with
  | ok x => exact kept
  | error e => exact kept

/-- If the action fails, it has not asked to quit, and if it succeeds and has, the pointer is dead. -/
def Quits (a : Action Unit) : Prop :=
  Meets Silent a (fun _ f => f.pointer.Resigned) (fun _ => Silent)

theorem Touches.quits {parts : List Part} {a : Action Unit} (h : Touches parts a)
    (quit : .quit ∉ parts) : Quits a :=
  (h.silent quit).mono (fun _ silent => silent) (fun _ _ silent => .of_none silent)
    fun _ _ silent => silent

theorem quits_perform {i : Instruction} (single : i ≠ .iterate) (iteration : Action Unit) :
    Quits (i.perform iteration) := by
  by_cases asks : .quit ∈ i.footprint
  · obtain rfl := Instruction.quit_mem_footprint asks
    exact fun f _ _ => rfl
  · exact (i.touches single iteration).quits asks

theorem quits_iterate {execution : Cell → Action Unit} (h : ∀ code, Quits (execution code)) :
    Quits (iterate execution) := by
  have idle {α : Type} {a : Action α} (moves : Touches Part.motion a) :
      Meets Silent a (fun _ => Silent) (fun _ => Silent) := moves.silent (by decide)
  refine Meets.bind (idle (touches_pop (by decide))) fun n => ?_
  refine Meets.bind (idle touches_pointer) fun p => ?_
  refine Meets.bind (idle touches_world) fun w => ?_
  refine Meets.bind (idle (touches_attempt _ _)) fun target => ?_
  have moves : Touches Part.motion (moveTo target) := touches_moveTo (by decide) target
  split
  · exact moves.quits (by decide)
  split
  · exact Meets.throw fun _ silent => silent
  refine Meets.bind (idle (touches_readSpace target)) fun code => ?_
  refine Meets.bind ((h code).repeatAlive_of (fun _ silent => .of_none silent) ?_ n.toCount)
    fun _ => ?_
  · -- Only a live pointer goes on to the next turn, and that one has not asked.
    exact fun f resigned alive => resigned.silent alive
  · have read : Meets (fun f => f.pointer.Resigned) pointer (fun _ f => f.pointer.Resigned)
        (fun _ => Silent) := Meets.pointer fun _ resigned => resigned
    refine Meets.bind read fun q => ?_
    split
    · exact Meets.modifyPointer fun _ resigned => resigned
    · exact Meets.pure fun _ resigned => resigned

theorem quits_execute (depth : Nat) (code : Cell) : Quits (execute depth code) := by
  induction depth generalizing code with
  | zero => exact Meets.throw fun _ silent => silent
  | succ depth ih =>
    have idle : Touches Part.motion (resolve code) := touches_resolve code
    refine Meets.bind (idle.silent (by decide)) fun i => ?_
    cases i with
    | none =>
      have moves : Touches Part.motion (unknown code) := touches_unknown (by decide) code
      exact moves.quits (by decide)
    | some i =>
      by_cases single : i = .iterate
      · subst single
        exact quits_iterate ih
      · exact quits_perform single _

end Action

namespace Focus

theorem quit_of_motion {f g : Focus} (frame : f.Differs Part.motion g) :
    g.pointer.quit = f.pointer.quit := frame .quit (by decide)

/-- A step in which the pointer has asked to quit succeeds. -/
theorem step_ok_of_quit {f : Focus} {code : Cell} (silent : f.pointer.quit = none)
    (asked : f.step.2.pointer.quit = some code) : f.step.1 = .ok () := by
  have unasked {g : Focus} (kept : g.pointer.quit = none) : g.pointer.quit ≠ some code := by
    rw [kept]
    exact (Option.some_ne_none code).symm
  have unmoved {g : Focus} (kept : g.pointer.quit = none) : g.advance.2.pointer.quit ≠ some code :=
    unasked ((quit_of_motion g.differs_advance).trans kept)
  revert asked
  unfold step
  split
  · exact fun asked => absurd asked (unasked silent)
  · rename_i cell _
    split
    · exact fun asked => absurd asked
        (unmoved ((quit_of_motion (f.differs_spell cell)).trans silent))
    · have ends := Action.quits_execute Action.maxNesting cell
        (f.note (.executed f.pointer.id f.pointer.position cell)) silent
      split
      · rename_i g run
        rw [← execute, run] at ends
        intro asked
        -- A pointer that lives on has not asked, and a dead one does not move.
        by_cases alive : g.pointer.alive = true
        · exact absurd asked (unmoved (Pointer.Resigned.silent ends alive))
        · rw [advance, if_neg alive]
      · rename_i e g run
        rw [← execute, run] at ends
        exact fun asked => absurd asked (unasked ends)
      · rename_i e g _ run
        rw [← execute, run] at ends
        exact fun asked => absurd asked (unmoved ends)

end Focus

namespace Machine

variable {settings : Settings} {host : Host} {m : Machine} {code : Cell}

/-- What holds of every new pointer and is kept by every step holds of all pointers that can be
reached. -/
theorem Reachable.all_pointers {A : Pointer → Prop}
    (fresh : ∀ id dims position, A { Pointer.start id dims with position })
    (steps : ∀ f : Focus, A f.pointer → (∀ child ∈ f.world.newborns, A child.1) →
      A f.step.2.pointer ∧ ∀ child ∈ f.step.2.world.newborns, A child.1)
    (reached : Reachable settings host m) : ∀ p ∈ m.pointers, A p := by
  have unborn : ∀ child ∈ (#[] : Array (Pointer × Nat)), A child.1 :=
    fun child member => absurd member (Array.not_mem_empty child)
  have both : (∀ child ∈ m.world.newborns, A child.1) ∧ ∀ p ∈ m.pointers, A p := by
    refine reached.invariant
      (P := fun m => (∀ child ∈ m.world.newborns, A child.1) ∧ ∀ p ∈ m.pointers, A p) ?_ ?_ ?_ ?_ ?_
    · exact ⟨unborn, fun p member => (by cases member)⟩
    · rintro m ⟨newborns, pointers⟩ _
      unfold Machine.spawn
      simp only
      split
      · exact ⟨newborns, pointers⟩
      · rename_i p settled
        obtain ⟨position, rfl⟩ := Pointer.settle_eq settled
        refine ⟨newborns, List.forall_mem_append.mpr ⟨pointers, ?_⟩⟩
        exact List.forall_mem_singleton.mpr (fresh _ _ position)
    · exact fun _ _ both => both
    · rintro m ⟨newborns, pointers⟩ _
      by_cases going : m.exit = none
      · obtain ⟨born, stepped⟩ := stepAll_keeps
          (B := fun w => ∀ child ∈ w.newborns, A child.1) steps newborns pointers
        rcases tick_cases going with ⟨e, ps, w, passed, ticked⟩ |
          ⟨id, code, ps, w, journal, passed, ticked⟩ | ⟨ps, w, journal, passed, ticked⟩
        · rw [passed] at born stepped
          rw [ticked]
          exact ⟨born, stepped⟩
        · rw [passed] at born stepped
          rw [ticked]
          exact ⟨unborn, stepped⟩
        · rw [passed] at born stepped
          rw [ticked]
          refine ⟨unborn, ?_⟩
          intro p member
          rcases mem_adopt (List.mem_filter.mp member).1 with old | ⟨parent, new⟩
          · exact stepped p old
          · exact born (p, parent) (Array.mem_toList_iff.mp new)
      · rw [tick_of_quit going]
        exact ⟨newborns, pointers⟩
    · exact fun _ _ both => both
  exact both.2

/-- In a machine that has not quit, no pointer has asked to. -/
theorem Reachable.silent (reached : Reachable settings host m) (going : m.exit = none) :
    ∀ p ∈ m.pointers, p.quit = none := by
  have resigned := reached.all_pointers (A := Pointer.Resigned) (fun _ _ _ => .of_none rfl)
    fun f pointer newborns => by
      have kept := Focus.Resigned.step ⟨pointer, newborns⟩
      exact ⟨kept.pointer, kept.newborns⟩
  intro p member
  exact (resigned p member).silent ((reached.orderly going).living p member)

theorem Turns.ids {w after : World} {ps : List Pointer} {turns : List Turned}
    (turned : Turns w ps turns after) : turns.map (·.pointer.id) = ps.map (·.id) := by
  induction turned with
  | done w => rfl
  | @step w after p ps f children turns stepped _ _ ih =>
    obtain ⟨_, born⟩ := Focus.step_born ⟨p, w⟩
    rw [stepped] at born
    rw [List.map_cons, List.map_cons, ih]
    exact congrArg (· :: _) born.same

/-- A pointer whose step succeeds takes its turn. -/
theorem Turns.single {p : Pointer} {w : World} (stepped : (Focus.step ⟨p, w⟩).1 = .ok ()) :
    ∃ children, Turns w [p] [⟨children, (Focus.step ⟨p, w⟩).2.pointer⟩]
      (Focus.step ⟨p, w⟩).2.world := by
  obtain ⟨children, born⟩ := Focus.step_born ⟨p, w⟩
  exact ⟨children, .step (Prod.fst_eq_iff.mp stepped) born.listed (.done _)⟩

/-- A pass goes on after the turns of live pointers that have not asked to quit. -/
theorem stepAll_turns {w after : World} {ps : List Pointer} {turns : List Turned}
    (turned : Turns w ps turns after) (living : ∀ p ∈ ps, p.alive = true)
    (silent : ∀ t ∈ turns, t.pointer.quit = none) (rest : List Pointer) :
    stepAll w (ps ++ rest) =
      let pass := stepAll after rest
      (pass.1, turns.map Turned.pointer ++ pass.2.1, pass.2.2) := by
  induction turned with
  | done w => rfl
  | step stepped _ _ ih =>
    obtain ⟨alive, living⟩ := List.forall_mem_cons.mp living
    obtain ⟨unasked, silent⟩ := List.forall_mem_cons.mp silent
    have later := ih living silent
    dsimp only at unasked
    simp [stepAll, alive, stepped, unasked, later]

/-- A pass ends with the turn of a pointer that asks to quit. -/
theorem stepAll_quit {w : World} {p : Pointer} (alive : p.alive = true) (silent : p.quit = none)
    (asked : (Focus.step ⟨p, w⟩).2.pointer.quit = some code) (rest : List Pointer) :
    stepAll w (p :: rest) =
      let f := (Focus.step ⟨p, w⟩).2
      (.quit f.pointer.id code, f.pointer :: rest, f.world) := by
  have stepped : Focus.step ⟨p, w⟩ = (.ok (), (Focus.step ⟨p, w⟩).2) :=
    Prod.ext (Focus.step_ok_of_quit silent asked) rfl
  rw [stepAll, if_pos alive, stepped]
  simp only [asked]

theorem tick_of_pass {id : Nat} {ps : List Pointer} {w : World} (going : m.exit = none)
    (passed : stepAll m.world m.pointers = (.quit id code, ps, w)) :
    m.tick = (.ok (), ⟨{ w.note (.quit id code (m.ticks + 1)) with newborns := #[] }, ps,
      m.ticks + 1, some code⟩) := by
  simp [tick, hasQuit, going, passed]

theorem run_of_quit (quit : m.exit = some code) : m.run = (.ok code, m) := by
  obtain ⟨bound, room⟩ := Nat.exists_eq_succ_of_ne_zero (show maxRun ≠ 0 by decide)
  have ended : m.turn = .over (.ok code) m := by
    simp [turn, finished, hasQuit, exitCode, quit]
  rw [run, room, runFor, ended]

theorem exit_spawn (m : Machine) : m.spawn.2.exit = m.exit := by
  unfold spawn
  simp only
  split <;> rfl

theorem exit_load (m : Machine) (source : List UInt8) : (m.load source).2.exit = m.exit := by
  rw [load_eq]
  split
  · rfl
  · exact exit_spawn _

/-- A machine that has quit stays so, whatever is asked of it. -/
theorem exit_of_calls (quit : m.exit = some code) (calls : List Call) :
    (calls.foldl Call.apply m).exit = some code := by
  induction calls generalizing m with
  | nil => exact quit
  | cons call calls ih =>
    apply ih
    cases call with
    | load source => exact (exit_load m source).trans quit
    | spawn => exact (exit_spawn m).trans quit
    | tick => rw [Call.apply, tick_of_quit (by simp [quit]), quit]
    | run => rw [Call.apply, run_of_quit quit, quit]
    | surround other => exact quit

/-- Ticks and runs leave it as it is. -/
theorem still_of_calls (quit : m.exit = some code) {calls : List Call}
    (turns : ∀ call ∈ calls, call = .tick ∨ call = .run) : calls.foldl Call.apply m = m := by
  induction calls with
  | nil => rfl
  | cons call calls ih =>
    obtain ⟨first, others⟩ := List.forall_mem_cons.mp turns
    have still : call.apply m = m := by
      rcases first with rfl | rfl
      · rw [Call.apply, tick_of_quit (by simp [quit])]
      · rw [Call.apply, run_of_quit quit]
    rw [List.foldl_cons, still, ih others]

/-- When the pointers before one have taken their turns in a tick and have not asked to quit, and
that one does so in its own turn, the tick ends there and succeeds. All these turns count, the
pointers after it are as they were, none is put in and none is removed, and no child is left
waiting. From then on ticks and runs change nothing, and whatever else is asked of the machine in
between, a run gives the exit code at once. -/
theorem quit_freezes {before after : List Pointer} {p : Pointer} {turns : List Turned} {w : World}
    (reached : Reachable settings host m) (going : m.exit = none)
    (listed : m.pointers = before ++ p :: after) (turned : Turns m.world before turns w)
    (silent : ∀ t ∈ turns, t.pointer.quit = none)
    (asked : (Focus.step ⟨p, w⟩).2.pointer.quit = some code) :
    let last := (Focus.step ⟨p, w⟩).2
    ∃ m', m.tick = (.ok (), m') ∧
      m'.pointers = turns.map Turned.pointer ++ last.pointer :: after ∧
      m'.pointers.map (·.id) = m.pointers.map (·.id) ∧
      m'.world = { last.world.note (.quit last.pointer.id code (m.ticks + 1)) with newborns := #[] } ∧
      m'.ticks = m.ticks + 1 ∧ m'.hasQuit = true ∧ m'.exitCode = code ∧
      ∀ calls : List Call, let n := calls.foldl Call.apply m'
        n.tick = (.ok (), n) ∧ n.run = (.ok code, n) ∧
        ((∀ call ∈ calls, call = .tick ∨ call = .run) → n = m') := by
  intro last
  have living := (reached.orderly going).living
  have unasked := reached.silent going
  rw [listed] at living unasked
  obtain ⟨earlier, others⟩ := List.forall_mem_append.mp living
  have passed : stepAll m.world m.pointers = (.quit last.pointer.id code,
      turns.map Turned.pointer ++ last.pointer :: after, last.world) := by
    rw [listed, stepAll_turns turned earlier silent, stepAll_quit (others p List.mem_cons_self)
      (unasked p (List.mem_append_right before List.mem_cons_self)) asked]
  have named : last.pointer.id = p.id := by
    obtain ⟨_, born⟩ := Focus.step_born ⟨p, w⟩
    exact born.same
  refine ⟨_, tick_of_pass going passed, rfl, ?_, rfl, rfl, rfl, rfl, ?_⟩
  · simp only [listed, List.map_append, List.map_cons, List.map_map, ← turned.ids, named]
    rfl
  · intro calls n
    have quit : n.exit = some code := exit_of_calls rfl calls
    exact ⟨tick_of_quit (by simp [quit]), run_of_quit quit, still_of_calls rfl⟩

/-- A machine in which a pointer is about to split, one to quit, and a third one has just begun. -/
def bailing : Machine :=
  ((standard {} .bare).load [116, 55, 50, 107, 113, 116, 122, 122]).2.tick.2.tick.2.tick.2.spawn.2

/-- Its pointer at a place in the list. -/
def bailingPointer (place : Nat) : Pointer := bailing.pointers.getD place (Pointer.start 0 2)

/-- The child of the first pointer is dropped, the second one quits at the first of two repetitions,
and the third one waits for good. -/
theorem bailing_freezes :
    bailing.pointers.map (·.id) = [1, 0, 2] ∧
    ∃ m', bailing.tick = (.ok (), m') ∧ m'.pointers.map (·.id) = [1, 0, 2] ∧
      m'.world.newborns = #[] ∧ m'.exitCode = 7 ∧ m'.tick = (.ok (), m') ∧ m'.run = (.ok 7, m') := by
  have ids : bailing.pointers.map (·.id) = [1, 0, 2] := by decide +kernel
  have returned :
      let loaded := (standard {} .bare).load [116, 55, 50, 107, 113, 116, 122, 122]
      loaded.1 = .ok 0 ∧ loaded.2.tick.1 = .ok () ∧ loaded.2.tick.2.tick.1 = .ok () ∧
      loaded.2.tick.2.tick.2.tick.1 = .ok () ∧ loaded.2.tick.2.tick.2.tick.2.spawn.1 = .ok 2 := by
    decide +kernel
  obtain ⟨loaded, first, second, third, spawned⟩ := returned
  have reached : Reachable {} .bare bailing :=
    .spawn (.tick (.tick (.tick (.load _ .start (.of_ok loaded)) (.of_ok first)) (.of_ok second))
      (.of_ok third)) (.of_ok spawned)
  have listed : bailing.pointers = [bailingPointer 0] ++ bailingPointer 1 :: [bailingPointer 2] := by
    have three : bailing.pointers.length = 3 := by decide +kernel
    unfold bailingPointer
    generalize bailing.pointers = ps at three ⊢
    match ps, three with
    | [_, _, _], _ => rfl
  obtain ⟨children, turned⟩ := Turns.single (p := bailingPointer 0) (w := bailing.world)
    (by decide +kernel)
  have silent : (Focus.step ⟨bailingPointer 0, bailing.world⟩).2.pointer.quit = none := by
    decide +kernel
  have asked : (Focus.step ⟨bailingPointer 1,
      (Focus.step ⟨bailingPointer 0, bailing.world⟩).2.world⟩).2.pointer.quit = some 7 := by
    decide +kernel
  obtain ⟨m', ticked, _, kept, world, _, _, exit, frozen⟩ := quit_freezes reached
    (by decide +kernel) listed turned (by simpa using silent) asked
  exact ⟨ids, m', ticked, kept.trans ids, by rw [world], exit, (frozen []).1, (frozen []).2.1⟩

end Machine

end Funge
