import Funge.Proofs.Soundness

/-!
# Where faults come from

When a tick breaks off with a fault, the pointer it was at accounts for it: either its walk to the
next cell or its search for one has that fault, ahead or behind, or a search had no end, or
iterations were nested too deeply. No other instruction raises a fault, whatever its operands.
-/

namespace Funge

/-- The focus accounts for a fault. -/
inductive Focus.Breaks (f : Focus) : Fault → Prop
  | walk {cause : Fault} : f.pointer.adjacent f.world.space = .error cause → Breaks f cause
  | search {cause : Fault} : f.pointer.nextPosition f.world.space = .error (.fault cause) →
      Breaks f cause
  /-- The search of a child that starts out in the opposite direction. -/
  | back {cause : Fault} : f.pointer.reflect.nextPosition f.world.space = .error (.fault cause) →
      Breaks f cause
  | endless : Breaks f .endless
  | nesting : Breaks f .nesting

namespace OpError

def isFault : OpError → Bool
  | .fatal (.fault _) => true
  | _ => false

theorem not_fault_of_local {e : OpError} (h : e.isFatal = false) : e.isFault = false := by
  cases e with
  | fatal cause => cases h
  | _ => rfl

theorem not_fault_ofSpace (e : SpaceError) : (ofSpace e).isFault = false := by cases e <;> rfl

theorem not_fault_ofStack (e : StackError) : (ofStack e).isFault = false := by cases e <;> rfl

end OpError

namespace Action

variable {α β : Type}

/-- Every fault that the action raises is accounted for where it ends. -/
def Accounted (a : Action α) : Prop :=
  Meets (fun _ => True) a (fun _ _ => True) fun e f => ∀ cause, e = .fatal (.fault cause) → f.Breaks cause

theorem Accounted.bind {a : Action α} {k : α → Action β} (first : Accounted a)
    (rest : ∀ x, Accounted (k x)) : Accounted (a >>= k) :=
  Meets.bind first rest

/-- An action that always succeeds raises nothing. -/
theorem accounted_of_ok {a : Action α} (h : ∀ f, ∃ x g, a f = (.ok x, g)) : Accounted a := by
  intro f _
  obtain ⟨x, g, ran⟩ := h f
  rw [ran]
  trivial

theorem accounted_throw {e : OpError} (h : e.isFault = false) : Accounted (throw e : Action α) := by
  rintro f _ cause rfl
  cases h

theorem accounted_attempt {ε : Type} {failure : ε → OpError} {result : Except ε α}
    (h : ∀ e, result = .error e → (failure e).isFault = false) :
    Accounted (attempt failure result) := by
  cases result with
  | ok x => exact accounted_of_ok fun f => ⟨x, f, rfl⟩
  | error e => exact accounted_throw (h e rfl)

theorem Accounted.guard {c : Prop} [Decidable c] {e : OpError} {k : Action β}
    (h : e.isFault = false) (rest : Accounted k) :
    Accounted (if c then (throw e : Action Unit) >>= fun _ => k else k) := by
  split
  · exact (accounted_throw h).bind fun _ => rest
  · exact rest

theorem accounted_pure (x : α) : Accounted (pure x : Action α) := accounted_of_ok fun f => ⟨x, f, rfl⟩

theorem accounted_pointer : Accounted pointer := accounted_of_ok fun _ => ⟨_, _, rfl⟩

theorem accounted_world : Accounted world := accounted_of_ok fun _ => ⟨_, _, rfl⟩

theorem accounted_modifyPointer (change : Pointer → Pointer) : Accounted (modifyPointer change) :=
  accounted_of_ok fun _ => ⟨_, _, rfl⟩

theorem accounted_modifyWorld (change : World → World) : Accounted (modifyWorld change) :=
  accounted_of_ok fun _ => ⟨_, _, rfl⟩

theorem accounted_note (e : Event) : Accounted (note e) := accounted_of_ok fun _ => ⟨_, _, rfl⟩

theorem accounted_draw (take : Pointer → α × Pointer) : Accounted (draw take) :=
  accounted_of_ok fun _ => ⟨_, _, rfl⟩

theorem accounted_pop : Accounted pop := accounted_draw _

theorem accounted_popVec : Accounted popVec := accounted_draw _

theorem accounted_push (v : Cell) : Accounted (push v) := accounted_modifyPointer _

theorem accounted_moveTo (v : Vec) : Accounted (moveTo v) := accounted_modifyPointer _

theorem accounted_readSpace (v : Vec) : Accounted (readSpace v) :=
  accounted_world.bind fun _ => accounted_attempt fun e _ => OpError.not_fault_ofSpace e

theorem accounted_writeSpace (v : Vec) (c : Cell) : Accounted (writeSpace v c) := by
  refine accounted_world.bind fun w => ?_
  exact (accounted_attempt fun e _ => OpError.not_fault_ofSpace e).bind fun _ =>
    accounted_modifyWorld _

theorem accounted_switchTo (mirror : Cell) : Accounted (switchTo mirror) := by
  refine accounted_pointer.bind fun p => ?_
  split
  · exact accounted_writeSpace _ _
  · exact accounted_pure _

section Walks

theorem accounted_adjacent : Accounted adjacent := by
  intro f _
  have ran : adjacent f = attempt (fun fault => .fatal (.fault fault))
      (f.pointer.adjacent f.world.space) f := rfl
  rw [ran]
  cases walked : f.pointer.adjacent f.world.space with
  | ok v => trivial
  | error fault =>
    rintro cause ⟨⟩
    exact .walk walked

/-- A search for the end of a comment breaks off where the next cell has no answer. -/
theorem skipComment_breaks {w : World} (home : Vec) (bound : Nat) {p q : Pointer} {cause : Fault}
    (h : p.skipComment w.space home bound = (.error (.fault cause), q)) :
    Focus.Breaks ⟨q, w⟩ cause := by
  induction bound generalizing p with
  | zero =>
    cases h
    exact .endless
  | succ bound ih =>
    rw [Pointer.skipComment] at h
    cases walked : p.adjacent w.space with
    | error fault =>
      rw [walked] at h
      cases h
      exact .walk walked
    | ok next =>
      simp only [walked] at h
      split at h
      · cases h
      · split at h
        · cases h
        · split at h
          · cases h
          · exact ih h

theorem accounted_jumpOver : Accounted jumpOver := by
  intro f _
  rcases ran : f.pointer.skipComment f.world.space f.pointer.position Pointer.pathBound
    with ⟨result, q⟩
  have skipped : jumpOver f = attempt .fatal result { f with pointer := q } := by
    rw [jumpOver, run_bind_ok (run_pointer f), run_bind_ok (run_world f)]
    simp only [ran]
    rfl
  rw [skipped]
  cases result with
  | ok x => trivial
  | error e =>
    rintro cause ⟨⟩
    exact skipComment_breaks _ _ ran

theorem accounted_trampoline : Accounted trampoline :=
  accounted_adjacent.bind fun _ => accounted_moveTo _

theorem accounted_fetch : Accounted fetch := by
  refine accounted_adjacent.bind fun next => ?_
  refine (accounted_readSpace next).bind fun c => ?_
  exact (accounted_push c).bind fun _ => accounted_moveTo next

theorem accounted_store : Accounted store := by
  refine accounted_adjacent.bind fun next => ?_
  refine accounted_pop.bind fun c => ?_
  exact (accounted_writeSpace next c).bind fun _ => accounted_moveTo next

theorem accounted_jump : Accounted jump := by
  refine accounted_pop.bind fun n => ?_
  exact accounted_pointer.bind fun p => accounted_world.bind fun w => accounted_moveTo _

/-- The search of the child is that of its parent turned around. -/
theorem split_breaks {p : Pointer} {w : World} {id : Nat} {cause : Fault}
    (h : p.split id w.space = .error (.fault cause)) : Focus.Breaks ⟨p, w⟩ cause := by
  have same : ({ p with id := id, delta := -p.delta, alive := true, instances := .empty, quit := none } :
      Pointer).nextPosition w.space = p.reflect.nextPosition w.space := rfl
  simp only [Pointer.split, same, bind, Except.bind] at h
  cases found : p.reflect.nextPosition w.space with
  | ok position => simp [found, pure, Except.pure] at h
  | error e =>
    simp only [found, Except.error.injEq] at h
    subst h
    exact .back found

theorem accounted_split : Accounted split := by
  intro f _
  rw [split, run_bind_ok (run_nextId f), run_bind_ok (run_pointer _), run_bind_ok (run_world _)]
  cases made : f.pointer.split f.world.nextId f.world.space with
  | ok child => trivial
  | error e =>
    rintro cause ⟨⟩
    exact split_breaks made

theorem accounted_turn (left : Bool) : Accounted (turn left) := by
  refine accounted_pointer.bind fun p => ?_
  refine (accounted_attempt ?_).bind fun _ => ?_
  · intro e refused
    unfold Pointer.requireDims at refused
    split at refused
    · cases refused
      rfl
    · cases refused
  exact (accounted_switchTo _).bind fun _ => accounted_modifyPointer _

theorem accounted_wander : Accounted wander := by
  refine accounted_pointer.bind fun p => accounted_world.bind fun w => ?_
  exact (accounted_modifyWorld _).bind fun _ => accounted_modifyPointer _

end Walks

section Others

/-- A load that is refused for its instancing is fatal, but no fault. -/
theorem load_not_fault {p : Pointer} {r : Registry} {shared : InstanceStore} {code : Handprint}
    {e : OpError} (h : p.load r shared code = .error e) : e.isFault = false := by
  unfold Pointer.load at h
  split at h
  · cases h
    rfl
  · rename_i fp _
    cases stores : p.ensureInstance r shared fp code with
    | ok made => simp [stores, bind, Except.bind, pure, Except.pure] at h
    | error e' =>
      simp only [stores, bind, Except.bind, Except.error.injEq] at h
      subst h
      by_cases supported : fp.instancing = .space
      · simp only [Pointer.ensureInstance, supported, Except.error.injEq] at stores
        subst stores
        rfl
      · exact OpError.not_fault_of_local (Pointer.ensureInstance_local supported stores)

theorem accounted_stored (v : Vec) : Accounted (stored v) :=
  accounted_pointer.bind fun _ => accounted_pure _

theorem accounted_getCell : Accounted getCell := by
  refine accounted_popVec.bind fun v => ?_
  refine (accounted_stored v).bind fun u => ?_
  exact (accounted_readSpace u).bind fun c => accounted_push c

theorem accounted_putCell : Accounted putCell := by
  refine accounted_popVec.bind fun v => ?_
  refine accounted_pop.bind fun c => ?_
  exact (accounted_stored v).bind fun u => accounted_writeSpace u c

theorem accounted_second : Accounted second := by
  refine accounted_pointer.bind fun p => ?_
  split
  · exact accounted_pure _
  · exact accounted_throw rfl

theorem accounted_restack (change : StackStack → Except StackError Unit × StackStack) :
    Accounted (restack change) := by
  refine accounted_pointer.bind fun p => (accounted_modifyPointer _).bind fun _ => ?_
  exact accounted_attempt fun e _ => OpError.not_fault_ofStack e

theorem accounted_beginBlock : Accounted beginBlock := by
  refine accounted_pop.bind fun n => (accounted_restack _).bind fun _ => ?_
  refine accounted_pointer.bind fun q => ?_
  refine (accounted_modifyPointer _).bind fun _ => accounted_second.bind fun s => ?_
  exact (accounted_modifyPointer _).bind fun _ => accounted_switchTo _

theorem accounted_endBlock : Accounted endBlock := by
  refine accounted_second.bind fun _ => accounted_pop.bind fun n => ?_
  refine accounted_pointer.bind fun p => Accounted.guard rfl ?_
  refine accounted_second.bind fun s => (accounted_modifyPointer _).bind fun _ => ?_
  refine (accounted_modifyPointer _).bind fun _ => ?_
  exact (accounted_restack _).bind fun _ => accounted_switchTo _

theorem accounted_transfer : Accounted transfer :=
  accounted_second.bind fun _ => accounted_pop.bind fun _ => accounted_restack _

theorem accounted_setHost (host : Host) : Accounted (setHost host) := accounted_modifyWorld _

theorem accounted_writeChar : Accounted writeChar := by
  refine accounted_pop.bind fun v => accounted_world.bind fun w => ?_
  exact (accounted_attempt fun _ _ => rfl).bind fun host => accounted_setHost host

theorem accounted_writeNumber (radix : Nat) : Accounted (writeNumber radix) := by
  refine accounted_pop.bind fun v => accounted_world.bind fun w => ?_
  exact (accounted_attempt fun _ _ => rfl).bind fun host => accounted_setHost host

theorem accounted_popRadix : Accounted popRadix := by
  refine accounted_pop.bind fun v => ?_
  split
  · exact accounted_pure _
  · exact accounted_throw rfl

theorem accounted_deliver (value : Option Cell) :
    Accounted (match value with
      | some v => push v
      | none => throw .inputExhausted : Action Unit) := by
  cases value with
  | some v => exact accounted_push v
  | none => exact accounted_throw rfl

theorem accounted_readNumberFrom (radix : Nat) : Accounted (readNumberFrom radix) := by
  refine accounted_world.bind fun w => ?_
  refine (accounted_attempt fun _ _ => rfl).bind fun reading => ?_
  exact (accounted_setHost reading.2).bind fun _ => accounted_deliver reading.1

theorem accounted_readChar : Accounted readChar := by
  refine accounted_world.bind fun w => ?_
  exact (accounted_setHost w.host.readChar.2).bind fun _ => accounted_deliver w.host.readChar.1

theorem accounted_loadFile : Accounted loadFile := by
  refine (accounted_draw _).bind fun path => accounted_pop.bind fun flags => ?_
  refine accounted_popVec.bind fun origin => accounted_world.bind fun w => ?_
  refine (accounted_attempt fun _ _ => rfl).bind fun source => ?_
  refine (accounted_stored origin).bind fun place => (accounted_modifyWorld _).bind fun _ => ?_
  refine (accounted_attempt fun e _ => OpError.not_fault_ofSpace e).bind fun size => ?_
  refine accounted_pointer.bind fun p => (accounted_note _).bind fun _ => ?_
  exact (accounted_modifyPointer _).bind fun _ => accounted_modifyPointer _

theorem accounted_saveFile : Accounted saveFile := by
  refine (accounted_draw _).bind fun path => accounted_pop.bind fun flags => ?_
  refine accounted_popVec.bind fun origin => accounted_popVec.bind fun size => ?_
  refine (accounted_stored origin).bind fun place => accounted_world.bind fun w => ?_
  refine (accounted_attempt fun e _ => OpError.not_fault_ofSpace e).bind fun text => ?_
  refine (accounted_attempt fun _ _ => rfl).bind fun folder => ?_
  exact (accounted_setHost _).bind fun _ => accounted_pointer.bind fun p => accounted_note _

theorem accounted_report : Accounted report := by
  refine accounted_pop.bind fun n => accounted_pointer.bind fun p => accounted_world.bind fun w => ?_
  split
  · exact accounted_modifyPointer _
  · exact accounted_push _

theorem accounted_popHandprint : Accounted popHandprint := by
  refine accounted_pop.bind fun count => Accounted.guard rfl ?_
  exact accounted_pointer.bind fun p => (accounted_draw _).bind fun cells => accounted_pure _

theorem accounted_loadSemantics : Accounted loadSemantics := by
  refine accounted_popHandprint.bind fun code => Accounted.bind ?_ fun _ => ?_
  · refine accounted_world.bind fun w => accounted_pointer.bind fun p => ?_
    refine (accounted_attempt fun e => load_not_fault).bind fun loaded => ?_
    refine (accounted_modifyPointer _).bind fun _ => ?_
    exact (accounted_modifyWorld _).bind fun _ => accounted_note _
  · refine (accounted_switchTo _).bind fun _ => ?_
    exact (accounted_push _).bind fun _ => accounted_push 1

theorem accounted_unloadSemantics : Accounted unloadSemantics := by
  refine accounted_popHandprint.bind fun code => Accounted.bind ?_ fun _ => accounted_switchTo _
  refine accounted_pointer.bind fun p => accounted_world.bind fun w => ?_
  refine (accounted_attempt fun e refused => ?_).bind fun unloaded => ?_
  · exact OpError.not_fault_of_local (Pointer.unload_local refused)
  · exact (accounted_modifyPointer _).bind fun _ => accounted_note _

theorem accounted_references : Accounted references := by
  refine accounted_world.bind fun w => ?_
  refine (accounted_attempt fun e refused => ?_).bind fun shared => ?_
  · exact OpError.not_fault_of_local (InstanceStore.ensure_local refused)
  refine (accounted_modifyWorld _).bind fun _ => ?_
  split
  · exact accounted_pure _
  · exact accounted_throw rfl

theorem accounted_refer : Accounted refer := by
  refine accounted_popVec.bind fun v => accounted_references.bind fun table => ?_
  exact (accounted_modifyWorld _).bind fun _ => accounted_push _

theorem accounted_dereference : Accounted dereference := by
  refine accounted_pop.bind fun r => accounted_references.bind fun table => ?_
  split
  · exact accounted_modifyPointer _
  · exact accounted_throw rfl

theorem accounted_timer : Accounted timer := by
  refine accounted_pointer.bind fun p => accounted_world.bind fun w => ?_
  refine (accounted_attempt fun e refused => ?_).bind fun own => ?_
  · exact OpError.not_fault_of_local (InstanceStore.ensure_local refused)
  refine (accounted_modifyPointer _).bind fun _ => ?_
  split
  · exact accounted_pure _
  · exact accounted_throw rfl

theorem accounted_markTimer : Accounted markTimer :=
  accounted_timer.bind fun _ => accounted_world.bind fun _ => accounted_modifyPointer _

theorem accounted_readTimer : Accounted readTimer := by
  refine accounted_timer.bind fun mark => ?_
  cases mark with
  | some mark => exact accounted_world.bind fun w => accounted_push _
  | none => exact accounted_throw rfl

theorem accounted_course (c : Course) (iteration : Action Unit) :
    Accounted (Instruction.perform iteration (.course c)) := by
  refine accounted_pointer.bind fun p => ?_
  rw [Course.apply_eq]
  refine (accounted_attempt ?_).bind fun q => accounted_modifyPointer _
  intro e refused
  split at refused
  · cases refused
    rfl
  · cases refused

theorem accounted_stop : Accounted stop :=
  accounted_pointer.bind fun _ => (accounted_note _).bind fun _ => accounted_modifyPointer _

theorem accounted_quit : Accounted quit := by
  refine accounted_pop.bind fun code => accounted_pointer.bind fun p => ?_
  exact (accounted_note _).bind fun _ => accounted_modifyPointer _

end Others

theorem accounted_perform {iteration : Action Unit} (h : Accounted iteration) (i : Instruction) :
    Accounted (i.perform iteration) := by
  cases i with
  | operand o => exact accounted_modifyPointer _
  | course c => exact accounted_course c iteration
  | wander => exact accounted_wander
  | turn left => exact accounted_turn left
  | trampoline => exact accounted_trampoline
  | jump => exact accounted_jump
  | jumpOver => exact accounted_jumpOver
  | fetch => exact accounted_fetch
  | store => exact accounted_store
  | get => exact accounted_getCell
  | put => exact accounted_putCell
  | beginBlock => exact accounted_beginBlock
  | endBlock => exact accounted_endBlock
  | transfer => exact accounted_transfer
  | writeNumber radix => exact accounted_writeNumber radix
  | writeNumberIn => exact accounted_popRadix.bind fun radix => accounted_writeNumber radix
  | writeChar => exact accounted_writeChar
  | readNumber => exact accounted_readNumberFrom 10
  | readNumberIn => exact accounted_popRadix.bind fun radix => accounted_readNumberFrom radix
  | readChar => exact accounted_readChar
  | loadFile => exact accounted_loadFile
  | saveFile => exact accounted_saveFile
  | report => exact accounted_report
  | iterate => exact h
  | stop => exact accounted_stop
  | quit => exact accounted_quit
  | split => exact accounted_split
  | loadSemantics => exact accounted_loadSemantics
  | unloadSemantics => exact accounted_unloadSemantics
  | refer => exact accounted_refer
  | dereference => exact accounted_dereference
  | markTimer => exact accounted_markTimer
  | readTimer => exact accounted_readTimer
  | eraseTimer => exact accounted_timer.bind fun _ => accounted_modifyPointer _
  | microseconds => exact accounted_world.bind fun w => accounted_push _
  | refuse => exact accounted_throw rfl
  | unsupported code => exact accounted_throw rfl

theorem accounted_repeatAlive {a : Action Unit} (h : Accounted a) (n : Nat) :
    Accounted (repeatAlive a n : Action Unit) :=
  Meets.repeatAlive h n

theorem accounted_iterate {execution : Cell → Action Unit} (h : ∀ code, Accounted (execution code)) :
    Accounted (iterate execution) := by
  intro f _
  rw [run_iterate]
  dsimp only
  cases found : f.pointer.pop.2.nextPosition f.world.space with
  | error e =>
    rintro cause ⟨⟩
    exact .search found
  | ok target =>
    dsimp only
    split
    · trivial
    split
    · rintro cause ⟨⟩
    cases f.world.space.get target with
    | error e =>
      intro cause fault
      have calm := OpError.not_fault_ofSpace e
      rw [fault] at calm
      cases calm
    | ok code =>
      have turns := accounted_repeatAlive (h code) (Cell.toCount f.pointer.pop.1)
        { f with pointer := f.pointer.pop.2 } trivial
      rcases ran : repeatAlive (execution code) (Cell.toCount f.pointer.pop.1)
        { f with pointer := f.pointer.pop.2 } with ⟨result, g⟩
      rw [ran] at turns
      simp only [ran]
      cases result with
      | error e => exact turns
      | ok x =>
        cases x
        dsimp only
        split <;> trivial

theorem accounted_resolve (code : Cell) : Accounted (resolve code) := by
  refine accounted_world.bind fun w => accounted_pointer.bind fun p => accounted_attempt ?_
  exact fun e refused => OpError.not_fault_of_local (instruction?_local refused)

theorem accounted_unknown (code : Cell) : Accounted (unknown code) := by
  refine accounted_world.bind fun w => ?_
  split
  · exact accounted_pointer.bind fun p => accounted_note _
  · exact accounted_throw rfl

/-- Execution accounts for its faults at every depth of nesting. -/
theorem accounted_execute (depth : Nat) (code : Cell) : Accounted (execute depth code) := by
  induction depth generalizing code with
  | zero =>
    rintro f _ cause ⟨⟩
    exact .nesting
  | succ depth ih =>
    refine (accounted_resolve code).bind fun i => ?_
    cases i with
    | some i => exact accounted_perform (accounted_iterate ih) i
    | none => exact accounted_unknown code

end Action

namespace Focus

theorem advance_breaks {f g : Focus} {cause : Fault} (h : f.advance = (.error (.fault cause), g)) :
    g.Breaks cause := by
  unfold advance at h
  split at h
  · split at h
    · rename_i e searched
      cases h
      exact .search searched
    · cases h
  · cases h

/-- A step that faults ends at a focus that accounts for it. -/
theorem step_breaks {f g : Focus} {cause : Fault} (h : f.step = (.error (.fault cause), g)) :
    g.Breaks cause := by
  unfold step at h
  split at h
  · cases h
  · rename_i cell _
    split at h
    · exact advance_breaks h
    · have ends := Action.accounted_execute Action.maxNesting cell
        (f.note (.executed f.pointer.id f.pointer.position cell)) trivial
      rw [← Focus.execute] at ends
      split at h
      · exact advance_breaks h
      · rename_i e k ran
        rw [ran] at ends
        cases h
        exact ends cause rfl
      · exact advance_breaks h

end Focus

namespace Machine

theorem stepAll_breaks {w w' : World} {ps ps' : List Pointer} {cause : Fault}
    (h : stepAll w ps = (.failed (.fault cause), ps', w')) :
    ∃ p ∈ ps', Focus.Breaks ⟨p, w'⟩ cause := by
  induction ps generalizing w ps' with
  | nil => cases h
  | cons p ps ih =>
    unfold stepAll at h
    split at h
    · split at h
      · rename_i e f stepped
        cases h
        exact ⟨f.pointer, List.mem_cons_self, Focus.step_breaks stepped⟩
      · rename_i f stepped
        split at h
        · cases h
        · rcases passed : stepAll f.world ps with ⟨pass, rest, v⟩
          simp only [passed, Prod.mk.injEq] at h
          obtain ⟨rfl, rfl, rfl⟩ := h
          obtain ⟨q, member, breaks⟩ := ih passed
          exact ⟨q, List.mem_cons_of_mem _ member, breaks⟩
    · rcases passed : stepAll w ps with ⟨pass, rest, v⟩
      simp only [passed, Prod.mk.injEq] at h
      obtain ⟨rfl, rfl, rfl⟩ := h
      obtain ⟨q, member, breaks⟩ := ih passed
      exact ⟨q, List.mem_cons_of_mem _ member, breaks⟩

/-- A tick that faults has stopped at a pointer that accounts for it. -/
theorem tick_breaks {m m' : Machine} {cause : Fault} (h : m.tick = (.error (.fault cause), m')) :
    ∃ p ∈ m'.pointers, Focus.Breaks ⟨p, m'.world⟩ cause := by
  unfold tick at h
  split at h
  · cases h
  · dsimp only at h
    split at h
    · rename_i e ps w passed
      cases h
      exact stepAll_breaks passed
    · cases h
    · cases h

end Machine

end Funge
