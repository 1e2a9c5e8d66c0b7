import Funge.Proofs.Footprint
import Funge.Proofs.Reachable
import Mathlib.Data.Prod.Basic
import Mathlib.Logic.Relation

/-!
# Atomic failures

An instruction that fails locally has consumed operands and no more: the top stack is the old one
after some pops, input may have been read, instances may have been made and events recorded, and
all else is as before. An action is timid when it never does more than that, and firm when it
never fails locally. Every instruction begins timidly and goes on firmly once it has changed
anything else; only the end of a block needs a look at the stacks for that.
-/

namespace Funge

/-- One store comes from another by making instances, each with the data that it starts with. -/
def InstanceStore.Grown (r : Registry) : InstanceStore → InstanceStore → Prop :=
  Relation.ReflTransGen fun s t => ∃ code, s.ensure r code = .ok t

/-- What a failed instruction may have changed. -/
def Part.operands : List Part := [.top, .input, .instances, .shared, .journal]

/-- The second focus is the first one after operands have been consumed. -/
structure Focus.Consumed (f g : Focus) : Prop where
  frame : f.Differs Part.operands g
  popped : Stack.Popped f.pointer.mode f.pointer.top g.pointer.top
  own : InstanceStore.Grown f.world.registry f.pointer.instances g.pointer.instances
  shared : InstanceStore.Grown f.world.registry f.world.shared g.world.shared

namespace Focus.Consumed

theorem refl (f : Focus) : f.Consumed f := ⟨.refl _ f, .refl _ _, .refl, .refl⟩

theorem trans {f g h : Focus} (first : f.Consumed g) (second : g.Consumed h) : f.Consumed h := by
  have flags : g.pointer.flags = f.pointer.flags := first.frame .flags (by decide)
  have setting := first.frame .setting (by decide)
  have registry : g.world.registry = f.world.registry := congrArg (·.1.2.1) setting
  have popped := second.popped
  have own := second.own
  have shared := second.shared
  rw [Pointer.mode, flags] at popped
  rw [registry] at own shared
  exact ⟨first.frame.trans second.frame, first.popped.trans popped, first.own.trans own,
    first.shared.trans shared⟩

/-- A change that leaves the top stack and all instances alone. -/
theorem of_frame (parts : List Part) {f g : Focus} (frame : f.Differs parts g)
    (within : ∀ part ∈ parts, part ∈ Part.operands) (top : .top ∉ parts)
    (instances : .instances ∉ parts) (shared : .shared ∉ parts) : f.Consumed g := by
  have sameTop : g.pointer.top = f.pointer.top := frame .top top
  have sameOwn : g.pointer.instances = f.pointer.instances := frame .instances instances
  have sameShared : g.world.shared = f.world.shared := frame .shared shared
  refine ⟨frame.mono within, ?_, ?_, ?_⟩
  · rw [sameTop]
    exact .refl _ _
  · rw [sameOwn]
    exact .refl
  · rw [sameShared]
    exact .refl

end Focus.Consumed

namespace Action

variable {α β : Type} {dims : Nat}

section Timid

/-- The action consumes operands at most, also when it succeeds. -/
def Timid (a : Action α) : Prop := Follows Focus.Consumed a

theorem Timid.bind {a : Action α} {k : α → Action β} (first : Timid a) (rest : ∀ x, Timid (k x)) :
    Timid (a >>= k) := Follows.bind (fun _ _ _ one two => one.trans two) first rest

theorem Timid.guard {c : Prop} [Decidable c] {e : OpError} {k : Action β} (rest : Timid k) :
    Timid (if c then (throw e : Action Unit) >>= fun _ => k else k) :=
  Follows.guard Focus.Consumed.refl (fun _ _ _ one two => one.trans two) rest

theorem timid_pure (x : α) : Timid (pure x : Action α) := Follows.pure Focus.Consumed.refl x

theorem timid_throw (e : OpError) : Timid (throw e : Action α) := Follows.throw Focus.Consumed.refl e

theorem timid_attempt {ε : Type} (failure : ε → OpError) (result : Except ε α) :
    Timid (attempt failure result) := Follows.attempt Focus.Consumed.refl failure result

theorem timid_pointer : Timid pointer := Focus.Consumed.refl

theorem timid_world : Timid world := Focus.Consumed.refl

/-- A value is drawn by pops from the top stack. -/
theorem timid_draw {take : Pointer → α × Pointer} {rest : Pointer → Stack}
    (same : ∀ p, (take p).2 = p.setTop (rest p))
    (popped : ∀ p : Pointer, Stack.Popped p.mode p.top (rest p)) : Timid (draw take) := by
  intro f
  rw [run_draw, same]
  refine ⟨differs_setTop (by decide) f _, ?_, .refl, .refl⟩
  rcases Pointer.top_setTop f.pointer (rest f.pointer) with changed | kept
  · rw [changed]
    exact popped f.pointer
  · rw [kept]
    exact .refl _ _

theorem timid_pop : Timid pop := timid_draw (fun _ => rfl) fun _ => .pop _ _

theorem timid_popVec : Timid popVec := timid_draw (fun _ => rfl) fun _ => .popMany _ _ _

theorem timid_popText : Timid popText := timid_draw (fun _ => rfl) fun _ => .popText _ _

theorem consumed_input (f : Focus) (rest : List UInt8) :
    f.Consumed (setHost { f.world.host with input := rest } f).2 :=
  .of_frame [.input] (differs_consume List.mem_cons_self f rest) (by decide) (by decide) (by decide)
    (by decide)

/-- A shared instance is made before it is used. -/
theorem consumed_shared {f : Focus} {code : Handprint} {shared : InstanceStore}
    (made : f.world.shared.ensure f.world.registry code = .ok shared) :
    f.Consumed (modifyWorld ({ · with shared }) f).2 :=
  ⟨touches_modifyShared (by decide) (fun _ => shared) f, .refl _ _, .refl, .single ⟨code, made⟩⟩

theorem consumed_own {f : Focus} {code : Handprint} {instances : InstanceStore}
    (made : f.pointer.instances.ensure f.world.registry code = .ok instances) :
    f.Consumed (modifyPointer ({ · with instances }) f).2 :=
  ⟨touches_modifyInstances (by decide) (fun _ => instances) f, .refl _ _, .single ⟨code, made⟩, .refl⟩

theorem timid_bind_at {a : Action α} {k : α → Action β} {f : Focus} (first : f.Consumed (a f).2)
    (rest : ∀ x, Timid (k x)) : f.Consumed ((a >>= k) f).2 :=
  Follows.bind_at (fun _ _ _ one two => one.trans two) first rest

theorem timid_attempt_at {ε : Type} {failure : ε → OpError} {result : Except ε α}
    {k : α → Action β} {f : Focus} (rest : ∀ x, result = .ok x → f.Consumed (k x f).2) :
    f.Consumed ((attempt failure result >>= k) f).2 :=
  Follows.attempt_at Focus.Consumed.refl rest

theorem timid_stored (v : Vec) : Timid (stored v) := timid_pointer.bind fun _ => timid_pure _

theorem timid_second : Timid second := by
  refine timid_pointer.bind fun p => ?_
  split
  · exact timid_pure _
  · exact timid_throw _

theorem timid_popRadix : Timid popRadix := by
  refine timid_pop.bind fun v => ?_
  split
  · exact timid_pure _
  · exact timid_throw _

theorem timid_popHandprint : Timid popHandprint := by
  refine timid_pop.bind fun count => ?_
  refine Timid.guard ?_
  refine timid_pointer.bind fun p => ?_
  exact (timid_draw (fun _ => rfl) fun _ => .popMany _ _ _).bind fun _ => timid_pure _

theorem timid_references : Timid references := by
  intro f
  refine timid_attempt_at (f := f) fun shared made => ?_
  refine timid_bind_at (consumed_shared made) fun _ => ?_
  split
  · exact timid_pure _
  · exact timid_throw _

theorem timid_timer : Timid timer := by
  intro f
  refine timid_attempt_at (f := f) fun own made => ?_
  refine timid_bind_at (consumed_own made) fun _ => ?_
  split
  · exact timid_pure _
  · exact timid_throw _

end Timid

section Atomic

/-- If the action fails locally from this focus, it has consumed operands and no more. -/
def AtomicAt (a : Action α) (f : Focus) : Prop :=
  ∀ e g, a f = (.error e, g) → e.isFatal = false → f.Consumed g

/-- The action is atomic from every sound focus. -/
def Atomic (dims : Nat) (a : Action α) : Prop := ∀ f, f.Sound dims → AtomicAt a f

theorem Timid.atomicAt {a : Action α} (h : Timid a) (f : Focus) : AtomicAt a f := by
  intro e g run _
  have consumed := h f
  rw [run] at consumed
  exact consumed

theorem atomicAt_bind {a : Action α} {k : α → Action β} {f : Focus} (first : f.Consumed (a f).2)
    (rest : ∀ x g, a f = (.ok x, g) → AtomicAt (k x) g) : AtomicAt (a >>= k) f := by
  intro e h run mild
  rcases one : a f with ⟨result, g⟩
  rw [one] at first
  cases result with
  | ok x =>
    rw [run_bind_ok one] at run
    exact first.trans (rest x g one e h run mild)
  | error e' =>
    rw [run_bind_error one] at run
    cases run
    exact first

theorem atomicAt_attempt {ε : Type} {failure : ε → OpError} {result : Except ε α}
    {k : α → Action β} {f : Focus} (rest : ∀ x, result = .ok x → AtomicAt (k x) f) :
    AtomicAt (attempt failure result >>= k) f := by
  cases result with
  | ok x => exact rest x rfl
  | error e => exact (timid_throw (failure e)).atomicAt f

theorem atomic_pointer_bind {k : Pointer → Action β}
    (h : ∀ f : Focus, f.Sound dims → AtomicAt (k f.pointer) f) : Atomic dims (pointer >>= k) := h

theorem atomic_world_bind {k : World → Action β}
    (h : ∀ f : Focus, f.Sound dims → AtomicAt (k f.world) f) : Atomic dims (world >>= k) := h

/-- Operands are consumed before the rest. -/
theorem Atomic.step {a : Action α} {k : α → Action β} {R : α → Prop}
    (safe : Safe true dims a R) (timid : Timid a) (rest : ∀ x, R x → Atomic dims (k x)) :
    Atomic dims (a >>= k) := by
  intro f hf
  refine atomicAt_bind (timid f) fun x g run => ?_
  have ends := safe f hf
  rw [run] at ends
  exact rest x ends.1 g ends.2

theorem Safe.not_mild {a : Action α} {R : α → Prop} (safe : Safe false dims a R) {f g : Focus}
    {e : OpError} (hf : f.Sound dims) (run : a f = (.error e, g)) : e.isFatal ≠ false := by
  have ends := safe f hf
  rw [run] at ends
  rcases ends.2 with ⟨mild, _⟩ | ⟨fault, rfl⟩
  · cases mild
  · exact Bool.noConfusion

/-- An action without local failures is atomic. -/
theorem Safe.atomic {a : Action α} {R : α → Prop} (safe : Safe false dims a R) : Atomic dims a := by
  intro f hf e g run mild
  exact absurd mild (safe.not_mild hf run)

/-- After an atomic action there may be no more local failures. -/
theorem AtomicAt.firmly {a : Action α} {k : α → Action β} {f : Focus} (first : AtomicAt a f)
    (rest : ∀ x g, a f = (.ok x, g) → ∀ e h, k x g = (.error e, h) → e.isFatal ≠ false) :
    AtomicAt (a >>= k) f := by
  intro e h run mild
  rcases one : a f with ⟨result, g⟩
  cases result with
  | ok x =>
    rw [run_bind_ok one] at run
    exact absurd mild (rest x g one e h run)
  | error e' =>
    rw [run_bind_error one] at run
    cases run
    exact first _ _ one mild

theorem Atomic.firmly {a : Action α} {k : α → Action β} {R : α → Prop} {S : β → Prop}
    (first : Atomic dims a) (safe : Safe true dims a R)
    (rest : ∀ x, R x → Safe false dims (k x) S) : Atomic dims (a >>= k) := by
  intro f hf
  refine (first f hf).firmly fun x g one e h run => ?_
  have ends := safe f hf
  rw [one] at ends
  exact (rest x ends.1).not_mild ends.2 run

end Atomic

section Instructions

theorem atomic_throw (e : OpError) : Atomic dims (throw e : Action α) :=
  fun f _ => (timid_throw e).atomicAt f

theorem atomic_course {iteration : Action Unit} (c : Course) :
    Atomic dims (Instruction.perform iteration (.course c)) := by
  refine atomic_pointer_bind fun f _ => atomicAt_attempt fun q _ => ?_
  exact fun e g run => nomatch run

theorem atomic_turn (left : Bool) : Atomic dims (turn left) := by
  refine atomic_pointer_bind fun f hf => ?_
  have agrees := hf.pointer.agrees
  refine atomicAt_attempt fun _ granted => ?_
  have plane : 2 ≤ dims := by
    by_cases small : f.pointer.dims < 2
    · simp [Pointer.requireDims, small] at granted
    · omega
  refine Safe.atomic (R := fun _ => True) ?_ f hf
  exact (safe_switchTo _).bind fun _ _ => safe_modifyPointer fun q hq => hq.turn plane left

theorem atomicAt_restack {change : StackStack → Except StackError Unit × StackStack}
    (guarded : StackStack.Guarded change) (f : Focus) : AtomicAt (restack change) f := by
  intro e g run _
  cases result : (change f.pointer.stacks).1 with
  | ok _ =>
    rw [run_restack_ok result] at run
    cases run
  | error reason =>
    rw [run_restack_error guarded result] at run
    cases run
    exact .refl _

theorem atomic_transfer : Atomic dims transfer := by
  refine Atomic.step safe_second timid_second fun _ _ => ?_
  refine Atomic.step safe_pop timid_pop fun n _ => ?_
  exact fun f _ => atomicAt_restack (StackStack.guarded_transfer n) f

theorem atomic_writeChar : Atomic dims writeChar := by
  refine Atomic.step safe_pop timid_pop fun v _ => ?_
  refine atomic_world_bind fun f _ => atomicAt_attempt fun host _ => ?_
  exact fun e g run => nomatch run

theorem atomic_writeNumber (radix : Nat) : Atomic dims (writeNumber radix) := by
  refine Atomic.step safe_pop timid_pop fun v _ => ?_
  refine atomic_world_bind fun f _ => atomicAt_attempt fun host _ => ?_
  exact fun e g run => nomatch run

theorem atomic_writeNumberIn : Atomic dims writeNumberIn :=
  Atomic.step safe_popRadix timid_popRadix fun radix _ => atomic_writeNumber radix

theorem atomicAt_deliver (value : Option Cell) (f : Focus) :
    AtomicAt (match value with
      | some v => push v
      | none => throw .inputExhausted : Action Unit) f := by
  cases value with
  | some v => exact fun e g run => nomatch run
  | none => exact (timid_throw _).atomicAt f

theorem atomic_readNumberFrom (radix : Nat) : Atomic dims (readNumberFrom radix) := by
  refine atomic_world_bind fun f _ => atomicAt_attempt fun reading read => ?_
  obtain ⟨value, host⟩ := reading
  obtain ⟨rest, rfl⟩ := readNumber_consumes read
  exact atomicAt_bind (consumed_input f rest) fun _ g _ => atomicAt_deliver value g

theorem atomic_readNumberIn : Atomic dims readNumberIn :=
  Atomic.step safe_popRadix timid_popRadix fun radix _ => atomic_readNumberFrom radix

theorem atomic_readChar : Atomic dims readChar := by
  refine atomic_world_bind fun f _ => ?_
  obtain ⟨rest, same⟩ := readChar_consumes f.world.host
  refine atomicAt_bind (a := setHost f.world.host.readChar.2) ?_ fun _ g _ =>
    atomicAt_deliver f.world.host.readChar.1 g
  rw [same]
  exact consumed_input f rest

theorem atomic_loadFile : Atomic dims loadFile := by
  refine Atomic.step safe_popText timid_popText fun path _ => ?_
  refine Atomic.step safe_pop timid_pop fun flags _ => ?_
  refine Atomic.step safe_popVec timid_popVec fun origin ho => ?_
  refine Atomic.step safe_world timid_world fun w hw => ?_
  refine Atomic.step (safe_attempt_channel .file _) (timid_attempt _ _) fun source _ => ?_
  refine Atomic.step (safe_stored ho) (timid_stored origin) fun place hp => ?_
  -- From here on the space changes, and the load is granted.
  refine Safe.atomic (R := fun _ => True) ?_
  obtain ⟨size, space, loaded, same⟩ := Space.load_of_fits (s := w.space)
    (by rw [hw.space]; exact hw.positive) (by rw [hw.space]; exact hp) source (lowBit flags)
  rw [loaded]
  refine (safe_setSpace (same.trans hw.space)).bind fun _ _ => ?_
  refine (safe_pure (R := fun _ => True) trivial).bind fun size _ => ?_
  refine safe_pointer.bind fun p _ => ?_
  refine (safe_note _).bind fun _ _ => ?_
  exact (safe_pushVec size).bind fun _ _ => safe_pushVec origin

/-- Once the stacks have changed, the beginning of a block only has to find the stack below. -/
theorem atomic_beginBlock : Atomic dims beginBlock := by
  refine Atomic.step safe_pop timid_pop fun n _ => ?_
  intro f hf
  refine (atomicAt_restack (StackStack.guarded_beginBlock n) f).firmly fun _ g begun => ?_
  obtain ⟨granted, rfl⟩ := restack_ok begun
  obtain ⟨s, below⟩ := StackStack.beginBlock_second hf.pointer.stacked granted
  have there := StackStack.beginBlock_ne_nil hf.pointer.stacked n
  intro e h run
  have found := run_second (f := ⟨{ f.pointer with
    «stacks» := (f.pointer.stacks.beginBlock n).2
    offset := f.pointer.position + f.pointer.delta }, f.world⟩) below
  simp only [run_bind, run_modifyPointer, run_pointer, Pointer.setStacks, found, setSecond] at run
  refine Safe.not_mild (safe_switchTo _ : Safe false dims _ _) ?_ run
  exact ⟨{ hf.pointer with
    stacked := StackStack.setSecond_ne_nil there _
    offset := Vec.fits_add hf.pointer.position hf.pointer.delta }, hf.world⟩

/-- The check on the count agrees with the refusal of the stacks, so nothing fails after the
offset has been taken. -/
theorem atomic_endBlock : Atomic dims endBlock := by
  intro f hf
  refine atomicAt_bind (timid_second f) fun u g found => ?_
  obtain ⟨below, rfl⟩ := second_ok found
  refine atomicAt_bind (timid_pop g) fun n h popped => ?_
  have hh : h.Sound dims := by
    have ends := (safe_pop : Safe true dims _ _) g hf
    rw [popped] at ends
    exact ends.2
  have still : h.pointer.stacks.second? = some u := by
    cases popped
    exact (StackStack.second?_setTop _ _).trans below
  obtain ⟨t, rest, shape⟩ := StackStack.eq_of_second? still
  have size : h.pointer.top.size = t.size := by rw [Pointer.top, shape]; rfl
  intro e last run mild
  simp only [run_bind, run_pointer] at run
  split at run
  · cases run
    exact .refl _
  · rename_i small
    rw [size] at small
    have ended := StackStack.endBlock_granted small (u.popVec dims .normal).2 rest
    have restacked : restack (·.endBlock n) ⟨{ h.pointer with
        dims
        «stacks» := ⟨t :: (u.popVec dims .normal).2 :: rest⟩
        offset := (u.popVec dims .normal).1 }, h.world⟩ = _ := run_restack_ok ended
    simp only [run_bind, run_second still, setSecond, run_modifyPointer, shape,
      Pointer.setStacks, hh.pointer.agrees, StackStack.setSecond, restacked] at run
    refine absurd mild (Safe.not_mild (safe_switchTo _ : Safe false dims _ _) ?_ run)
    exact ⟨{ hh.pointer with
      agrees := rfl
      stacked := StackStack.endBlock_ne_nil (List.cons_ne_nil _ _) n
      offset := u.fits_popVec dims .normal }, hh.world⟩

theorem atomic_saveFile : Atomic dims saveFile := by
  refine Atomic.step safe_popText timid_popText fun path _ => ?_
  refine Atomic.step safe_pop timid_pop fun flags _ => ?_
  refine Atomic.step safe_popVec timid_popVec fun origin ho => ?_
  refine Atomic.step safe_popVec timid_popVec fun size _ => ?_
  refine Atomic.step (safe_stored ho) (timid_stored origin) fun place _ => ?_
  refine atomic_world_bind fun f _ => ?_
  refine atomicAt_attempt fun text _ => atomicAt_attempt fun folder _ => ?_
  exact fun e g run => nomatch run

theorem atomic_loadFingerprint (code : Handprint) : Atomic dims (loadFingerprint code) := by
  refine Atomic.step safe_world timid_world fun w _ => ?_
  refine atomic_pointer_bind fun f _ => atomicAt_attempt fun loaded _ => ?_
  exact fun e g run => nomatch run

theorem atomic_loadSemantics : Atomic dims loadSemantics := by
  refine Atomic.step safe_popHandprint timid_popHandprint fun code _ => ?_
  refine (atomic_loadFingerprint code).firmly (S := fun _ => True) (safe_loadFingerprint code)
    fun _ _ => ?_
  refine (safe_switchTo _).bind fun _ _ => ?_
  exact (safe_push _).bind fun _ _ => safe_push 1

theorem atomic_unloadFingerprint (code : Handprint) : Atomic dims (unloadFingerprint code) := by
  refine atomic_pointer_bind fun f _ => ?_
  refine atomicAt_attempt (f := f) fun unloaded _ => ?_
  exact fun e g run => nomatch run

theorem atomic_unloadSemantics : Atomic dims unloadSemantics := by
  refine Atomic.step safe_popHandprint timid_popHandprint fun code _ => ?_
  exact (atomic_unloadFingerprint code).firmly (safe_unloadFingerprint code) fun _ _ => safe_switchTo _

theorem atomic_refer : Atomic dims refer := by
  refine Atomic.step safe_popVec timid_popVec fun v _ => ?_
  refine Atomic.step safe_references timid_references fun table _ => ?_
  exact Safe.atomic ((safe_setShared _).bind fun _ _ => safe_push _)

theorem atomic_dereference : Atomic dims dereference := by
  refine Atomic.step safe_pop timid_pop fun r _ => ?_
  refine Atomic.step safe_references timid_references fun table _ => ?_
  split
  · exact Safe.atomic (safe_pushVec _)
  · exact atomic_throw _

theorem atomic_markTimer : Atomic dims markTimer := by
  refine Atomic.step safe_timer timid_timer fun _ _ => ?_
  exact Safe.atomic (safe_world.bind fun w _ => safe_setInstances _)

theorem atomic_readTimer : Atomic dims readTimer := by
  refine Atomic.step safe_timer timid_timer fun mark _ => ?_
  cases mark with
  | some mark => exact Safe.atomic (safe_world.bind fun w _ => safe_push _)
  | none => exact atomic_throw _

theorem atomic_eraseTimer : Atomic dims eraseTimer :=
  Atomic.step safe_timer timid_timer fun _ _ => Safe.atomic (safe_setInstances _)

theorem atomic_unknown (code : Cell) : Atomic dims (unknown code) := by
  refine Atomic.step safe_world timid_world fun w _ => ?_
  split
  · exact Safe.atomic (safe_pointer.bind fun p _ => safe_note _)
  · exact atomic_throw _

/-- Every instruction is atomic, iterations apart. -/
theorem atomic_perform {i : Instruction} (single : i ≠ .iterate) (iteration : Action Unit) :
    Atomic dims (i.perform iteration) := by
  cases i with
  | operand o => exact Safe.atomic (safe_modifyPointer fun _ hp => operand_sound o hp)
  | course c => exact atomic_course c
  | wander => exact Safe.atomic safe_wander
  | turn left => exact atomic_turn left
  | trampoline => exact Safe.atomic safe_trampoline
  | jump => exact Safe.atomic safe_jump
  | jumpOver => exact Safe.atomic safe_jumpOver
  | fetch => exact Safe.atomic safe_fetch
  | store => exact Safe.atomic safe_store
  | get => exact Safe.atomic safe_getCell
  | put => exact Safe.atomic safe_putCell
  | beginBlock => exact atomic_beginBlock
  | endBlock => exact atomic_endBlock
  | transfer => exact atomic_transfer
  | writeNumber radix => exact atomic_writeNumber radix
  | writeNumberIn => exact atomic_writeNumberIn
  | writeChar => exact atomic_writeChar
  | readNumber => exact atomic_readNumberFrom 10
  | readNumberIn => exact atomic_readNumberIn
  | readChar => exact atomic_readChar
  | loadFile => exact atomic_loadFile
  | saveFile => exact atomic_saveFile
  | report => exact Safe.atomic safe_report
  | iterate => exact absurd rfl single
  | stop => exact Safe.atomic safe_stop
  | quit => exact Safe.atomic safe_quit
  | split => exact Safe.atomic safe_split
  | loadSemantics => exact atomic_loadSemantics
  | unloadSemantics => exact atomic_unloadSemantics
  | refer => exact atomic_refer
  | dereference => exact atomic_dereference
  | markTimer => exact atomic_markTimer
  | readTimer => exact atomic_readTimer
  | eraseTimer => exact atomic_eraseTimer
  | microseconds => exact Safe.atomic safe_microseconds
  | refuse => exact atomic_throw _
  | unsupported code => exact atomic_throw _

/-- In the base language one code alone stands for an iteration. -/
theorem iterate_code {e : Entry} {code : Cell} (h : Table.standard.get? code = some e)
    (iterates : e.instruction = .iterate) : code = 107 := by
  have all : ∀ e ∈ Table.standard.entries, e.instruction = .iterate → e.code = 107 := by decide
  have listed : e ∈ Table.standard.entries := List.mem_of_find?_eq_some h
  have named : e.code = code := by simpa using List.find?_some h
  rw [← named]
  exact all e listed iterates

theorem instruction?_single {w : World} {p : Pointer} {code : Cell} {i : Instruction}
    (hw : w.Sound dims) (hp : p.Sound dims) (other : code ≠ 107)
    (h : w.instruction? p code = .ok (some i)) : i ≠ .iterate := by
  rintro rfl
  unfold World.instruction? at h
  split at h
  · rename_i letter _
    split at h
    · rename_i b bound
      have member : b ∈ p.overrides.stack letter := List.mem_of_mem_head? bound
      have iterates : b.instruction = .iterate := by simpa using h
      exact hp.bound letter b member iterates
    · cases h
  · rw [hw.table] at h
    simp only [Except.ok.injEq, Option.map_eq_some_iff] at h
    obtain ⟨e, found, iterates⟩ := h
    exact other (iterate_code found iterates)

/-- The execution of a code is atomic, unless the code is that of an iteration. -/
theorem atomic_execute {code : Cell} (other : code ≠ 107) (depth : Nat) :
    Atomic dims (execute depth code) := by
  intro f hf
  cases depth with
  | zero =>
    intro e g run mild
    cases run
    cases mild
  | succ depth =>
    cases resolved : f.world.instruction? f.pointer code with
    | error e =>
      have run : resolve code f = (.error e, f) := by
        simp only [resolve, run_bind, run_world, run_pointer, resolved, run_attempt_error, id_eq]
      intro e' g failed _
      rw [execute, run_bind_error run] at failed
      cases failed
      exact .refl f
    | ok found =>
      have run : resolve code f = (.ok found, f) := by
        simp only [resolve, run_bind, run_world, run_pointer, resolved, run_attempt_ok]
      intro e g failed mild
      rw [execute, run_bind_ok run] at failed
      cases found with
      | none => exact atomic_unknown code f hf e g failed mild
      | some i =>
        have single : i ≠ .iterate := instruction?_single hf.world hf.pointer other resolved
        exact atomic_perform single _ f hf e g failed mild

end Instructions

end Action

/-- What a local failure spares, position and direction apart: of the host only the input changes,
of the stacks only the top one and that by pops, and instances are made at most. -/
structure Focus.Spared (f g : Focus) : Prop where
  space : g.world.space = f.world.space
  output : g.world.host.output = f.world.host.output
  host : g.world.host = { f.world.host with input := g.world.host.input }
  identity : g.pointer.id = f.pointer.id ∧ g.pointer.dims = f.pointer.dims
  offset : g.pointer.offset = f.pointer.offset
  flags : g.pointer.flags = f.pointer.flags
  alive : g.pointer.alive = f.pointer.alive
  quit : g.pointer.quit = f.pointer.quit
  overrides : g.pointer.overrides = f.pointer.overrides
  depth : g.pointer.stacks.depth = f.pointer.stacks.depth
  lower : g.pointer.stacks.stacks.tail = f.pointer.stacks.stacks.tail
  top : ∃ n, g.pointer.top = (f.pointer.top.popMany f.pointer.mode n).2
  newborns : g.world.newborns = f.world.newborns
  nextId : g.world.nextId = f.world.nextId
  own : InstanceStore.Grown f.world.registry f.pointer.instances g.pointer.instances
  shared : InstanceStore.Grown f.world.registry f.world.shared g.world.shared

namespace Focus

variable {f g : Focus}

theorem Consumed.spared (h : f.Consumed g) : f.Spared g := by
  have output : g.world.host.written = f.world.host.written := h.frame .output (by decide)
  have dice : g.world.host.dice = f.world.host.dice := h.frame .dice (by decide)
  have folder : g.world.host.folder = f.world.host.folder := h.frame .folder (by decide)
  have setting := h.frame .setting (by decide)
  have identity := h.frame .identity (by decide)
  have lower := h.frame .lower (by decide)
  refine
    { space := h.frame .space (by decide)
      output := congrArg List.reverse output
      host := ?_
      identity := ⟨congrArg Prod.fst identity, congrArg Prod.snd identity⟩
      offset := h.frame .offset (by decide)
      flags := h.frame .flags (by decide)
      alive := h.frame .life (by decide)
      quit := h.frame .quit (by decide)
      overrides := h.frame .bindings (by decide)
      depth := congrArg Prod.fst lower
      lower := congrArg Prod.snd lower
      top := h.popped
      newborns := h.frame .newborns (by decide)
      nextId := h.frame .nextId (by decide)
      own := h.own
      shared := h.shared }
  have arguments : g.world.host.arguments = f.world.host.arguments := congrArg (·.2.1.1) setting
  have environment : g.world.host.environment = f.world.host.environment :=
    congrArg (·.2.1.2) setting
  have clock : g.world.host.clock = f.world.host.clock := congrArg (·.2.2.1) setting
  have stopwatch : g.world.host.stopwatch = f.world.host.stopwatch := congrArg (·.2.2.2) setting
  dsimp only
  rw [← output, ← dice, ← folder, ← arguments, ← environment, ← clock, ← stopwatch]

/-- Neither a turn nor a move touches what is spared. -/
theorem Spared.moved (h : f.Spared g) (delta position : Vec) :
    f.Spared { g with pointer := { g.pointer with delta, position } } := { h with }

theorem step_failed {code : Cell} {e : OpError} (there : f.world.space.get f.pointer.position = .ok code)
    (outside : f.pointer.flags.string = false)
    (failed : (f.note (.executed f.pointer.id f.pointer.position code)).execute code = (.error e, g))
    (mild : e.isFatal = false) :
    f.step = advance ⟨g.pointer.reflect,
      g.world.note (.reflected g.pointer.id g.pointer.position code e)⟩ := by
  unfold step
  rw [there]
  simp only [outside, Bool.false_eq_true, if_false, failed]
  cases e <;> first | rfl | cases mild

/-- Where a pointer moves next depends on its position, direction and flags only. -/
theorem nextPosition_congr {p q : Pointer} (s : Space) (position : q.position = p.position)
    (delta : q.delta = p.delta) (flags : q.flags = p.flags) :
    q.nextPosition s = p.nextPosition s := by
  simp only [Pointer.nextPosition, Pointer.search, position, delta, flags]

/-- A live pointer that has been reflected after a failure goes on from where it was. -/
theorem Consumed.reflected (h : f.Consumed g) (living : f.pointer.alive = true) (e : Event) :
    let last := advance ⟨g.pointer.reflect, g.world.note e⟩
    f.Spared last.2 ∧ last.2.pointer.delta = -f.pointer.delta ∧
      (last.1 = .ok () →
        f.pointer.reflect.nextPosition f.world.space = .ok last.2.pointer.position) := by
  have spared := h.spared
  have noted : f.Spared ⟨g.pointer, g.world.note e⟩ := { spared with }
  have position : g.pointer.position = f.pointer.position := h.frame .position (by decide)
  have delta : g.pointer.delta = f.pointer.delta := h.frame .delta (by decide)
  have alive : g.pointer.reflect.alive = true := spared.alive.trans living
  have next : g.pointer.reflect.nextPosition (g.world.note e).space =
      f.pointer.reflect.nextPosition f.world.space := by
    change g.pointer.reflect.nextPosition g.world.space = _
    rw [spared.space]
    exact nextPosition_congr _ position (congrArg (- ·) delta) spared.flags
  intro last
  have moved : last = advance ⟨g.pointer.reflect, g.world.note e⟩ := rfl
  rw [advance, if_pos alive] at moved
  split at moved
  · rename_i e' failed
    rw [moved]
    refine ⟨noted.moved _ _, congrArg (- ·) delta, ?_⟩
    intro granted
    cases granted
  · rename_i v reached
    rw [moved]
    refine ⟨noted.moved _ _, congrArg (- ·) delta, fun _ => ?_⟩
    rw [← next]
    exact reached

end Focus

namespace Machine

variable {settings : Settings} {host : Host} {m : Machine}

/-- A code other than that of an iteration, executed anywhere on the way of a reachable machine,
fails locally only after nothing but operands has been consumed. A step that fails so reverses
the pointer and moves it on. -/
theorem local_failures_spare {f : Focus} {code : Cell} (reached : Reachable settings host m)
    (visited : m.Visits f) (other : code ≠ 107) :
    (∀ depth e g, Action.execute depth code f = (.error e, g) → e.isFatal = false →
      f.Spared g ∧ g.pointer.position = f.pointer.position ∧ g.pointer.delta = f.pointer.delta) ∧
    ∀ e g, f.pointer.alive = true → f.pointer.flags.string = false →
      f.world.space.get f.pointer.position = .ok code →
      (f.note (.executed f.pointer.id f.pointer.position code)).execute code = (.error e, g) →
      e.isFatal = false →
      f.Spared f.step.2 ∧ f.step.2.pointer.delta = -f.pointer.delta ∧
        (f.step.1 = .ok () →
          f.pointer.reflect.nextPosition f.world.space = .ok f.step.2.pointer.position) := by
  have sound := visited.sound reached.sound
  refine ⟨?_, ?_⟩
  · intro depth e g failed mild
    have consumed := Action.atomic_execute other depth f sound e g failed mild
    exact ⟨consumed.spared, consumed.frame .position (by decide), consumed.frame .delta (by decide)⟩
  · intro e g living outside there failed mild
    have noted : f.Consumed (f.note (.executed f.pointer.id f.pointer.position code)) :=
      .of_frame [.journal] (Action.touches_note List.mem_cons_self _ f) (by decide) (by decide)
        (by decide) (by decide)
    have consumed := noted.trans
      (Action.atomic_execute other Action.maxNesting _ (sound.note _) e g failed mild)
    rw [Focus.step_failed there outside failed mild]
    exact consumed.reflected living _

theorem headD_mem {ps : List Pointer} (h : 0 < ps.length) (p : Pointer) : ps.headD p ∈ ps := by
  cases ps with
  | nil => cases h
  | cons q ps => exact List.mem_cons_self

/-- A machine whose pointer stands on a load of semantics with a count of zero. -/
def mistaken : Machine := ((standard {} .bare).load [53, 48, 40]).2.tick.2.tick.2

/-- Its pointer in its world. -/
def mistake : Focus := ⟨mistaken.pointers.headD (Pointer.start 0 2), mistaken.world⟩

theorem mistake_spares :
    mistake.pointer.top.cells = [0, 5] ∧
    (mistake.execute 40).1 = .error (.invalidArgument 0) ∧
    (mistake.execute 40).2.pointer.top.cells = [5] ∧
    mistake.Spared (mistake.execute 40).2 ∧
    mistake.step.1 = .ok () ∧
    mistake.Spared mistake.step.2 ∧
    mistake.step.2.pointer.delta = -mistake.pointer.delta := by
  have loaded : ((standard {} .bare).load [53, 48, 40]).1 = .ok 0 := by decide +kernel
  have first : ((standard {} .bare).load [53, 48, 40]).2.tick.1 = .ok () := by decide +kernel
  have second : ((standard {} .bare).load [53, 48, 40]).2.tick.2.tick.1 = .ok () := by decide +kernel
  have reached : Reachable {} .bare mistaken :=
    .tick (.tick (.load _ .start (.of_ok loaded)) (.of_ok first)) (.of_ok second)
  have one : mistaken.pointers.length = 1 := by decide +kernel
  have visited : mistaken.Visits mistake := .rest (headD_mem (by omega) _)
  have executed : (mistake.execute 40).1 = .error (.invalidArgument 0) := by decide +kernel
  have stepped : ((mistake.note (.executed mistake.pointer.id mistake.pointer.position 40)).execute
      40).1 = .error (.invalidArgument 0) := by decide +kernel
  have spares := local_failures_spare reached visited (show (40 : Cell) ≠ 107 by decide)
  have whole := spares.1 Action.maxNesting _ _ (Prod.fst_eq_iff.mp executed) rfl
  have step := spares.2 _ _ (by decide +kernel) (by decide +kernel) (by decide +kernel)
    (Prod.fst_eq_iff.mp stepped) rfl
  exact ⟨by decide +kernel, executed, by decide +kernel, whole.1, by decide +kernel, step.1, step.2.1⟩

end Machine

end Funge
