import Funge.Machine
import Funge.Proofs.Action
import Funge.Proofs.Course
import Funge.Proofs.Dimensions
import Funge.Proofs.Loading
import Funge.Proofs.Stack

/-!
# Sound foci

A pointer is sound for a number of dimensions when its position, direction and storage offset
fit it, it has a stack, and none of its letters is bound to an iteration. A focus is sound when
its pointer and every newborn are, the space has that many dimensions, and table and fingerprints
are the standard ones. Every instruction keeps that, under all flags and through nested
iterations, and none of them raises a fatal failure other than a fault of the machine.
-/

namespace Funge

structure Pointer.Sound (dims : Nat) (p : Pointer) : Prop where
  agrees : p.dims = dims
  position : p.position.fits dims = true
  delta : p.delta.fits dims = true
  offset : p.offset.fits dims = true
  stacked : p.stacks.stacks ≠ []
  bound : p.overrides.Avoids .iterate

structure World.Sound (dims : Nat) (w : World) : Prop where
  chosen : dims = max w.settings.dims 1
  space : w.space.dims = dims
  newborns : ∀ child ∈ w.newborns, child.1.Sound dims
  table : w.table = .standard
  registry : w.registry = .standard

structure Focus.Sound (dims : Nat) (f : Focus) : Prop where
  pointer : f.pointer.Sound dims
  world : f.world.Sound dims

/-- The failure is a fault of the machine or, where that is allowed, a local one. -/
def OpError.Harmless (mild : Bool) (e : OpError) : Prop :=
  (mild = true ∧ e.isFatal = false) ∨ ∃ fault, e = .fatal (.fault fault)

theorem OpError.harmless_of_local {e : OpError} (h : e.isFatal = false) : e.Harmless true :=
  .inl ⟨rfl, h⟩

theorem OpError.harmless_ofStack (e : StackError) : (OpError.ofStack e).Harmless true := by
  cases e <;> exact harmless_of_local rfl

theorem World.Sound.positive {dims : Nat} {w : World} (h : w.Sound dims) : 0 < dims := by
  have chosen := h.chosen
  omega

namespace Pointer.Sound

variable {dims : Nat} {p : Pointer}

theorem setTop (h : p.Sound dims) (s : Stack) : (p.setTop s).Sound dims :=
  { h with stacked := StackStack.setTop_ne_nil h.stacked s }

theorem fits_popVec (h : p.Sound dims) : p.popVec.1.fits dims = true := by
  rw [← h.agrees]
  exact p.top.fits_popVec p.dims p.mode

theorem reflect (h : p.Sound dims) : p.reflect.Sound dims :=
  { h with delta := Vec.fits_neg h.delta }

theorem go (h : p.Sound dims) {delta : Vec} (hd : delta.fits dims = true) :
    (p.go delta).Sound dims := by
  refine { h with delta := ?_ }
  simp only [Pointer.go]
  split
  · exact Vec.fits_add h.delta hd
  · exact hd

theorem moved (h : p.Sound dims) {position : Vec} (hp : position.fits dims = true) :
    ({ p with position } : Pointer).Sound dims :=
  { h with position := hp }

theorem turn (h : p.Sound dims) (plane : 2 ≤ dims) (left : Bool) : (p.turn left).Sound dims := by
  refine { h with delta := ?_ }
  cases left with
  | true => exact Vec.fits_set (Vec.fits_set h.delta (by omega) _) (by omega) _
  | false => exact Vec.fits_set (Vec.fits_set h.delta (by omega) _) (by omega) _

theorem start (id : Nat) (positive : 0 < dims) (n : Nat) (hn : dims = max n 1) :
    (Pointer.start id n).Sound dims :=
  ⟨hn.symm, Vec.fits_zero dims, Vec.fits_unit positive 1, Vec.fits_zero dims, List.cons_ne_nil _ _,
    Overrides.avoids_empty _⟩

theorem nextPosition (h : p.Sound dims) {s : Space} (hs : s.dims = dims) :
    Yields (·.fits dims = true) (p.nextPosition s) := by
  subst hs
  exact nextPosition_yields h.position h.delta

theorem settle (h : p.Sound dims) {s : Space} (hs : s.dims = dims) :
    Yields (Pointer.Sound dims) (p.settle s) := by
  subst hs
  unfold Pointer.settle
  split
  · exact h
  · rw [Space.get_of_fits h.position]
    simp only [Except.mapError, bind, Except.bind, pure, Except.pure]
    split
    · have found := search_yields (p := p) s true h.delta h.position
      cases hs : p.search s p.position true with
      | error e =>
        rw [hs] at found
        exact found
      | ok v =>
        rw [hs] at found
        exact h.moved found
    · exact h

theorem split (h : p.Sound dims) {s : Space} (hs : s.dims = dims) (id : Nat) :
    Yields (Pointer.Sound dims) (p.split id s) := by
  have child : ({ p with id := id, delta := -p.delta, alive := true, instances := .empty, quit := none } :
      Pointer).Sound dims :=
    { h with delta := Vec.fits_neg h.delta }
  have found := child.nextPosition hs
  simp only [Pointer.split, bind, Except.bind, pure, Except.pure]
  split
  · rename_i e he
    rw [he] at found
    exact found
  · rename_i v hv
    rw [hv] at found
    exact child.moved found

end Pointer.Sound

namespace Action

variable {α β : Type} {dims : Nat} {mild : Bool}

/-- From a sound focus, the action gives a value with `R` or fails without harm, and the focus is
sound again. If it is not mild, it has no local failures. -/
def Safe (mild : Bool) (dims : Nat) (a : Action α) (R : α → Prop) : Prop :=
  Meets (Focus.Sound dims) a (fun x f => R x ∧ f.Sound dims) fun e f =>
    f.Sound dims ∧ e.Harmless mild

theorem Safe.bind {a : Action α} {k : α → Action β} {R : α → Prop} {S : β → Prop}
    (first : Safe mild dims a R) (rest : ∀ x, R x → Safe mild dims (k x) S) : Safe mild dims (a >>= k) S :=
  Meets.bind first fun x f hf => rest x hf.1 f hf.2

theorem safe_pure {x : α} {R : α → Prop} (h : R x) : Safe mild dims (pure x : Action α) R :=
  Meets.pure fun _ hf => ⟨h, hf⟩

theorem safe_throw {e : OpError} {R : α → Prop} (h : e.isFatal = false) :
    Safe true dims (throw e : Action α) R :=
  Meets.throw fun _ hf => ⟨hf, OpError.harmless_of_local h⟩

/-- A check that refuses with a local failure is safe before a safe action. -/
theorem Safe.guard {c : Prop} [Decidable c] {e : OpError} {k : Action β} {S : β → Prop}
    (h : e.isFatal = false) (rest : Safe true dims k S) :
    Safe true dims (if c then (throw e : Action Unit) >>= fun _ => k else k) S := by
  split
  · exact (safe_throw (R := fun _ => True) h).bind fun _ _ => rest
  · exact rest

theorem safe_pointer : Safe mild dims pointer (Pointer.Sound dims) :=
  Meets.pointer fun _ hf => ⟨hf.pointer, hf⟩

theorem safe_world : Safe mild dims world (World.Sound dims) :=
  Meets.world fun _ hf => ⟨hf.world, hf⟩

theorem safe_modifyPointer {change : Pointer → Pointer}
    (h : ∀ p, p.Sound dims → (change p).Sound dims) :
    Safe mild dims (modifyPointer change) fun _ => True :=
  Meets.modifyPointer fun _ hf => ⟨trivial, h _ hf.pointer, hf.world⟩

theorem safe_modifyWorld {change : World → World} (h : ∀ w, w.Sound dims → (change w).Sound dims) :
    Safe mild dims (modifyWorld change) fun _ => True :=
  Meets.modifyWorld fun _ hf => ⟨trivial, hf.pointer, h _ hf.world⟩

theorem safe_note (e : Event) : Safe mild dims (note e) fun _ => True :=
  Meets.note fun _ hf => ⟨trivial, hf.pointer, { hf.world with }⟩

theorem safe_draw {take : Pointer → α × Pointer} {R : α → Prop}
    (h : ∀ p, p.Sound dims → R (take p).1 ∧ (take p).2.Sound dims) : Safe mild dims (draw take) R :=
  Meets.draw fun f hf => ⟨(h f.pointer hf.pointer).1, (h f.pointer hf.pointer).2, hf.world⟩

theorem safe_attempt {ε : Type} {failure : ε → OpError} {result : Except ε α} {R : α → Prop}
    (good : ∀ x, result = .ok x → R x) (bad : ∀ e, result = .error e → (failure e).Harmless mild) :
    Safe mild dims (attempt failure result) R :=
  Meets.attempt (fun x hx _ hf => ⟨good x hx, hf⟩) fun e he _ hf => ⟨hf, bad e he⟩

/-- A computation that ends with a value or a fault is safe to attempt. -/
theorem safe_attempt_fatal {result : Except MachineError α} {R : α → Prop}
    (h : Yields R result) : Safe mild dims (attempt .fatal result) R := by
  refine safe_attempt ?_ ?_
  · rintro x rfl
    exact h
  · rintro e rfl
    obtain ⟨fault, same⟩ := h
    exact .inr ⟨fault, congrArg OpError.fatal same⟩

theorem safe_pop : Safe mild dims pop fun _ => True :=
  safe_draw fun _ hp => ⟨trivial, hp.setTop _⟩

theorem safe_popVec : Safe mild dims popVec (·.fits dims = true) :=
  safe_draw fun _ hp => ⟨hp.fits_popVec, hp.setTop _⟩

theorem safe_popText : Safe mild dims popText fun _ => True :=
  safe_draw fun _ hp => ⟨trivial, hp.setTop _⟩

theorem safe_push (v : Cell) : Safe mild dims (push v) fun _ => True :=
  safe_modifyPointer fun _ hp => hp.setTop _

theorem safe_pushVec (v : Vec) : Safe mild dims (pushVec v) fun _ => True :=
  safe_modifyPointer fun _ hp => hp.setTop _

theorem safe_moveTo {position : Vec} (h : position.fits dims = true) :
    Safe mild dims (moveTo position) fun _ => True :=
  safe_modifyPointer fun _ hp => hp.moved h

theorem safe_setHost (host : Host) : Safe mild dims (setHost host) fun _ => True :=
  safe_modifyWorld fun _ hw => { hw with }

theorem safe_setSpace {space : Space} (h : space.dims = dims) :
    Safe mild dims (modifyWorld ({ · with space })) fun _ => True :=
  safe_modifyWorld fun _ hw => { hw with space := h }

theorem safe_readSpace {v : Vec} (h : v.fits dims = true) : Safe mild dims (readSpace v) fun _ => True := by
  refine safe_world.bind fun w hw => ?_
  rw [Space.get_of_fits (by rw [hw.space]; exact h)]
  exact safe_pure trivial

theorem safe_writeSpace {v : Vec} (h : v.fits dims = true) (c : Cell) :
    Safe mild dims (writeSpace v c) fun _ => True := by
  refine safe_world.bind fun w hw => ?_
  rw [Space.set_of_fits (by rw [hw.space]; exact h)]
  refine (safe_pure (R := (·.dims = dims)) ?_).bind fun space hs => safe_setSpace hs
  rw [Space.dims_write, hw.space]

theorem safe_switchTo (mirror : Cell) : Safe mild dims (switchTo mirror) fun _ => True := by
  refine safe_pointer.bind fun p hp => ?_
  split
  · exact safe_writeSpace hp.position mirror
  · exact safe_pure trivial

section Paths

theorem safe_adjacent : Safe mild dims adjacent (·.fits dims = true) := by
  refine safe_pointer.bind fun p hp => ?_
  refine safe_world.bind fun w hw => ?_
  refine safe_attempt (fun v hv => Pointer.adjacent_fits hp.position hp.delta hv) ?_
  exact fun fault _ => .inr ⟨fault, rfl⟩

theorem safe_trampoline : Safe mild dims trampoline fun _ => True :=
  safe_adjacent.bind fun _ hv => safe_moveTo hv

theorem safe_jump : Safe mild dims jump fun _ => True := by
  refine safe_pop.bind fun n _ => ?_
  refine safe_pointer.bind fun p hp => ?_
  refine safe_world.bind fun w _ => ?_
  exact safe_moveTo (Space.travel_fits _ hp.position hp.delta n)

theorem safe_jumpOver : Safe mild dims jumpOver fun _ => True := by
  refine safe_pointer.bind fun p hp => ?_
  refine safe_world.bind fun w hw => ?_
  obtain ⟨position, moved, fits, ends⟩ := Pointer.skipComment_fits (s := w.space) p.position
    Pointer.pathBound (by rw [hw.space]; exact hp.position) (by rw [hw.space]; exact hp.delta)
  rw [hw.space] at fits
  simp only [moved]
  refine (safe_modifyPointer fun _ _ => hp.moved fits).bind fun _ _ => ?_
  exact safe_attempt_fatal ends

theorem safe_fetch : Safe mild dims fetch fun _ => True := by
  refine safe_adjacent.bind fun next hn => ?_
  refine (safe_readSpace hn).bind fun c _ => ?_
  exact (safe_push c).bind fun _ _ => safe_moveTo hn

theorem safe_store : Safe mild dims store fun _ => True := by
  refine safe_adjacent.bind fun next hn => ?_
  refine safe_pop.bind fun c _ => ?_
  exact (safe_writeSpace hn c).bind fun _ _ => safe_moveTo hn

theorem safe_wander : Safe mild dims wander fun _ => True := by
  refine safe_pointer.bind fun p hp => ?_
  refine safe_world.bind fun w hw => ?_
  refine (safe_setHost _).bind fun _ _ => ?_
  refine safe_modifyPointer fun q hq => hq.go (Vec.fits_unit ?_ _)
  have sides : 0 < p.dims * 2 := by have := hw.positive; have := hp.agrees; omega
  have roll : (w.host.dice.roll (p.dims * 2)).1 < p.dims * 2 := Nat.mod_lt _ sides
  change (w.host.dice.roll (p.dims * 2)).1 / 2 < dims
  have := hp.agrees
  omega

theorem safe_turn (left : Bool) : Safe true dims (turn left) fun _ => True := by
  refine safe_pointer.bind fun p hp => ?_
  refine (safe_attempt (R := fun _ => 2 ≤ dims) ?_ ?_).bind fun _ plane => ?_
  · intro _ granted
    by_cases small : p.dims < 2
    · simp [Pointer.requireDims, small] at granted
    · have := hp.agrees
      omega
  · intro e refused
    by_cases small : p.dims < 2
    · simp only [Pointer.requireDims, small, if_true, Except.error.injEq] at refused
      subst refused
      exact OpError.harmless_of_local rfl
    · simp [Pointer.requireDims, small] at refused
  refine (safe_switchTo _).bind fun _ _ => ?_
  exact safe_modifyPointer fun q hq => hq.turn plane left

end Paths

section Storage

theorem safe_stored {v : Vec} (h : v.fits dims = true) : Safe mild dims (stored v) (·.fits dims = true) :=
  safe_pointer.bind fun _ hp => safe_pure (Vec.fits_add h hp.offset)

theorem safe_getCell : Safe mild dims getCell fun _ => True := by
  refine safe_popVec.bind fun v hv => ?_
  refine (safe_stored hv).bind fun u hu => ?_
  exact (safe_readSpace hu).bind fun c _ => safe_push c

theorem safe_putCell : Safe mild dims putCell fun _ => True := by
  refine safe_popVec.bind fun v hv => ?_
  refine safe_pop.bind fun c _ => ?_
  exact (safe_stored hv).bind fun u hu => safe_writeSpace hu c

theorem safe_second : Safe true dims second fun _ => True := by
  refine safe_pointer.bind fun p _ => ?_
  split
  · exact safe_pure trivial
  · exact safe_throw rfl

theorem safe_setSecond (s : Stack) : Safe mild dims (setSecond s) fun _ => True :=
  safe_modifyPointer fun _ hp => { hp with stacked := StackStack.setSecond_ne_nil hp.stacked s }

theorem safe_restack {change : StackStack → Except StackError Unit × StackStack}
    (h : ∀ {ss : StackStack}, ss.stacks ≠ [] → (change ss).2.stacks ≠ []) :
    Safe true dims (restack change) fun _ => True := by
  refine safe_pointer.bind fun p hp => ?_
  refine Safe.bind (safe_modifyPointer fun q hq => { hq with stacked := h hp.stacked }) fun _ _ => ?_
  exact safe_attempt (fun _ _ => trivial) fun e _ => OpError.harmless_ofStack e

theorem safe_setOffset {offset : Vec} (h : offset.fits dims = true) :
    Safe mild dims (modifyPointer ({ · with offset })) fun _ => True :=
  safe_modifyPointer fun _ hp => { hp with offset := h }

theorem safe_beginBlock : Safe true dims beginBlock fun _ => True := by
  refine safe_pop.bind fun n _ => ?_
  refine (safe_restack fun h => StackStack.beginBlock_ne_nil h n).bind fun _ _ => ?_
  refine safe_pointer.bind fun q hq => ?_
  refine (safe_setOffset (Vec.fits_add hq.position hq.delta)).bind fun _ _ => ?_
  refine safe_second.bind fun s _ => ?_
  exact (safe_setSecond _).bind fun _ _ => safe_switchTo _

theorem safe_endBlock : Safe true dims endBlock fun _ => True := by
  refine safe_second.bind fun _ _ => ?_
  refine safe_pop.bind fun n _ => ?_
  refine safe_pointer.bind fun p hp => ?_
  refine Safe.guard rfl ?_
  refine safe_second.bind fun s _ => ?_
  refine (safe_setSecond _).bind fun _ _ => ?_
  have offset : (s.popVec p.dims .normal).1.fits dims = true := hp.agrees ▸ s.fits_popVec _ _
  refine (safe_setOffset offset).bind fun _ _ => ?_
  refine (safe_restack fun h => StackStack.endBlock_ne_nil h n).bind fun _ _ => ?_
  exact safe_switchTo _

theorem safe_transfer : Safe true dims transfer fun _ => True := by
  refine safe_second.bind fun _ _ => ?_
  exact safe_pop.bind fun n _ => safe_restack fun h => StackStack.transfer_ne_nil h n

end Storage

section Channels

theorem safe_attempt_channel {ε : Type} (failure : ε → ChannelError) (result : Except ε α) :
    Safe true dims (attempt (fun e => .channel (failure e)) result) fun _ => True :=
  safe_attempt (fun _ _ => trivial) fun _ _ => OpError.harmless_of_local rfl

theorem safe_writeChar : Safe true dims writeChar fun _ => True := by
  refine safe_pop.bind fun v _ => ?_
  refine safe_world.bind fun w _ => ?_
  exact (safe_attempt_channel id _).bind fun host _ => safe_setHost host

theorem safe_writeNumber (radix : Nat) : Safe true dims (writeNumber radix) fun _ => True := by
  refine safe_pop.bind fun v _ => ?_
  refine safe_world.bind fun w _ => ?_
  exact (safe_attempt_channel id _).bind fun host _ => safe_setHost host

theorem safe_popRadix : Safe true dims popRadix fun _ => True := by
  refine safe_pop.bind fun v _ => ?_
  split
  · exact safe_pure trivial
  · exact safe_throw rfl

theorem safe_writeNumberIn : Safe true dims writeNumberIn fun _ => True :=
  safe_popRadix.bind fun radix _ => safe_writeNumber radix

/-- What was read is pushed, and the end of the input is a local failure. -/
theorem safe_deliver (value : Option Cell) :
    Safe true dims (match value with
      | some v => push v
      | none => throw .inputExhausted : Action Unit) fun _ => True := by
  cases value with
  | some v => exact safe_push v
  | none => exact safe_throw rfl

theorem safe_readNumberFrom (radix : Nat) : Safe true dims (readNumberFrom radix) fun _ => True := by
  refine safe_world.bind fun w _ => ?_
  refine (safe_attempt_channel id _).bind fun reading _ => ?_
  exact (safe_setHost reading.2).bind fun _ _ => safe_deliver reading.1

theorem safe_readNumberIn : Safe true dims readNumberIn fun _ => True :=
  safe_popRadix.bind fun radix _ => safe_readNumberFrom radix

theorem safe_readChar : Safe true dims readChar fun _ => True := by
  refine safe_world.bind fun w _ => ?_
  exact (safe_setHost w.host.readChar.2).bind fun _ _ => safe_deliver w.host.readChar.1

theorem safe_loadFile : Safe true dims loadFile fun _ => True := by
  refine safe_popText.bind fun path _ => ?_
  refine safe_pop.bind fun flags _ => ?_
  refine safe_popVec.bind fun origin ho => ?_
  refine safe_world.bind fun w hw => ?_
  refine (safe_attempt_channel .file _).bind fun source _ => ?_
  refine (safe_stored ho).bind fun place hp => ?_
  obtain ⟨size, space, loaded, same⟩ := Space.load_of_fits (s := w.space)
    (by rw [hw.space]; exact hw.positive) (by rw [hw.space]; exact hp) source (lowBit flags)
  rw [loaded]
  refine (safe_setSpace (same.trans hw.space)).bind fun _ _ => ?_
  refine (safe_pure (R := fun _ => True) trivial).bind fun size _ => ?_
  refine safe_pointer.bind fun p _ => ?_
  refine (safe_note _).bind fun _ _ => ?_
  exact (safe_pushVec size).bind fun _ _ => safe_pushVec origin

theorem safe_saveFile : Safe true dims saveFile fun _ => True := by
  refine safe_popText.bind fun path _ => ?_
  refine safe_pop.bind fun flags _ => ?_
  refine safe_popVec.bind fun origin ho => ?_
  refine safe_popVec.bind fun size _ => ?_
  refine (safe_stored ho).bind fun place hp => ?_
  refine safe_world.bind fun w hw => ?_
  refine (safe_attempt (R := fun _ => True) (fun _ _ => trivial) ?_).bind fun text _ => ?_
  · intro e refused
    have large := Space.dump_of_fits (by rw [hw.space]; exact hw.positive)
      (by rw [hw.space]; exact hp) size (lowBit flags) refused
    subst large
    exact OpError.harmless_of_local rfl
  refine (safe_attempt_channel .file _).bind fun folder _ => ?_
  refine (safe_setHost _).bind fun _ _ => ?_
  exact safe_pointer.bind fun p _ => safe_note _

end Channels

theorem safe_report : Safe mild dims report fun _ => True := by
  refine safe_pop.bind fun n _ => ?_
  refine safe_pointer.bind fun p _ => ?_
  refine safe_world.bind fun w _ => ?_
  split
  · exact safe_modifyPointer fun _ hq => hq.setTop _
  · exact safe_push _

section Extensions

theorem safe_popHandprint : Safe true dims popHandprint fun _ => True := by
  refine safe_pop.bind fun count _ => ?_
  refine Safe.guard rfl ?_
  refine safe_pointer.bind fun p _ => ?_
  refine (safe_draw (R := fun _ => True) fun q hq => ⟨trivial, hq.setTop _⟩).bind fun cells _ => ?_
  exact safe_pure trivial

theorem load_sound {p q : Pointer} {shared shared' : InstanceStore} {code : Handprint}
    {fp : Fingerprint} (hp : p.Sound dims) (h : p.load .standard shared code = .ok (q, shared', fp)) :
    q.Sound dims := by
  obtain ⟨member, own, rfl⟩ := Pointer.load_eq h
  refine { hp with bound := hp.bound.pushAll ?_ code }
  intro b bound
  obtain ⟨letter, listed⟩ := Pointer.mem_letterBindings bound
  exact Registry.standard_bindings member _ listed

theorem safe_loadFingerprint (code : Handprint) :
    Safe true dims (loadFingerprint code) fun _ => True := by
  refine safe_world.bind fun w hw => ?_
  refine safe_pointer.bind fun p hp => ?_
  rw [hw.registry]
  refine (safe_attempt (R := fun r => r.1.Sound dims) ?_ ?_).bind fun r hr => ?_
  · rintro ⟨q, shared, fp⟩ loaded
    exact load_sound hp loaded
  · intro e refused
    exact OpError.harmless_of_local
      (Pointer.load_local (fun fp member => Registry.standard_supported member) refused)
  refine (safe_modifyPointer fun _ _ => hr).bind fun _ _ => ?_
  refine (safe_modifyWorld fun w' hw' => ?_).bind fun _ _ => safe_note _
  exact { hw' with }

theorem safe_unloadFingerprint (code : Handprint) :
    Safe true dims (unloadFingerprint code) fun _ => True := by
  refine safe_pointer.bind fun p hp => ?_
  refine safe_world.bind fun w _ => ?_
  refine (safe_attempt (R := fun r => r.1.Sound dims) ?_ ?_).bind fun r hr => ?_
  · rintro ⟨q, fp⟩ unloaded
    rw [Pointer.unload_eq unloaded]
    exact { hp with bound := hp.bound.popAll _ }
  · exact fun e refused => OpError.harmless_of_local (Pointer.unload_local refused)
  exact (safe_modifyPointer fun _ _ => hr).bind fun _ _ => safe_note _

theorem safe_loadSemantics : Safe true dims loadSemantics fun _ => True := by
  refine safe_popHandprint.bind fun code _ => ?_
  refine (safe_loadFingerprint code).bind fun _ _ => ?_
  refine (safe_switchTo _).bind fun _ _ => ?_
  exact (safe_push _).bind fun _ _ => safe_push 1

theorem safe_unloadSemantics : Safe true dims unloadSemantics fun _ => True := by
  refine safe_popHandprint.bind fun code _ => ?_
  exact (safe_unloadFingerprint code).bind fun _ _ => safe_switchTo _

theorem safe_setShared (change : World → InstanceStore) :
    Safe mild dims (modifyWorld fun w => { w with shared := change w }) fun _ => True :=
  safe_modifyWorld fun _ hw => { hw with }

theorem safe_references : Safe true dims references fun _ => True := by
  refine safe_world.bind fun w _ => ?_
  refine (safe_attempt (R := fun _ => True) (fun _ _ => trivial) ?_).bind fun shared _ => ?_
  · exact fun e refused => OpError.harmless_of_local (InstanceStore.ensure_local refused)
  refine (safe_setShared _).bind fun _ _ => ?_
  split
  · exact safe_pure trivial
  · exact safe_throw rfl

theorem safe_refer : Safe true dims refer fun _ => True := by
  refine safe_popVec.bind fun v _ => ?_
  refine safe_references.bind fun table _ => ?_
  exact (safe_setShared _).bind fun _ _ => safe_push _

theorem safe_dereference : Safe true dims dereference fun _ => True := by
  refine safe_pop.bind fun r _ => ?_
  refine safe_references.bind fun table _ => ?_
  split
  · exact safe_pushVec _
  · exact safe_throw rfl

theorem safe_setInstances (change : Pointer → InstanceStore) :
    Safe mild dims (modifyPointer fun p => { p with instances := change p }) fun _ => True :=
  safe_modifyPointer fun _ hp => { hp with }

theorem safe_timer : Safe true dims timer fun _ => True := by
  refine safe_pointer.bind fun p _ => ?_
  refine safe_world.bind fun w _ => ?_
  refine (safe_attempt (R := fun _ => True) (fun _ _ => trivial) ?_).bind fun own _ => ?_
  · exact fun e refused => OpError.harmless_of_local (InstanceStore.ensure_local refused)
  refine (safe_setInstances _).bind fun _ _ => ?_
  split
  · exact safe_pure trivial
  · exact safe_throw rfl

theorem safe_markTimer : Safe true dims markTimer fun _ => True := by
  refine safe_timer.bind fun _ _ => ?_
  exact safe_world.bind fun w _ => safe_setInstances _

theorem safe_readTimer : Safe true dims readTimer fun _ => True := by
  refine safe_timer.bind fun mark _ => ?_
  cases mark with
  | some mark => exact safe_world.bind fun w _ => safe_push _
  | none => exact safe_throw rfl

theorem safe_eraseTimer : Safe true dims eraseTimer fun _ => True :=
  safe_timer.bind fun _ _ => safe_setInstances _

theorem safe_microseconds : Safe mild dims microseconds fun _ => True :=
  safe_world.bind fun _ _ => safe_push _

end Extensions

section Lifecycle

theorem safe_stop : Safe mild dims stop fun _ => True := by
  refine safe_pointer.bind fun p _ => ?_
  refine (safe_note _).bind fun _ _ => ?_
  exact safe_modifyPointer fun _ hp => { hp with }

theorem safe_quit : Safe mild dims quit fun _ => True := by
  refine safe_pop.bind fun code _ => ?_
  refine safe_pointer.bind fun p _ => ?_
  refine (safe_note _).bind fun _ _ => ?_
  exact safe_modifyPointer fun _ hp => { hp with }

theorem safe_nextId : Safe mild dims nextId fun _ => True := by
  intro f hf
  exact ⟨trivial, hf.pointer, { hf.world with }⟩

theorem safe_split : Safe mild dims split fun _ => True := by
  refine safe_nextId.bind fun id _ => ?_
  refine safe_pointer.bind fun p hp => ?_
  refine safe_world.bind fun w hw => ?_
  refine (safe_attempt_fatal (hp.split hw.space id)).bind fun child hc => ?_
  refine (safe_note _).bind fun _ _ => ?_
  refine safe_modifyWorld fun w' hw' => { hw' with newborns := ?_ }
  intro c member
  rcases Array.mem_push.mp member with old | rfl
  · exact hw'.newborns c old
  · exact hc

end Lifecycle

section Performance

theorem operand_sound (o : Operand) {p : Pointer} (hp : p.Sound dims) : (o.apply p).Sound dims := by
  obtain ⟨s, same⟩ := o.restacks p
  rw [same]
  exact hp.setTop s

theorem course_sound {c : Course} {p : Pointer} (hp : p.Sound dims) (inside : c.needed ≤ dims) :
    (c.effect p).Sound dims := by
  cases c with
  | nop => exact hp
  | head axis forward => exact hp.go (Vec.fits_unit inside _)
  | branch axis => exact (hp.setTop _).go (Vec.fits_unit inside _)
  | compare =>
    simp only [Course.effect]
    split
    · exact (hp.setTop _).setTop _
    · exact ((hp.setTop _).setTop _).turn inside _
  | reflect => exact hp.reflect
  | absolute => exact { hp.setTop _ with delta := hp.fits_popVec }
  | raise flag => exact { hp with }
  | toggle flag => exact { hp with }

theorem safe_course (c : Course) :
    Safe true dims (Instruction.perform iteration (.course c)) fun _ => True := by
  refine safe_pointer.bind fun p hp => ?_
  rw [Course.apply_eq]
  refine (safe_attempt (R := Pointer.Sound dims) ?_ ?_).bind fun q hq =>
    safe_modifyPointer fun _ _ => hq
  · intro q granted
    split at granted
    · cases granted
    · cases granted
      have agrees := hp.agrees
      exact course_sound hp (by omega)
  · intro e refused
    split at refused
    · cases refused
      exact OpError.harmless_of_local rfl
    · cases refused

theorem safe_perform {iteration : Action Unit} (h : Safe true dims iteration fun _ => True)
    (i : Instruction) : Safe true dims (i.perform iteration) fun _ => True := by
  cases i with
  | operand o => exact safe_modifyPointer fun _ hp => operand_sound o hp
  | course c => exact safe_course c
  | wander => exact safe_wander
  | turn left => exact safe_turn left
  | trampoline => exact safe_trampoline
  | jump => exact safe_jump
  | jumpOver => exact safe_jumpOver
  | fetch => exact safe_fetch
  | store => exact safe_store
  | get => exact safe_getCell
  | put => exact safe_putCell
  | beginBlock => exact safe_beginBlock
  | endBlock => exact safe_endBlock
  | transfer => exact safe_transfer
  | writeNumber radix => exact safe_writeNumber radix
  | writeNumberIn => exact safe_writeNumberIn
  | writeChar => exact safe_writeChar
  | readNumber => exact safe_readNumberFrom 10
  | readNumberIn => exact safe_readNumberIn
  | readChar => exact safe_readChar
  | loadFile => exact safe_loadFile
  | saveFile => exact safe_saveFile
  | report => exact safe_report
  | iterate => exact h
  | stop => exact safe_stop
  | quit => exact safe_quit
  | split => exact safe_split
  | loadSemantics => exact safe_loadSemantics
  | unloadSemantics => exact safe_unloadSemantics
  | refer => exact safe_refer
  | dereference => exact safe_dereference
  | markTimer => exact safe_markTimer
  | readTimer => exact safe_readTimer
  | eraseTimer => exact safe_eraseTimer
  | microseconds => exact safe_microseconds
  | refuse => exact safe_throw rfl
  | unsupported code => exact safe_throw rfl

theorem instruction?_local {w : World} {p : Pointer} {code : Cell} {e : OpError}
    (h : w.instruction? p code = .error e) : e.isFatal = false := by
  unfold World.instruction? at h
  split at h
  · split at h
    · cases h
    · cases h
      rfl
  · cases h

theorem safe_resolve (code : Cell) : Safe true dims (resolve code) fun _ => True := by
  refine safe_world.bind fun w _ => ?_
  refine safe_pointer.bind fun p _ => ?_
  refine safe_attempt (fun _ _ => trivial) ?_
  exact fun e refused => OpError.harmless_of_local (instruction?_local refused)

theorem safe_unknown (code : Cell) : Safe true dims (unknown code) fun _ => True := by
  refine safe_world.bind fun w _ => ?_
  split
  · exact safe_pointer.bind fun p _ => safe_note _
  · exact safe_throw rfl

theorem safe_repeatAlive {a : Action Unit} (h : Safe mild dims a fun _ => True) (n : Nat) :
    Safe mild dims (repeatAlive a n) fun _ => True := by
  have turns : Meets (Focus.Sound dims) a (fun _ => Focus.Sound dims)
      fun e f => f.Sound dims ∧ e.Harmless mild := h.mono (fun _ hf => hf) (fun _ _ hf => hf.2) fun _ _ hf => hf
  exact (turns.repeatAlive n).mono (fun _ hf => hf) (fun _ _ hf => ⟨trivial, hf⟩) fun _ _ hf => hf

theorem safe_iterate {execution : Cell → Action Unit}
    (h : ∀ code, Safe true dims (execution code) fun _ => True) :
    Safe true dims (iterate execution) fun _ => True := by
  refine safe_pop.bind fun n _ => ?_
  refine safe_pointer.bind fun p hp => ?_
  refine safe_world.bind fun w hw => ?_
  refine (safe_attempt_fatal (hp.nextPosition hw.space)).bind fun target ht => ?_
  split
  · exact safe_moveTo ht
  split
  · exact safe_throw rfl
  refine (safe_readSpace ht).bind fun code _ => ?_
  refine (safe_repeatAlive (h code) n.toCount).bind fun _ _ => ?_
  refine safe_pointer.bind fun q _ => ?_
  split
  · exact safe_moveTo ht
  · exact safe_pure trivial

/-- Execution is safe at every depth of nesting. -/
theorem safe_execute (depth : Nat) (code : Cell) : Safe true dims (execute depth code) fun _ => True := by
  induction depth generalizing code with
  | zero =>
    exact Meets.throw fun f hf => ⟨hf, .inr ⟨.nesting, rfl⟩⟩
  | succ depth ih =>
    refine (safe_resolve code).bind fun i _ => ?_
    cases i with
    | some i => exact safe_perform (safe_iterate ih) i
    | none => exact safe_unknown code

end Performance

end Action

namespace Focus

variable {dims : Nat} {f : Focus}

/-- The focus is sound and the result is no failure but a fault. -/
def Kept {α : Type} (dims : Nat) (run : Except MachineError α × Focus) : Prop :=
  run.2.Sound dims ∧ ∀ e, run.1 = .error e → ∃ fault, e = .fault fault

theorem Sound.note (h : f.Sound dims) (e : Event) : (f.note e).Sound dims :=
  ⟨h.pointer, { h.world with }⟩

theorem Sound.spell (h : f.Sound dims) (cell : Cell) : (f.spell cell).Sound dims := by
  refine ⟨?_, h.world⟩
  simp only [Focus.spell]
  split
  · exact { h.pointer with }
  · exact h.pointer.setTop _

theorem Sound.advance (h : f.Sound dims) : Kept dims f.advance := by
  have found := h.pointer.nextPosition h.world.space
  unfold Focus.advance
  split
  · split
    · rename_i e failed
      rw [failed] at found
      refine ⟨h, ?_⟩
      rintro _ ⟨⟩
      exact found
    · rename_i position reached
      rw [reached] at found
      exact ⟨⟨h.pointer.moved found, h.world⟩, by rintro _ ⟨⟩⟩
  · exact ⟨h, by rintro _ ⟨⟩⟩

/-- A step keeps a sound focus sound and fails only with a fault. -/
theorem Sound.step (h : f.Sound dims) : Kept dims f.step := by
  unfold Focus.step
  rw [Space.get_of_fits (by rw [h.world.space]; exact h.pointer.position)]
  simp only
  split
  · exact (h.spell _).advance
  · have started := h.note (.executed f.pointer.id f.pointer.position
      (f.world.space.peek f.pointer.position))
    have ends := Action.safe_execute Action.maxNesting (f.world.space.peek f.pointer.position) _ started
    unfold Focus.execute
    split
    · rename_i after run
      rw [run] at ends
      exact ends.2.advance
    · rename_i e after run
      rw [run] at ends
      refine ⟨ends.1, ?_⟩
      rintro _ ⟨⟩
      rcases ends.2 with ⟨_, mild⟩ | ⟨fault, same⟩
      · cases mild
      · exact ⟨fault, OpError.fatal.inj same⟩
    · rename_i e after notFatal run
      rw [run] at ends
      have noted := ends.1.note (.reflected after.pointer.id after.pointer.position
        (f.world.space.peek f.pointer.position) e)
      exact Sound.advance ⟨noted.pointer.reflect, noted.world⟩

end Focus

end Funge
