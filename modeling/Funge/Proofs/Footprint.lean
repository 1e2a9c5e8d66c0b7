import Funge.Proofs.Action
import Funge.Proofs.Course
import Funge.Proofs.Loading

/-!
# Footprints

A focus is divided into parts, and each instruction has a footprint: the parts that it may
change, whether it succeeds or fails. All others are the same afterwards. An iteration has no
footprint of its own, since it runs other instructions.
-/

namespace Funge

inductive Part where
  | identity
  /-- The stack that instructions work on. -/
  | top
  /-- The number of stacks, and those below the top one. -/
  | lower
  | position
  | delta
  | offset
  | flags
  | life
  | bindings
  | instances
  | quit
  | space
  | input
  | output
  | dice
  | folder
  | shared
  | newborns
  | nextId
  | journal
  /-- What no instruction changes. -/
  | setting
deriving DecidableEq

namespace Part

def Carrier : Part → Type
  | .identity => Nat × Nat
  | .top => Stack
  | .lower => Nat × List Stack
  | .position => Vec
  | .delta => Vec
  | .offset => Vec
  | .flags => Flags
  | .life => Bool
  | .bindings => Overrides
  | .instances => InstanceStore
  | .quit => Option Cell
  | .space => Space
  | .input => List UInt8
  | .output => List UInt8
  | .dice => Dice
  | .folder => Folder
  | .shared => InstanceStore
  | .newborns => Array (Pointer × Nat)
  | .nextId => Nat
  | .journal => Journal
  | .setting =>
    (Table × Registry × Settings) × (List String × List (String × String)) × Clock × Nat

/-- The contents of a part. -/
def of (f : Focus) : (part : Part) → part.Carrier
  | .identity => (f.pointer.id, f.pointer.dims)
  | .top => f.pointer.top
  | .lower => (f.pointer.stacks.depth, f.pointer.stacks.stacks.tail)
  | .position => f.pointer.position
  | .delta => f.pointer.delta
  | .offset => f.pointer.offset
  | .flags => f.pointer.flags
  | .life => f.pointer.alive
  | .bindings => f.pointer.overrides
  | .instances => f.pointer.instances
  | .quit => f.pointer.quit
  | .space => f.world.space
  | .input => f.world.host.input
  | .output => f.world.host.written
  | .dice => f.world.host.dice
  | .folder => f.world.host.folder
  | .shared => f.world.shared
  | .newborns => f.world.newborns
  | .nextId => f.world.nextId
  | .journal => f.world.journal
  | .setting =>
    ((f.world.table, f.world.registry, f.world.settings),
      (f.world.host.arguments, f.world.host.environment), f.world.host.clock, f.world.host.stopwatch)

end Part

/-- The foci are the same in all parts but the given ones. -/
def Focus.Differs (parts : List Part) (f g : Focus) : Prop :=
  ∀ part, part ∉ parts → Part.of g part = Part.of f part

namespace Focus.Differs

variable {parts more : List Part} {f g h : Focus}

theorem refl (parts : List Part) (f : Focus) : f.Differs parts f := fun _ _ => rfl

theorem trans (first : f.Differs parts g) (second : g.Differs parts h) : f.Differs parts h :=
  fun part outside => (second part outside).trans (first part outside)

theorem mono (h : f.Differs parts g) (sub : ∀ part ∈ parts, part ∈ more) : f.Differs more g :=
  fun part outside => h part fun member => outside (sub part member)

end Focus.Differs

namespace Action

variable {α β : Type} {parts : List Part}

/-- The action changes the given parts at most. -/
def Touches (parts : List Part) (a : Action α) : Prop := Follows (Focus.Differs parts) a

theorem Touches.mono {more : List Part} {a : Action α} (h : Touches parts a)
    (sub : ∀ part ∈ parts, part ∈ more) : Touches more a := fun f => (h f).mono sub

theorem Touches.bind {a : Action α} {k : α → Action β} (first : Touches parts a)
    (rest : ∀ x, Touches parts (k x)) : Touches parts (a >>= k) :=
  Follows.bind (fun _ _ _ one two => one.trans two) first rest

theorem touches_bind_at {a : Action α} {k : α → Action β} {f : Focus}
    (first : f.Differs parts (a f).2) (rest : ∀ x, Touches parts (k x)) :
    f.Differs parts ((a >>= k) f).2 :=
  Follows.bind_at (fun _ _ _ one two => one.trans two) first rest

theorem touches_attempt_at {ε : Type} {failure : ε → OpError} {result : Except ε α}
    {k : α → Action β} {f : Focus} (rest : ∀ x, result = .ok x → f.Differs parts (k x f).2) :
    f.Differs parts ((attempt failure result >>= k) f).2 :=
  Follows.attempt_at (Focus.Differs.refl parts) rest

/-- What follows on a look at the pointer is known to start from that pointer. -/
theorem touches_pointer_bind {k : Pointer → Action β} (h : ∀ f : Focus, f.Differs parts (k f.pointer f).2) :
    Touches parts (pointer >>= k) := h

theorem touches_world_bind {k : World → Action β} (h : ∀ f : Focus, f.Differs parts (k f.world f).2) :
    Touches parts (world >>= k) := h

theorem touches_pure (x : α) : Touches parts (pure x : Action α) := fun f => .refl parts f

theorem touches_throw (e : OpError) : Touches parts (throw e : Action α) := fun f => .refl parts f

theorem touches_attempt {ε : Type} (failure : ε → OpError) (result : Except ε α) :
    Touches parts (attempt failure result) := Follows.attempt (Focus.Differs.refl parts) failure result

theorem touches_pointer : Touches parts pointer := fun f => .refl parts f

theorem touches_world : Touches parts world := fun f => .refl parts f

theorem Touches.guard {c : Prop} [Decidable c] {e : OpError} {k : Action β}
    (rest : Touches parts k) :
    Touches parts (if c then (throw e : Action Unit) >>= fun _ => k else k) :=
  Follows.guard (Focus.Differs.refl parts) (fun _ _ _ one two => one.trans two) rest

section Pointers

theorem differs_setTop (h : .top ∈ parts) (f : Focus) (s : Stack) :
    f.Differs parts { f with pointer := f.pointer.setTop s } := by
  intro part outside
  cases part with
  | top => exact absurd h outside
  | lower =>
    rcases f with ⟨⟨id, dims, ⟨layers⟩⟩⟩
    cases layers <;> rfl
  | _ => rfl

theorem touches_modifyTop {change : Pointer → Pointer} (h : .top ∈ parts)
    (restacks : ∀ p : Pointer, p.Restacked (change p)) : Touches parts (modifyPointer change) := by
  intro f
  obtain ⟨s, same⟩ := restacks f.pointer
  rw [run_modifyPointer, same]
  exact differs_setTop h f s

theorem touches_drawTop {take : Pointer → α × Pointer} (h : .top ∈ parts)
    (restacks : ∀ p : Pointer, p.Restacked (take p).2) : Touches parts (draw take) := by
  intro f
  obtain ⟨s, same⟩ := restacks f.pointer
  rw [run_draw, same]
  exact differs_setTop h f s

theorem touches_pop (h : .top ∈ parts) : Touches parts pop :=
  touches_drawTop h fun _ => ⟨_, rfl⟩

theorem touches_popVec (h : .top ∈ parts) : Touches parts popVec :=
  touches_drawTop h fun _ => ⟨_, rfl⟩

theorem touches_popText (h : .top ∈ parts) : Touches parts popText :=
  touches_drawTop h fun _ => ⟨_, rfl⟩

theorem touches_push (h : .top ∈ parts) (v : Cell) : Touches parts (push v) :=
  touches_modifyTop h fun _ => ⟨_, rfl⟩

theorem touches_pushVec (h : .top ∈ parts) (v : Vec) : Touches parts (pushVec v) :=
  touches_modifyTop h fun _ => ⟨_, rfl⟩

theorem touches_moveTo (h : .position ∈ parts) (v : Vec) : Touches parts (moveTo v) := by
  intro f part outside
  cases part <;> first | rfl | exact absurd h outside

theorem touches_modifyDelta (h : .delta ∈ parts) (change : Pointer → Vec) :
    Touches parts (modifyPointer fun p => { p with delta := change p }) := by
  intro f part outside
  cases part <;> first | rfl | exact absurd h outside

theorem touches_setOffset (h : .offset ∈ parts) (offset : Vec) :
    Touches parts (modifyPointer ({ · with offset })) := by
  intro f part outside
  cases part <;> first | rfl | exact absurd h outside

/-- Any change of the stacks keeps all parts that are not stacks. -/
theorem touches_modifyStacks (top : .top ∈ parts) (lower : .lower ∈ parts)
    (change : Pointer → StackStack) :
    Touches parts (modifyPointer fun p => p.setStacks (change p)) := by
  intro f part outside
  cases part <;> first | rfl | exact absurd top outside | exact absurd lower outside

theorem touches_modifyInstances (h : .instances ∈ parts) (change : Pointer → InstanceStore) :
    Touches parts (modifyPointer fun p => { p with instances := change p }) := by
  intro f part outside
  cases part <;> first | rfl | exact absurd h outside

end Pointers

section Worlds

theorem touches_note (h : .journal ∈ parts) (e : Event) : Touches parts (note e) := by
  intro f part outside
  cases part <;> first | rfl | exact absurd h outside

theorem touches_setSpace (h : .space ∈ parts) (space : Space) :
    Touches parts (modifyWorld ({ · with space })) := by
  intro f part outside
  cases part <;> first | rfl | exact absurd h outside

theorem touches_modifyShared (h : .shared ∈ parts) (change : World → InstanceStore) :
    Touches parts (modifyWorld fun w => { w with shared := change w }) := by
  intro f part outside
  cases part <;> first | rfl | exact absurd h outside

theorem touches_readSpace (v : Vec) : Touches parts (readSpace v) :=
  touches_world.bind fun _ => touches_attempt _ _

theorem touches_writeSpace (h : .space ∈ parts) (v : Vec) (c : Cell) :
    Touches parts (writeSpace v c) := by
  refine touches_world.bind fun w => ?_
  exact (touches_attempt _ _).bind fun space => touches_setSpace h space

theorem touches_switchTo (h : .space ∈ parts) (mirror : Cell) : Touches parts (switchTo mirror) := by
  refine touches_pointer.bind fun p => ?_
  split
  · exact touches_writeSpace h _ _
  · exact touches_pure _

end Worlds

section Hosts

theorem differs_setHost {f : Focus} {host : Host} (h : host = { f.world.host with
      input := host.input, written := host.written, dice := host.dice, folder := host.folder })
    (input : .input ∉ parts → host.input = f.world.host.input)
    (output : .output ∉ parts → host.written = f.world.host.written)
    (dice : .dice ∉ parts → host.dice = f.world.host.dice)
    (folder : .folder ∉ parts → host.folder = f.world.host.folder) :
    f.Differs parts (setHost host f).2 := by
  intro part outside
  cases part with
  | input => exact input outside
  | output => exact output outside
  | dice => exact dice outside
  | folder => exact folder outside
  | setting =>
    change (_, (host.arguments, host.environment), host.clock, host.stopwatch) = _
    rw [h]
    rfl
  | _ => rfl

theorem differs_emit (h : .output ∈ parts) (f : Focus) (bytes : List UInt8) :
    f.Differs parts (setHost (f.world.host.emit bytes) f).2 :=
  differs_setHost rfl (fun _ => rfl) (fun outside => absurd h outside) (fun _ => rfl) fun _ => rfl

theorem differs_consume (h : .input ∈ parts) (f : Focus) (rest : List UInt8) :
    f.Differs parts (setHost { f.world.host with input := rest } f).2 :=
  differs_setHost rfl (fun outside => absurd h outside) (fun _ => rfl) (fun _ => rfl) fun _ => rfl

theorem writeChar_emits {h h' : Host} {v : Cell} (written : h.writeChar v = .ok h') :
    ∃ bytes, h' = h.emit bytes := by
  unfold Host.writeChar at written
  split at written
  · cases written
    exact ⟨_, rfl⟩
  · split at written
    · cases written
      exact ⟨_, rfl⟩
    · cases written

theorem writeNumber_emits {h h' : Host} {v : Cell} {radix : Nat}
    (written : h.writeNumber v radix = .ok h') : ∃ bytes, h' = h.emit bytes := by
  unfold Host.writeNumber at written
  split at written
  · cases written
    exact ⟨_, rfl⟩
  · cases written

theorem readNumber_consumes {h h' : Host} {radix : Nat} {value : Option Cell}
    (read : h.readNumber radix = .ok (value, h')) : ∃ rest, h' = { h with input := rest } := by
  unfold Host.readNumber at read
  split at read
  · cases read
    exact ⟨_, rfl⟩
  · cases read

theorem readChar_consumes (h : Host) : ∃ rest, h.readChar.2 = { h with input := rest } := by
  unfold Host.readChar
  split
  · exact ⟨h.input, rfl⟩
  · exact ⟨_, rfl⟩

end Hosts

section Instructions

theorem touches_adjacent : Touches parts adjacent :=
  touches_pointer.bind fun _ => touches_world.bind fun _ => touches_attempt _ _

theorem touches_stored (v : Vec) : Touches parts (stored v) :=
  touches_pointer.bind fun _ => touches_pure _

theorem touches_second : Touches parts second := by
  refine touches_pointer.bind fun p => ?_
  split
  · exact touches_pure _
  · exact touches_throw _

theorem touches_course {iteration : Action Unit} (c : Course) :
    Touches [.top, .delta, .flags] (Instruction.perform iteration (.course c)) := by
  refine touches_pointer_bind fun f => touches_attempt_at fun q applied => ?_
  rw [Course.apply_eq] at applied
  split at applied
  · cases applied
  cases applied
  have popped {p : Pointer} (h : f.pointer.Restacked p) :
      f.Differs [.top, .delta, .flags] { f with pointer := p } := by
    obtain ⟨s, rfl⟩ := h
    exact differs_setTop (by decide) f s
  have turned {p : Pointer} (h : f.pointer.Restacked p) (delta : Vec) :
      f.Differs [.top, .delta, .flags] { f with pointer := { p with delta } } :=
    (popped h).trans (touches_modifyDelta (by decide) (fun _ => delta) { f with pointer := p })
  have same := Pointer.Restacked.refl f.pointer
  cases c with
  | nop => exact popped same
  | head axis forward => exact turned same _
  | branch axis => exact turned same.pop _
  | compare =>
    simp only [Course.effect]
    split
    · exact popped same.pop.pop
    · exact turned same.pop.pop _
  | reflect => exact turned same _
  | absolute => exact turned ⟨_, rfl⟩ _
  | raise flag | toggle flag =>
    intro part outside
    cases part <;> first | rfl | exact absurd (by decide) outside

theorem touches_wander : Touches [.delta, .dice] wander := by
  refine touches_pointer.bind fun p => touches_world_bind fun f => touches_bind_at ?_ fun _ => ?_
  · exact differs_setHost rfl (fun _ => rfl) (fun _ => rfl)
      (fun outside => absurd (by decide) outside) fun _ => rfl
  · exact touches_modifyDelta (by decide) _

theorem touches_turn (left : Bool) : Touches [.delta, .space] (turn left) := by
  refine touches_pointer.bind fun p => ?_
  refine (touches_attempt _ _).bind fun _ => ?_
  exact (touches_switchTo (by decide) _).bind fun _ => touches_modifyDelta (by decide) _

theorem touches_trampoline : Touches [.position] trampoline :=
  touches_adjacent.bind fun _ => touches_moveTo (by decide) _

theorem touches_jump : Touches [.top, .position] jump := by
  refine (touches_pop (by decide)).bind fun n => ?_
  exact touches_pointer.bind fun p => touches_world.bind fun w => touches_moveTo (by decide) _

theorem skipComment_moves (s : Space) (home : Vec) (bound : Nat) (p : Pointer) :
    ∃ position, (p.skipComment s home bound).2 = { p with position } := by
  induction bound generalizing p with
  | zero => exact ⟨p.position, rfl⟩
  | succ bound ih =>
    unfold Pointer.skipComment
    split
    · exact ⟨p.position, rfl⟩
    · rename_i next _
      simp only
      split
      · exact ⟨next, rfl⟩
      · split
        · exact ⟨next, rfl⟩
        · split
          · exact ⟨next, rfl⟩
          · exact ih _

/-- The bound is a variable, since no proof should compute with its value. -/
theorem touches_skip (bound : Nat) : Touches [.position] (do
    let p ← pointer
    let walked := p.skipComment (← world).space p.position bound
    modifyPointer fun _ => walked.2
    attempt .fatal walked.1) := by
  refine touches_pointer_bind fun f => ?_
  obtain ⟨position, moved⟩ := skipComment_moves f.world.space f.pointer.position bound f.pointer
  refine touches_bind_at (a := modifyPointer fun _ =>
    (f.pointer.skipComment f.world.space f.pointer.position bound).2) ?_
    fun _ => touches_attempt _ _
  rw [moved]
  exact touches_moveTo (by decide) position f

theorem touches_jumpOver : Touches [.position] jumpOver := touches_skip Pointer.pathBound

theorem touches_fetch : Touches [.top, .position] fetch := by
  refine touches_adjacent.bind fun next => ?_
  refine (touches_readSpace next).bind fun c => ?_
  exact (touches_push (by decide) c).bind fun _ => touches_moveTo (by decide) next

theorem touches_store : Touches [.top, .space, .position] store := by
  refine touches_adjacent.bind fun next => ?_
  refine (touches_pop (by decide)).bind fun c => ?_
  exact (touches_writeSpace (by decide) next c).bind fun _ => touches_moveTo (by decide) next

theorem touches_getCell : Touches [.top] getCell := by
  refine (touches_popVec (by decide)).bind fun v => ?_
  refine (touches_stored v).bind fun u => ?_
  exact (touches_readSpace u).bind fun c => touches_push (by decide) c

theorem touches_putCell : Touches [.top, .space] putCell := by
  refine (touches_popVec (by decide)).bind fun v => ?_
  refine (touches_pop (by decide)).bind fun c => ?_
  exact (touches_stored v).bind fun u => touches_writeSpace (by decide) u c

theorem touches_restack (top : .top ∈ parts) (lower : .lower ∈ parts)
    (change : StackStack → Except StackError Unit × StackStack) : Touches parts (restack change) := by
  refine touches_pointer.bind fun p => ?_
  exact (touches_modifyStacks top lower _).bind fun _ => touches_attempt _ _

theorem touches_beginBlock : Touches [.top, .lower, .offset, .space] beginBlock := by
  refine (touches_pop (by decide)).bind fun n => ?_
  refine (touches_restack (by decide) (by decide) _).bind fun _ => ?_
  refine touches_pointer.bind fun q => ?_
  refine (touches_setOffset (by decide) _).bind fun _ => ?_
  refine touches_second.bind fun s => ?_
  refine (touches_modifyStacks (by decide) (by decide) _).bind fun _ => ?_
  exact touches_switchTo (by decide) _

theorem touches_endBlock : Touches [.top, .lower, .offset, .space] endBlock := by
  refine touches_second.bind fun _ => ?_
  refine (touches_pop (by decide)).bind fun n => ?_
  refine touches_pointer.bind fun p => ?_
  refine Touches.guard ?_
  refine touches_second.bind fun s => ?_
  refine (touches_modifyStacks (by decide) (by decide) _).bind fun _ => ?_
  refine (touches_setOffset (by decide) _).bind fun _ => ?_
  refine (touches_restack (by decide) (by decide) _).bind fun _ => ?_
  exact touches_switchTo (by decide) _

theorem touches_transfer : Touches [.top, .lower] transfer := by
  refine touches_second.bind fun _ => ?_
  exact (touches_pop (by decide)).bind fun n => touches_restack (by decide) (by decide) _

theorem touches_writeChar : Touches [.top, .output] writeChar := by
  refine (touches_pop (by decide)).bind fun v => ?_
  refine touches_world_bind fun f => touches_attempt_at fun host written => ?_
  obtain ⟨bytes, rfl⟩ := writeChar_emits written
  exact differs_emit (by decide) f bytes

theorem touches_writeNumber (radix : Nat) : Touches [.top, .output] (writeNumber radix) := by
  refine (touches_pop (by decide)).bind fun v => ?_
  refine touches_world_bind fun f => touches_attempt_at fun host written => ?_
  obtain ⟨bytes, rfl⟩ := writeNumber_emits written
  exact differs_emit (by decide) f bytes

theorem touches_popRadix (h : .top ∈ parts) : Touches parts popRadix := by
  refine (touches_pop h).bind fun v => ?_
  split
  · exact touches_pure _
  · exact touches_throw _

theorem touches_writeNumberIn : Touches [.top, .output] writeNumberIn :=
  (touches_popRadix (by decide)).bind fun radix => touches_writeNumber radix

/-- What was read is pushed, or the input is exhausted. -/
theorem touches_deliver (h : .top ∈ parts) (value : Option Cell) :
    Touches parts (match value with
      | some v => push v
      | none => throw .inputExhausted : Action Unit) := by
  cases value with
  | some v => exact touches_push h v
  | none => exact touches_throw _

theorem touches_readNumberFrom (radix : Nat) : Touches [.top, .input] (readNumberFrom radix) := by
  refine touches_world_bind fun f => touches_attempt_at fun reading read => ?_
  obtain ⟨value, host⟩ := reading
  obtain ⟨rest, rfl⟩ := readNumber_consumes read
  exact touches_bind_at (differs_consume (by decide) f rest) fun _ => touches_deliver (by decide) value

theorem touches_readNumberIn : Touches [.top, .input] readNumberIn :=
  (touches_popRadix (by decide)).bind fun radix => touches_readNumberFrom radix

theorem touches_readChar : Touches [.top, .input] readChar := by
  refine touches_world_bind fun f => ?_
  obtain ⟨rest, same⟩ := readChar_consumes f.world.host
  refine touches_bind_at (a := setHost f.world.host.readChar.2) ?_ fun _ =>
    touches_deliver (by decide) f.world.host.readChar.1
  rw [same]
  exact differs_consume (by decide) f rest

theorem touches_loadFile : Touches [.top, .space, .journal] loadFile := by
  refine (touches_popText (by decide)).bind fun path => ?_
  refine (touches_pop (by decide)).bind fun flags => ?_
  refine (touches_popVec (by decide)).bind fun origin => ?_
  refine touches_world.bind fun w => ?_
  refine (touches_attempt _ _).bind fun source => ?_
  refine (touches_stored origin).bind fun place => ?_
  refine (touches_setSpace (by decide) _).bind fun _ => ?_
  refine (touches_attempt _ _).bind fun size => ?_
  refine touches_pointer.bind fun p => ?_
  refine (touches_note (by decide) _).bind fun _ => ?_
  exact (touches_pushVec (by decide) size).bind fun _ => touches_pushVec (by decide) origin

theorem touches_saveFile : Touches [.top, .folder, .journal] saveFile := by
  refine (touches_popText (by decide)).bind fun path => ?_
  refine (touches_pop (by decide)).bind fun flags => ?_
  refine (touches_popVec (by decide)).bind fun origin => ?_
  refine (touches_popVec (by decide)).bind fun size => ?_
  refine (touches_stored origin).bind fun place => ?_
  refine touches_world_bind fun f => ?_
  refine touches_attempt_at fun text _ => touches_attempt_at fun folder _ => ?_
  refine touches_bind_at ?_ fun _ => touches_pointer.bind fun p => touches_note (by decide) _
  exact differs_setHost rfl (fun _ => rfl) (fun _ => rfl) (fun _ => rfl)
    fun outside => absurd (by decide) outside

theorem touches_report : Touches [.top] report := by
  refine (touches_pop (by decide)).bind fun n => ?_
  refine touches_pointer.bind fun p => touches_world.bind fun w => ?_
  split
  · exact touches_modifyTop (by decide) fun _ => ⟨_, rfl⟩
  · exact touches_push (by decide) _

theorem touches_stop : Touches [.life, .journal] stop := by
  refine touches_pointer.bind fun p => ?_
  refine (touches_note (by decide) _).bind fun _ => ?_
  intro f part outside
  cases part <;> first | rfl | exact absurd (by decide) outside

theorem touches_quit : Touches [.top, .life, .quit, .journal] quit := by
  refine (touches_pop (by decide)).bind fun code => ?_
  refine touches_pointer.bind fun p => ?_
  refine (touches_note (by decide) _).bind fun _ => ?_
  intro f part outside
  cases part <;> first | rfl | exact absurd (by decide) outside

theorem touches_split : Touches [.newborns, .nextId, .journal] split := by
  refine Touches.bind ?_ fun id => ?_
  · intro f part outside
    cases part <;> first | rfl | exact absurd (by decide) outside
  refine touches_pointer.bind fun p => touches_world.bind fun w => ?_
  refine (touches_attempt _ _).bind fun child => ?_
  refine (touches_note (by decide) _).bind fun _ => ?_
  intro f part outside
  cases part <;> first | rfl | exact absurd (by decide) outside

theorem touches_popHandprint (h : .top ∈ parts) : Touches parts popHandprint := by
  refine (touches_pop h).bind fun count => ?_
  refine Touches.guard ?_
  refine touches_pointer.bind fun p => ?_
  exact (touches_drawTop h fun _ => ⟨_, rfl⟩).bind fun cells => touches_pure _

theorem touches_loadFingerprint (code : Handprint) :
    Touches [.bindings, .instances, .shared, .journal] (loadFingerprint code) := by
  refine touches_world.bind fun w => ?_
  refine touches_pointer_bind fun f => touches_attempt_at fun loaded applied => ?_
  obtain ⟨q, shared, fp⟩ := loaded
  obtain ⟨_, own, rfl⟩ := Pointer.load_eq applied
  refine touches_bind_at ?_ fun _ => ?_
  · intro part outside
    cases part <;> first | rfl | exact absurd (by decide) outside
  · exact (touches_modifyShared (by decide) _).bind fun _ => touches_note (by decide) _

theorem touches_loadSemantics :
    Touches [.top, .bindings, .instances, .shared, .space, .journal] loadSemantics := by
  refine (touches_popHandprint (by decide)).bind fun code => ?_
  refine ((touches_loadFingerprint code).mono (by decide)).bind fun _ => ?_
  refine (touches_switchTo (by decide) _).bind fun _ => ?_
  exact (touches_push (by decide) _).bind fun _ => touches_push (by decide) 1

theorem touches_unloadFingerprint (code : Handprint) :
    Touches [.bindings, .journal] (unloadFingerprint code) := by
  refine touches_pointer_bind fun f => ?_
  refine touches_attempt_at (f := f) fun unloaded applied => ?_
  obtain ⟨q, fp⟩ := unloaded
  have same := Pointer.unload_eq applied
  refine touches_bind_at ?_ fun _ => touches_note (by decide) _
  rw [run_modifyPointer, same]
  intro part outside
  cases part <;> first | rfl | exact absurd (by decide) outside

theorem touches_unloadSemantics : Touches [.top, .bindings, .space, .journal] unloadSemantics := by
  refine (touches_popHandprint (by decide)).bind fun code => ?_
  refine ((touches_unloadFingerprint code).mono (by decide)).bind fun _ => ?_
  exact touches_switchTo (by decide) _

theorem touches_references (h : .shared ∈ parts) : Touches parts references := by
  refine touches_world.bind fun w => ?_
  refine (touches_attempt _ _).bind fun shared => ?_
  refine (touches_modifyShared h _).bind fun _ => ?_
  split
  · exact touches_pure _
  · exact touches_throw _

theorem touches_refer : Touches [.top, .shared] refer := by
  refine (touches_popVec (by decide)).bind fun v => ?_
  refine (touches_references (by decide)).bind fun table => ?_
  exact (touches_modifyShared (by decide) _).bind fun _ => touches_push (by decide) _

theorem touches_dereference : Touches [.top, .shared] dereference := by
  refine (touches_pop (by decide)).bind fun r => ?_
  refine (touches_references (by decide)).bind fun table => ?_
  split
  · exact touches_pushVec (by decide) _
  · exact touches_throw _

theorem touches_timer (h : .instances ∈ parts) : Touches parts timer := by
  refine touches_pointer.bind fun p => touches_world.bind fun w => ?_
  refine (touches_attempt _ _).bind fun own => ?_
  refine (touches_modifyInstances h _).bind fun _ => ?_
  split
  · exact touches_pure _
  · exact touches_throw _

theorem touches_setTimer (h : .instances ∈ parts) (mark : Option Nat) :
    Touches parts (setTimer mark) := touches_modifyInstances h _

theorem touches_markTimer : Touches [.instances] markTimer :=
  (touches_timer (by decide)).bind fun _ => touches_world.bind fun _ => touches_setTimer (by decide) _

theorem touches_readTimer : Touches [.top, .instances] readTimer := by
  refine (touches_timer (by decide)).bind fun mark => ?_
  cases mark with
  | some mark => exact touches_world.bind fun _ => touches_push (by decide) _
  | none => exact touches_throw _

theorem touches_eraseTimer : Touches [.instances] eraseTimer :=
  (touches_timer (by decide)).bind fun _ => touches_setTimer (by decide) none

theorem touches_microseconds : Touches [.top] microseconds :=
  touches_world.bind fun _ => touches_push (by decide) _

theorem touches_unknown (h : .journal ∈ parts) (code : Cell) : Touches parts (unknown code) := by
  refine touches_world.bind fun w => ?_
  split
  · exact touches_pointer.bind fun p => touches_note h _
  · exact touches_throw _

theorem touches_resolve (code : Cell) : Touches parts (resolve code) :=
  touches_world.bind fun _ => touches_pointer.bind fun _ => touches_attempt _ _

end Instructions

end Action

namespace Instruction

/-- The parts that an instruction may change. Those of an iteration are not listed. -/
def footprint : Instruction → List Part
  | .operand _ | .get | .report | .microseconds => [.top]
  | .course _ => [.top, .delta, .flags]
  | .wander => [.delta, .dice]
  | .turn _ => [.delta, .space]
  | .trampoline | .jumpOver => [.position]
  | .jump | .fetch => [.top, .position]
  | .store => [.top, .space, .position]
  | .put => [.top, .space]
  | .beginBlock | .endBlock => [.top, .lower, .offset, .space]
  | .transfer => [.top, .lower]
  | .writeNumber _ | .writeNumberIn | .writeChar => [.top, .output]
  | .readNumber | .readNumberIn | .readChar => [.top, .input]
  | .loadFile => [.top, .space, .journal]
  | .saveFile => [.top, .folder, .journal]
  | .stop => [.life, .journal]
  | .quit => [.top, .life, .quit, .journal]
  | .split => [.newborns, .nextId, .journal]
  | .loadSemantics => [.top, .bindings, .instances, .shared, .space, .journal]
  | .unloadSemantics => [.top, .bindings, .space, .journal]
  | .refer | .dereference => [.top, .shared]
  | .markTimer | .eraseTimer => [.instances]
  | .readTimer => [.top, .instances]
  | .iterate | .refuse | .unsupported _ => []

theorem setting_not_mem_footprint (i : Instruction) : .setting ∉ i.footprint := by
  cases i <;> simp [footprint]

/-- An instruction changes what is in its footprint and nothing else. -/
theorem touches {i : Instruction} (single : i ≠ .iterate) (iteration : Action Unit) :
    Action.Touches i.footprint (i.perform iteration) := by
  cases i with
  | operand o => exact Action.touches_modifyTop List.mem_cons_self o.restacks
  | course c => exact Action.touches_course c
  | wander => exact Action.touches_wander
  | turn left => exact Action.touches_turn left
  | trampoline => exact Action.touches_trampoline
  | jump => exact Action.touches_jump
  | jumpOver => exact Action.touches_jumpOver
  | fetch => exact Action.touches_fetch
  | store => exact Action.touches_store
  | get => exact Action.touches_getCell
  | put => exact Action.touches_putCell
  | beginBlock => exact Action.touches_beginBlock
  | endBlock => exact Action.touches_endBlock
  | transfer => exact Action.touches_transfer
  | writeNumber radix => exact Action.touches_writeNumber radix
  | writeNumberIn => exact Action.touches_writeNumberIn
  | writeChar => exact Action.touches_writeChar
  | readNumber => exact Action.touches_readNumberFrom 10
  | readNumberIn => exact Action.touches_readNumberIn
  | readChar => exact Action.touches_readChar
  | loadFile => exact Action.touches_loadFile
  | saveFile => exact Action.touches_saveFile
  | report => exact Action.touches_report
  | iterate => exact absurd rfl single
  | stop => exact Action.touches_stop
  | quit => exact Action.touches_quit
  | split => exact Action.touches_split
  | loadSemantics => exact Action.touches_loadSemantics
  | unloadSemantics => exact Action.touches_unloadSemantics
  | refer => exact Action.touches_refer
  | dereference => exact Action.touches_dereference
  | markTimer => exact Action.touches_markTimer
  | readTimer => exact Action.touches_readTimer
  | eraseTimer => exact Action.touches_eraseTimer
  | microseconds => exact Action.touches_microseconds
  | refuse => exact Action.touches_throw _
  | unsupported code => exact Action.touches_throw _

end Instruction

/-- What a pointer changes besides the footprints of its instructions: it takes counts for its
iterations, spells, is reflected and moves. -/
def Part.motion : List Part := [.top, .position, .delta, .flags, .journal]

section Steps

variable {R : Focus → Focus → Prop} (trans : ∀ f g h, R f g → R g h → R f h)
  (moves : ∀ f g, f.Differs Part.motion g → R f g)

include moves in
theorem Action.Touches.follows {α : Type} {a : Action α} (h : Touches Part.motion a) :
    Follows R a := fun f => moves f _ (h f)

variable (performs : ∀ i : Instruction, i ≠ .iterate → ∀ iteration,
  Action.Follows R (i.perform iteration))

include trans moves in
theorem Action.follows_iterate {execution : Cell → Action Unit}
    (h : ∀ code, Follows R (execution code)) : Follows R (iterate execution) := by
  have refl : ∀ f, R f f := fun f => moves f f (.refl _ f)
  have move (v : Vec) : Follows R (moveTo v) := (touches_moveTo (by decide) v).follows moves
  refine Follows.bind trans ((touches_pop (by decide)).follows moves) fun n => ?_
  refine Follows.bind trans (touches_pointer.follows moves) fun p => ?_
  refine Follows.bind trans (touches_world.follows moves) fun w => ?_
  refine Follows.bind trans (Follows.attempt refl _ _) fun target => ?_
  split
  · exact move target
  split
  · exact Follows.throw refl _
  refine Follows.bind trans ((touches_readSpace target).follows moves) fun code => ?_
  refine Follows.bind trans (Follows.repeatAlive refl trans (h code) _) fun _ => ?_
  refine Follows.bind trans (touches_pointer.follows moves) fun q => ?_
  split
  · exact move target
  · exact Follows.pure refl _

include trans moves performs in
/-- A relation that instructions and motion follow is followed by execution at every depth. -/
theorem Action.follows_execute (depth : Nat) (code : Cell) : Follows R (execute depth code) := by
  have refl : ∀ f, R f f := fun f => moves f f (.refl _ f)
  induction depth generalizing code with
  | zero => exact Follows.throw refl _
  | succ depth ih =>
    refine Follows.bind trans ((touches_resolve code).follows moves) fun i => ?_
    cases i with
    | none => exact (touches_unknown (by decide) code).follows moves
    | some i =>
      by_cases single : i = .iterate
      · subst single
        exact follows_iterate trans moves ih
      · exact performs i single _

theorem Focus.differs_advance (f : Focus) : f.Differs Part.motion f.advance.2 := by
  unfold advance
  split
  · split
    · exact .refl _ f
    · exact Action.touches_moveTo (by decide) _ f
  · exact .refl _ f

theorem Focus.differs_spell (f : Focus) (cell : Cell) : f.Differs Part.motion (f.spell cell) := by
  unfold spell
  split
  · intro part outside
    cases part <;> first | rfl | exact absurd (by decide) outside
  · exact Action.touches_push (by decide) cell f

include trans moves performs in
/-- A relation that instructions and motion follow is followed by every step. -/
theorem Focus.step_follows (f : Focus) : R f f.step.2 := by
  have noted (g : Focus) (e : Event) : R g (g.note e) :=
    moves _ _ (Action.touches_note (by decide) e g)
  have advanced (g : Focus) : R g g.advance.2 := moves _ _ g.differs_advance
  have executed (g : Focus) (code : Cell) : R g (g.execute code).2 :=
    Action.follows_execute trans moves performs Action.maxNesting code g
  unfold step
  split
  · exact moves f f (.refl _ f)
  · rename_i cell _
    split
    · exact trans _ _ _ (moves _ _ (f.differs_spell cell)) (advanced _)
    · have started := noted f (.executed f.pointer.id f.pointer.position cell)
      have ran := executed (f.note (.executed f.pointer.id f.pointer.position cell)) cell
      have so := trans _ _ _ started ran
      split
      · rename_i g run
        rw [run] at so
        exact trans _ _ _ so (advanced g)
      · rename_i e g run
        rw [run] at so
        exact so
      · rename_i e g _ run
        rw [run] at so
        have failed := noted g (.reflected g.pointer.id g.pointer.position cell e)
        have turned : R (g.note (.reflected g.pointer.id g.pointer.position cell e)) _ :=
          moves _ _ (Action.touches_modifyDelta (by decide) (fun p => -p.delta) _)
        exact trans _ _ _ so (trans _ _ _ failed (trans _ _ _ turned (advanced _)))

end Steps

end Funge
