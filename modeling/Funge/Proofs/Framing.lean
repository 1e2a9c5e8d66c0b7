import Funge.Proofs.Atomicity
import Funge.Proofs.Scheduling

/-!
# The frames of the codes

What a code may change is known from the code alone, whatever has happened before: the base
language is fixed, and letters are never bound to anything but instructions of the standard
fingerprints, none of which reaches the space, the lower stacks, the storage offset, bindings or
newborns. The brackets write to the space only to turn into their counterparts, and they do that
only in switch mode.
-/

namespace Funge

namespace Overrides

/-- Letters are bound to instructions of the standard fingerprints only, that is, to none that all
of them lack. -/
def Orthodox (o : Overrides) : Prop :=
  ∀ i, (∀ fp ∈ Registry.standard.fingerprints, ∀ b ∈ fp.bindings, b.2 ≠ i) → o.Avoids i

theorem orthodox_empty : empty.Orthodox := fun i _ => avoids_empty i

theorem Orthodox.load {o : Overrides} (h : o.Orthodox) {fp : Fingerprint}
    (known : fp ∈ Registry.standard.fingerprints) (code : Handprint) :
    ((Pointer.letterBindings fp).foldl (fun o b => o.push b.1 ⟨code, b.2⟩) o).Orthodox := by
  intro i lacking
  apply (h i lacking).pushAll
  intro b member
  obtain ⟨letter, listed⟩ := Pointer.mem_letterBindings member
  exact lacking fp known _ listed

theorem Orthodox.unload {o : Overrides} (h : o.Orthodox) (letters : List (Fin 26)) :
    (letters.foldl Overrides.pop o).Orthodox :=
  fun i lacking => (h i lacking).popAll letters

/-- What holds of all instructions of the standard fingerprints holds of all that are bound. -/
theorem Orthodox.bound {o : Overrides} (h : o.Orthodox) {P : Instruction → Prop}
    (all : ∀ fp ∈ Registry.standard.fingerprints, ∀ b ∈ fp.bindings, P b.2) {letter : Fin 26}
    {b : Binding} (member : b ∈ o.stack letter) : P b.instruction := by
  by_contra fails
  refine h b.instruction ?_ letter b member rfl
  intro fp known c listed same
  exact fails (same ▸ all fp known c listed)

end Overrides

structure World.Orthodox (w : World) : Prop where
  registry : w.registry = .standard
  newborns : ∀ child ∈ w.newborns, child.1.overrides.Orthodox

structure Focus.Orthodox (f : Focus) : Prop where
  pointer : f.pointer.overrides.Orthodox
  world : f.world.Orthodox

namespace Focus.Orthodox

variable {f g : Focus} {parts : List Part}

theorem of_differs (h : f.Orthodox) (frame : f.Differs parts g) (bindings : .bindings ∉ parts)
    (newborns : .newborns ∉ parts) (setting : .setting ∉ parts) : g.Orthodox := by
  have bound : g.pointer.overrides = f.pointer.overrides := frame .bindings bindings
  have born : g.world.newborns = f.world.newborns := frame .newborns newborns
  have fixed : g.world.registry = f.world.registry :=
    congrArg (fun parts => parts.1.2.1) (frame .setting setting)
  refine ⟨bound ▸ h.pointer, fixed.trans h.world.registry, ?_⟩
  rw [born]
  exact h.world.newborns

end Focus.Orthodox

namespace Action

section Semantics

variable {R : Focus → Focus → Prop} (trans : ∀ f g h, R f g → R g h → R f h)
  (tops : ∀ f g, f.Differs [.top] g → R f g)

include trans tops

/-- A load of semantics follows a relation if the load itself and the turn of its cell do. -/
theorem follows_loadSemantics (switch : Follows R (switchTo (Cell.ofChar ')')))
    (load : ∀ code, Follows R (loadFingerprint code)) : Follows R loadSemantics := by
  have pushes (v : Cell) : Follows R (push v) := fun f =>
    tops f _ (touches_push List.mem_cons_self v f)
  have pops : Follows R popHandprint := fun f => tops f _ (touches_popHandprint List.mem_cons_self f)
  refine Follows.bind trans pops fun code => ?_
  refine Follows.bind trans (load code) fun _ => ?_
  refine Follows.bind trans switch fun _ => ?_
  exact Follows.bind trans (pushes _) fun _ => pushes 1

theorem follows_unloadSemantics (switch : Follows R (switchTo (Cell.ofChar '(')))
    (unload : ∀ code, Follows R (unloadFingerprint code)) : Follows R unloadSemantics := by
  have pops : Follows R popHandprint := fun f => tops f _ (touches_popHandprint List.mem_cons_self f)
  refine Follows.bind trans pops fun code => ?_
  exact Follows.bind trans (unload code) fun _ => switch

end Semantics

/-- The second focus is orthodox if the first one is. -/
def KeepsOrthodox (f g : Focus) : Prop := f.Orthodox → g.Orthodox

theorem KeepsOrthodox.trans (f g h : Focus) (first : KeepsOrthodox f g)
    (second : KeepsOrthodox g h) : KeepsOrthodox f h := second ∘ first

variable {α : Type} {parts : List Part}

theorem Touches.keepsOrthodox {a : Action α} (h : Touches parts a) (bindings : .bindings ∉ parts)
    (newborns : .newborns ∉ parts) (setting : .setting ∉ parts) : Follows KeepsOrthodox a :=
  fun f orthodox => orthodox.of_differs (h f) bindings newborns setting

theorem keepsOrthodox_of_top (f g : Focus) (frame : f.Differs [.top] g) : KeepsOrthodox f g :=
  fun orthodox => orthodox.of_differs frame (by decide) (by decide) (by decide)

theorem switchTo_keepsOrthodox (mirror : Cell) : Follows KeepsOrthodox (switchTo mirror) :=
  (touches_switchTo List.mem_cons_self mirror : Touches [.space] _).keepsOrthodox
    (by decide) (by decide) (by decide)

theorem loadFingerprint_keepsOrthodox (code : Handprint) :
    Follows KeepsOrthodox (loadFingerprint code) := by
  intro f orthodox
  rw [loadFingerprint, run_bind_ok (run_world f), run_bind_ok (run_pointer f)]
  cases loaded : f.pointer.load f.world.registry f.world.shared code with
  | error e => exact orthodox
  | ok result =>
    obtain ⟨q, shared, fp⟩ := result
    obtain ⟨known, own, rfl⟩ := Pointer.load_eq loaded
    rw [orthodox.world.registry] at known
    exact ⟨orthodox.pointer.load known code, orthodox.world.registry, orthodox.world.newborns⟩

theorem unloadFingerprint_keepsOrthodox (code : Handprint) :
    Follows KeepsOrthodox (unloadFingerprint code) := by
  intro f orthodox
  rw [unloadFingerprint, run_bind_ok (run_pointer f), run_bind_ok (run_world f)]
  cases unloaded : f.pointer.unload f.world.registry code with
  | error e => exact orthodox
  | ok result =>
    obtain ⟨q, fp⟩ := result
    have same := Pointer.unload_eq unloaded
    have bound : q.overrides.Orthodox := by
      rw [same]
      exact orthodox.pointer.unload _
    exact ⟨bound, orthodox.world.registry, orthodox.world.newborns⟩

/-- A child is born with the bindings of its parent. -/
theorem split_keepsOrthodox : Follows KeepsOrthodox split := by
  intro f orthodox
  have frame := touches_split f
  have bound : (split f).2.pointer.overrides = f.pointer.overrides := frame .bindings (by decide)
  have fixed : (split f).2.world.registry = f.world.registry :=
    congrArg (fun parts => parts.1.2.1) (frame .setting (by decide))
  refine ⟨bound ▸ orthodox.pointer, fixed.trans orthodox.world.registry, ?_⟩
  intro child member
  rcases mem_newborns_split member with old | ⟨id, position, new⟩
  · exact orthodox.world.newborns child old
  · rw [new]
    exact orthodox.pointer

end Action

namespace Instruction

theorem bindings_mem_footprint {i : Instruction} (h : .bindings ∈ i.footprint) :
    i = .loadSemantics ∨ i = .unloadSemantics := by
  cases i <;> simp [footprint] at h ⊢

theorem newborns_mem_footprint {i : Instruction} (h : .newborns ∈ i.footprint) : i = .split := by
  cases i <;> simp [footprint] at h ⊢

/-- Every instruction keeps to the standard fingerprints. -/
theorem keepsOrthodox {i : Instruction} (single : i ≠ .iterate) (iteration : Action Unit) :
    Action.Follows Action.KeepsOrthodox (i.perform iteration) := by
  by_cases binds : .bindings ∈ i.footprint
  · rcases bindings_mem_footprint binds with rfl | rfl
    · exact Action.follows_loadSemantics Action.KeepsOrthodox.trans Action.keepsOrthodox_of_top
        (Action.switchTo_keepsOrthodox _) Action.loadFingerprint_keepsOrthodox
    · exact Action.follows_unloadSemantics Action.KeepsOrthodox.trans Action.keepsOrthodox_of_top
        (Action.switchTo_keepsOrthodox _) Action.unloadFingerprint_keepsOrthodox
  · by_cases bears : .newborns ∈ i.footprint
    · obtain rfl := newborns_mem_footprint bears
      exact Action.split_keepsOrthodox
    · exact (i.touches single iteration).keepsOrthodox binds bears i.setting_not_mem_footprint

end Instruction

theorem Focus.Orthodox.moved {f g : Focus} (h : f.Orthodox) (frame : f.Differs Part.motion g) :
    g.Orthodox := h.of_differs frame (by decide) (by decide) (by decide)

theorem Focus.Orthodox.execute {f : Focus} (h : f.Orthodox) (depth : Nat) (code : Cell) :
    (Action.execute depth code f).2.Orthodox :=
  Action.follows_execute Action.KeepsOrthodox.trans (fun _ _ frame orthodox => orthodox.moved frame)
    (fun _ single iteration => Instruction.keepsOrthodox single iteration) depth code f h

theorem Focus.Orthodox.step {f : Focus} (h : f.Orthodox) : f.step.2.Orthodox :=
  Focus.step_follows Action.KeepsOrthodox.trans (fun _ _ frame orthodox => orthodox.moved frame)
    (fun _ single iteration => Instruction.keepsOrthodox single iteration) f h

namespace Machine

structure Orthodox (m : Machine) : Prop where
  world : m.world.Orthodox
  pointers : ∀ p ∈ m.pointers, p.overrides.Orthodox

variable {settings : Settings} {host : Host} {m : Machine}

theorem orthodox_standard (settings : Settings) (host : Host) :
    (standard settings host).Orthodox := by
  refine ⟨⟨rfl, ?_⟩, ?_⟩
  · intro child member
    cases Array.not_mem_empty child member
  · intro p member
    cases member

/-- What every step keeps of a pointer and the world is kept by a pass over pointers. -/
theorem stepAll_keeps {A : Pointer → Prop} {B : World → Prop}
    (steps : ∀ f : Focus, A f.pointer → B f.world → A f.step.2.pointer ∧ B f.step.2.world)
    {w : World} {ps : List Pointer} (hw : B w) (hps : ∀ p ∈ ps, A p) :
    B (stepAll w ps).2.2 ∧ ∀ p ∈ (stepAll w ps).2.1, A p := by
  induction ps generalizing w with
  | nil => exact ⟨hw, hps⟩
  | cons p ps ih =>
    obtain ⟨first, others⟩ := List.forall_mem_cons.mp hps
    unfold stepAll
    split
    · obtain ⟨pointer, world⟩ := steps ⟨p, w⟩ first hw
      split
      · rename_i e f failed
        rw [failed] at pointer world
        exact ⟨world, List.forall_mem_cons.mpr ⟨pointer, others⟩⟩
      · rename_i f stepped
        rw [stepped] at pointer world
        split
        · exact ⟨world, List.forall_mem_cons.mpr ⟨pointer, others⟩⟩
        · obtain ⟨after, rest⟩ := ih world others
          exact ⟨after, List.forall_mem_cons.mpr ⟨pointer, rest⟩⟩
    · obtain ⟨after, rest⟩ := ih hw others
      exact ⟨after, List.forall_mem_cons.mpr ⟨first, rest⟩⟩

theorem stepAll_orthodox {w : World} {ps : List Pointer} (hw : w.Orthodox)
    (hps : ∀ p ∈ ps, p.overrides.Orthodox) :
    (stepAll w ps).2.2.Orthodox ∧ ∀ p ∈ (stepAll w ps).2.1, p.overrides.Orthodox := by
  refine stepAll_keeps (A := fun p => p.overrides.Orthodox) ?_ hw hps
  intro f pointer world
  have kept := Focus.Orthodox.step ⟨pointer, world⟩
  exact ⟨kept.pointer, kept.world⟩

theorem Orthodox.spawn (h : m.Orthodox) : m.spawn.2.Orthodox := by
  unfold Machine.spawn
  simp only
  split
  · exact ⟨⟨h.world.registry, h.world.newborns⟩, h.pointers⟩
  · rename_i p settled
    obtain ⟨position, rfl⟩ := Pointer.settle_eq settled
    refine ⟨⟨h.world.registry, h.world.newborns⟩, ?_⟩
    intro q member
    rcases List.mem_append.mp member with old | new
    · exact h.pointers q old
    · rw [List.mem_singleton.mp new]
      exact Overrides.orthodox_empty

theorem Orthodox.tick (h : m.Orthodox) : m.tick.2.Orthodox := by
  by_cases going : m.exit = none
  · obtain ⟨world, pointers⟩ := stepAll_orthodox h.world h.pointers
    have none_left : ∀ child ∈ (#[] : Array (Pointer × Nat)), child.1.overrides.Orthodox :=
      fun child member => absurd member (Array.not_mem_empty child)
    rcases tick_cases going with ⟨e, ps, w, passed, ticked⟩ |
      ⟨id, code, ps, w, journal, passed, ticked⟩ | ⟨ps, w, journal, passed, ticked⟩
    · rw [passed] at world pointers
      rw [ticked]
      exact ⟨world, pointers⟩
    · rw [passed] at world pointers
      rw [ticked]
      exact ⟨⟨world.registry, none_left⟩, pointers⟩
    · rw [passed] at world pointers
      rw [ticked]
      refine ⟨⟨world.registry, none_left⟩, ?_⟩
      intro p member
      rcases mem_adopt (List.mem_filter.mp member).1 with old | ⟨parent, new⟩
      · exact pointers p old
      · exact world.newborns (p, parent) (Array.mem_toList_iff.mp new)
  · rw [tick_of_quit going]
    exact h

theorem Reachable.orthodox (h : Reachable settings host m) : m.Orthodox := by
  refine h.invariant (orthodox_standard settings host) ?_ ?_ ?_ ?_
  · exact fun m orthodox _ => orthodox.spawn
  · exact fun m source orthodox =>
      ⟨⟨orthodox.world.registry, orthodox.world.newborns⟩, orthodox.pointers⟩
  · exact fun m orthodox _ => orthodox.tick
  · exact fun m other orthodox =>
      ⟨⟨orthodox.world.registry, orthodox.world.newborns⟩, orthodox.pointers⟩

theorem Visits.orthodox {f : Focus} (h : m.Visits f) (orthodox : m.Orthodox) : f.Orthodox := by
  induction h with
  | rest member => exact ⟨orthodox.pointers _ member, orthodox.world⟩
  | turn _ listed passed =>
    have place := orthodox.pointers
    rw [listed] at place
    have stepped := stepAll_orthodox orthodox.world fun q member =>
      place q (List.mem_append_left _ member)
    rw [passed] at stepped
    exact ⟨place _ (List.mem_append_right _ List.mem_cons_self), stepped.1⟩
  | note e _ ih => exact ih.moved (Action.touches_note (by decide) e _)
  | pop _ ih => exact ih.moved (Action.touches_pop (by decide) _)
  | execute depth code _ executed ih =>
    have kept := ih.execute depth code
    rw [executed] at kept
    exact kept

end Machine

/-- All parts that an instruction which can turn its cell changes besides the space. -/
def Part.aside : List Part :=
  [.top, .lower, .delta, .offset, .bindings, .instances, .shared, .journal]

/-- The instructions that turn their cell into its counterpart in switch mode. -/
def Instruction.switches : Instruction → Bool
  | .turn _ | .beginBlock | .endBlock | .loadSemantics | .unloadSemantics => true
  | _ => false

/-- The counterpart into which an instruction turns its cell. -/
def Instruction.mirror? : Instruction → Option Cell
  | .turn left => some (Cell.ofChar (if left then ']' else '['))
  | .beginBlock => some (Cell.ofChar '}')
  | .endBlock => some (Cell.ofChar '{')
  | .loadSemantics => some (Cell.ofChar ')')
  | .unloadSemantics => some (Cell.ofChar '(')
  | _ => none

section Brackets

variable {R : Focus → Focus → Prop} (trans : ∀ f g h, R f g → R g h → R f h)
  (asides : ∀ f g, f.Differs Part.aside g → R f g)

namespace Action

include asides in
theorem Touches.aside {α : Type} {a : Action α} (h : Touches Part.aside a) : Follows R a :=
  fun f => asides f _ (h f)

include trans asides

theorem follows_turn (left : Bool)
    (switch : Follows R (switchTo (Cell.ofChar (if left then ']' else '[')))) :
    Follows R (turn left) := by
  refine Follows.bind trans (touches_pointer.aside asides) fun p => ?_
  refine Follows.bind trans ((touches_attempt _ _).aside asides) fun _ => ?_
  refine Follows.bind trans switch fun _ => ?_
  exact (touches_modifyDelta (by decide) _).aside asides

theorem follows_beginBlock (switch : Follows R (switchTo (Cell.ofChar '}'))) :
    Follows R beginBlock := by
  refine Follows.bind trans ((touches_pop (by decide)).aside asides) fun n => ?_
  refine Follows.bind trans ((touches_restack (by decide) (by decide) _).aside asides) fun _ => ?_
  refine Follows.bind trans (touches_pointer.aside asides) fun q => ?_
  refine Follows.bind trans ((touches_setOffset (by decide) _).aside asides) fun _ => ?_
  refine Follows.bind trans (touches_second.aside asides) fun s => ?_
  exact Follows.bind trans ((touches_modifyStacks (by decide) (by decide) _).aside asides) fun _ => switch

theorem follows_endBlock (switch : Follows R (switchTo (Cell.ofChar '{'))) :
    Follows R endBlock := by
  have refl (f : Focus) : R f f := asides f f (.refl _ f)
  refine Follows.bind trans (touches_second.aside asides) fun _ => ?_
  refine Follows.bind trans ((touches_pop (by decide)).aside asides) fun n => ?_
  refine Follows.bind trans (touches_pointer.aside asides) fun p => ?_
  refine Follows.guard refl trans ?_
  refine Follows.bind trans (touches_second.aside asides) fun s => ?_
  refine Follows.bind trans ((touches_modifyStacks (by decide) (by decide) _).aside asides) fun _ => ?_
  refine Follows.bind trans ((touches_setOffset (by decide) _).aside asides) fun _ => ?_
  refine Follows.bind trans ((touches_restack (by decide) (by decide) _).aside asides) fun _ => ?_
  exact switch

end Action

include trans asides in
/-- A bracket follows every relation that the turn of its cell follows and all that it changes
besides. -/
theorem Instruction.follows_of_mirror {i : Instruction} {mirror : Cell}
    (turns : i.mirror? = some mirror) (switch : Action.Follows R (Action.switchTo mirror))
    (iteration : Action Unit) : Action.Follows R (i.perform iteration) := by
  have tops (f g : Focus) (frame : f.Differs [.top] g) : R f g := asides f g (frame.mono (by decide))
  cases i with
  | turn left =>
    cases turns
    exact Action.follows_turn trans asides left switch
  | beginBlock =>
    cases turns
    exact Action.follows_beginBlock trans asides switch
  | endBlock =>
    cases turns
    exact Action.follows_endBlock trans asides switch
  | loadSemantics =>
    cases turns
    exact Action.follows_loadSemantics trans tops switch fun code =>
      ((Action.touches_loadFingerprint code).mono (by decide)).aside asides
  | unloadSemantics =>
    cases turns
    exact Action.follows_unloadSemantics trans tops switch fun code =>
      ((Action.touches_unloadFingerprint code).mono (by decide)).aside asides
  | _ => cases turns

end Brackets

/-- Outside of switch mode, the space is the same and the mode is not entered. -/
def Focus.Still (f g : Focus) : Prop :=
  f.pointer.flags.switch = false →
    g.pointer.flags.switch = false ∧ g.world.space = f.world.space

theorem Focus.Still.trans (f g h : Focus) (first : f.Still g) (second : g.Still h) : f.Still h := by
  intro off
  obtain ⟨off', same⟩ := first off
  obtain ⟨off'', same'⟩ := second off'
  exact ⟨off'', same'.trans same⟩

theorem Focus.still_of_differs (f g : Focus) (frame : f.Differs Part.aside g) : f.Still g := by
  intro off
  have flags : g.pointer.flags = f.pointer.flags := frame .flags (by decide)
  exact ⟨flags ▸ off, frame .space (by decide)⟩

theorem Action.still_switchTo (mirror : Cell) : Follows Focus.Still (switchTo mirror) := by
  intro f off
  rw [switchTo, run_bind_ok (run_pointer f), off]
  exact ⟨off, rfl⟩

namespace Instruction

theorem isSome_mirror? (i : Instruction) : i.mirror?.isSome = i.switches := by
  cases i <;> rfl

theorem still {i : Instruction} (switches : i.switches = true) (iteration : Action Unit) :
    Action.Follows Focus.Still (i.perform iteration) := by
  obtain ⟨mirror, turns⟩ := Option.isSome_iff_exists.mp (i.isSome_mirror?.trans switches)
  exact follows_of_mirror Focus.Still.trans Focus.still_of_differs turns
    (Action.still_switchTo mirror) iteration

end Instruction

section Codes

/-- The parts whose frames are known from codes. -/
def Part.framed : List Part := [.space, .lower, .offset, .bindings, .newborns]

/-- No fingerprint has an instruction that changes a framed part. -/
theorem Registry.standard_framed {fp : Fingerprint} (h : fp ∈ standard.fingerprints) :
    ∀ b ∈ fp.bindings, ∀ part ∈ Part.framed, part ∉ b.2.footprint := by
  have all : ∀ fp ∈ [Fingerprint.null, .roma, .bool, .modu, .mode, .base, .refc, .hrti],
      ∀ b ∈ fp.bindings, ∀ part ∈ Part.framed, part ∉ b.2.footprint := by decide
  exact all fp (mem_standard h)

/-- An instruction that may change a framed part is the entry of its code in the table. -/
theorem World.entry_of_framed {w : World} {p : Pointer} {code : Cell} {i : Instruction} {part : Part}
    (orthodox : p.overrides.Orthodox) (h : w.instruction? p code = .ok (some i))
    (framed : part ∈ Part.framed) (member : part ∈ i.footprint) :
    ∃ e ∈ w.table.entries, e.code = code ∧ e.instruction = i := by
  unfold World.instruction? at h
  split at h
  · rename_i letter _
    split at h
    · rename_i b bound
      have held : b ∈ p.overrides.stack letter := List.mem_of_mem_head? bound
      have same : b.instruction = i := by simpa using h
      have outside : ∀ part ∈ Part.framed, part ∉ b.instruction.footprint :=
        orthodox.bound (P := fun i => ∀ part ∈ Part.framed, part ∉ i.footprint)
          (fun _ known => Registry.standard_framed known) held
      rw [same] at outside
      exact absurd member (outside part framed)
    · cases h
  · simp only [Except.ok.injEq, Option.map_eq_some_iff] at h
    obtain ⟨e, found, same⟩ := h
    exact ⟨e, List.mem_of_find?_eq_some found, by simpa using List.find?_some found, same⟩

/-- What the execution of a code comes to. -/
theorem Action.execute_cases (depth : Nat) (code : Cell) (f : Focus) :
    (execute depth code f).2 = f ∨ (execute depth code f).2 = (unknown code f).2 ∨
      ∃ i iteration, f.world.instruction? f.pointer code = .ok (some i) ∧
        execute depth code f = i.perform iteration f := by
  cases depth with
  | zero => exact .inl rfl
  | succ depth =>
    rw [execute]
    have resolved : resolve code f = attempt id (f.world.instruction? f.pointer code) f := rfl
    cases known : f.world.instruction? f.pointer code with
    | error e =>
      rw [known] at resolved
      rw [run_bind_error resolved]
      exact .inl rfl
    | ok found =>
      rw [known] at resolved
      rw [run_bind_ok resolved]
      cases found with
      | none => exact .inr (.inl rfl)
      | some i => exact .inr (.inr ⟨i, _, rfl, rfl⟩)

/-- A framed part stays, unless the code is that of an instruction with the part in its
footprint. -/
theorem Focus.framed_cases {dims : Nat} {f : Focus} (sound : f.Sound dims) (orthodox : f.Orthodox)
    {code : Cell} (other : code ≠ 107) (depth : Nat) {part : Part} (framed : part ∈ Part.framed) :
    Part.of (Action.execute depth code f).2 part = Part.of f part ∨
      ∃ e ∈ Table.standard.entries, e.code = code ∧ part ∈ e.instruction.footprint ∧
        ∃ iteration, Action.execute depth code f = e.instruction.perform iteration f := by
  rcases Action.execute_cases depth code f with same | unknown | ⟨i, iteration, known, ran⟩
  · rw [same]
    exact .inl rfl
  · have outside : part ∉ [Part.journal] := by
      rintro listed
      rw [List.mem_singleton.mp listed] at framed
      exact absurd framed (by decide)
    rw [unknown]
    exact .inl (Action.touches_unknown List.mem_cons_self code f part outside)
  · by_cases member : part ∈ i.footprint
    · obtain ⟨e, listed, named, rfl⟩ :=
        World.entry_of_framed orthodox.pointer known framed member
      rw [sound.world.table] at listed
      exact .inr ⟨e, listed, named, member, iteration, ran⟩
    · have single := Action.instruction?_single sound.world sound.pointer other known
      rw [ran]
      exact .inl (i.touches single iteration f part member)

end Codes

namespace Machine

/-- Anywhere on the way of a reachable machine, a code other than that of an iteration, whether it
succeeds or fails, changes the space only if it is one of three or a bracket in switch mode, the
stacks below the top one only if it begins or ends a block or transfers cells, the storage offset
only if it begins or ends a block, bindings only if it loads or unloads, and the newborns only if
it splits. -/
theorem codes_framed {settings : Settings} {host : Host} {m : Machine} {f : Focus}
    {code : Cell} (reached : Reachable settings host m) (visited : m.Visits f)
    (other : code ≠ Cell.ofChar 'k') (depth : Nat) :
    let g := (Action.execute depth code f).2
    (g.world.space = f.world.space ∨ code ∈ ['p', 's', 'i'].map Cell.ofChar ∨
      f.pointer.flags.switch = true ∧ code ∈ ['[', ']', '{', '}', '(', ')'].map Cell.ofChar) ∧
    (g.pointer.stacks.depth = f.pointer.stacks.depth ∧
        g.pointer.stacks.stacks.tail = f.pointer.stacks.stacks.tail ∨
      code ∈ ['{', '}', 'u'].map Cell.ofChar) ∧
    (g.pointer.offset = f.pointer.offset ∨ code ∈ ['{', '}'].map Cell.ofChar) ∧
    (g.pointer.overrides = f.pointer.overrides ∨ code ∈ ['(', ')'].map Cell.ofChar) ∧
    (g.world.newborns = f.world.newborns ∨ code = Cell.ofChar 't') := by
  intro g
  have sound := visited.sound reached.sound
  have orthodox := visited.orthodox reached.orthodox
  have frame (part : Part) (codes : List Char) (framed : part ∈ Part.framed)
      (listed : ∀ e ∈ Table.standard.entries, part ∈ e.instruction.footprint →
        e.code ∈ codes.map Cell.ofChar) :
      Part.of g part = Part.of f part ∨ code ∈ codes.map Cell.ofChar := by
    rcases Focus.framed_cases sound orthodox other depth framed with same | ⟨e, member, rfl, touched, _⟩
    · exact .inl same
    · exact .inr (listed e member touched)
  refine ⟨?_, ?_, ?_, ?_, ?_⟩
  · have writers : ∀ e ∈ Table.standard.entries, .space ∈ e.instruction.footprint →
        e.code ∈ ['p', 's', 'i'].map Cell.ofChar ∨ e.instruction.switches = true ∧
          e.code ∈ ['[', ']', '{', '}', '(', ')'].map Cell.ofChar := by decide
    rcases Focus.framed_cases sound orthodox other depth (by decide : .space ∈ Part.framed) with
      same | ⟨e, member, rfl, touched, iteration, ran⟩
    · exact .inl same
    · rcases writers e member touched with writes | ⟨switches, bracket⟩
      · exact .inr (.inl writes)
      · -- The footprint has the space in it in either mode, so the mode decides.
        by_cases on : f.pointer.flags.switch = true
        · exact .inr (.inr ⟨on, bracket⟩)
        · have still := Instruction.still switches iteration f (by simpa using on)
          rw [← ran] at still
          exact .inl still.2
  · rcases frame .lower ['{', '}', 'u'] (by decide) (by decide) with same | listed
    · exact .inl ⟨congrArg Prod.fst same, congrArg Prod.snd same⟩
    · exact .inr listed
  · exact frame .offset ['{', '}'] (by decide) (by decide)
  · exact frame .bindings ['(', ')'] (by decide) (by decide)
  · rcases frame .newborns ['t'] (by decide) (by decide) with same | listed
    · exact .inl same
    · exact .inr (List.mem_singleton.mp listed)

/-- A host that has the handprint of the mode switches to read. -/
def switchInput : Host := { Host.bare with input := [49, 50, 57, 55, 48, 52, 48, 52, 53, 51] }

/-- A machine with a program and the handprint of the mode switches to read, after a number of
ticks. -/
def supplied (source : List UInt8) : Nat → Machine
  | 0 => ((standard {} switchInput).load source).2
  | n + 1 => (supplied source n).tick.2

/-- The first pointer of that machine, in its world. -/
def leading (source : List UInt8) (n : Nat) : Focus :=
  ⟨(supplied source n).pointers.headD (Pointer.start 0 2), (supplied source n).world⟩

theorem reachable_supplied {source : List UInt8} {n : Nat}
    (loaded : ((standard {} switchInput).load source).1 = .ok 0)
    (ticks : ∀ k < n, (supplied source k).tick.1 = .ok ()) :
    Reachable {} switchInput (supplied source n) := by
  induction n with
  | zero => exact .load source .start (.of_ok loaded)
  | succ n ih =>
    have before := ih fun k bound => ticks k (by omega)
    exact .tick before (.of_ok (ticks n (by omega)))

/-- Loads the mode switches, enters switch mode and comes to a bracket. -/
def turningProgram : List UInt8 := [38, 49, 40, 83, 91]

/-- A pointer on the bracket, in its world. -/
def bracketed : Focus := leading turningProgram 4

/-- In switch mode a bracket turns over, and all else that is framed stays. -/
theorem bracketed_framed :
    bracketed.pointer.flags.switch = true ∧
    (bracketed.execute 91).1 = .ok () ∧
    bracketed.world.space.peek bracketed.pointer.position = 91 ∧
    (bracketed.execute 91).2.world.space.peek bracketed.pointer.position = 93 ∧
    (bracketed.execute 91).2.pointer.stacks.depth = bracketed.pointer.stacks.depth ∧
    (bracketed.execute 91).2.pointer.offset = bracketed.pointer.offset ∧
    (bracketed.execute 91).2.pointer.overrides = bracketed.pointer.overrides ∧
    (bracketed.execute 91).2.world.newborns = bracketed.world.newborns := by
  have reached : Reachable {} switchInput (supplied turningProgram 4) :=
    reachable_supplied (by decide +kernel) (by decide +kernel)
  have one : 0 < (supplied turningProgram 4).pointers.length := by decide +kernel
  have visited : (supplied turningProgram 4).Visits bracketed := .rest (headD_mem one _)
  have framed := codes_framed reached visited
    (show (91 : Cell) ≠ Cell.ofChar 'k' by decide) Action.maxNesting
  rw [← Focus.execute] at framed
  obtain ⟨_, lower, offset, bindings, newborns⟩ := framed
  exact ⟨by decide +kernel, by decide +kernel, by decide +kernel, by decide +kernel,
    (lower.resolve_right (by decide)).1, offset.resolve_right (by decide),
    bindings.resolve_right (by decide), newborns.resolve_right (by decide)⟩

end Machine

end Funge
