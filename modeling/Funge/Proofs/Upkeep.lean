import Funge.Proofs.Mirrors

/-!
# The upkeep of the space

The occupancy of the axes is kept up by every write, and nothing reaches the space but writes: the
instructions that store a cell or load a file, and the brackets in switch mode. So the space of a
reachable machine is sound, and it is so at every focus that its ticks pass through.
-/

namespace Funge

namespace Space

variable {s : Space}

theorem Sound.call (sound : s.Sound) (call : Call) : (call.apply s).Sound := by
  have holds : s.Holds s.peek := ⟨sound, fun _ => rfl⟩
  exact (holds.apply call).1.sound

theorem Sound.load (sound : s.Sound) (origin : Vec) (source : List UInt8) (binary : Bool) :
    (s.load origin source binary).2.Sound := sound.call (.load origin source binary)

theorem Sound.set (sound : s.Sound) {v : Vec} {c : Cell} {after : Space}
    (written : s.set v c = .ok after) : after.Sound := by
  have kept := sound.call (.set v c)
  rwa [Call.apply, written] at kept

end Space

/-- The space of the second focus is sound if that of the first one is. -/
def Focus.KeepsSpace (f g : Focus) : Prop := f.world.space.Sound → g.world.space.Sound

namespace Focus.KeepsSpace

theorem trans (f g h : Focus) (first : f.KeepsSpace g) (second : g.KeepsSpace h) :
    f.KeepsSpace h := second ∘ first

theorem of_differs {parts : List Part} (untouched : .space ∉ parts) (f g : Focus)
    (frame : f.Differs parts g) : f.KeepsSpace g := by
  intro sound
  have same : g.world.space = f.world.space := frame .space untouched
  rwa [same]

end Focus.KeepsSpace

namespace Action

open Focus (KeepsSpace)

theorem Touches.keepsSpace {α : Type} {parts : List Part} {a : Action α} (h : Touches parts a)
    (untouched : .space ∉ parts) : Follows KeepsSpace a :=
  fun f => .of_differs untouched f _ (h f)

theorem writeSpace_keepsSpace (v : Vec) (c : Cell) : Follows KeepsSpace (writeSpace v c) := by
  intro f sound
  rw [writeSpace, run_bind_ok (run_world f)]
  cases written : f.world.space.set v c with
  | error e => exact sound
  | ok space => exact sound.set written

theorem switchTo_keepsSpace (mirror : Cell) : Follows KeepsSpace (switchTo mirror) := by
  intro f
  rw [switchTo, run_bind_ok (run_pointer f)]
  split
  · exact writeSpace_keepsSpace _ mirror f
  · exact id

theorem putCell_keepsSpace : Follows KeepsSpace putCell := by
  have pops : Touches [.top] popVec := touches_popVec (by decide)
  have draws : Touches [.top] pop := touches_pop (by decide)
  have names (v : Vec) : Touches [] (stored v) := touches_stored v
  refine Follows.bind KeepsSpace.trans (pops.keepsSpace (by decide)) fun v => ?_
  refine Follows.bind KeepsSpace.trans (draws.keepsSpace (by decide)) fun c => ?_
  refine Follows.bind KeepsSpace.trans ((names v).keepsSpace (by decide)) fun u => ?_
  exact writeSpace_keepsSpace u c

theorem store_keepsSpace : Follows KeepsSpace store := by
  have looks : Touches [] adjacent := touches_adjacent
  have draws : Touches [.top] pop := touches_pop (by decide)
  refine Follows.bind KeepsSpace.trans (looks.keepsSpace (by decide)) fun next => ?_
  refine Follows.bind KeepsSpace.trans (draws.keepsSpace (by decide)) fun c => ?_
  refine Follows.bind KeepsSpace.trans (writeSpace_keepsSpace next c) fun _ => ?_
  have moves : Touches [.position] (moveTo next) := touches_moveTo (by decide) next
  exact moves.keepsSpace (by decide)

theorem loadFile_keepsSpace : Follows KeepsSpace loadFile := by
  have texts : Touches [.top] popText := touches_popText (by decide)
  have draws : Touches [.top] pop := touches_pop (by decide)
  have pops : Touches [.top] popVec := touches_popVec (by decide)
  have pushes (v : Vec) : Touches [.top] (pushVec v) := touches_pushVec (by decide) v
  have notes (e : Event) : Touches [.journal] (note e) := touches_note (by decide) e
  refine Follows.bind KeepsSpace.trans (texts.keepsSpace (by decide)) fun path => ?_
  refine Follows.bind KeepsSpace.trans (draws.keepsSpace (by decide)) fun flags => ?_
  refine Follows.bind KeepsSpace.trans (pops.keepsSpace (by decide)) fun origin => ?_
  -- The program goes into the space that was read, so the rest is said of the focus at hand.
  intro f
  rw [run_bind_ok (run_world f)]
  refine Follows.attempt_at (fun _ => id) fun source _ => ?_
  have named : stored origin f = (.ok (origin + f.pointer.offset), f) := rfl
  rw [run_bind_ok named]
  refine Follows.bind_at KeepsSpace.trans ?_ fun _ => ?_
  · exact fun sound => sound.load _ source (lowBit flags)
  refine Follows.bind KeepsSpace.trans (Follows.attempt (fun _ => id) _ _) fun size => ?_
  refine Follows.bind KeepsSpace.trans (fun _ => id) fun p => ?_
  refine Follows.bind KeepsSpace.trans ((notes _).keepsSpace (by decide)) fun _ => ?_
  refine Follows.bind KeepsSpace.trans ((pushes size).keepsSpace (by decide)) fun _ => ?_
  exact (pushes origin).keepsSpace (by decide)

end Action

/-- Every instruction keeps the space sound. -/
theorem Instruction.keepsSpace {i : Instruction} (single : i ≠ .iterate) (iteration : Action Unit) :
    Action.Follows Focus.KeepsSpace (i.perform iteration) := by
  by_cases reaches : .space ∈ i.footprint
  · rcases space_mem_footprint reaches with writes | ⟨mirror, turns⟩
    · simp only [writers, List.mem_cons, List.not_mem_nil, or_false] at writes
      rcases writes with rfl | rfl | rfl
      · exact Action.putCell_keepsSpace
      · exact Action.store_keepsSpace
      · exact Action.loadFile_keepsSpace
    · exact follows_of_mirror Focus.KeepsSpace.trans (Focus.KeepsSpace.of_differs (by decide)) turns
        (Action.switchTo_keepsSpace mirror) iteration
  · exact (i.touches single iteration).keepsSpace reaches

namespace Focus

theorem execute_keepsSpace (f : Focus) (depth : Nat) (code : Cell) :
    f.KeepsSpace (Action.execute depth code f).2 :=
  Action.follows_execute KeepsSpace.trans (KeepsSpace.of_differs (by decide))
    (fun _ single iteration => Instruction.keepsSpace single iteration) depth code f

theorem step_keepsSpace (f : Focus) : f.KeepsSpace f.step.2 :=
  step_follows KeepsSpace.trans (KeepsSpace.of_differs (by decide))
    (fun _ single iteration => Instruction.keepsSpace single iteration) f

end Focus

namespace Machine

variable {settings : Settings} {host : Host} {m : Machine}

theorem stepAll_keepsSpace {w : World} (sound : w.space.Sound) (ps : List Pointer) :
    (stepAll w ps).2.2.space.Sound :=
  (stepAll_keeps (A := fun _ => True) (B := fun w => w.space.Sound)
    (fun f _ kept => ⟨trivial, f.step_keepsSpace kept⟩) sound fun _ _ => trivial).1

theorem tick_keepsSpace (sound : m.world.space.Sound) : m.tick.2.world.space.Sound := by
  by_cases going : m.exit = none
  · have kept := stepAll_keepsSpace sound m.pointers
    rcases tick_cases going with ⟨e, ps, w, passed, ticked⟩ |
      ⟨id, code, ps, w, journal, passed, ticked⟩ | ⟨ps, w, journal, passed, ticked⟩ <;>
    · rw [passed] at kept
      rw [ticked]
      exact kept
  · rwa [tick_of_quit going]

theorem Reachable.soundSpace (reached : Reachable settings host m) : m.world.space.Sound := by
  refine reached.invariant (P := fun m => m.world.space.Sound) ?_ ?_ ?_ ?_ ?_
  · exact Space.sound_empty settings.dims
  · intro m sound _
    unfold Machine.spawn
    dsimp only
    split <;> exact sound
  · exact fun m source sound => sound.load 0 source false
  · exact fun m sound _ => tick_keepsSpace sound
  · exact fun m other sound => sound

theorem Visits.soundSpace {f : Focus} (visited : m.Visits f) (sound : m.world.space.Sound) :
    f.world.space.Sound := by
  induction visited with
  | rest _ => exact sound
  | @turn before _ _ _ _ _ _ passed =>
    have kept := stepAll_keepsSpace sound before
    rwa [passed] at kept
  | note _ _ ih => exact ih
  | pop _ ih => exact ih
  | execute depth code _ executed ih =>
    have kept := Focus.execute_keepsSpace _ depth code ih
    rwa [executed] at kept

end Machine

end Funge
