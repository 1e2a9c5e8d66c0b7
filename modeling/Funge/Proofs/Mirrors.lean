import Funge.Proofs.Chronicle
import Funge.Proofs.Framing
import Funge.Proofs.Playfield

/-!
# What switch mode turns over

In switch mode a bracket turns the cell on which the pointer stands into its counterpart. That is
the cell of the bracket itself when the pointer has come to it, and then nothing else in the space
changes. A bracket that is repeated by an iteration is executed from the cell of the iteration, or
from wherever the pointer has been moved meanwhile, and it is that cell which is overwritten.
-/

namespace Funge

/-- The brackets, each with its counterpart. -/
def Cell.counterparts : List (Cell × Cell) :=
  [('[', ']'), (']', '['), ('{', '}'), ('}', '{'), ('(', ')'), (')', '(')].map fun pair =>
    (Cell.ofChar pair.1, Cell.ofChar pair.2)

/-- The instructions that write what the program tells them to. -/
def Instruction.writers : List Instruction := [.put, .store, .loadFile]

/-- The pointer stays in place, and in the space at most its own cell changes, in switch mode, and
then to the given one. -/
structure Focus.Mirrors (mirror : Cell) (f g : Focus) : Prop where
  position : g.pointer.position = f.pointer.position
  flags : g.pointer.flags = f.pointer.flags
  cells : ∀ v, g.world.space.peek v = f.world.space.peek v ∨
    f.pointer.flags.switch = true ∧ v = f.pointer.position ∧ g.world.space.peek v = mirror

namespace Focus.Mirrors

variable {mirror : Cell}

theorem trans (f g h : Focus) (first : Mirrors mirror f g) (second : Mirrors mirror g h) :
    Mirrors mirror f h := by
  refine ⟨second.position.trans first.position, second.flags.trans first.flags, ?_⟩
  intro v
  rcases second.cells v with same | ⟨on, here, turned⟩
  · rw [same]
    exact first.cells v
  · rw [first.flags] at on
    rw [first.position] at here
    exact .inr ⟨on, here, turned⟩

theorem of_differs (f g : Focus) (frame : f.Differs Part.aside g) : Mirrors mirror f g := by
  have space : g.world.space = f.world.space := frame .space (by decide)
  exact ⟨frame .position (by decide), frame .flags (by decide), fun v => .inl (by rw [space])⟩

theorem switchTo (mirror : Cell) : Action.Follows (Mirrors mirror) (Action.switchTo mirror) := by
  intro f
  have same : Mirrors mirror f f := of_differs f f (.refl _ f)
  rw [Action.switchTo, Action.run_bind_ok (Action.run_pointer f)]
  split
  · rename_i on
    rw [Action.writeSpace, Action.run_bind_ok (Action.run_world f)]
    cases written : f.world.space.set f.pointer.position mirror with
    | error e => exact same
    | ok space =>
      refine ⟨rfl, rfl, ?_⟩
      intro v
      have put : space = f.world.space.write f.pointer.position mirror := by
        unfold Space.set at written
        split at written
        · exact (Except.ok.inj written).symm
        · cases written
      change space.peek v = _ ∨ _ ∧ _ ∧ space.peek v = _
      rw [put, Space.peek_write]
      by_cases here : v = f.pointer.position
      · exact .inr ⟨on, here, if_pos here⟩
      · exact .inl (if_neg here)
  · exact same

end Focus.Mirrors

namespace Instruction

theorem space_mem_footprint {i : Instruction} (h : .space ∈ i.footprint) :
    i ∈ writers ∨ ∃ mirror, i.mirror? = some mirror := by
  cases i <;> simp [footprint, writers, mirror?] at h ⊢

theorem space_mem_footprint_of_mirror {i : Instruction} {mirror : Cell}
    (turns : i.mirror? = some mirror) : .space ∈ i.footprint := by
  cases i <;> simp [footprint, mirror?] at turns ⊢

/-- An instruction that does not write by itself changes a cell only as a bracket. -/
theorem turns_own_cell {i : Instruction} (single : i ≠ .iterate) (quiet : i ∉ writers)
    (iteration : Action Unit) (f : Focus) {v : Vec}
    (changed : (i.perform iteration f).2.world.space.peek v ≠ f.world.space.peek v) :
    i.mirror? = some ((i.perform iteration f).2.world.space.peek v) ∧
      f.pointer.flags.switch = true ∧ v = f.pointer.position := by
  have reaches : .space ∈ i.footprint := by
    by_contra outside
    have same : (i.perform iteration f).2.world.space = f.world.space :=
      i.touches single iteration f .space outside
    rw [same] at changed
    exact changed rfl
  obtain ⟨mirror, turns⟩ := (space_mem_footprint reaches).resolve_left quiet
  have mirrors := follows_of_mirror Focus.Mirrors.trans Focus.Mirrors.of_differs turns
    (Focus.Mirrors.switchTo mirror) iteration f
  rcases mirrors.cells v with same | ⟨on, here, turned⟩
  · exact absurd same changed
  · rw [turned]
    exact ⟨turns, on, here⟩

end Instruction

/-- The episode is a bracket, executed in switch mode where the pointer stood at the point, and the
cell is its counterpart. -/
structure Episode.Turns (e : Episode) (v : Vec) (mirror : Cell) : Prop where
  bracket : e.instruction.mirror? = some mirror
  switched : e.before.pointer.flags.switch = true
  place : e.before.pointer.position = v

/-- Nothing is written in between. -/
def World.SameSpace (u v : World) : Prop := v.space = u.space

theorem World.sameSpace_idle : Idle SameSpace where
  trans _ _ _ first second := second.trans first
  motion _ _ frame := frame .space (by decide)

/-- A cell that differs in the end was turned by an episode, and what it holds is the counterpart
of that bracket. -/
theorem Linked.turned {u w : World} {es : List Episode} (h : Linked World.SameSpace u es w)
    (quiet : ∀ e ∈ es, e.instruction ∉ Instruction.writers) {v : Vec}
    (changed : w.space.peek v ≠ u.space.peek v) : ∃ e ∈ es, e.Turns v (w.space.peek v) := by
  induction h with
  | rest same =>
    rw [same] at changed
    exact absurd rfl changed
  | @next u w e es start genuine rest ih =>
    obtain ⟨calm, others⟩ := List.forall_mem_cons.mp quiet
    by_cases later : w.space.peek v = e.after.world.space.peek v
    · obtain ⟨single, iteration, ran⟩ := genuine
      have after : e.after = (e.instruction.perform iteration e.before).2 := by rw [ran]
      rw [later, ← start, after] at changed
      obtain ⟨bracket, switched, place⟩ :=
        Instruction.turns_own_cell single calm iteration e.before changed
      rw [later, after]
      exact ⟨e, List.mem_cons_self, bracket, switched, place.symm⟩
    · obtain ⟨d, member, turns⟩ := ih others later
      exact ⟨d, List.mem_cons_of_mem e member, turns⟩

/-- A code that is not that of an iteration has at most the episode of its own instruction. -/
theorem Action.mem_episodes {depth : Nat} {code : Cell} {f : Focus} {e : Episode}
    (single : ∀ i, f.world.instruction? f.pointer code = .ok (some i) → i ≠ .iterate)
    (member : e ∈ episodes depth code f) :
    e.before = f ∧ f.world.instruction? f.pointer code = .ok (some e.instruction) := by
  cases depth with
  | zero => cases member
  | succ depth =>
    unfold episodes at member
    split at member
    · rename_i i known
      rw [if_neg (single i known)] at member
      rw [List.mem_singleton.mp member]
      exact ⟨rfl, known⟩
    · cases member

/-- Outside of an iteration the pointer stands on the code of the instruction it executes. -/
theorem Focus.mem_episodes {dims : Nat} {f : Focus} {e : Episode} (sound : f.Sound dims)
    (other : f.world.space.peek f.pointer.position ≠ 107) (member : e ∈ f.episodes) :
    e.before.pointer = f.pointer ∧ f.world.instruction? f.pointer
      (f.world.space.peek f.pointer.position) = .ok (some e.instruction) := by
  unfold episodes at member
  split at member
  · cases member
  · rename_i cell read
    have same : cell = f.world.space.peek f.pointer.position := by
      unfold Space.get at read
      split at read
      · exact (Except.ok.inj read).symm
      · cases read
    subst same
    split at member
    · cases member
    · -- The note changes the journal only, so the code means the same before and after it.
      obtain ⟨before, known⟩ := Action.mem_episodes
        (f := f.note (.executed f.pointer.id f.pointer.position _))
        (fun _ known => Action.instruction?_single sound.world sound.pointer other known) member
      rw [before]
      exact ⟨rfl, known⟩

/-- The table has every bracket of the base language under the code that its counterpart belongs
to. -/
theorem Table.standard_mirrors {e : Entry} {mirror : Cell} (listed : e ∈ standard.entries)
    (turns : e.instruction.mirror? = some mirror) : (e.code, mirror) ∈ Cell.counterparts := by
  have all : ∀ e ∈ standard.entries,
      e.instruction.mirror?.all (fun mirror => (e.code, mirror) ∈ Cell.counterparts) = true := by
    decide
  simpa [turns] using all e listed

namespace Machine

/-- On a step of a reachable machine that writes nothing by itself, only brackets in switch mode
change cells, each the one on which the pointer stands when it is executed, into the counterpart of
the bracket. Without an iteration that is the cell of the bracket, which held the one of a pair and
holds the other. -/
theorem switch_turns_current {settings : Settings} {host : Host} {m : Machine} {f : Focus}
    (reached : Reachable settings host m) (visited : m.Visits f)
    (quiet : ∀ e ∈ f.episodes, e.instruction ∉ Instruction.writers) {v : Vec}
    (changed : f.step.2.world.space.peek v ≠ f.world.space.peek v) :
    (∃ e ∈ f.episodes, e.Turns v (f.step.2.world.space.peek v)) ∧
    (f.world.space.peek f.pointer.position ≠ Cell.ofChar 'k' →
      v = f.pointer.position ∧
      (f.world.space.peek v, f.step.2.world.space.peek v) ∈ Cell.counterparts) := by
  obtain ⟨e, member, turns⟩ := (f.linked_step World.sameSpace_idle).turned quiet changed
  refine ⟨⟨e, member, turns⟩, ?_⟩
  intro other
  have sound := visited.sound reached.sound
  have orthodox := visited.orthodox reached.orthodox
  obtain ⟨pointer, known⟩ := Focus.mem_episodes sound other member
  have place : v = f.pointer.position := by rw [← turns.place, pointer]
  refine ⟨place, ?_⟩
  obtain ⟨entry, listed, code, same⟩ := World.entry_of_framed orthodox.pointer known
    (by decide : .space ∈ Part.framed) (Instruction.space_mem_footprint_of_mirror turns.bracket)
  rw [sound.world.table] at listed
  have bracket : entry.instruction.mirror? = some (f.step.2.world.space.peek v) := by
    rw [same]
    exact turns.bracket
  have paired := Table.standard_mirrors listed bracket
  rw [code, ← place] at paired
  exact paired

/-- The bracket itself turns over. -/
theorem turning_turns_current :
    (leading turningProgram 4).pointer.flags.switch = true ∧
    ((leading turningProgram 4).world.space.peek (leading turningProgram 4).pointer.position,
      (leading turningProgram 4).step.2.world.space.peek
        (leading turningProgram 4).pointer.position) ∈ Cell.counterparts := by
  have reached : Reachable {} switchInput (supplied turningProgram 4) :=
    reachable_supplied (by decide +kernel) (by decide +kernel)
  have one : 0 < (supplied turningProgram 4).pointers.length := by decide +kernel
  have turned := switch_turns_current reached (f := leading turningProgram 4)
    (.rest (headD_mem one _)) (by decide +kernel)
    (v := (leading turningProgram 4).pointer.position) (by decide +kernel)
  exact ⟨by decide +kernel, (turned.2 (by decide +kernel)).2⟩

/-- Comes to an iteration of the bracket instead. -/
def repeatingProgram : List UInt8 := [38, 49, 40, 83, 49, 107, 91]

/-- The iteration, which is no bracket, is overwritten, and the bracket it repeats is not. -/
theorem repeating_overwrites_iteration :
    Reachable {} switchInput (supplied repeatingProgram 5) ∧
    (supplied repeatingProgram 5).Visits (leading repeatingProgram 5) ∧
    (leading repeatingProgram 5).pointer.flags.switch = true ∧
    (∀ e ∈ (leading repeatingProgram 5).episodes, e.instruction ∉ Instruction.writers) ∧
    (leading repeatingProgram 5).world.space.peek (Vec.ofList [5]) = Cell.ofChar 'k' ∧
    (leading repeatingProgram 5).step.2.world.space.peek (Vec.ofList [5]) = Cell.ofChar ']' ∧
    (Cell.ofChar 'k', Cell.ofChar ']') ∉ Cell.counterparts ∧
    (leading repeatingProgram 5).step.2.world.space.peek (Vec.ofList [6]) = Cell.ofChar '[' := by
  have reached : Reachable {} switchInput (supplied repeatingProgram 5) :=
    reachable_supplied (by decide +kernel) (by decide +kernel)
  have one : 0 < (supplied repeatingProgram 5).pointers.length := by decide +kernel
  have visited : (supplied repeatingProgram 5).Visits (leading repeatingProgram 5) :=
    .rest (headD_mem one _)
  exact ⟨reached, visited, by decide +kernel, by decide +kernel, by decide +kernel,
    by decide +kernel, by decide +kernel, by decide +kernel⟩

end Machine

end Funge
