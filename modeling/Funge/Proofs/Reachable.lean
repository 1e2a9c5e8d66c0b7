import Funge.Proofs.Soundness
import Mathlib.Data.List.InsertIdx

/-!
# Reachable machines

A machine is reachable when it comes from a standard one by loads, spawns, ticks and runs that
all came back. Between two calls its surroundings may change in any way. All reachable machines
are sound, and so are the foci that their ticks pass through; no call on them fails, except that
a run can reach the tick limit.
-/

namespace Funge

/-- The call has come back, that is, it has met no fault of the machine. -/
def Returned {α : Type} (result : Except MachineError α) : Prop :=
  ∀ fault, result ≠ .error (.fault fault)

theorem Returned.of_ok {α : Type} {result : Except MachineError α} {x : α} (h : result = .ok x) :
    Returned result := by
  rintro fault rfl
  cases h

/-- Position, direction and storage offset have no component beyond the dimensions. -/
def Pointer.Fits (dims : Nat) (p : Pointer) : Prop :=
  p.position.fits dims = true ∧ p.delta.fits dims = true ∧ p.offset.fits dims = true

theorem Pointer.Sound.fits {dims : Nat} {p : Pointer} (h : p.Sound dims) : p.Fits dims :=
  ⟨h.position, h.delta, h.offset⟩

/-- A host with nothing to read, no arguments, no files and a clock that stands still. -/
def Host.bare : Host where
  input := []
  written := []
  arguments := []
  environment := []
  clock := .fixed ⟨2000, 1, 1, 0, 0, 0, 0⟩
  stopwatch := 0
  dice := { draws := fun _ => 0 }
  folder := .empty

namespace Machine

inductive Reachable (settings : Settings) (host : Host) : Machine → Prop
  | start : Reachable settings host (standard settings host)
  | spawn {m : Machine} : Reachable settings host m → Returned m.spawn.1 →
      Reachable settings host m.spawn.2
  | load {m : Machine} (source : List UInt8) : Reachable settings host m →
      Returned (m.load source).1 → Reachable settings host (m.load source).2
  | tick {m : Machine} : Reachable settings host m → Returned m.tick.1 →
      Reachable settings host m.tick.2
  | run {m : Machine} : Reachable settings host m → Returned m.run.1 →
      Reachable settings host m.run.2
  /-- The clock goes on, input arrives, output is taken away, files come and go. -/
  | surround {m : Machine} (other : Host) : Reachable settings host m →
      Reachable settings host { m with world := { m.world with host := other } }

/-- How a turn of a run ends. -/
theorem turn_cases (m : Machine) :
    m.turn = .over (.ok m.exitCode) m ∨
      (∃ limit, m.turn = .over (.error (.tickLimit limit)) m) ∨
      (∃ e m', m.tick = (.error e, m') ∧ m.turn = .over (.error e) m') ∨
      ∃ m', m.tick = (.ok (), m') ∧ m.turn = .next m' := by
  unfold turn
  split
  · exact .inl rfl
  · split
    · exact .inr (.inl ⟨_, rfl⟩)
    · split
      · rename_i e m' ticked
        exact .inr (.inr (.inl ⟨e, m', ticked, rfl⟩))
      · rename_i m' ticked
        exact .inr (.inr (.inr ⟨m', ticked, rfl⟩))

/-- What holds before a run and is kept by its ticks holds after it. -/
theorem runFor_keeps {P : Machine → Prop} (keeps : ∀ m, P m → Returned m.tick.1 → P m.tick.2)
    (bound : Nat) {m : Machine} (h : P m) (returned : Returned (runFor bound m).1) :
    P (runFor bound m).2 := by
  induction bound generalizing m with
  | zero => exact h
  | succ bound ih =>
    have kept := keeps m h
    rcases turn_cases m with halted | ⟨limit, halted⟩ | ⟨e, m', ticked, halted⟩ | ⟨m', ticked, next⟩
    · simp only [runFor, halted]
      exact h
    · simp only [runFor, halted]
      exact h
    · simp only [runFor, halted] at returned ⊢
      rw [ticked] at kept
      refine kept fun fault same => returned fault ?_
      cases same
      rfl
    · simp only [runFor, next] at returned ⊢
      rw [ticked] at kept
      exact ih (kept (by rintro fault ⟨⟩)) returned

/-- The pointers after the children have been put in front of their parents, one by one. -/
def adopt (ps : List Pointer) (newborns : List (Pointer × Nat)) : List Pointer :=
  newborns.foldl (fun ps child => insertChild ps child.1 child.2) ps

theorem note_all (removed : List Pointer) (w : World) :
    ∃ journal, removed.foldl (fun w p => w.note (.removed p.id)) w = { w with journal } := by
  induction removed generalizing w with
  | nil => exact ⟨w.journal, rfl⟩
  | cons p ps ih =>
    obtain ⟨journal, same⟩ := ih (w.note (.removed p.id))
    exact ⟨journal, same⟩

/-- How a tick of a machine that has not quit ends. -/
theorem tick_cases {m : Machine} (going : m.exit = none) :
    (∃ e ps w, stepAll m.world m.pointers = (.failed e, ps, w) ∧
      m.tick = (.error e, { m with world := w, pointers := ps, ticks := m.ticks + 1 })) ∨
    (∃ id code ps w journal, stepAll m.world m.pointers = (.quit id code, ps, w) ∧
      m.tick = (.ok (), ⟨{ w with newborns := #[], journal }, ps, m.ticks + 1, some code⟩)) ∨
    ∃ ps w journal, stepAll m.world m.pointers = (.complete, ps, w) ∧
      m.tick = (.ok (), ⟨{ w with newborns := #[], journal },
        (adopt ps w.newborns.toList).filter (·.alive), m.ticks + 1, none⟩) := by
  have awake : m.hasQuit = false := by simp [hasQuit, going]
  rcases passed : stepAll m.world m.pointers with ⟨pass, ps, w⟩
  cases pass with
  | failed e =>
    refine .inl ⟨e, ps, w, rfl, ?_⟩
    simp [tick, awake, passed]
  | quit id code =>
    refine .inr (.inl ⟨id, code, ps, w, (w.note (.quit id code (m.ticks + 1))).journal, rfl, ?_⟩)
    simp [tick, awake, passed, World.note]
  | complete =>
    obtain ⟨journal, same⟩ := note_all ((adopt ps w.newborns.toList).filter (!·.alive))
      { w with newborns := #[] }
    refine .inr (.inr ⟨ps, w, journal, rfl, ?_⟩)
    rw [adopt] at same
    simp [tick, awake, passed, adopt, same, ← Array.foldl_toList, going]

theorem tick_of_quit {m : Machine} (quit : m.exit ≠ none) : m.tick = (.ok (), m) := by
  have asleep : m.hasQuit = true := Option.isSome_iff_ne_none.mpr quit
  simp [tick, asleep]

theorem load_eq (m : Machine) (source : List UInt8) :
    let placed := { m with
      world := { m.world with space := (m.world.space.load 0 source false).2 } }
    m.load source =
      match (m.world.space.load 0 source false).1 with
      | .error e => (.error (.space e), placed)
      | .ok _ => placed.spawn := rfl

/-- What every part of a call keeps holds of all reachable machines. -/
theorem Reachable.invariant {settings : Settings} {host : Host} {P : Machine → Prop}
    (start : P (standard settings host))
    (spawn : ∀ m, P m → Returned m.spawn.1 → P m.spawn.2)
    (place : ∀ m source, P m →
      P { m with world := { m.world with space := (m.world.space.load 0 source false).2 } })
    (tick : ∀ m, P m → Returned m.tick.1 → P m.tick.2)
    (surround : ∀ m other, P m → P { m with world := { m.world with host := other } })
    {m : Machine} (h : Reachable settings host m) : P m := by
  induction h with
  | start => exact start
  | spawn _ returned ih => exact spawn _ ih returned
  | load source _ returned ih =>
    have placed := place _ source ih
    rw [load_eq] at returned ⊢
    split
    · exact placed
    · rename_i size loaded
      rw [loaded] at returned
      exact spawn _ placed returned
  | tick _ returned ih => exact tick _ ih returned
  | run _ returned ih => exact runFor_keeps tick maxRun ih returned
  | surround other _ ih => exact surround _ other ih

section Soundness

structure Sound (m : Machine) : Prop where
  world : m.world.Sound m.world.space.dims
  pointers : ∀ p ∈ m.pointers, p.Sound m.world.space.dims

/-- The result is a value or a fault. -/
def Unfailing {α : Type} (result : Except MachineError α) : Prop :=
  ∀ e, result = .error e → ∃ fault, e = .fault fault

theorem sound_standard (settings : Settings) (host : Host) : (standard settings host).Sound := by
  refine ⟨⟨rfl, rfl, ?_, rfl, rfl⟩, ?_⟩
  · intro child member
    cases Array.not_mem_empty child member
  · intro p member
    cases member

variable {m : Machine}

theorem sound_of {dims : Nat} (world : m.world.Sound dims)
    (pointers : ∀ p ∈ m.pointers, p.Sound dims) : m.Sound := by
  obtain rfl := world.space
  exact ⟨world, pointers⟩

/-- A sound machine stays sound when a program is placed in its space. -/
theorem Sound.place (h : m.Sound) (source : List UInt8) :
    ({ m with world := { m.world with space := (m.world.space.load 0 source false).2 } } :
      Machine).Sound := by
  obtain ⟨size, space, loaded, same⟩ := Space.load_of_fits h.world.positive
    (Vec.fits_zero m.world.space.dims) source false
  rw [loaded]
  have world : ({ m.world with space } : World).Sound m.world.space.dims :=
    { h.world with space := same }
  exact sound_of world h.pointers

theorem Sound.spawn (h : m.Sound) : m.spawn.2.Sound ∧ Unfailing m.spawn.1 := by
  have fresh := (Pointer.Sound.start m.world.nextId h.world.positive m.world.settings.dims
    h.world.chosen).settle rfl
  unfold Machine.spawn
  simp only
  split
  · rename_i e failed
    rw [failed] at fresh
    refine ⟨⟨{ h.world with }, h.pointers⟩, ?_⟩
    rintro _ ⟨⟩
    exact fresh
  · rename_i p settled
    rw [settled] at fresh
    refine ⟨⟨{ h.world with }, ?_⟩, by rintro _ ⟨⟩⟩
    intro q member
    rcases List.mem_append.mp member with old | new
    · exact h.pointers q old
    · rw [List.mem_singleton.mp new]
      exact fresh

theorem Sound.load (h : m.Sound) (source : List UInt8) :
    (m.load source).2.Sound ∧ Unfailing (m.load source).1 := by
  obtain ⟨size, space, loaded, same⟩ := Space.load_of_fits h.world.positive
    (Vec.fits_zero m.world.space.dims) source false
  have placed := h.place source
  rw [load_eq]
  simp only [loaded] at placed ⊢
  exact placed.spawn

/-- A pass over sound pointers keeps them sound and fails only with a fault. -/
theorem stepAll_sound {dims : Nat} {w : World} {ps : List Pointer} (hw : w.Sound dims)
    (hps : ∀ p ∈ ps, p.Sound dims) :
    (stepAll w ps).2.2.Sound dims ∧ (∀ p ∈ (stepAll w ps).2.1, p.Sound dims) ∧
      ∀ e, (stepAll w ps).1 = .failed e → ∃ fault, e = .fault fault := by
  induction ps generalizing w with
  | nil => exact ⟨hw, fun _ member => (by cases member), fun _ failed => (by cases failed)⟩
  | cons p ps ih =>
    have first : p.Sound dims := hps p List.mem_cons_self
    have others : ∀ q ∈ ps, q.Sound dims := fun q member => hps q (List.mem_cons_of_mem p member)
    have mem_cons {q : Pointer} (hq : q.Sound dims) {qs : List Pointer}
        (hqs : ∀ r ∈ qs, r.Sound dims) : ∀ r ∈ q :: qs, r.Sound dims := by
      intro r member
      rcases List.mem_cons.mp member with rfl | later
      · exact hq
      · exact hqs r later
    unfold stepAll
    split
    · obtain ⟨kept, unfailing⟩ := Focus.Sound.step (f := ⟨p, w⟩) ⟨first, hw⟩
      split
      · rename_i e f failed
        rw [failed] at kept unfailing
        refine ⟨kept.world, mem_cons kept.pointer others, ?_⟩
        rintro _ ⟨⟩
        exact unfailing e rfl
      · rename_i f stepped
        rw [stepped] at kept
        split
        · exact ⟨kept.world, mem_cons kept.pointer others, by rintro _ ⟨⟩⟩
        · obtain ⟨world, pointers, failed⟩ := ih kept.world others
          exact ⟨world, mem_cons kept.pointer pointers, failed⟩
    · obtain ⟨world, pointers, failed⟩ := ih hw others
      exact ⟨world, mem_cons first pointers, failed⟩

theorem mem_adopt {ps : List Pointer} {newborns : List (Pointer × Nat)} {p : Pointer}
    (h : p ∈ adopt ps newborns) : p ∈ ps ∨ ∃ parent, (p, parent) ∈ newborns := by
  induction newborns generalizing ps with
  | nil => exact .inl h
  | cons child rest ih =>
    rcases ih h with placed | ⟨parent, later⟩
    · rcases List.eq_or_mem_of_mem_insertIdx placed with same | old
      · exact .inr ⟨child.2, same ▸ List.mem_cons_self⟩
      · exact .inl old
    · exact .inr ⟨parent, List.mem_cons_of_mem child later⟩

theorem Sound.tick (h : m.Sound) : m.tick.2.Sound ∧ Unfailing m.tick.1 := by
  by_cases going : m.exit = none
  · obtain ⟨world, pointers, unfailing⟩ := stepAll_sound h.world h.pointers
    have none_left : ∀ child ∈ (#[] : Array (Pointer × Nat)), child.1.Sound m.world.space.dims :=
      fun child member => absurd member (Array.not_mem_empty child)
    rcases tick_cases going with ⟨e, ps, w, passed, ticked⟩ | ⟨id, code, ps, w, journal, passed, ticked⟩ |
      ⟨ps, w, journal, passed, ticked⟩
    · rw [passed] at world pointers unfailing
      rw [ticked]
      refine ⟨sound_of world pointers, ?_⟩
      rintro _ ⟨⟩
      exact unfailing e rfl
    · rw [passed] at world pointers
      rw [ticked]
      refine ⟨sound_of { world with newborns := none_left } pointers, by rintro _ ⟨⟩⟩
    · rw [passed] at world pointers
      rw [ticked]
      refine ⟨sound_of { world with newborns := none_left } ?_, by rintro _ ⟨⟩⟩
      intro p member
      rcases mem_adopt (List.mem_filter.mp member).1 with old | ⟨parent, new⟩
      · exact pointers p old
      · exact world.newborns (p, parent) (Array.mem_toList_iff.mp new)
  · rw [tick_of_quit going]
    exact ⟨h, by rintro _ ⟨⟩⟩

/-- A run of a sound machine ends, faults apart, with an exit code or at the tick limit. -/
theorem Sound.runFor (h : m.Sound) (bound : Nat) {e : MachineError}
    (failed : (Machine.runFor bound m).1 = .error e) :
    (∃ limit, e = .tickLimit limit) ∨ ∃ fault, e = .fault fault := by
  induction bound generalizing m with
  | zero =>
    cases failed
    exact .inr ⟨.endless, rfl⟩
  | succ bound ih =>
    obtain ⟨sound, unfailing⟩ := h.tick
    rcases turn_cases m with halted | ⟨limit, halted⟩ | ⟨e', m', ticked, halted⟩ | ⟨m', ticked, next⟩
    · simp [Machine.runFor, halted] at failed
    · simp only [Machine.runFor, halted, Except.error.injEq] at failed
      exact .inl ⟨limit, failed.symm⟩
    · simp only [Machine.runFor, halted, Except.error.injEq] at failed
      rw [ticked] at unfailing
      exact .inr (failed ▸ unfailing e' rfl)
    · simp only [Machine.runFor, next] at failed
      rw [ticked] at sound
      exact ih sound failed

theorem Reachable.sound {settings : Settings} {host : Host} (h : Reachable settings host m) :
    m.Sound := by
  refine h.invariant (sound_standard settings host) ?_ ?_ ?_ ?_
  · exact fun m sound _ => sound.spawn.1
  · exact fun m source sound => sound.place source
  · exact fun m sound _ => sound.tick.1
  · exact fun m other sound => ⟨{ sound.world with }, sound.pointers⟩

end Soundness

section Visits

/-- The foci that a tick of the machine passes through. Inside of a turn that is every focus that
instructions executed in place and the counts taken by iterations lead to. -/
inductive Visits (m : Machine) : Focus → Prop
  | rest {p : Pointer} : p ∈ m.pointers → Visits m ⟨p, m.world⟩
  /-- The turn of a pointer comes after the turns of all pointers before it. -/
  | turn {before after stepped : List Pointer} {p : Pointer} {w : World} : m.exit = none →
      m.pointers = before ++ p :: after → stepAll m.world before = (.complete, stepped, w) →
      Visits m ⟨p, w⟩
  | note {f : Focus} (e : Event) : Visits m f → Visits m (f.note e)
  | pop {f : Focus} : Visits m f → Visits m { f with pointer := f.pointer.pop.2 }
  | execute {f f' : Focus} (depth : Nat) (code : Cell) : Visits m f →
      Action.execute depth code f = (.ok (), f') → Visits m f'

theorem Visits.sound {m : Machine} {f : Focus} (h : m.Visits f) (sound : m.Sound) :
    f.Sound m.world.space.dims := by
  induction h with
  | rest member => exact ⟨sound.pointers _ member, sound.world⟩
  | turn _ listed passed =>
    have place := sound.pointers
    rw [listed] at place
    have stepped := stepAll_sound sound.world fun q member =>
      place q (List.mem_append_left _ member)
    rw [passed] at stepped
    exact ⟨place _ (List.mem_append_right _ List.mem_cons_self), stepped.1⟩
  | note e _ ih => exact ih.note e
  | pop _ ih => exact ⟨ih.pointer.setTop _, ih.world⟩
  | execute depth code _ executed ih =>
    have ends := Action.safe_execute depth code _ ih
    rw [executed] at ends
    exact ends.2

end Visits

variable {settings : Settings} {host : Host} {m : Machine}

theorem Unfailing.ok {α : Type} {result : Except MachineError α} (h : Unfailing result)
    (returned : Returned result) : ∃ x, result = .ok x := by
  cases result with
  | ok x => exact ⟨x, rfl⟩
  | error e =>
    obtain ⟨fault, rfl⟩ := h e rfl
    exact absurd rfl (returned fault)

/-- In all that can be reached, the vectors of pointers and newborns fit the space, and no call
fails except a run at the tick limit. -/
theorem calls_keep_dimensions (reached : Reachable settings host m) :
    (∀ p ∈ m.pointers, p.Fits m.world.space.dims) ∧
    (∀ child ∈ m.world.newborns, child.1.Fits m.world.space.dims) ∧
    (∀ f, m.Visits f → f.pointer.Fits f.world.space.dims ∧
      ∀ child ∈ f.world.newborns, child.1.Fits f.world.space.dims) ∧
    (∀ source, Returned (m.load source).1 → ∃ id, (m.load source).1 = .ok id) ∧
    (Returned m.spawn.1 → ∃ id, m.spawn.1 = .ok id) ∧
    (Returned m.tick.1 → m.tick.1 = .ok ()) ∧
    (Returned m.run.1 →
      (∃ code, m.run.1 = .ok code) ∨ ∃ limit, m.run.1 = .error (.tickLimit limit)) := by
  have sound := reached.sound
  refine ⟨fun p member => (sound.pointers p member).fits,
    fun child member => (sound.world.newborns child member).fits, ?_,
    fun source => (sound.load source).2.ok, sound.spawn.2.ok, ?_, ?_⟩
  · intro f visited
    have focus := visited.sound sound
    rw [focus.world.space]
    exact ⟨focus.pointer.fits, fun child member => (focus.world.newborns child member).fits⟩
  · intro returned
    obtain ⟨_, ticked⟩ := sound.tick.2.ok returned
    exact ticked
  · intro returned
    cases ran : m.run.1 with
    | ok code => exact .inl ⟨code, rfl⟩
    | error e =>
      rcases sound.runFor maxRun ran with ⟨limit, rfl⟩ | ⟨fault, rfl⟩
      · exact .inr ⟨limit, rfl⟩
      · exact absurd ran (returned fault)

/-- A machine with a program that splits its pointer and then stops. -/
def splitter : Machine := ((standard {} .bare).load [116, 64]).2

theorem splitter_keeps_dimensions :
    splitter.tick.2.pointers.map (·.id) = [1, 0] ∧
    (∀ p ∈ splitter.tick.2.pointers, p.Fits splitter.tick.2.world.space.dims) ∧
    splitter.tick.2.tick.1 = .ok () := by
  have loaded : ((standard {} .bare).load [116, 64]).1 = .ok 0 := by rfl
  have ticked : splitter.tick.1 = .ok () := by decide +kernel
  have again : splitter.tick.2.tick.1 = .ok () := by decide +kernel
  have reached : Reachable {} .bare splitter.tick.2 :=
    .tick (.load _ .start (.of_ok loaded)) (.of_ok ticked)
  obtain ⟨fits, _, _, _, _, ticks, _⟩ := calls_keep_dimensions reached
  exact ⟨by decide +kernel, fits, ticks (.of_ok again)⟩

end Machine

end Funge
