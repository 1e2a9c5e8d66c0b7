import Funge.Proofs.Footprint
import Funge.Proofs.Reachable

/-!
# The chronicle of a run

A chronicle lists the instructions that were executed, in order, each with the focus it started
from and the result and focus it ended with. An iteration is in it with what it repeats. Between
two entries pointers only take counts, spell, are reflected and move, and the machine keeps its
books, so all else is handed on from each entry to the next. The chronicle of a standard machine
starts every entry from a sound focus with the settings of the machine.
-/

namespace Funge

/-- An instruction that was executed. -/
structure Episode where
  instruction : Instruction
  before : Focus
  result : Except OpError Unit
  after : Focus

namespace Episode

/-- The episode of an instruction at a focus. -/
def of (i : Instruction) (iteration : Action Unit) (f : Focus) : Episode :=
  ⟨i, f, (i.perform iteration f).1, (i.perform iteration f).2⟩

/-- The instruction is no iteration and does what the episode says. -/
def Genuine (e : Episode) : Prop :=
  e.instruction ≠ .iterate ∧
    ∃ iteration, e.instruction.perform iteration e.before = (e.result, e.after)

theorem genuine_of {i : Instruction} (single : i ≠ .iterate) (iteration : Action Unit)
    (f : Focus) : (of i iteration f).Genuine :=
  ⟨single, iteration, rfl⟩

end Episode

/-- From one world to another there are just the given episodes, with idle changes in between. -/
inductive Linked (Q : World → World → Prop) : World → List Episode → World → Prop
  | rest {u v : World} : Q u v → Linked Q u [] v
  | next {u v : World} {e : Episode} {es : List Episode} : Q u e.before.world → e.Genuine →
      Linked Q e.after.world es v → Linked Q u (e :: es) v

/-- The relation leaves room for all that a pointer changes between its instructions. -/
structure Idle (Q : World → World → Prop) : Prop where
  trans : ∀ u v w, Q u v → Q v w → Q u w
  motion : ∀ f g : Focus, f.Differs Part.motion g → Q f.world g.world

namespace Idle

variable {Q : World → World → Prop} (idle : Idle Q)

include idle

theorem refl (w : World) : Q w w :=
  -- The pointer of the focus is arbitrary; the relation is about its world.
  idle.motion ⟨.start 0 0, w⟩ ⟨.start 0 0, w⟩ (.refl _ _)

theorem touched {α : Type} {a : Action α} (h : Action.Touches Part.motion a) (f : Focus) :
    Q f.world (a f).2.world :=
  idle.motion f _ (h f)

end Idle

namespace Linked

variable {Q : World → World → Prop} {u v w : World} {es more : List Episode}

theorem after (h : Linked Q v es w) (idle : Idle Q) (first : Q u v) : Linked Q u es w := by
  cases h with
  | rest last => exact .rest (idle.trans _ _ _ first last)
  | next start genuine rest => exact .next (idle.trans _ _ _ first start) genuine rest

theorem append (first : Linked Q u es v) (idle : Idle Q) (second : Linked Q v more w) :
    Linked Q u (es ++ more) w := by
  induction first with
  | rest last => exact second.after idle last
  | next start genuine _ ih => exact .next start genuine (ih second)

theorem before (h : Linked Q u es v) (idle : Idle Q) (last : Q v w) : Linked Q u es w := by
  simpa using h.append idle (.rest last)

/-- What the episodes and all that comes between them keep holds whenever an episode starts. -/
theorem invariant {P : World → Prop} (h : Linked Q u es v) (start : P u)
    (quiet : ∀ u v, Q u v → P u → P v)
    (kept : ∀ e : Episode, e.Genuine → P e.before.world → P e.after.world) :
    ∀ e ∈ es, P e.before.world := by
  induction h with
  | rest _ => exact fun _ member => nomatch member
  | next begun genuine _ ih =>
    have here := quiet _ _ begun start
    exact List.forall_mem_cons.mpr ⟨here, ih (kept _ genuine here)⟩

end Linked

namespace Action

/-- The episodes of an action repeated as long as it succeeds and the pointer lives. -/
def repeated (action : Action Unit) (entries : Focus → List Episode) : Nat → Focus → List Episode
  | 0, _ => []
  | n + 1, f =>
    entries f ++
      match action f with
      | (.ok (), g) => if g.pointer.alive then repeated action entries n g else []
      | (.error _, _) => []

/-- The episodes of an iteration. -/
def iterated (execution : Cell → Action Unit) (entries : Cell → Focus → List Episode)
    (f : Focus) : List Episode :=
  let n := f.pointer.pop.1
  let g := { f with pointer := f.pointer.pop.2 }
  if n ≤ 0 then []
  else
    match g.pointer.nextPosition g.world.space with
    | .error _ => []
    | .ok target =>
      match g.world.space.get target with
      | .error _ => []
      | .ok code => repeated (execution code) (entries code) n.toCount g

/-- The episodes of the execution of a code. -/
def episodes : Nat → Cell → Focus → List Episode
  | 0, _, _ => []
  | depth + 1, code, f =>
    match f.world.instruction? f.pointer code with
    | .ok (some i) =>
      if i = .iterate then iterated (execute depth) (episodes depth) f
      else [.of i (iterate (execute depth)) f]
    | _ => []

section Linking

variable {Q : World → World → Prop} (idle : Idle Q)

include idle

theorem linked_repeated {action : Action Unit} {entries : Focus → List Episode}
    (h : ∀ f, Linked Q f.world (entries f) (action f).2.world) (n : Nat) (f : Focus) :
    Linked Q f.world (repeated action entries n f) (repeatAlive action n f).2.world := by
  induction n generalizing f with
  | zero => exact .rest (idle.refl f.world)
  | succ n ih =>
    have one := h f
    rw [repeated]
    rcases run : action f with ⟨result, g⟩
    rw [run] at one
    cases result with
    | error e =>
      rw [repeatAlive_of_error n run]
      simpa using one
    | ok x =>
      rw [repeatAlive_of_ok n run]
      by_cases alive : g.pointer.alive = true
      · simp only [if_pos alive]
        exact one.append idle (ih g)
      · simp only [if_neg alive, List.append_nil]
        exact one

theorem linked_iterated {execution : Cell → Action Unit} {entries : Cell → Focus → List Episode}
    (h : ∀ code f, Linked Q f.world (entries code f) (execution code f).2.world) (f : Focus) :
    Linked Q f.world (iterated execution entries f) (iterate execution f).2.world := by
  have moved (target : Vec) (g : Focus) : Q g.world (moveTo target g).2.world :=
    idle.touched (touches_moveTo (by decide) target) g
  have counted : Q f.world ({ f with pointer := f.pointer.pop.2 } : Focus).world :=
    idle.touched (touches_pop (by decide)) f
  rw [run_iterate]
  simp only [iterated]
  generalize f.pointer.pop.1 = n
  cases f.pointer.pop.2.nextPosition f.world.space with
  | error e => simpa using Linked.rest counted
  | ok target =>
    by_cases zero : n = 0
    · simpa [zero] using Linked.rest (idle.trans _ _ _ counted (moved target _))
    by_cases negative : n < 0
    · simpa [zero, negative, Int64.le_of_lt negative] using Linked.rest counted
    have positive : ¬ n ≤ 0 := fun low => negative (Int64.lt_of_le_of_ne low zero)
    simp only [if_neg zero, if_neg negative, if_neg positive]
    cases f.world.space.get target with
    | error e => exact .rest counted
    | ok code =>
      have turns := linked_repeated idle (h code) n.toCount { f with pointer := f.pointer.pop.2 }
      rcases ran : repeatAlive (execution code) n.toCount { f with pointer := f.pointer.pop.2 }
        with ⟨result, k⟩
      rw [ran] at turns
      simp only [ran]
      cases result with
      | error e => exact turns
      | ok x =>
        cases x
        dsimp only
        split
        · exact turns.before idle (moved target k)
        · exact turns

/-- The episodes of an execution link the worlds before and after it. -/
theorem linked_execute (depth : Nat) (code : Cell) (f : Focus) :
    Linked Q f.world (episodes depth code f) (execute depth code f).2.world := by
  induction depth generalizing code f with
  | zero => exact .rest (idle.refl f.world)
  | succ depth ih =>
    rw [execute, episodes]
    have resolved : resolve code f = attempt id (f.world.instruction? f.pointer code) f := rfl
    cases known : f.world.instruction? f.pointer code with
    | error e =>
      rw [known] at resolved
      rw [run_bind_error resolved]
      exact .rest (idle.refl f.world)
    | ok found =>
      rw [known] at resolved
      rw [run_bind_ok resolved]
      cases found with
      | none => exact .rest (idle.touched (touches_unknown (by decide) code) f)
      | some i =>
        by_cases single : i = .iterate
        · subst single
          exact linked_iterated idle ih f
        · simp only [if_neg single]
          exact .next (idle.refl f.world) (Episode.genuine_of single _ f) (.rest (idle.refl _))

end Linking

end Action

namespace Focus

/-- The episodes of a step. In string mode there are none. -/
def episodes (f : Focus) : List Episode :=
  match f.world.space.get f.pointer.position with
  | .error _ => []
  | .ok cell =>
    if f.pointer.flags.string then []
    else
      Action.episodes Action.maxNesting cell
        (f.note (.executed f.pointer.id f.pointer.position cell))

/-- The episodes of a step link the worlds before and after it. -/
theorem linked_step {Q : World → World → Prop} (idle : Idle Q) (f : Focus) :
    Linked Q f.world f.episodes f.step.2.world := by
  have noted (g : Focus) (e : Event) : Q g.world (g.note e).world :=
    idle.touched (Action.touches_note (by decide) e) g
  have advanced (g : Focus) : Q g.world g.advance.2.world := idle.motion _ _ g.differs_advance
  unfold step episodes
  cases f.world.space.get f.pointer.position with
  | error e => exact .rest (idle.refl f.world)
  | ok cell =>
    dsimp only
    by_cases string : f.pointer.flags.string = true
    · rw [if_pos string, if_pos string]
      exact .rest (idle.trans _ _ _ (idle.motion _ _ (f.differs_spell cell)) (advanced _))
    · rw [if_neg string, if_neg string]
      have started := noted f (.executed f.pointer.id f.pointer.position cell)
      have linked := (Action.linked_execute idle Action.maxNesting cell _).after idle started
      rw [← Focus.execute] at linked
      split
      · rename_i g ran
        rw [ran] at linked
        exact linked.before idle (advanced g)
      · rename_i e g ran
        rw [ran] at linked
        exact linked
      · rename_i e g _ ran
        rw [ran] at linked
        have failed := noted g (.reflected g.pointer.id g.pointer.position cell e)
        exact (linked.before idle failed).before idle
          (advanced { g.note (.reflected g.pointer.id g.pointer.position cell e) with
            pointer := g.pointer.reflect })

end Focus

/-- The relation also leaves room for what the machine does outside of the steps: births and
removals are booked, pointers and programs are put in, and the surroundings change. -/
structure Housekeeping (Q : World → World → Prop) : Prop extends Idle Q where
  booked : ∀ (w : World) newborns nextId journal, Q w { w with newborns, nextId, journal }
  placed : ∀ (w : World) space, Q w { w with space }
  surrounded : ∀ (w : World) host, Q w { w with host }

namespace Machine

/-- The episodes of a pass over pointers. -/
def passEpisodes (w : World) : List Pointer → List Episode
  | [] => []
  | p :: ps =>
    if p.alive then
      Focus.episodes ⟨p, w⟩ ++
        match Focus.step ⟨p, w⟩ with
        | (.error _, _) => []
        | (.ok (), f) =>
          match f.pointer.quit with
          | some _ => []
          | none => passEpisodes f.world ps
    else passEpisodes w ps

/-- The episodes of a tick. -/
def tickEpisodes (m : Machine) : List Episode :=
  if m.hasQuit then [] else passEpisodes m.world m.pointers

/-- The episodes of a run with a bound on its ticks. -/
def runEpisodes : Nat → Machine → List Episode
  | 0, _ => []
  | bound + 1, m =>
    if m.finished || (m.world.settings.maxTicks.filter (· ≤ m.ticks)).isSome then []
    else
      m.tickEpisodes ++
        match m.tick with
        | (.error _, _) => []
        | (.ok (), m) => runEpisodes bound m

/-- What can be asked of a machine, and what can happen around it. -/
inductive Call where
  | load (source : List UInt8)
  | spawn
  | tick
  | run
  /-- The clock goes on, input arrives, output is taken away, files come and go. -/
  | surround (other : Host)

/-- The machine after a call, whether or not it fails. -/
def Call.apply (m : Machine) : Call → Machine
  | .load source => (m.load source).2
  | .spawn => m.spawn.2
  | .tick => m.tick.2
  | .run => m.run.2
  | .surround other => { m with world := { m.world with host := other } }

def Call.episodes (m : Machine) : Call → List Episode
  | .tick => m.tickEpisodes
  | .run => runEpisodes maxRun m
  | .load _ | .spawn | .surround _ => []

/-- The episodes of a sequence of calls. -/
def chronicle (m : Machine) : List Call → List Episode
  | [] => []
  | call :: calls => call.episodes m ++ chronicle (call.apply m) calls

section Linking

variable {Q : World → World → Prop}

theorem linked_stepAll (idle : Idle Q) (w : World) (ps : List Pointer) :
    Linked Q w (passEpisodes w ps) (stepAll w ps).2.2 := by
  induction ps generalizing w with
  | nil => exact .rest (idle.refl w)
  | cons p ps ih =>
    unfold stepAll passEpisodes
    by_cases alive : p.alive = true
    · rw [if_pos alive, if_pos alive]
      have linked := Focus.linked_step idle ⟨p, w⟩
      rcases stepped : Focus.step ⟨p, w⟩ with ⟨result, f⟩
      rw [stepped] at linked
      cases result with
      | error e => simpa using linked
      | ok x =>
        dsimp only
        cases f.pointer.quit with
        | some code => simpa using linked
        | none => exact linked.append idle (ih f.world)
    · rw [if_neg alive, if_neg alive]
      exact ih w

theorem linked_tick (house : Housekeeping Q) (m : Machine) :
    Linked Q m.world m.tickEpisodes m.tick.2.world := by
  unfold tickEpisodes
  by_cases going : m.exit = none
  · have linked := linked_stepAll house.toIdle m.world m.pointers
    have awake : m.hasQuit = false := by simp [hasQuit, going]
    rw [awake]
    rcases tick_cases going with ⟨e, ps, w, passed, ticked⟩ |
      ⟨id, code, ps, w, journal, passed, ticked⟩ | ⟨ps, w, journal, passed, ticked⟩
    · rw [passed] at linked
      rw [ticked]
      exact linked
    · rw [passed] at linked
      rw [ticked]
      exact linked.before house.toIdle (house.booked w #[] w.nextId journal)
    · rw [passed] at linked
      rw [ticked]
      exact linked.before house.toIdle (house.booked w #[] w.nextId journal)
  · have asleep : m.hasQuit = true := Option.isSome_iff_ne_none.mpr going
    rw [tick_of_quit going, if_pos asleep]
    exact .rest (house.refl m.world)

theorem linked_runFor (house : Housekeeping Q) (bound : Nat) (m : Machine) :
    Linked Q m.world (runEpisodes bound m) (runFor bound m).2.world := by
  induction bound generalizing m with
  | zero => exact .rest (house.refl m.world)
  | succ bound ih =>
    have linked := linked_tick house m
    unfold runEpisodes runFor turn
    by_cases done : m.finished = true
    · simpa [done] using Linked.rest (house.refl m.world)
    cases limited : m.world.settings.maxTicks.filter (· ≤ m.ticks) with
    | some limit => simpa [done] using Linked.rest (house.refl m.world)
    | none =>
      rcases ticked : m.tick with ⟨result, m'⟩
      rw [ticked] at linked
      cases result with
      | error e => simpa [done] using linked
      | ok x => simpa [done] using linked.append house.toIdle (ih m')

theorem quiet_spawn (house : Housekeeping Q) (m : Machine) : Q m.world m.spawn.2.world := by
  unfold spawn
  simp only
  split
  · exact house.booked m.world m.world.newborns _ m.world.journal
  · exact house.booked m.world m.world.newborns _ _

theorem quiet_load (house : Housekeeping Q) (m : Machine) (source : List UInt8) :
    Q m.world (m.load source).2.world := by
  have put := house.placed m.world (m.world.space.load 0 source false).2
  rw [load_eq]
  split
  · exact put
  · exact house.trans _ _ _ put (quiet_spawn house { m with
      world := { m.world with space := (m.world.space.load 0 source false).2 } })

/-- The chronicle links the worlds before and after the calls. -/
theorem linked_chronicle (house : Housekeeping Q) (m : Machine) (calls : List Call) :
    Linked Q m.world (m.chronicle calls) (calls.foldl Call.apply m).world := by
  induction calls generalizing m with
  | nil => exact .rest (house.refl m.world)
  | cons call calls ih =>
    have one : Linked Q m.world (call.episodes m) (call.apply m).world := by
      cases call with
      | load source => exact .rest (quiet_load house m source)
      | spawn => exact .rest (quiet_spawn house m)
      | tick => exact linked_tick house m
      | run => exact linked_runFor house maxRun m
      | surround other => exact .rest (house.surrounded m.world other)
    exact one.append house.toIdle (ih (call.apply m))

end Linking

end Machine

namespace Action

variable {dims : Nat}

theorem sound_repeated {action : Action Unit} {entries : Focus → List Episode}
    (safe : Safe true dims action fun _ => True)
    (h : ∀ f, f.Sound dims → ∀ e ∈ entries f, e.before.Sound dims) (n : Nat) {f : Focus}
    (sound : f.Sound dims) : ∀ e ∈ repeated action entries n f, e.before.Sound dims := by
  induction n generalizing f with
  | zero => exact fun _ member => nomatch member
  | succ n ih =>
    have ends := safe f sound
    rw [repeated]
    refine List.forall_mem_append.mpr ⟨h f sound, ?_⟩
    rcases run : action f with ⟨result, g⟩
    rw [run] at ends
    cases result with
    | error e => exact fun _ member => nomatch member
    | ok x =>
      dsimp only
      split
      · exact ih ends.2
      · exact fun _ member => nomatch member

theorem sound_iterated {execution : Cell → Action Unit} {entries : Cell → Focus → List Episode}
    (safe : ∀ code, Safe true dims (execution code) fun _ => True)
    (h : ∀ code f, f.Sound dims → ∀ e ∈ entries code f, e.before.Sound dims) {f : Focus}
    (sound : f.Sound dims) : ∀ e ∈ iterated execution entries f, e.before.Sound dims := by
  have counted : ({ f with pointer := f.pointer.pop.2 } : Focus).Sound dims :=
    ⟨sound.pointer.setTop _, sound.world⟩
  simp only [iterated]
  split
  · exact fun _ member => nomatch member
  split
  · exact fun _ member => nomatch member
  split
  · exact fun _ member => nomatch member
  · exact sound_repeated (safe _) (h _) _ counted

/-- The episodes of an execution from a sound focus all start from sound foci. -/
theorem sound_episodes (depth : Nat) (code : Cell) {f : Focus} (sound : f.Sound dims) :
    ∀ e ∈ episodes depth code f, e.before.Sound dims := by
  induction depth generalizing code f with
  | zero => exact fun _ member => nomatch member
  | succ depth ih =>
    rw [episodes]
    split
    · split
      · exact sound_iterated (safe_execute depth) (fun code _ => ih code) sound
      · exact List.forall_mem_singleton.mpr sound
    · exact fun _ member => nomatch member

end Action

theorem Focus.Sound.episodes {dims : Nat} {f : Focus} (sound : f.Sound dims) :
    ∀ e ∈ f.episodes, e.before.Sound dims := by
  unfold Focus.episodes
  split
  · exact fun _ member => nomatch member
  split
  · exact fun _ member => nomatch member
  · exact Action.sound_episodes _ _ (sound.note _)

namespace Machine

theorem sound_passEpisodes {dims : Nat} {w : World} {ps : List Pointer} (world : w.Sound dims)
    (pointers : ∀ p ∈ ps, p.Sound dims) : ∀ e ∈ passEpisodes w ps, e.before.Sound dims := by
  induction ps generalizing w with
  | nil => exact fun _ member => nomatch member
  | cons p ps ih =>
    obtain ⟨first, others⟩ := List.forall_mem_cons.mp pointers
    have start : Focus.Sound dims ⟨p, w⟩ := ⟨first, world⟩
    have stepped := start.step.1
    rw [passEpisodes]
    split
    · refine List.forall_mem_append.mpr ⟨start.episodes, ?_⟩
      split
      · exact fun _ member => nomatch member
      · rename_i f ran
        rw [ran] at stepped
        split
        · exact fun _ member => nomatch member
        · exact ih stepped.world others
    · exact ih world others

variable {m : Machine}

theorem Sound.tickEpisodes (sound : m.Sound) :
    ∀ e ∈ m.tickEpisodes, ∃ dims, e.before.Sound dims := by
  unfold Machine.tickEpisodes
  split
  · exact fun _ member => nomatch member
  · exact fun e member => ⟨_, sound_passEpisodes sound.world sound.pointers e member⟩

theorem Sound.runEpisodes (sound : m.Sound) (bound : Nat) :
    ∀ e ∈ Machine.runEpisodes bound m, ∃ dims, e.before.Sound dims := by
  induction bound generalizing m with
  | zero => exact fun _ member => nomatch member
  | succ bound ih =>
    have after := sound.tick.1
    rw [Machine.runEpisodes]
    split
    · exact fun _ member => nomatch member
    · refine List.forall_mem_append.mpr ⟨sound.tickEpisodes, ?_⟩
      split
      · exact fun _ member => nomatch member
      · rename_i m' ticked
        rw [ticked] at after
        exact ih after

/-- A run keeps a machine sound, however it ends. -/
theorem Sound.ran (sound : m.Sound) (bound : Nat) : (Machine.runFor bound m).2.Sound := by
  induction bound generalizing m with
  | zero => exact sound
  | succ bound ih =>
    have after := sound.tick.1
    rcases turn_cases m with halted | ⟨limit, halted⟩ | ⟨e, m', ticked, halted⟩ | ⟨m', ticked, next⟩
    · simpa only [Machine.runFor, halted] using sound
    · simpa only [Machine.runFor, halted] using sound
    · rw [ticked] at after
      simpa only [Machine.runFor, halted] using after
    · rw [ticked] at after
      simpa only [Machine.runFor, next] using ih after

theorem Sound.apply (sound : m.Sound) (call : Call) : (call.apply m).Sound := by
  cases call with
  | load source => exact (sound.load source).1
  | spawn => exact sound.spawn.1
  | tick => exact sound.tick.1
  | run => exact sound.ran maxRun
  | surround other => exact ⟨{ sound.world with }, sound.pointers⟩

theorem Sound.chronicle (sound : m.Sound) (calls : List Call) :
    ∀ e ∈ m.chronicle calls, ∃ dims, e.before.Sound dims := by
  induction calls generalizing m with
  | nil => exact fun _ member => nomatch member
  | cons call calls ih =>
    refine List.forall_mem_append.mpr ⟨?_, ih (sound.apply call)⟩
    cases call with
    | tick => exact sound.tickEpisodes
    | run => exact sound.runEpisodes maxRun
    | load _ | spawn | surround _ => exact fun _ member => nomatch member

/-- The settings never change. -/
theorem settings_housekeeping : Housekeeping fun u v => v.settings = u.settings where
  trans _ _ _ first second := second.trans first
  motion _ _ h := congrArg (fun parts => parts.1.2.2) (h .setting (by decide))
  booked _ _ _ _ := rfl
  placed _ _ := rfl
  surrounded _ _ := rfl

/-- Whatever is called, each instruction starts from a sound focus, in as many dimensions as the
settings say. -/
theorem chronicle_sound (settings : Settings) (host : Host) (calls : List Call) :
    ∀ e ∈ (standard settings host).chronicle calls, e.before.Sound (max settings.dims 1) := by
  intro e member
  obtain ⟨dims, sound⟩ := (sound_standard settings host).chronicle calls e member
  have same : e.before.world.settings = settings := by
    refine (linked_chronicle settings_housekeeping (standard settings host) calls).invariant
      (P := (·.settings = settings)) rfl (fun _ _ quiet => quiet.trans) ?_ e member
    rintro e ⟨single, iteration, ran⟩ start
    have kept := Instruction.touches single iteration e.before .setting
      (Instruction.setting_not_mem_footprint _)
    rw [ran] at kept
    exact (congrArg (fun parts => parts.1.2.2) kept).trans start
  rw [← same, ← sound.world.chosen]
  exact sound

end Machine

end Funge
