import Funge.Execution
import Funge.Proofs.Stack

/-!
# Reasoning about actions

An action takes a focus to a result and another focus, also when it fails. `Meets` is the triple
for that: from every focus with the precondition, a success ends in the postcondition for its
value and a failure in the one for its error. `Follows` says that an action moves the focus along
a relation, whatever its result. Both are proved along the binds of an action.
-/

namespace Funge

namespace Action

variable {α β : Type}

section Runs

@[simp] theorem run_pure (x : α) (f : Focus) : (pure x : Action α) f = (.ok x, f) := rfl

@[simp] theorem run_throw (e : OpError) (f : Focus) : (throw e : Action α) f = (.error e, f) := rfl

theorem run_bind (a : Action α) (k : α → Action β) (f : Focus) :
    (a >>= k) f =
      match a f with
      | (.ok x, f') => k x f'
      | (.error e, f') => (.error e, f') := by
  change ExceptT.bind a k f = _
  rcases h : a f with ⟨result, f'⟩
  cases result with
  | ok x =>
    simp only [ExceptT.bind, ExceptT.mk, ExceptT.bindCont, bind, StateT.bind, h]
  | error e =>
    simp only [ExceptT.bind, ExceptT.mk, ExceptT.bindCont, bind, StateT.bind, h]
    rfl

theorem run_bind_ok {a : Action α} {k : α → Action β} {f f' : Focus} {x : α}
    (h : a f = (.ok x, f')) : (a >>= k) f = k x f' := by
  rw [run_bind, h]

theorem run_bind_error {a : Action α} {k : α → Action β} {f f' : Focus} {e : OpError}
    (h : a f = (.error e, f')) : (a >>= k) f = (.error e, f') := by
  rw [run_bind, h]

theorem bind_ok {a : Action α} {k : α → Action β} {f h : Focus} {y : β}
    (run : (a >>= k) f = (.ok y, h)) : ∃ x g, a f = (.ok x, g) ∧ k x g = (.ok y, h) := by
  rcases first : a f with ⟨result, g⟩
  cases result with
  | ok x =>
    rw [run_bind_ok first] at run
    exact ⟨x, g, rfl, run⟩
  | error e =>
    rw [run_bind_error first] at run
    cases run

@[simp] theorem run_pointer (f : Focus) : pointer f = (.ok f.pointer, f) := rfl

@[simp] theorem run_world (f : Focus) : world f = (.ok f.world, f) := rfl

@[simp] theorem run_modifyPointer (change : Pointer → Pointer) (f : Focus) :
    modifyPointer change f = (.ok (), { f with pointer := change f.pointer }) := rfl

@[simp] theorem run_modifyWorld (change : World → World) (f : Focus) :
    modifyWorld change f = (.ok (), { f with world := change f.world }) := rfl

@[simp] theorem run_note (e : Event) (f : Focus) : note e f = (.ok (), f.note e) := rfl

@[simp] theorem run_draw (take : Pointer → α × Pointer) (f : Focus) :
    draw take f = (.ok (take f.pointer).1, { f with pointer := (take f.pointer).2 }) := rfl

@[simp] theorem run_nextId (f : Focus) :
    nextId f =
      (.ok f.world.nextId, { f with world := { f.world with nextId := f.world.nextId + 1 } }) := rfl

@[simp] theorem run_attempt_ok {ε : Type} (failure : ε → OpError) (x : α) (f : Focus) :
    attempt failure (.ok x) f = (.ok x, f) := rfl

@[simp] theorem run_attempt_error {ε : Type} (failure : ε → OpError) (e : ε) (f : Focus) :
    (attempt failure (.error e) : Action α) f = (.error (failure e), f) := rfl

theorem run_second {f : Focus} {s : Stack} (h : f.pointer.stacks.second? = some s) :
    second f = (.ok s, f) := by
  simp [second, run_bind, h]

theorem run_second_none {f : Focus} (h : f.pointer.stacks.second? = none) :
    second f = (.error .noSecondStack, f) := by
  simp [second, run_bind, h]

theorem second_ok {f g : Focus} {u : Stack} (run : second f = (.ok u, g)) :
    f.pointer.stacks.second? = some u ∧ g = f := by
  cases found : f.pointer.stacks.second? with
  | none =>
    rw [run_second_none found] at run
    cases run
  | some s =>
    rw [run_second found] at run
    cases run
    exact ⟨rfl, rfl⟩

theorem run_restack_ok {change : StackStack → Except StackError Unit × StackStack} {f : Focus}
    (granted : (change f.pointer.stacks).1 = .ok ()) :
    restack change f =
      (.ok (), { f with pointer := f.pointer.setStacks (change f.pointer.stacks).2 }) := by
  simp [restack, run_bind, granted]

/-- A refused change of the stacks leaves no trace. -/
theorem run_restack_error {change : StackStack → Except StackError Unit × StackStack} {f : Focus}
    {e : StackError} (guarded : StackStack.Guarded change)
    (refused : (change f.pointer.stacks).1 = .error e) :
    restack change f = (.error (.ofStack e), f) := by
  simp [restack, run_bind, refused, guarded f.pointer.stacks e refused, Pointer.setStacks]

theorem restack_ok {change : StackStack → Except StackError Unit × StackStack} {f g : Focus}
    {x : Unit} (run : restack change f = (.ok x, g)) :
    (change f.pointer.stacks).1 = .ok () ∧
      g = { f with pointer := f.pointer.setStacks (change f.pointer.stacks).2 } := by
  cases result : (change f.pointer.stacks).1 with
  | ok _ =>
    rw [run_restack_ok result] at run
    cases run
    exact ⟨rfl, rfl⟩
  | error e =>
    simp only [restack, run_bind, run_pointer, run_modifyPointer, result, run_attempt_error] at run
    cases run

theorem repeatAlive_of_error {a : Action Unit} {f f' : Focus} {e : OpError} (n : Nat)
    (h : a f = (.error e, f')) : repeatAlive a (n + 1) f = (.error e, f') := by
  rw [repeatAlive, h]

theorem repeatAlive_of_ok {a : Action Unit} {f f' : Focus} {x : Unit} (n : Nat)
    (h : a f = (.ok x, f')) :
    repeatAlive a (n + 1) f = if f'.pointer.alive then repeatAlive a n f' else (.ok (), f') := by
  rw [repeatAlive, h]

/-- What an iteration does: it takes a count, looks for the next instruction, repeats it, and
moves past it unless that has moved the pointer. -/
theorem run_iterate (execution : Cell → Action Unit) (f : Focus) :
    let n := f.pointer.pop.1
    let g := { f with pointer := f.pointer.pop.2 }
    iterate execution f =
      match g.pointer.nextPosition g.world.space with
      | .error e => (.error (.fatal e), g)
      | .ok target =>
        if n = 0 then moveTo target g
        else if n < 0 then (.error (.invalidArgument n), g)
        else
          match g.world.space.get target with
          | .error e => (.error (.ofSpace e), g)
          | .ok code =>
            match repeatAlive (execution code) n.toCount g with
            | (.error e, h) => (.error e, h)
            | (.ok (), h) =>
              if h.pointer.alive ∧ h.pointer.position = g.pointer.position then moveTo target h
              else (.ok (), h) := by
  intro n g
  have popped : pop f = (.ok n, g) := rfl
  rw [iterate, run_bind_ok popped, run_bind_ok (run_pointer g), run_bind_ok (run_world g)]
  cases found : g.pointer.nextPosition g.world.space with
  | error e => rfl
  | ok target =>
    rw [run_bind_ok (run_attempt_ok _ target g)]
    by_cases zero : n = 0
    · simp only [if_pos zero]
    by_cases negative : n < 0
    · simp only [if_neg zero, if_pos negative]
      rfl
    simp only [if_neg zero, if_neg negative]
    have read : readSpace target g = attempt .ofSpace (g.world.space.get target) g := rfl
    cases fetched : g.world.space.get target with
    | error e =>
      rw [fetched] at read
      rw [run_bind_error read]
    | ok code =>
      rw [fetched] at read
      rw [run_bind_ok read]
      rcases ran : repeatAlive (execution code) n.toCount g with ⟨result, h⟩
      cases result with
      | error e =>
        rw [run_bind_error ran]
        simp only [ran]
      | ok x =>
        rw [run_bind_ok ran, run_bind_ok (run_pointer h)]
        simp only [ran]
        split <;> rfl

end Runs

/-- The outcome of a run is a success in `Q` or a failure in `E`. -/
def Ends (Q : α → Focus → Prop) (E : OpError → Focus → Prop) : Except OpError α × Focus → Prop
  | (.ok x, f) => Q x f
  | (.error e, f) => E e f

/-- From every focus with `P`, the action succeeds into `Q` or fails into `E`. -/
def Meets (P : Focus → Prop) (a : Action α) (Q : α → Focus → Prop) (E : OpError → Focus → Prop) :
    Prop := ∀ f, P f → Ends Q E (a f)

namespace Meets

variable {P : Focus → Prop} {Q : α → Focus → Prop} {S : β → Focus → Prop}
  {E : OpError → Focus → Prop}

theorem bind {a : Action α} {k : α → Action β} (first : Meets P a Q E)
    (rest : ∀ x, Meets (Q x) (k x) S E) : Meets P (a >>= k) S E := by
  intro f hf
  have one := first f hf
  rcases run : a f with ⟨result, f'⟩
  rw [run] at one
  cases result with
  | ok x =>
    rw [run_bind_ok run]
    exact rest x f' one
  | error e =>
    rw [run_bind_error run]
    exact one

theorem mono {P' : Focus → Prop} {Q' : α → Focus → Prop} {E' : OpError → Focus → Prop}
    {a : Action α} (h : Meets P a Q E) (pre : ∀ f, P' f → P f) (post : ∀ x f, Q x f → Q' x f)
    (failed : ∀ e f, E e f → E' e f) : Meets P' a Q' E' := by
  intro f hf
  have ends := h f (pre f hf)
  rcases run : a f with ⟨result, f'⟩
  rw [run] at ends
  cases result with
  | ok x => exact post x f' ends
  | error e => exact failed e f' ends

theorem pure {x : α} (h : ∀ f, P f → Q x f) : Meets P (Pure.pure x) Q E := h

theorem throw {e : OpError} (h : ∀ f, P f → E e f) :
    Meets P (MonadExcept.throw e : Action α) Q E := h

theorem pointer {Q : Pointer → Focus → Prop} (h : ∀ f, P f → Q f.pointer f) :
    Meets P Action.pointer Q E := h

theorem world {Q : World → Focus → Prop} (h : ∀ f, P f → Q f.world f) :
    Meets P Action.world Q E := h

theorem modifyPointer {Q : Unit → Focus → Prop} {change : Pointer → Pointer}
    (h : ∀ f, P f → Q () { f with pointer := change f.pointer }) :
    Meets P (Action.modifyPointer change) Q E := h

theorem modifyWorld {Q : Unit → Focus → Prop} {change : World → World}
    (h : ∀ f, P f → Q () { f with world := change f.world }) :
    Meets P (Action.modifyWorld change) Q E := h

theorem note {Q : Unit → Focus → Prop} {e : Event} (h : ∀ f, P f → Q () (f.note e)) :
    Meets P (Action.note e) Q E := h

theorem draw {take : Pointer → α × Pointer}
    (h : ∀ f, P f → Q (take f.pointer).1 { f with pointer := (take f.pointer).2 }) :
    Meets P (Action.draw take) Q E := h

theorem attempt {ε : Type} {failure : ε → OpError} {result : Except ε α}
    (good : ∀ x, result = .ok x → ∀ f, P f → Q x f)
    (bad : ∀ e, result = .error e → ∀ f, P f → E (failure e) f) :
    Meets P (Action.attempt failure result) Q E := by
  cases result with
  | ok x => exact good x rfl
  | error e => exact bad e rfl

/-- An action repeated while it succeeds and the pointer lives ends as one turn does, if that
leaves live pointers as they may begin the next. -/
theorem repeatAlive_of {a : Action Unit} {Q : Focus → Prop} (h : Meets P a (fun _ => Q) E)
    (begun : ∀ f, P f → Q f) (living : ∀ f, Q f → f.pointer.alive = true → P f) (n : Nat) :
    Meets P (Action.repeatAlive a n : Action Unit) (fun _ => Q) E := by
  induction n with
  | zero => exact begun
  | succ n ih =>
    intro f hf
    have one := h f hf
    rcases run : a f with ⟨result, f'⟩
    rw [run] at one
    cases result with
    | error e =>
      rw [repeatAlive_of_error n run]
      exact one
    | ok x =>
      rw [repeatAlive_of_ok n run]
      by_cases alive : f'.pointer.alive = true
      · rw [if_pos alive]
        exact ih f' (living f' one alive)
      · rw [if_neg alive]
        exact one

/-- An action repeated while it succeeds and the pointer lives keeps what one turn keeps. -/
theorem repeatAlive {a : Action Unit} (h : Meets P a (fun _ => P) E) (n : Nat) :
    Meets P (Action.repeatAlive a n : Action Unit) (fun _ => P) E :=
  h.repeatAlive_of (fun _ kept => kept) (fun _ kept _ => kept) n

end Meets

/-- The action moves every focus along the relation, whatever its result. -/
def Follows (R : Focus → Focus → Prop) (a : Action α) : Prop := ∀ f, R f (a f).2

namespace Follows

variable {R : Focus → Focus → Prop}

/-- The rule for one focus: the first action may depend on what was read from it. -/
theorem bind_at (trans : ∀ f g h, R f g → R g h → R f h) {a : Action α} {k : α → Action β}
    {f : Focus} (first : R f (a f).2) (rest : ∀ x, Follows R (k x)) : R f ((a >>= k) f).2 := by
  rcases run : a f with ⟨result, f'⟩
  rw [run] at first
  cases result with
  | ok x =>
    rw [run_bind_ok run]
    exact trans f f' _ first (rest x f')
  | error e =>
    rw [run_bind_error run]
    exact first

theorem bind (trans : ∀ f g h, R f g → R g h → R f h) {a : Action α} {k : α → Action β}
    (first : Follows R a) (rest : ∀ x, Follows R (k x)) : Follows R (a >>= k) :=
  fun f => bind_at trans (first f) rest

/-- A failed attempt leaves the focus as it is. -/
theorem attempt_at (refl : ∀ f, R f f) {ε : Type} {failure : ε → OpError} {result : Except ε α}
    {k : α → Action β} {f : Focus} (rest : ∀ x, result = .ok x → R f (k x f).2) :
    R f ((Action.attempt failure result >>= k) f).2 := by
  cases result with
  | ok x => exact rest x rfl
  | error e => exact refl f

theorem pure (refl : ∀ f, R f f) (x : α) : Follows R (Pure.pure x : Action α) := fun f => refl f

theorem throw (refl : ∀ f, R f f) (e : OpError) :
    Follows R (MonadExcept.throw e : Action α) := fun f => refl f

theorem attempt (refl : ∀ f, R f f) {ε : Type} (failure : ε → OpError) (result : Except ε α) :
    Follows R (Action.attempt failure result) := by
  intro f
  cases result with
  | ok x => exact refl f
  | error e => exact refl f

/-- A check before an action leaves the focus as it is. -/
theorem guard (refl : ∀ f, R f f) (trans : ∀ f g h, R f g → R g h → R f h) {c : Prop} [Decidable c]
    {e : OpError} {k : Action β} (rest : Follows R k) :
    Follows R (if c then (MonadExcept.throw e : Action Unit) >>= fun _ => k else k) := by
  split
  · exact bind trans (throw refl e) fun _ => rest
  · exact rest

theorem repeatAlive (refl : ∀ f, R f f) (trans : ∀ f g h, R f g → R g h → R f h)
    {a : Action Unit} (h : Follows R a) (n : Nat) :
    Follows R (Action.repeatAlive a n : Action Unit) := by
  induction n with
  | zero => exact refl
  | succ n ih =>
    intro f
    have one := h f
    rcases run : a f with ⟨result, f'⟩
    rw [run] at one
    cases result with
    | error e =>
      rw [repeatAlive_of_error n run]
      exact one
    | ok x =>
      rw [repeatAlive_of_ok n run]
      by_cases alive : f'.pointer.alive = true
      · rw [if_pos alive]
        exact trans f f' _ one (ih f')
      · rw [if_neg alive]
        exact one

end Follows

end Action

end Funge
