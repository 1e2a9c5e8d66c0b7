import Funge.Proofs.Action
import Funge.Proofs.Stack

/-!
# Transfers cell by cell

Beginning a block, ending one and transferring cells each move a whole run of cells. The stacks
come out as if every cell were popped and pushed by itself: in the order in which the cells lay
for a block, and in the order in which they came off for a transfer. An operation is refused for
want of a second stack or because too many zeros would be made up, and in no other case; then no
stack changes.
-/

namespace Funge

/-- How many of `n` pops in a row find the stack empty and make up a zero. -/
def Stack.dryPops (s : Stack) : Nat → Nat
  | 0 => 0
  | n + 1 => (if s.isEmpty then 1 else 0) + (s.pop .normal).2.dryPops n

theorem Stack.dryPops_eq (s : Stack) (n : Nat) : s.dryPops n = n - s.size := by
  induction n generalizing s with
  | zero => simp [dryPops]
  | succ n ih =>
    have first : (s.pop .normal).2 = ⟨s.cells.tail⟩ := rfl
    simp only [dryPops, first, ih, size, isEmpty]
    obtain ⟨cells⟩ := s
    cases cells with
    | nil => simp; omega
    | cons c cs => simp

namespace StackStack

/-- The operations that move cells from stack to stack. -/
inductive Operation where
  | beginBlock
  | endBlock
  | transfer
deriving DecidableEq

namespace Operation

/-- The operation on all of its cells at once. -/
def apply : Operation → StackStack → Cell → Except StackError Unit × StackStack
  | .beginBlock => StackStack.beginBlock
  | .endBlock => StackStack.endBlock
  | .transfer => StackStack.transfer

/-- The instruction that takes a count and performs the operation. -/
def action : Operation → Action Unit
  | .beginBlock => Action.beginBlock
  | .endBlock => Action.endBlock
  | .transfer => Action.transfer

/-- The stacks after the operation when its cells are popped one by one and pushed one by one. -/
def singly (n : Cell) : Operation → List Stack → List Stack
  | .beginBlock, t :: rest =>
    let popped := t.popMany .normal n.toInt.natAbs
    if 0 ≤ n then Stack.empty.pushMany .normal popped.1.reverse :: popped.2 :: rest
    else .empty :: t.pushMany .normal (List.replicate n.toInt.natAbs 0) :: rest
  | .endBlock, t :: u :: rest =>
    if 0 ≤ n then u.pushMany .normal (t.popMany .normal n.toInt.natAbs).1.reverse :: rest
    else (u.popMany .normal n.toInt.natAbs).2 :: rest
  | .transfer, t :: u :: rest =>
    if 0 ≤ n then
      let popped := u.popMany .normal n.toInt.natAbs
      t.pushMany .normal popped.1 :: popped.2 :: rest
    else
      let popped := t.popMany .normal n.toInt.natAbs
      popped.2 :: u.pushMany .normal popped.1 :: rest
  | _, layers => layers

/-- Number of zeros that these pops and pushes make up. Cells that are dropped need none. -/
def madeUp (n : Cell) : Operation → List Stack → Nat
  | .beginBlock, t :: _ => if 0 ≤ n then t.dryPops n.toInt.natAbs else n.toInt.natAbs
  | .endBlock, t :: _ :: _ => if 0 ≤ n then t.dryPops n.toInt.natAbs else 0
  | .transfer, t :: u :: _ => (if 0 ≤ n then u else t).dryPops n.toInt.natAbs
  | _, _ => 0

end Operation

theorem beginBlock_eq (t : Stack) (rest : List Stack) (n : Cell) :
    (⟨t :: rest⟩ : StackStack).beginBlock n =
      if maxFill < Operation.madeUp n .beginBlock (t :: rest) then (.error (.tooLarge n), ⟨t :: rest⟩)
      else (.ok (), ⟨Operation.singly n .beginBlock (t :: rest)⟩) := by
  by_cases positive : 0 ≤ n
  · simp only [beginBlock, Operation.madeUp, Operation.singly, if_pos positive, shortfall,
      Stack.dryPops_eq, Stack.popMany_normal, Stack.pushMany_normal, top, List.headD_cons, Stack.size]
    by_cases large : maxFill < n.toInt.natAbs - t.cells.length <;> simp [large, setTop, Stack.empty]
  · simp only [beginBlock, Operation.madeUp, Operation.singly, if_neg positive, shortfall,
      Stack.pushMany_normal, Nat.sub_zero, top, List.headD_cons]
    by_cases large : maxFill < n.toInt.natAbs <;> simp [large, setTop]

theorem endBlock_eq (t u : Stack) (rest : List Stack) (n : Cell) :
    (⟨t :: u :: rest⟩ : StackStack).endBlock n =
      if maxFill < Operation.madeUp n .endBlock (t :: u :: rest) then
        (.error (.tooLarge n), ⟨t :: u :: rest⟩)
      else (.ok (), ⟨Operation.singly n .endBlock (t :: u :: rest)⟩) := by
  by_cases positive : 0 ≤ n
  · simp only [endBlock, Operation.madeUp, Operation.singly, if_pos positive, shortfall,
      Stack.dryPops_eq, Stack.popMany_normal, Stack.pushMany_normal]
    by_cases large : maxFill < n.toInt.natAbs - t.size <;> simp [large]
  · simp [endBlock, Operation.madeUp, Operation.singly, positive, Stack.popMany_normal]

theorem transfer_eq (t u : Stack) (rest : List Stack) (n : Cell) :
    (⟨t :: u :: rest⟩ : StackStack).transfer n =
      if maxFill < Operation.madeUp n .transfer (t :: u :: rest) then
        (.error (.tooLarge n), ⟨t :: u :: rest⟩)
      else (.ok (), ⟨Operation.singly n .transfer (t :: u :: rest)⟩) := by
  by_cases positive : 0 ≤ n
  · simp only [transfer, Operation.madeUp, Operation.singly, if_pos positive, shortfall,
      Stack.dryPops_eq, Stack.popMany_normal, Stack.pushMany_normal]
    by_cases large : maxFill < n.toInt.natAbs - u.size <;> simp [large, pour]
  · simp only [transfer, Operation.madeUp, Operation.singly, if_neg positive, shortfall,
      Stack.dryPops_eq, Stack.popMany_normal, Stack.pushMany_normal]
    by_cases large : maxFill < n.toInt.natAbs - t.size <;> simp [large, pour]

/-- An operation that needs a second stack is refused without one. -/
theorem apply_of_second?_eq_none {ss : StackStack} (h : ss.second? = none) {o : Operation}
    (needs : o ≠ .beginBlock) (n : Cell) : o.apply ss n = (.error .noSecondStack, ss) := by
  obtain ⟨layers⟩ := ss
  match layers, o with
  | _, .beginBlock => exact absurd rfl needs
  | [], .endBlock | [], .transfer | [_], .endBlock | [_], .transfer => rfl
  | _ :: _ :: _, .endBlock | _ :: _ :: _, .transfer => cases h

theorem Operation.apply_eq (o : Operation) {ss : StackStack} (stacked : 0 < ss.depth) (n : Cell) :
    o.apply ss n =
      if o ≠ .beginBlock ∧ ss.depth = 1 then (.error .noSecondStack, ss)
      else if maxFill < o.madeUp n ss.stacks then (.error (.tooLarge n), ss)
      else (.ok (), ⟨o.singly n ss.stacks⟩) := by
  obtain ⟨layers⟩ := ss
  match layers, o with
  | [], _ => cases stacked
  | t :: rest, .beginBlock => simpa [Operation.apply] using beginBlock_eq t rest n
  | [t], .endBlock | [t], .transfer => rfl
  | t :: u :: rest, .endBlock => simpa [Operation.apply, depth] using endBlock_eq t u rest n
  | t :: u :: rest, .transfer => simpa [Operation.apply, depth] using transfer_eq t u rest n

theorem Operation.apply_granted {o : Operation} {ss : StackStack} {n : Cell} (stacked : 0 < ss.depth)
    (granted : (o.apply ss n).1 = .ok ()) : (o.apply ss n).2 = ⟨o.singly n ss.stacks⟩ := by
  rw [o.apply_eq stacked n] at granted ⊢
  split at granted
  · cases granted
  split at granted
  · cases granted
  · rename_i several small
    rw [if_neg several, if_neg small]

theorem second?_pop (p : Pointer) : p.pop.2.stacks.second? = p.stacks.second? :=
  second?_setTop p.stacks _

/-- Without a second stack there is no other reason to refuse. -/
theorem Operation.error_of_second?_eq_none {o : Operation} {p : Pointer} {e : StackError}
    (below : p.stacks.second? = none) (needs : o ≠ .beginBlock)
    (refused : (o.apply p.pop.2.stacks p.pop.1).1 = .error e) : e = .noSecondStack := by
  rw [apply_of_second?_eq_none ((second?_pop p).trans below) needs] at refused
  exact (Except.error.inj refused).symm

/-- The end of a block looks at its count before it takes the saved offset, and its check is the
one that the operation makes. -/
theorem endBlock_action_refused {f : Focus} {e : StackError}
    (refused : (f.pointer.pop.2.stacks.endBlock f.pointer.pop.1).1 = .error e) :
    ∃ g, Action.endBlock f = (.error (.ofStack e), g) ∧
      (g = f ∨ g = { f with pointer := f.pointer.pop.2 }) := by
  cases below : f.pointer.stacks.second? with
  | none =>
    obtain rfl := Operation.error_of_second?_eq_none (o := .endBlock) below (by decide) refused
    exact ⟨f, Action.run_bind_error (Action.run_second_none below), .inl rfl⟩
  | some u =>
    obtain ⟨t, rest, shape⟩ := eq_of_second? ((second?_pop f.pointer).trans below)
    have top : f.pointer.pop.2.top = t := by simp [Pointer.top, StackStack.top, shape]
    rw [shape, endBlock_eq] at refused
    split at refused
    · rename_i large
      cases refused
      have positive : 0 ≤ f.pointer.pop.1 := by
        by_contra negative
        simp [Operation.madeUp, negative] at large
      have signed : 0 ≤ f.pointer.pop.1.toInt := by
        simpa using Int64.le_iff_toInt_le.mp positive
      simp only [Operation.madeUp, if_pos positive, Stack.dryPops_eq] at large
      have excess : maxFill < f.pointer.pop.1.toCount - f.pointer.pop.2.top.size := by
        rw [top, Cell.toCount]
        omega
      refine ⟨{ f with pointer := f.pointer.pop.2 }, ?_, .inr rfl⟩
      have popped : Action.pop f =
          (.ok f.pointer.pop.1, { f with pointer := f.pointer.pop.2 }) := rfl
      rw [Action.endBlock, Action.run_bind_ok (Action.run_second below), Action.run_bind_ok popped,
        Action.run_bind_ok (Action.run_pointer _), if_pos excess]
      rfl
    · cases refused

/-- An instruction whose operation is refused fails for the same reason and keeps all stacks, except
that it may have taken its count. -/
theorem Operation.action_refused (o : Operation) {f : Focus} {e : StackError}
    (refused : (o.apply f.pointer.pop.2.stacks f.pointer.pop.1).1 = .error e) :
    ∃ g, o.action f = (.error (.ofStack e), g) ∧
      (g = f ∨ g = { f with pointer := f.pointer.pop.2 }) := by
  have popped : Action.pop f = (.ok f.pointer.pop.1, { f with pointer := f.pointer.pop.2 }) := rfl
  cases o with
  | beginBlock =>
    have unmoved := Action.run_restack_error (f := { f with pointer := f.pointer.pop.2 })
      (guarded_beginBlock f.pointer.pop.1) refused
    refine ⟨_, ?_, .inr rfl⟩
    rw [action, Action.beginBlock, Action.run_bind_ok popped, Action.run_bind_error unmoved]
  | endBlock => exact endBlock_action_refused refused
  | transfer =>
    cases below : f.pointer.stacks.second? with
    | none =>
      obtain rfl := Operation.error_of_second?_eq_none (o := .transfer) below (by decide) refused
      exact ⟨f, Action.run_bind_error (Action.run_second_none below), .inl rfl⟩
    | some u =>
      have unmoved := Action.run_restack_error (f := { f with pointer := f.pointer.pop.2 })
        (guarded_transfer f.pointer.pop.1) refused
      refine ⟨_, ?_, .inr rfl⟩
      rw [action, Action.transfer, Action.run_bind_ok (Action.run_second below),
        Action.run_bind_ok popped, unmoved]

/-- Each operation is refused exactly when it needs a second stack and there is none, or when more
zeros than the limit would be made up, and then no stack changes; otherwise it gives the stacks that
moves of single cells give. An instruction whose operation is refused changes no stack beyond taking
its count. -/
theorem operations_move_single_cells (o : Operation) (ss : StackStack) (stacked : 0 < ss.depth)
    (n : Cell) :
    o.apply ss n =
      (if o ≠ .beginBlock ∧ ss.depth = 1 then (.error .noSecondStack, ss)
      else if maxFill < o.madeUp n ss.stacks then (.error (.tooLarge n), ss)
      else (.ok (), ⟨o.singly n ss.stacks⟩)) ∧
    ∀ (f : Focus) (e : StackError),
      (o.apply f.pointer.pop.2.stacks f.pointer.pop.1).1 = .error e →
      ∃ g, o.action f = (.error (.ofStack e), g) ∧
        (g = f ∨ g = { f with pointer := f.pointer.pop.2 }) := by
  exact ⟨o.apply_eq stacked n, fun f e => o.action_refused⟩

/-- Three cells go down from a stack of two, so a zero comes after them. -/
theorem transfer_singly_below :
    Operation.apply .transfer ⟨[⟨[7, 8]⟩, ⟨[9]⟩]⟩ (-3) = (.ok (), ⟨[⟨[]⟩, ⟨[0, 8, 7, 9]⟩]⟩) := by
  have moved := (operations_move_single_cells .transfer ⟨[⟨[7, 8]⟩, ⟨[9]⟩]⟩ (by decide) (-3)).1
  rw [moved]
  decide

end StackStack

end Funge
