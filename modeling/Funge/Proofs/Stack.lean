import Funge.Proofs.Vec
import Funge.StackStack
import Mathlib.Data.List.TakeDrop

/-!
# Stacks

Pops in a row give the cells of a stack in the order of popping, and a text is popped that way too.
Where pushes and pops work on the same end, what is pushed comes back in reverse. There is a top
stack as long as there is one at the start, whatever is done to the stacks.
-/

namespace Funge

namespace Stack

theorem length_popMany (s : Stack) (mode : Mode) (n : Nat) : (s.popMany mode n).1.length = n := by
  induction n generalizing s with
  | zero => rfl
  | succ n ih => simp [popMany, ih]

theorem fits_popVec (s : Stack) (dims : Nat) (mode : Mode) : (s.popVec dims mode).1.fits dims = true := by
  refine Vec.fits_ofList (Nat.le_of_eq ?_)
  rw [List.length_reverse, length_popMany]

theorem ofPopOrder_inPopOrder (s : Stack) (mode : Mode) : ofPopOrder mode (s.inPopOrder mode) = s := by
  unfold ofPopOrder inPopOrder
  split <;> simp

theorem pop_rest (s : Stack) (mode : Mode) :
    (s.pop mode).2 = ofPopOrder mode ((s.inPopOrder mode).drop 1) := by
  unfold pop ofPopOrder inPopOrder
  split <;> simp

theorem inPopOrder_ofPopOrder (mode : Mode) (cells : List Cell) :
    (ofPopOrder mode cells).inPopOrder mode = cells := by
  unfold ofPopOrder inPopOrder
  split <;> simp

theorem cells_ofPopOrder (mode : Mode) (cells : List Cell) :
    (ofPopOrder mode cells).cells = if mode.queue then cells.reverse else cells := by
  unfold ofPopOrder
  split <;> rfl

theorem popMany_rest (s : Stack) (mode : Mode) (n : Nat) :
    (s.popMany mode n).2 = ofPopOrder mode ((s.inPopOrder mode).drop n) := by
  induction n generalizing s with
  | zero => simp [popMany, ofPopOrder_inPopOrder]
  | succ n ih =>
    change ((s.pop mode).2.popMany mode n).2 = _
    rw [ih, pop_rest, inPopOrder_ofPopOrder, List.drop_drop, Nat.add_comm]

theorem pop_ofPopOrder (mode : Mode) (cells : List Cell) :
    (ofPopOrder mode cells).pop mode = (cells.headD 0, ofPopOrder mode cells.tail) := by
  unfold pop ofPopOrder
  cases cells <;> split <;> simp_all

theorem pop_cons (mode : Mode) (c : Cell) (cells : List Cell) :
    (ofPopOrder mode (c :: cells)).pop mode = (c, ofPopOrder mode cells) :=
  pop_ofPopOrder mode (c :: cells)

/-- Pops in a row give the cells in the order of popping, and zeros past the last one. -/
theorem popMany_ofPopOrder (mode : Mode) (cells : List Cell) (n : Nat) :
    (ofPopOrder mode cells).popMany mode n =
      (cells.take n ++ List.replicate (n - cells.length) 0, ofPopOrder mode (cells.drop n)) := by
  induction n generalizing cells with
  | zero => simp [popMany]
  | succ n ih =>
    simp only [popMany, pop_ofPopOrder, ih]
    cases cells with
    | nil => simp [List.replicate_succ]
    | cons c cs => simp

/-- Pops in a row off the top give the top cells, and zeros past the bottom. -/
theorem popMany_normal (s : Stack) (n : Nat) :
    s.popMany .normal n = (s.cells.take n ++ List.replicate (n - s.size) 0, ⟨s.cells.drop n⟩) :=
  popMany_ofPopOrder .normal s.cells n

/-- Where pushes and pops work on the same end, a cell that is pushed is the next to be popped. -/
theorem push_ofPopOrder {mode : Mode} (lifo : mode.invert = mode.queue) (cells : List Cell)
    (v : Cell) : (ofPopOrder mode cells).push v mode = ofPopOrder mode (v :: cells) := by
  unfold push ofPopOrder
  rw [lifo]
  split <;> simp

theorem pushMany_ofPopOrder {mode : Mode} (lifo : mode.invert = mode.queue) (cells : List Cell)
    (vs : List Cell) :
    (ofPopOrder mode cells).pushMany mode vs = ofPopOrder mode (vs.reverse ++ cells) := by
  induction vs generalizing cells with
  | nil => rfl
  | cons v vs ih =>
    have rest := ih (v :: cells)
    rw [← push_ofPopOrder lifo] at rest
    rw [List.reverse_cons, List.append_assoc]
    exact rest

/-- Pushes in a row put the last cell on top. -/
theorem pushMany_normal (s : Stack) (vs : List Cell) :
    s.pushMany .normal vs = ⟨vs.reverse ++ s.cells⟩ :=
  pushMany_ofPopOrder rfl s.cells vs

/-- Pushes in a row put all cells on one end. -/
theorem pushMany_eq (s : Stack) (mode : Mode) (vs : List Cell) :
    s.pushMany mode vs = ⟨if mode.invert then s.cells ++ vs else vs.reverse ++ s.cells⟩ := by
  induction vs generalizing s with
  | nil => simp [pushMany]
  | cons v vs ih =>
    change (s.push v mode).pushMany mode vs = _
    rw [ih, push]
    split <;> simp

/-- One stack is another one after some number of pops. -/
def Popped (mode : Mode) (s t : Stack) : Prop := ∃ n, t = (s.popMany mode n).2

namespace Popped

variable {mode : Mode} {s t u : Stack}

theorem refl (mode : Mode) (s : Stack) : Popped mode s s := ⟨0, rfl⟩

theorem trans (first : Popped mode s t) (second : Popped mode t u) : Popped mode s u := by
  obtain ⟨m, rfl⟩ := first
  obtain ⟨n, rfl⟩ := second
  refine ⟨m + n, ?_⟩
  rw [popMany_rest, popMany_rest, popMany_rest, inPopOrder_ofPopOrder, List.drop_drop]

theorem pop (mode : Mode) (s : Stack) : Popped mode s (s.pop mode).2 := ⟨1, rfl⟩

theorem popMany (mode : Mode) (s : Stack) (n : Nat) : Popped mode s (s.popMany mode n).2 := ⟨n, rfl⟩

/-- What lies below a text is what remains when its characters and the zero are popped. -/
theorem popText (mode : Mode) (s : Stack) : Popped mode s (s.popText mode).2 := by
  refine ⟨(s.inPopOrder mode).findIdx (fun c => !decide (c ≠ 0)) + 1, ?_⟩
  rw [popMany_rest]
  simp only [Stack.popText, List.span_eq_takeWhile_dropWhile, List.dropWhile_eq_drop_findIdx_not,
    List.drop_drop]

end Popped

end Stack

namespace StackStack

theorem setTop_ne_nil {ss : StackStack} (h : ss.stacks ≠ []) (s : Stack) :
    StackStack.stacks (ss.setTop s) ≠ [] := by
  unfold setTop
  split
  · exact h
  · exact List.cons_ne_nil _ _

theorem setSecond_ne_nil {ss : StackStack} (h : ss.stacks ≠ []) (s : Stack) :
    StackStack.stacks (ss.setSecond s) ≠ [] := by
  unfold setSecond
  split
  · exact List.cons_ne_nil _ _
  · exact h

@[simp] theorem second?_setTop (ss : StackStack) (s : Stack) : (ss.setTop s).second? = ss.second? := by
  obtain ⟨layers⟩ := ss
  cases layers <;> rfl

theorem eq_of_second? {ss : StackStack} {u : Stack} (h : ss.second? = some u) :
    ∃ t rest, ss = ⟨t :: u :: rest⟩ := by
  obtain ⟨layers⟩ := ss
  match layers, h with
  | t :: _ :: rest, rfl => exact ⟨t, rest, rfl⟩

theorem beginBlock_ne_nil {ss : StackStack} (h : ss.stacks ≠ []) (n : Cell) :
    (ss.beginBlock n).2.stacks ≠ [] := by
  simp only [beginBlock]
  split <;> split <;> simp [h]

theorem endBlock_ne_nil {ss : StackStack} (h : ss.stacks ≠ []) (n : Cell) :
    (ss.endBlock n).2.stacks ≠ [] := by
  simp only [endBlock]
  split
  · split
    · split <;> simp [h]
    · simp
  · exact h

theorem transfer_ne_nil {ss : StackStack} (h : ss.stacks ≠ []) (n : Cell) :
    (ss.transfer n).2.stacks ≠ [] := by
  simp only [transfer]
  split
  · split <;> split <;> simp [h]
  · exact h

/-- A refused change leaves the stacks as they are. -/
def Guarded (change : StackStack → Except StackError Unit × StackStack) : Prop :=
  ∀ ss e, (change ss).1 = .error e → (change ss).2 = ss

theorem guarded_beginBlock (n : Cell) : Guarded (·.beginBlock n) := by
  intro ss e
  simp only [beginBlock]
  split <;> split <;> simp

theorem guarded_transfer (n : Cell) : Guarded (·.transfer n) := by
  intro ss e
  simp only [transfer]
  split
  · split <;> split <;> simp
  · simp

/-- A block begins with a stack below the new one. -/
theorem beginBlock_second {ss : StackStack} {n : Cell} (h : ss.stacks ≠ [])
    (begun : (ss.beginBlock n).1 = .ok ()) : ∃ s, (ss.beginBlock n).2.second? = some s := by
  obtain ⟨layers⟩ := ss
  cases layers with
  | nil => exact absurd rfl h
  | cons t rest =>
    revert begun
    simp only [beginBlock]
    split <;> split <;> simp [second?, setTop]

/-- The end of a block is granted unless its count exceeds the top stack by more than the limit.
A negative count is granted in any case. -/
theorem endBlock_granted {n : Cell} {t : Stack} (small : ¬ maxFill < n.toCount - t.size) (u : Stack)
    (rest : List Stack) : ((⟨t :: u :: rest⟩ : StackStack).endBlock n).1 = .ok () := by
  by_cases positive : 0 ≤ n
  · have signed : 0 ≤ n.toInt := by
      have same := Int64.le_iff_toInt_le.mp positive
      simpa using same
    have enough : shortfall n t.size = .ok (n.toInt.natAbs - t.size) := by
      have count : n.toCount = n.toInt.natAbs := by
        unfold Cell.toCount
        omega
      rw [count] at small
      simp only [shortfall, if_neg small]
    simp [endBlock, positive, enough]
  · simp [endBlock, positive]

end StackStack

end Funge
