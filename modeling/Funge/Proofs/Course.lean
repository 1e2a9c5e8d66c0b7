import Funge.Semantics.Course
import Funge.Semantics.Operand

/-!
# Operands and courses

An operand replaces the top stack and does nothing else. A course asks for a number of dimensions
and is refused without them; with them it always succeeds, with the effect given here.
-/

namespace Funge

namespace Pointer

@[simp] theorem setTop_setTop (p : Pointer) (s t : Stack) : (p.setTop s).setTop t = p.setTop t := by
  rcases p with ⟨id, dims, ⟨layers⟩⟩
  cases layers <;> rfl

@[simp] theorem setTop_top (p : Pointer) : p.setTop p.top = p := by
  rcases p with ⟨id, dims, ⟨layers⟩⟩
  cases layers <;> rfl

/-- A top stack is replaced, unless there is none. -/
theorem top_setTop (p : Pointer) (s : Stack) : (p.setTop s).top = s ∨ (p.setTop s).top = p.top := by
  rcases p with ⟨id, dims, ⟨layers⟩⟩
  cases layers with
  | nil => exact .inr rfl
  | cons t rest => exact .inl rfl

theorem top_setTop_of_stacked {p : Pointer} (stacked : p.stacks.stacks ≠ []) (s : Stack) :
    (p.setTop s).top = s := by
  rcases p with ⟨id, dims, ⟨layers⟩⟩
  cases layers with
  | nil => exact absurd rfl stacked
  | cons t rest => rfl

theorem setTop_pop (p : Pointer) (s : Stack) : p.pop.2.setTop s = p.setTop s := setTop_setTop p _ s

theorem pop_setTop {p : Pointer} (stacked : p.stacks.stacks ≠ []) (s : Stack) :
    (p.setTop s).pop = ((s.pop p.mode).1, p.setTop (s.pop p.mode).2) := by
  have mode : (p.setTop s).mode = p.mode := rfl
  simp only [pop, top_setTop_of_stacked stacked, mode, setTop_setTop]

/-- Two pointers that differ in their top stacks at most. -/
def Restacked (p q : Pointer) : Prop := ∃ s, q = p.setTop s

namespace Restacked

variable {p q : Pointer}

theorem refl (p : Pointer) : p.Restacked p := ⟨p.top, (setTop_top p).symm⟩

theorem setTop (h : p.Restacked q) (s : Stack) : p.Restacked (q.setTop s) := by
  obtain ⟨t, rfl⟩ := h
  exact ⟨s, setTop_setTop p t s⟩

theorem pop (h : p.Restacked q) : p.Restacked q.pop.2 := h.setTop _

theorem push (h : p.Restacked q) (v : Cell) : p.Restacked (q.push v) := h.setTop _

end Restacked

end Pointer

theorem Operand.restacks (o : Operand) (p : Pointer) : p.Restacked (o.apply p) := by
  have same := Pointer.Restacked.refl p
  cases o with
  | literal v => exact same.push v
  | binary op => exact same.pop.pop.push _
  | logicalNot => exact same.pop.push _
  | complement => exact same.pop.push _
  | duplicate => exact (same.pop.push _).push _
  | swap => exact (same.pop.pop.push _).push _
  | discard => exact same.pop
  | clear => exact same.setTop _

namespace Course

/-- Number of dimensions that a course asks for. -/
def needed : Course → Nat
  | .head axis _ => axis + 1
  | .branch axis => axis + 1
  | .compare => 2
  | _ => 0

/-- The pointer on its new course, if it has the dimensions for it. -/
def effect (c : Course) (p : Pointer) : Pointer :=
  match c with
  | .nop => p
  | .head axis forward => p.go (Vec.unit axis (if forward then 1 else -1))
  | .branch axis => p.pop.2.go (Vec.unit axis (if p.pop.1 = 0 then 1 else -1))
  | .compare =>
    let b := p.pop
    let a := b.2.pop
    if a.1 = b.1 then a.2 else a.2.turn (a.1 < b.1)
  | .reflect => p.reflect
  | .absolute => { p.popVec.2 with delta := p.popVec.1 }
  | .raise flag => { p with flags := p.flags.set flag true }
  | .toggle flag => { p with flags := p.flags.set flag (!p.flags.get flag) }

theorem apply_eq (c : Course) (p : Pointer) :
    c.apply p =
      if p.dims < c.needed then .error (.dimensions c.needed p.dims) else .ok (c.effect p) := by
  cases c with
  | head axis forward =>
    by_cases small : p.dims < axis + 1 <;>
      simp [Course.apply, Pointer.requireDims, needed, effect, small, bind, Except.bind, pure,
        Except.pure]
  | branch axis =>
    by_cases small : p.dims < axis + 1 <;>
      simp [Course.apply, Pointer.requireDims, needed, effect, small, bind, Except.bind, pure,
        Except.pure]
  | compare =>
    by_cases small : p.dims < 2 <;>
      simp [Course.apply, Pointer.requireDims, needed, effect, small, bind, Except.bind, pure,
        Except.pure]
  | nop | reflect | absolute | raise flag | toggle flag => simp [Course.apply, needed, effect]

end Course

end Funge
