import Funge.Pointer.Basic

/-!
# Operands

Arithmetic, comparison, logic and rearrangement of the top stack.
-/

namespace Funge

/-- The value of an operator; `b` is the cell popped first. -/
def BinaryOp.eval (op : BinaryOp) (a b : Cell) : Cell :=
  match op with
  | .add => a + b
  | .sub => a - b
  | .mul => a * b
  | .div => if b = 0 then 0 else a / b
  | .rem => if b = 0 then 0 else a % b
  | .greater => Cell.ofBool (a > b)
  | .and => a &&& b
  | .or => a ||| b
  | .xor => a ^^^ b
  | .floorRem =>
    if b = 0 then 0
    else
      let r := a % b
      if r ≠ 0 ∧ ¬(r < 0 ↔ b < 0) then r + b else r
  | .absRem => if b = 0 then 0 else (a % b).abs

/-- Replaces the cell on top. -/
def Pointer.mapTop (p : Pointer) (f : Cell → Cell) : Pointer :=
  let (v, p) := p.pop
  p.push (f v)

def Operand.apply (o : Operand) (p : Pointer) : Pointer :=
  match o with
  | .literal v => p.push v
  | .binary op =>
    let (b, p) := p.pop
    let (a, p) := p.pop
    p.push (op.eval a b)
  | .logicalNot => p.mapTop fun v => Cell.ofBool (v = 0)
  | .complement => p.mapTop (~~~ ·)
  | .duplicate =>
    let (v, p) := p.pop
    (p.push v).push v
  | .swap =>
    let (b, p) := p.pop
    let (a, p) := p.pop
    (p.push b).push a
  | .discard => p.pop.2
  | .clear => p.setTop .empty

end Funge
