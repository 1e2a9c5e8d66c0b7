import Funge.Proofs.Codes
import Mathlib.Tactic.Ring

/-!
# Handprints from the stack

A handprint is folded from popped cells, each of which shifts what was there by eight bits. Past the
bottom of the stack the cells are zeros, and four of them leave nothing of the code, so a count that
goes further gives the same code as one that ends there. The bytes of a name, popped in order, give
the handprint of the name.
-/

namespace Funge

namespace Handprint

/-- A code of 32 bits after one more cell. -/
def extend (code : Nat) (v : Cell) : Nat := (code * 256 + (v.toInt % 2 ^ 32).toNat) % 2 ^ 32

theorem toNat_toUInt64 (v : Cell) : (v.toUInt64.toNat : Int) = v.toInt % 2 ^ 64 := by
  have bound := v.toBitVec.isLt
  change (v.toBitVec.toNat : Int) = v.toBitVec.toInt % 2 ^ 64
  rw [BitVec.toInt_eq_toNat_cond]
  split <;> omega

theorem toNat_foldHandprint (code : Handprint) (v : Cell) :
    (Action.foldHandprint code v).toNat = extend code.toNat v := by
  have word := toNat_toUInt64 v
  have folded : (Action.foldHandprint code v).toNat =
      (code.toNat * 256 + v.toUInt64.toNat) % 2 ^ 32 := by
    simp [Action.foldHandprint, UInt32.toNat_add, Nat.shiftLeft_eq]
  rw [folded, extend]
  omega

theorem toNat_foldl_foldHandprint (cells : List Cell) (code : Handprint) :
    (cells.foldl Action.foldHandprint code).toNat = cells.foldl extend code.toNat := by
  induction cells generalizing code with
  | nil => rfl
  | cons v cells ih => rw [List.foldl_cons, List.foldl_cons, ih, toNat_foldHandprint]

theorem extend_zero (code : Nat) : extend code 0 = code * 256 % 2 ^ 32 := by
  simp [extend]

theorem foldl_extend_zeros (n : Nat) : (List.replicate n 0).foldl extend 0 = 0 := by
  induction n with
  | zero => rfl
  | succ n ih => exact ih

/-- Four zeros shift out whatever is there, and further ones change nothing. -/
theorem foldl_extend_of_zeros {n : Nat} (enough : 4 ≤ n) (code : Nat) :
    (List.replicate n 0).foldl extend code = 0 := by
  obtain ⟨k, rfl⟩ := Nat.exists_eq_add_of_le enough
  have shifted : (List.replicate 4 0).foldl extend code = 0 := by
    simp only [List.replicate, List.foldl_cons, List.foldl_nil, extend_zero]
    omega
  rw [List.replicate_add, List.foldl_append, shifted, foldl_extend_zeros]

/-- The cell of a byte is folded in as the byte is appended. -/
theorem foldHandprint_ofByte (code : Handprint) (b : UInt8) :
    Action.foldHandprint code (Cell.ofByte b) = append code b := by
  have byte : (Cell.ofByte b).toUInt64.toUInt32 = b.toUInt32 := by simp [Cell.ofByte]
  have moved : (code <<< 8).toNat = code.toNat * 256 % 2 ^ 32 := by simp [Nat.shiftLeft_eq]
  have shifted : (code <<< 8).toNat = (code.toNat % 2 ^ 24) <<< 8 := by
    rw [moved, Nat.shiftLeft_eq]
    omega
  have small : b.toUInt32.toNat < 2 ^ 8 := b.toNat_lt
  rw [Action.foldHandprint, append, byte]
  apply UInt32.toNat_inj.mp
  rw [UInt32.toNat_add, UInt32.toNat_or, shifted, ← Nat.shiftLeft_add_eq_or_of_lt small,
    Nat.mod_eq_of_lt]
  rw [Nat.shiftLeft_eq]
  omega

theorem foldl_foldHandprint_ofByte (bytes : List UInt8) (code : Handprint) :
    (bytes.map Cell.ofByte).foldl Action.foldHandprint code = bytes.foldl append code := by
  rw [List.foldl_map]
  simp only [foldHandprint_ofByte]

end Handprint

namespace Stack

/-- Pops that go more than four zeros past the bottom give the same code and leave as much as those
that stop there. -/
theorem popMany_clamped (s : Stack) (mode : Mode) (n : Nat) :
    ((s.popMany mode (min n (s.size + 4))).1.foldl Handprint.extend 0,
      (s.popMany mode (min n (s.size + 4))).2) =
    ((s.popMany mode n).1.foldl Handprint.extend 0, (s.popMany mode n).2) := by
  by_cases within : n ≤ s.size + 4
  · rw [Nat.min_eq_left within]
  have length := length_inPopOrder s mode
  have beyond (k : Nat) (enough : s.size + 4 ≤ k) :
      ((s.popMany mode k).1.foldl Handprint.extend 0, (s.popMany mode k).2) =
        (0, ofPopOrder mode []) := by
    have popped := popMany_ofPopOrder mode (s.inPopOrder mode) k
    rw [ofPopOrder_inPopOrder, List.take_of_length_le (by omega), List.drop_of_length_le (by omega)]
      at popped
    rw [popped, List.foldl_append, Handprint.foldl_extend_of_zeros (by omega)]
  rw [Nat.min_eq_right (by omega), beyond _ (Nat.le_refl _), beyond n (by omega)]

end Stack

namespace Pointer

/-- Pops cells one by one, each of which extends the code so far. -/
def popCode : Nat → Nat → Pointer → Nat × Pointer
  | 0, code, p => (code, p)
  | n + 1, code, p => popCode n (Handprint.extend code p.pop.1) p.pop.2

theorem top_pop (p : Pointer) : p.pop.2.top = (p.top.pop p.mode).2 := by
  rcases p with ⟨id, dims, ⟨layers⟩⟩
  cases layers with
  | nil =>
    change Stack.empty = (Stack.empty.pop _).2
    unfold Stack.pop
    split <;> rfl
  | cons t rest => rfl

theorem popCode_eq (n code : Nat) (p : Pointer) :
    p.popCode n code = ((p.top.popMany p.mode n).1.foldl Handprint.extend code,
      p.setTop (p.top.popMany p.mode n).2) := by
  induction n generalizing code p with
  | zero => simp [popCode, Stack.popMany]
  | succ n ih =>
    have mode : p.pop.2.mode = p.mode := rfl
    rw [popCode, ih, top_pop, mode, setTop_pop]
    rfl

end Pointer

namespace Action

variable {f : Focus}

theorem run_popHandprint (positive : 0 < f.pointer.pop.1) {cells : List Cell} {s : Stack}
    (drawn : f.pointer.pop.2.top.popMany f.pointer.mode
      (min f.pointer.pop.1.toCount (f.pointer.pop.2.top.size + 4)) = (cells, s)) :
    popHandprint f =
      (.ok (cells.foldl foldHandprint 0), { f with pointer := f.pointer.setTop s }) := by
  have popped : pop f = (.ok f.pointer.pop.1, { f with pointer := f.pointer.pop.2 }) := rfl
  have mode : f.pointer.pop.2.mode = f.pointer.mode := rfl
  rw [popHandprint, run_bind_ok popped, if_neg (Int64.not_le.mpr positive)]
  dsimp only
  rw [run_bind_ok (run_pointer _), run_bind_ok (run_draw _ _)]
  simp only [mode, drawn, Pointer.setTop_pop]
  rfl

/-- A handprint is folded as if all cells that the count asks for were popped. -/
theorem popHandprint_unclamped (positive : 0 < f.pointer.pop.1) :
    ∃ code, popHandprint f = (.ok code, { f with
        pointer := (f.pointer.pop.2.popCode f.pointer.pop.1.toCount 0).2 }) ∧
      code.toNat = (f.pointer.pop.2.popCode f.pointer.pop.1.toCount 0).1 := by
  have mode : f.pointer.pop.2.mode = f.pointer.mode := rfl
  obtain ⟨same, left⟩ := Prod.mk.inj (Stack.popMany_clamped f.pointer.pop.2.top f.pointer.mode
    f.pointer.pop.1.toCount)
  rw [Pointer.popCode_eq, mode, Pointer.setTop_pop, ← left, ← same]
  exact ⟨_, run_popHandprint positive rfl, Handprint.toNat_foldl_foldHandprint _ 0⟩

end Action

namespace Pointer

variable {p : Pointer}

/-- Pushes bytes from the last to the first and then their number. -/
def pushBytes (p : Pointer) (bytes : List UInt8) : Pointer :=
  (p.pushMany (bytes.reverse.map Cell.ofByte)).push (Int64.ofNat bytes.length)

theorem pop_pushBytes (stacked : p.stacks.stacks ≠ []) (lifo : p.mode.invert = p.mode.queue)
    (bytes : List UInt8) :
    (p.pushBytes bytes).pop = (Int64.ofNat bytes.length,
      p.setTop (.ofPopOrder p.mode (bytes.map Cell.ofByte ++ p.top.inPopOrder p.mode))) := by
  have mode (s : Stack) : (p.setTop s).mode = p.mode := rfl
  have pushed := Stack.pushMany_ofPopOrder lifo (p.top.inPopOrder p.mode)
    (bytes.reverse.map Cell.ofByte)
  rw [Stack.ofPopOrder_inPopOrder, ← List.map_reverse, List.reverse_reverse] at pushed
  rw [pushBytes, pushMany, pushed, push, mode, setTop_setTop, top_setTop_of_stacked stacked,
    Stack.push_ofPopOrder lifo, pop_setTop stacked, Stack.pop_cons]

end Pointer

namespace Action

variable {f : Focus}

/-- Bytes that are pushed with their number are folded as they would be in a name. -/
theorem popHandprint_pushBytes (stacked : f.pointer.stacks.stacks ≠ [])
    (lifo : f.pointer.mode.invert = f.pointer.mode.queue) {bytes : List UInt8}
    (nonempty : bytes ≠ []) (short : bytes.length < 2 ^ 63) :
    popHandprint { f with pointer := f.pointer.pushBytes bytes } =
      (.ok (bytes.foldl Handprint.append 0), f) := by
  have popped := Pointer.pop_pushBytes stacked lifo bytes
  have count : (Int64.ofNat bytes.length).toInt = bytes.length := Int64.toInt_ofNat_of_lt short
  have positive : 0 < Int64.ofNat bytes.length := by
    have length := List.length_pos_iff.mpr nonempty
    rw [Int64.lt_iff_toInt_lt, count]
    exact Int.natCast_pos.mpr length
  have drawn : (f.pointer.pushBytes bytes).pop.2.top.popMany f.pointer.mode
      (min (f.pointer.pushBytes bytes).pop.1.toCount
        ((f.pointer.pushBytes bytes).pop.2.top.size + 4)) =
      (bytes.map Cell.ofByte, f.pointer.top) := by
    have within : min bytes.length
        ((bytes.map Cell.ofByte ++ f.pointer.top.inPopOrder f.pointer.mode).length + 4) =
        bytes.length := by
      rw [List.length_append, List.length_map]
      omega
    rw [popped, Pointer.top_setTop_of_stacked stacked, Cell.toCount, count, Int.toNat_natCast,
      Stack.size_ofPopOrder, within, Stack.popMany_append _ (List.length_map _),
      Stack.ofPopOrder_inPopOrder]
  have restored : (f.pointer.pushBytes bytes).setTop f.pointer.top = f.pointer := by
    simp [Pointer.pushBytes, Pointer.push, Pointer.pushMany]
  have run := run_popHandprint (f := { f with pointer := f.pointer.pushBytes bytes })
    (by rwa [popped]) drawn
  rw [run, Handprint.foldl_foldHandprint_ofByte, restored]

/-- A count from one on gives the code of all its pops, each of which multiplies the code by 256
and adds the popped cell, modulo 2^32, and leaves what these leave. Where pushes and pops work on the
same end, the bytes of a name that are pushed from the last to the first, with their number after
them, give the handprint of the name and are gone then. A name has at least one byte and no more of
them than the greatest cell. -/
theorem popHandprint_folds (f : Focus) :
    (0 < f.pointer.pop.1 →
      ∃ code, popHandprint f = (.ok code, { f with
          pointer := (f.pointer.pop.2.popCode f.pointer.pop.1.toCount 0).2 }) ∧
        code.toNat = (f.pointer.pop.2.popCode f.pointer.pop.1.toCount 0).1) ∧
    (f.pointer.stacks.stacks ≠ [] → f.pointer.flags.invert = f.pointer.flags.queue →
      ∀ bytes : List UInt8, bytes ≠ [] → bytes.length < 2 ^ 63 →
        popHandprint { f with pointer := f.pointer.pushBytes bytes } =
          (.ok (bytes.foldl Handprint.append 0), f) ∧
        ∀ name : String, name.toList.flatMap String.utf8EncodeChar = bytes →
          popHandprint { f with pointer := f.pointer.pushBytes bytes } =
            (.ok (Handprint.ofName name), f)) := by
  refine ⟨popHandprint_unclamped, fun stacked lifo bytes nonempty short => ?_⟩
  have folded := popHandprint_pushBytes stacked lifo nonempty short
  refine ⟨folded, ?_⟩
  rintro name rfl
  exact folded

/-- A pointer with both ends swapped, which pops a seven and then two more cells. -/
def misled : Focus where
  pointer := { Pointer.start 0 2 with
    «stacks» := ⟨[⟨[300, -1, 7]⟩]⟩, flags := { invert := true, queue := true } }
  world := World.start {} .bare .standard .standard

/-- Two cells and five zeros give nothing; of a name with six letters the last four count. -/
theorem misled_folds :
    popHandprint misled = (.ok 0, { misled with pointer := misled.pointer.setTop .empty }) ∧
    popHandprint { misled with pointer := misled.pointer.pushBytes [84, 79, 77, 65, 84, 79] } =
      (.ok (Handprint.ofName "TOMATO"), misled) ∧
    Handprint.ofName "TOMATO" = Handprint.ofName "MATO" := by
  obtain ⟨all, named⟩ := popHandprint_folds misled
  obtain ⟨code, run, folded⟩ := all (by decide)
  have nothing : code = 0 := UInt32.toNat_inj.mp folded
  have emptied : (misled.pointer.pop.2.popCode misled.pointer.pop.1.toCount 0).2 =
      misled.pointer.setTop .empty := rfl
  rw [nothing, emptied] at run
  have spelled := named (by decide) rfl [84, 79, 77, 65, 84, 79] (by decide) (by decide)
  exact ⟨run, spelled.2 "TOMATO" (by decide), by decide⟩

end Action

end Funge
