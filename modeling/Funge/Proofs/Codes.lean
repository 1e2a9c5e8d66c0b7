import Funge.Proofs.ActiveLoads
import Funge.Proofs.Blocks

/-!
# Vectors and texts as runs of cells

A vector lies on a stack with its last component first in the order of popping, and a text with its
characters in order and a zero after them. Each is popped up to its own end and no further, so what
comes after it is what is left. A list of texts ends with an empty one, which is a zero by itself.
-/

namespace Funge

namespace Cell

theorem ofChar_nonneg (c : Char) : 0 ≤ ofChar c := by
  rw [Int64.le_iff_toInt_le, toInt_ofChar]
  exact Int.natCast_nonneg _

theorem toChar?_ofChar (c : Char) : toChar? (ofChar c) = some c := by
  have code : (ofChar c).toInt.toNat = c.toNat := by rw [toInt_ofChar, Int.toNat_natCast]
  have scalar : c.toNat.isValidChar := c.valid
  simp [toChar?, ofChar_nonneg, code, scalar]

theorem ofChar_eq_zero_iff (c : Char) : ofChar c = 0 ↔ c = '\x00' := by
  rw [← Int64.toInt_inj, toInt_ofChar]
  constructor
  · intro zero
    apply Char.toNat_inj.mp
    simpa using zero
  · rintro rfl
    rfl

end Cell

namespace Stack

/-- The cells of a vector in the order of popping. -/
def vectorRun (dims : Nat) (v : Vec) : List Cell := (v.coordinates dims).reverse

/-- The cells of a text in the order of popping. -/
def textRun (text : String) : List Cell := text.toList.map Cell.ofChar ++ [0]

section Pushing

variable {mode : Mode}

theorem pushVec_ofPopOrder (lifo : mode.invert = mode.queue) (cells : List Cell) (v : Vec)
    (dims : Nat) :
    (ofPopOrder mode cells).pushVec v dims mode = ofPopOrder mode (vectorRun dims v ++ cells) :=
  pushMany_ofPopOrder lifo cells (v.coordinates dims)

theorem pushText_ofPopOrder (lifo : mode.invert = mode.queue) (cells : List Cell) (text : String) :
    (ofPopOrder mode cells).pushText text mode = ofPopOrder mode (textRun text ++ cells) := by
  rw [pushText, push_ofPopOrder lifo, pushMany_ofPopOrder lifo]
  simp [textRun]

/-- Texts pushed last to first lie one after the other, first to last. -/
theorem pushTexts_ofPopOrder (lifo : mode.invert = mode.queue) (cells : List Cell)
    (texts : List String) :
    (ofPopOrder mode cells).pushTexts texts mode =
      ofPopOrder mode (texts.flatMap textRun ++ cells) := by
  rw [pushTexts, List.foldl_reverse]
  induction texts with
  | nil => rfl
  | cons text texts ih =>
    rw [List.foldr_cons, ih, pushText_ofPopOrder lifo, List.flatMap_cons, List.append_assoc]

end Pushing

theorem popMany_append (mode : Mode) {cells : List Cell} {n : Nat} (length : cells.length = n)
    (rest : List Cell) :
    (ofPopOrder mode (cells ++ rest)).popMany mode n = (cells, ofPopOrder mode rest) := by
  subst length
  simp [popMany_ofPopOrder]

/-- As many components are popped as were put there. -/
theorem popVec_vector (mode : Mode) (v : Vec) (dims : Nat) (rest : List Cell) :
    (ofPopOrder mode (vectorRun dims v ++ rest)).popVec dims mode =
      (Vec.ofList (v.coordinates dims), ofPopOrder mode rest) := by
  have length : (vectorRun dims v).length = dims := by simp [vectorRun]
  rw [popVec, popMany_append mode length]
  simp [vectorRun]

theorem popVec_append (mode : Mode) {v : Vec} {dims : Nat} (fits : v.fits dims = true)
    (rest : List Cell) :
    (ofPopOrder mode (vectorRun dims v ++ rest)).popVec dims mode =
      (v, ofPopOrder mode rest) := by
  rw [popVec_vector, Vec.ofList_coordinates fits]

theorem textChar_ofChar (c : Char) : textChar (Cell.ofChar c) = c := by
  simp [textChar, Cell.toChar?_ofChar]

theorem popText_append (mode : Mode) {text : String} (plain : '\x00' ∉ text.toList)
    (rest : List Cell) :
    (ofPopOrder mode (textRun text ++ rest)).popText mode = (text, ofPopOrder mode rest) := by
  have nonzero : ∀ c ∈ text.toList.map Cell.ofChar, decide (c ≠ 0) = true := by
    intro c member
    obtain ⟨letter, listed, rfl⟩ := List.mem_map.mp member
    rw [decide_eq_true_eq, ne_eq, Cell.ofChar_eq_zero_iff]
    rintro rfl
    exact plain listed
  have characters : (text.toList.map Cell.ofChar).map textChar = text.toList := by
    simp [Function.comp_def, textChar_ofChar]
  simp only [popText, textRun, inPopOrder_ofPopOrder, List.span_eq_takeWhile_dropWhile,
    List.append_assoc, List.takeWhile_append_of_pos nonzero,
    List.dropWhile_append_of_pos nonzero]
  simp [characters]

theorem size_ofPopOrder (mode : Mode) (cells : List Cell) :
    (ofPopOrder mode cells).size = cells.length := by
  unfold ofPopOrder size
  split <;> simp

theorem length_inPopOrder (s : Stack) (mode : Mode) : (s.inPopOrder mode).length = s.size := by
  rw [← size_ofPopOrder mode, ofPopOrder_inPopOrder]

theorem size_popText_lt {s : Stack} {mode : Mode} (inked : (s.popText mode).1 ≠ "") :
    (s.popText mode).2.size < s.size := by
  simp only [popText, List.span_eq_takeWhile_dropWhile, size_ofPopOrder] at inked ⊢
  rw [← length_inPopOrder s mode]
  cases cells : s.inPopOrder mode with
  | nil => simp [cells] at inked
  | cons c cs =>
    by_cases zero : c = 0
    · simp [cells, zero] at inked
    · have shorter : (cs.dropWhile (· ≠ 0)).length ≤ cs.length :=
        (List.dropWhile_sublist _).length_le
      rw [List.dropWhile_cons_of_pos (by simpa using zero), List.length_drop, List.length_cons]
      omega

/-- Pops texts up to and including the first empty one. -/
def popTexts (s : Stack) (mode : Mode) : List String × Stack :=
  if (s.popText mode).1 = "" then ([], (s.popText mode).2)
  else
    let later := (s.popText mode).2.popTexts mode
    ((s.popText mode).1 :: later.1, later.2)
termination_by s.size
decreasing_by
  rename_i inked
  exact size_popText_lt inked

/-- Texts with a zero after them are popped as they are, if none of them is empty or has a zero
inside. -/
theorem popTexts_append (mode : Mode) {texts : List String}
    (plain : ∀ text ∈ texts, text ≠ "" ∧ '\x00' ∉ text.toList) (rest : List Cell) :
    (ofPopOrder mode (texts.flatMap textRun ++ 0 :: rest)).popTexts mode =
      (texts, ofPopOrder mode rest) := by
  induction texts with
  | nil =>
    have ended := popText_append mode (show '\x00' ∉ "".toList by decide) rest
    simp only [textRun, String.toList_empty, List.map_nil, List.nil_append,
      List.cons_append] at ended
    rw [popTexts]
    simp [ended]
  | cons text texts ih =>
    obtain ⟨⟨inked, unbroken⟩, others⟩ := List.forall_mem_cons.mp plain
    have later := ih others
    have first := popText_append mode unbroken (texts.flatMap textRun ++ 0 :: rest)
    rw [popTexts]
    simp [first, inked, later]

end Stack

end Funge
