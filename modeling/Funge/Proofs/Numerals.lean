import Funge.Host
import Mathlib.Algebra.Group.Nat.Defs
import Mathlib.Algebra.Order.Group.Unbundled.Int
import Mathlib.Data.List.Basic
import Mathlib.Data.List.Induction
import Mathlib.Data.List.TakeDrop
import Mathlib.Data.List.TakeWhile

/-!
# Numerals written and read

The text of a number is the same whether its digits are worked out or the usual decimal text is
taken. A run of digits has a positional value without limit. A written numeral has the magnitude of
its cell as that value, and a reader comes to the cell nearest to the value: product and sum saturate
at every digit, but what has once passed the greatest cell stays there. Neither the sign nor the
space behind a number is a digit in any radix, so numbers written in a row are read one by one.
-/

namespace Funge

namespace Numeral

/-- The positional value of bytes taken as digits. -/
def value (radix : Nat) (bytes : List UInt8) : Nat :=
  bytes.foldl (fun n b => n * radix + (digitValue? radix b).getD 0) 0

theorem value_concat (radix : Nat) (bytes : List UInt8) (b : UInt8) :
    value radix (bytes ++ [b]) = value radix bytes * radix + (digitValue? radix b).getD 0 := by
  simp [value]

section Reading

variable {radix : Nat}

theorem toInt_saturate (n : Nat) :
    (saturate (n : Int)).toInt = (min n (2 ^ 63 - 1) : Nat) := by
  have least : Int64.minValue.toInt = -2 ^ 63 := by decide
  have greatest : Int64.maxValue.toInt = 2 ^ 63 - 1 := by decide
  unfold saturate
  split
  · omega
  split
  · omega
  · rw [Int64.toInt_ofInt_of_le (by omega) (by omega)]
    omega

theorem saturate_natCast (n : Nat) :
    saturate (n : Int) = Int64.ofInt (min n Int64.maxValue.toInt) := by
  have greatest : Int64.maxValue.toInt = 2 ^ 63 - 1 := by decide
  have positive : 0 ≤ (n : Int) := Int.natCast_nonneg n
  apply Int64.toInt_inj.mp
  rw [toInt_saturate, Int64.toInt_ofInt_of_le (by omega) (by omega)]
  omega

/-- A digit taken into the cell nearest to a number gives the cell nearest to the longer number. -/
theorem accumulate_saturate (positive : 0 < radix) (n : Nat) (b : UInt8) :
    accumulate radix (saturate (n : Int)) b =
      saturate ((n * radix + (digitValue? radix b).getD 0 : Nat) : Int) := by
  have grows : n ≤ n * radix := Nat.le_mul_of_pos_right n positive
  apply Int64.toInt_inj.mp
  simp only [accumulate, toInt_saturate, ← Int.natCast_mul, ← Int.natCast_add]
  by_cases small : n ≤ 2 ^ 63 - 1
  · rw [Nat.min_eq_left small]
    omega
  · have full : 2 ^ 63 - 1 ≤ (2 ^ 63 - 1) * radix := Nat.le_mul_of_pos_right _ positive
    rw [Nat.min_eq_right (a := n) (by omega)]
    omega

/-- A run of digits is read as the cell nearest to its value. -/
theorem foldl_accumulate (positive : 0 < radix) (bytes : List UInt8) :
    bytes.foldl (accumulate radix) 0 = saturate (value radix bytes) := by
  induction bytes using List.reverseRecOn with
  | nil => rfl
  | append_singleton bytes b ih =>
    rw [List.foldl_append, ih, value_concat]
    exact accumulate_saturate positive _ b

/-- What stands before the first digit is skipped, and reading stops where the digits end. -/
theorem read_digits (positive : 0 < radix) {skipped taken : List UInt8}
    (before : ∀ b ∈ skipped, isDigit radix b = false) (run : ∀ b ∈ taken, isDigit radix b = true)
    (started : taken ≠ []) (rest : List UInt8) (after : ∀ b ∈ rest.head?, isDigit radix b = false) :
    read radix (skipped ++ (taken ++ rest)) = (some (saturate (value radix taken)), rest) := by
  have found : (skipped ++ (taken ++ rest)).dropWhile (fun b => !isDigit radix b) = taken ++ rest := by
    rw [List.dropWhile_append_of_pos fun b hb => by simp [before b hb]]
    cases taken with
    | nil => exact absurd rfl started
    | cons b taken => simp [run b List.mem_cons_self]
  have ends : (taken ++ rest).span (isDigit radix) = (taken, rest) := by
    rw [List.span_eq_takeWhile_dropWhile, List.takeWhile_append_of_pos run,
      List.dropWhile_append_of_pos run]
    cases rest with
    | nil => simp
    | cons b rest => simp [after b rfl]
  have full : taken.isEmpty = false := by simpa using started
  simp only [read, found, ends, full, foldl_accumulate positive]
  rfl

/-- Without a digit all is skipped. -/
theorem read_nothing {input : List UInt8} (without : ∀ b ∈ input, isDigit radix b = false) :
    read radix input = (none, []) := by
  have found : input.dropWhile (fun b => !isDigit radix b) = [] := by
    rw [List.dropWhile_eq_nil_iff]
    intro b hb
    simp [without b hb]
  simp [read, found, List.span_eq_takeWhile_dropWhile]

end Reading

section Texts

variable {radix : Nat}

/-- The numeral of an integer: that of its magnitude, after a sign if it is negative. -/
def ofInt (radix : Nat) (z : Int) : List Char :=
  (if z < 0 then ['-'] else []) ++ ofNat radix z.natAbs

theorem digits_lt (low : 2 ≤ radix) (n : Nat) : ∀ d ∈ digits radix n, d < radix := by
  fun_induction digits radix n with
  | case1 n small =>
    intro d member
    rw [List.mem_singleton] at member
    omega
  | case2 n large ih => exact List.forall_mem_cons.mpr ⟨Nat.mod_lt n (by omega), ih⟩

/-- Every digit below the radix has a character. -/
theorem mapM_digitChar? {ds : List Nat} (below : ∀ d ∈ ds, d < radix) :
    ds.mapM (digitChar? radix) = some (ds.map digitChar) := by
  induction ds with
  | nil => rfl
  | cons d ds ih =>
    obtain ⟨first, others⟩ := List.forall_mem_cons.mp below
    simp [List.mapM_cons, digitChar?, first, ih others]

theorem spell?_eq_ofInt (low : 2 ≤ radix) (v : Cell) :
    spell? radix v = some (String.ofList (ofInt radix v.toInt)) := by
  have characters := mapM_digitChar? (digits_lt low v.toInt.natAbs)
  have negative : v < 0 ↔ v.toInt < 0 := Int64.lt_iff_toInt_lt
  simp only [spell?, characters, negative]
  split <;> simp [ofInt, ofNat, *]

theorem toDigits_eq_ofNat (n : Nat) : Nat.toDigits 10 n = ofNat 10 n := by
  have same : ∀ d < 10, Nat.digitChar d = digitChar d := by decide
  rw [ofNat]
  fun_induction digits 10 n with
  | case1 n small =>
    rw [Nat.toDigits_of_lt_base (by omega), same n (by omega)]
    rfl
  | case2 n large ih =>
    rw [Nat.toDigits_of_base_le (by omega) (by omega), ih, same _ (Nat.mod_lt n (by omega))]
    simp

/-- The usual decimal text of an integer is the one that comes of its digits. -/
theorem toString_eq_ofInt (z : Int) : toString z = String.ofList (ofInt 10 z) := by
  rw [ofInt]
  cases z with
  | ofNat n =>
    have natural : ¬ Int.ofNat n < 0 := Int.not_lt.mpr (Int.natCast_nonneg n)
    change n.repr = _
    rw [Nat.repr_eq_ofList_toDigits, toDigits_eq_ofNat, if_neg natural]
    rfl
  | negSucc n =>
    change "-" ++ (n + 1).repr = _
    rw [Nat.repr_eq_ofList_toDigits, toDigits_eq_ofNat, if_pos (by omega), String.ofList_append]
    rfl

/-- Whichever writer is taken, the text is the numeral of the cell. -/
theorem format?_eq_ofInt (low : 2 ≤ radix) (high : radix ≤ 36) (v : Cell) :
    format? radix v = some (String.ofList (ofInt radix v.toInt)) := by
  have known : radixOk radix = true := by simp [radixOk, low, high]
  rw [format?, if_pos known]
  split
  · subst radix
    rw [toString_eq_ofInt]
  · exact spell?_eq_ofInt low v

end Texts

section Writing

variable {radix : Nat}

/-- The byte of a digit. -/
def digitByte (d : Nat) : UInt8 := UInt8.ofNat (digitChar d).toNat

/-- The bytes of the numeral of a natural number. -/
def bytes (radix n : Nat) : List UInt8 := (ofNat radix n).map fun c => UInt8.ofNat c.toNat

theorem bytes_of_lt {n : Nat} (h : n < radix) : bytes radix n = [digitByte n] := by
  rw [bytes, ofNat, digits, if_pos (.inr h)]
  rfl

theorem bytes_of_le {n : Nat} (low : 2 ≤ radix) (h : radix ≤ n) :
    bytes radix n = bytes radix (n / radix) ++ [digitByte (n % radix)] := by
  rw [bytes, ofNat, digits, if_neg (by omega)]
  simp [bytes, ofNat, digitByte]

/-- A digit is written as one byte. -/
theorem utf8_ofNat (low : 2 ≤ radix) (high : radix ≤ 36) (n : Nat) :
    (ofNat radix n).flatMap String.utf8EncodeChar = bytes radix n := by
  have all : ∀ d < 36, String.utf8EncodeChar (digitChar d) = [UInt8.ofNat (digitChar d).toNat] := by
    decide
  have single : ∀ c ∈ ofNat radix n, String.utf8EncodeChar c = [UInt8.ofNat c.toNat] := by
    intro c member
    obtain ⟨d, listed, rfl⟩ := List.mem_map.mp (List.mem_reverse.mp member)
    exact all d (Nat.lt_of_lt_of_le (digits_lt low n d listed) high)
  rw [List.flatMap_congr single, bytes, List.map_eq_flatMap]

theorem digitValue?_digitByte {d : Nat} (below : d < radix) (high : radix ≤ 36) :
    digitValue? radix (digitByte d) = some d := by
  have all : ∀ d < 36, (digitByte d).toNat = if d < 10 then 48 + d else 87 + d := by decide
  have code := all d (by omega)
  by_cases decimal : d < 10
  · rw [if_pos decimal] at code
    simp only [digitValue?, code]
    rw [if_pos (by omega)]
    simp [below]
  · rw [if_neg decimal] at code
    simp only [digitValue?, code]
    rw [if_neg (by omega), if_pos (by omega)]
    simp [below]

/-- A numeral consists of digits, and its value is the number. -/
theorem value_bytes (low : 2 ≤ radix) (high : radix ≤ 36) (n : Nat) :
    (∀ b ∈ bytes radix n, isDigit radix b = true) ∧ bytes radix n ≠ [] ∧
      value radix (bytes radix n) = n := by
  induction n using Nat.strong_induction_on with
  | _ n ih =>
    by_cases small : n < radix
    · have digit := digitValue?_digitByte small high
      rw [bytes_of_lt small]
      simp [isDigit, value, digit]
    · have below : n % radix < radix := Nat.mod_lt n (by omega)
      have digit := digitValue?_digitByte below high
      obtain ⟨all, _, same⟩ := ih (n / radix) (Nat.div_lt_self (by omega) (by omega))
      rw [bytes_of_le low (by omega), value_concat, same, digit]
      refine ⟨?_, by simp, ?_⟩
      · intro b hb
        rcases List.mem_append.mp hb with front | last
        · exact all b front
        · rw [List.mem_singleton.mp last, isDigit, digit]
          rfl
      · rw [Option.getD_some, Nat.mul_comm]
        exact Nat.div_add_mod n radix

theorem not_isDigit_sign (radix : Nat) : isDigit radix 45 = false := rfl

theorem not_isDigit_space (radix : Nat) : isDigit radix 32 = false := rfl

end Writing

end Numeral

namespace Host

open Numeral

/-- The bytes of a written number: its sign, the numeral of its magnitude and a space. -/
def numberBytes (radix : Nat) (v : Cell) : List UInt8 :=
  (if v.toInt < 0 then [45] else []) ++ (bytes radix v.toInt.natAbs ++ [32])

theorem writeNumber_eq {radix : Nat} (low : 2 ≤ radix) (high : radix ≤ 36) (v : Cell) (h : Host) :
    h.writeNumber v radix = .ok (h.emit (numberBytes radix v)) := by
  have sign : String.utf8EncodeChar '-' = [45] := by decide
  have space : String.utf8EncodeChar ' ' = [32] := by decide
  have magnitude := utf8_ofNat low high v.toInt.natAbs
  have encoded : (String.ofList (ofInt radix v.toInt) ++ " ").toList.flatMap String.utf8EncodeChar =
      numberBytes radix v := by
    rw [numberBytes, ofInt]
    split <;> simp [sign, space, magnitude]
  rw [writeNumber, format?_eq_ofInt low high]
  simp only [encoded]

/-- Numbers written one after the other append their bytes to the output. -/
theorem writeNumbers_eq {radix : Nat} (low : 2 ≤ radix) (high : radix ≤ 36) (vs : List Cell)
    (h : Host) :
    vs.foldlM (fun h v => h.writeNumber v radix) h = .ok (h.emit (vs.flatMap (numberBytes radix))) := by
  induction vs generalizing h with
  | nil => rfl
  | cons v vs ih =>
    rw [List.foldlM_cons, writeNumber_eq low high]
    change vs.foldlM _ (h.emit (numberBytes radix v)) = _
    rw [ih]
    simp [emit]

/-- Reads numbers one after the other. -/
def readNumbers (radix : Nat) : Nat → Host → Except ChannelError (List (Option Cell) × Host)
  | 0, h => .ok ([], h)
  | n + 1, h => do
    let (value, h) ← h.readNumber radix
    let (values, h) ← readNumbers radix n h
    return (value :: values, h)

theorem readNumbers_succ {radix n : Nat} (known : radixOk radix = true) {h after : Host}
    {value : Option Cell} {rest : List UInt8} {values : List (Option Cell)}
    (first : read radix h.input = (value, rest))
    (others : readNumbers radix n { h with input := rest } = .ok (values, after)) :
    readNumbers radix (n + 1) h = .ok (value :: values, after) := by
  have one : h.readNumber radix = .ok (value, { h with input := rest }) := by
    simp [readNumber, known, first]
  simp only [readNumbers, one, bind, Except.bind, others]
  rfl

/-- Where no digit is left, every reading comes to nothing and the input is used up. -/
theorem readNumbers_nothing {radix : Nat} (known : radixOk radix = true) (calls : Nat) {h : Host}
    (without : ∀ b ∈ h.input, isDigit radix b = false) :
    readNumbers radix (calls + 1) h =
      .ok (List.replicate (calls + 1) none, { h with input := [] }) := by
  induction calls generalizing h with
  | zero => exact readNumbers_succ known (read_nothing without) rfl
  | succ calls ih =>
    have others := ih (h := { h with input := [] }) (by simp)
    exact readNumbers_succ known (read_nothing without) others

/-- Numbers written in a row, after bytes that are no digits, are read back without their signs. -/
theorem readNumbers_numberBytes {radix : Nat} (low : 2 ≤ radix) (high : radix ≤ 36) (vs : List Cell)
    (calls : Nat) (reader : Host) (skipped : List UInt8)
    (before : ∀ b ∈ skipped, isDigit radix b = false) :
    readNumbers radix (vs.length + (calls + 1))
        { reader with input := skipped ++ vs.flatMap (numberBytes radix) } =
      .ok (vs.map (fun v => some (saturate v.toInt.natAbs)) ++ List.replicate (calls + 1) none,
        { reader with input := [] }) := by
  have known : radixOk radix = true := by simp [radixOk, low, high]
  induction vs generalizing skipped with
  | nil =>
    simp only [List.length_nil, Nat.zero_add, List.flatMap_nil, List.append_nil]
    exact readNumbers_nothing known calls before
  | cons v vs ih =>
    obtain ⟨run, started, same⟩ := value_bytes low high v.toInt.natAbs
    have signed : ∀ b ∈ skipped ++ (if v.toInt < 0 then [45] else []), isDigit radix b = false := by
      intro b hb
      rcases List.mem_append.mp hb with garbage | sign
      · exact before b garbage
      · split at sign
        · rw [List.mem_singleton.mp sign]
          exact not_isDigit_sign radix
        · cases sign
    have first := read_digits (by omega) signed run started ([32] ++ vs.flatMap (numberBytes radix))
      (by rintro b ⟨⟩; exact not_isDigit_space radix)
    rw [same] at first
    -- The space behind the number is what the next reading skips.
    have others := ih [32] (by simp [not_isDigit_space])
    rw [List.length_cons, Nat.add_right_comm]
    refine readNumbers_succ known ?_ others
    rw [← first, List.flatMap_cons, numberBytes]
    simp only [List.append_assoc]

theorem saturate_natAbs (v : Cell) :
    saturate (v.toInt.natAbs : Int) = Int64.ofInt (min |v.toInt| Int64.maxValue.toInt) := by
  rw [saturate_natCast, Int.natCast_natAbs]

/-- Whatever numbers are written in a radix, a host that has what was written as its input reads
the magnitudes of all of them in turn, each as near as a cell can come to it, and nothing more. -/
theorem written_numbers_read {radix : Nat} (low : 2 ≤ radix) (high : radix ≤ 36) (vs : List Cell)
    (calls : Nat) (writer reader : Host) :
    ∃ writer' written, vs.foldlM (fun h v => h.writeNumber v radix) writer = .ok writer' ∧
      writer'.output = writer.output ++ written ∧
      readNumbers radix (vs.length + (calls + 1)) { reader with input := written } =
        .ok (vs.map (fun v => some (Int64.ofInt (min |v.toInt| Int64.maxValue.toInt))) ++
          List.replicate (calls + 1) none, { reader with input := [] }) := by
  have reads := readNumbers_numberBytes low high vs calls reader [] (by simp)
  simp only [saturate_natAbs, List.nil_append] at reads
  exact ⟨_, vs.flatMap (numberBytes radix), writeNumbers_eq low high vs writer, output_emit _ _, reads⟩

/-- A host with a byte to read and one that was written before. -/
def clerk : Host where
  input := [65]
  written := [46]
  arguments := []
  environment := []
  clock := .fixed ⟨2000, 1, 1, 0, 0, 0, 0⟩
  stopwatch := 0
  dice := { draws := fun _ => 0 }
  folder := .empty

/-- Letters are digits, signs are lost, and the magnitude of the least cell is one too large. -/
theorem hexadecimals_read :
    ∃ clerk' written,
      [255, -16, 0, Int64.minValue].foldlM (fun h v => h.writeNumber v 16) clerk = .ok clerk' ∧
      clerk'.output = [46] ++ written ∧
      readNumbers 16 5 { clerk with input := written } =
        .ok ([some 255, some 16, some 0, some Int64.maxValue, none], { clerk with input := [] }) :=
  written_numbers_read (by decide) (by decide) [255, -16, 0, Int64.minValue] 0 clerk clerk

end Host

end Funge
