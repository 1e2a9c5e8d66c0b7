import Funge.Proofs.Numerals
import Mathlib.Data.Nat.Digits.Defs

/-!
# What a reading finds

Reading is held against its description: what the digits of a radix are, which run of them comes
first, and what number it stands for in positional notation without any limit. On every input a
reading comes to that number, or to the greatest cell where the number is greater, and uses up the
bytes before the run and the run itself; without a digit it comes to nothing and uses up all.
-/

namespace Funge

namespace Numeral

/-- The characters of the digits in the order of their values. -/
def glyphs : List Char := "0123456789abcdefghijklmnopqrstuvwxyz".toList

/-- A byte is a digit of a radix with some value. A capital is as good as the small letter. -/
def Denotes (radix : Nat) (b : UInt8) (d : Nat) : Prop :=
  d < radix ∧ glyphs[d]? = some (Char.ofNat b.toNat).toLower

instance (radix : Nat) (b : UInt8) (d : Nat) : Decidable (Denotes radix b d) :=
  inferInstanceAs (Decidable (_ ∧ _))

/-- What the first run of digits in an input stands for, and what comes after it. -/
inductive Finds (radix : Nat) : List UInt8 → Option Nat → List UInt8 → Prop
  | nothing {input : List UInt8} (without : ∀ b ∈ input, ∀ d, ¬ Denotes radix b d) :
      Finds radix input none []
  | number {skipped taken rest : List UInt8} {ds : List Nat}
      (before : ∀ b ∈ skipped, ∀ d, ¬ Denotes radix b d) (started : taken ≠ [])
      (run : List.Forall₂ (Denotes radix) taken ds)
      (after : ∀ b ∈ rest.head?, ∀ d, ¬ Denotes radix b d) :
      Finds radix (skipped ++ (taken ++ rest)) (some (Nat.ofDigits radix ds.reverse)) rest

section Digits

variable {radix : Nat} {b : UInt8} {d : Nat}

theorem digitValue?_eq_some_iff :
    digitValue? radix b = some d ↔ digitValue? 36 b = some d ∧ d < radix := by
  simp only [digitValue?, Option.filter_eq_some_iff, decide_eq_true_eq]
  constructor
  · rintro ⟨value, below⟩
    have small : d < 36 := by grind
    exact ⟨⟨value, small⟩, below⟩
  · rintro ⟨⟨value, _⟩, below⟩
    exact ⟨value, below⟩

theorem glyphs_getElem? {d : Nat} (below : d < 36) (c : Char) :
    glyphs[d]? = some c ↔ c.toNat = if d < 10 then 48 + d else 87 + d := by
  have listed : ∀ d < 36, glyphs[d]? = some (digitChar d) ∧
      (digitChar d).toNat = if d < 10 then 48 + d else 87 + d := by decide +kernel
  obtain ⟨glyph, code⟩ := listed d below
  rw [glyph, ← code, Option.some.injEq, eq_comm, Char.toNat_inj]

theorem toNat_toLower (b : UInt8) :
    (Char.ofNat b.toNat).toLower.toNat =
      if 65 ≤ b.toNat ∧ b.toNat ≤ 90 then b.toNat + 32 else b.toNat := by
  have all : ∀ n < 256, (Char.ofNat n).toLower.toNat =
      if 65 ≤ n ∧ n ≤ 90 then n + 32 else n := by decide +kernel
  exact all b.toNat b.toNat_lt

/-- The bytes with a value in the greatest radix are the glyphs and their capitals. -/
theorem digitValue?_glyph (below : d < 36) :
    digitValue? 36 b = some d ↔ glyphs[d]? = some (Char.ofNat b.toNat).toLower := by
  rw [glyphs_getElem? below, toNat_toLower]
  simp only [digitValue?, Option.filter_eq_some_iff, decide_eq_true_eq]
  grind

theorem digitValue?_eq_some_iff_denotes :
    digitValue? radix b = some d ↔ Denotes radix b d := by
  rw [digitValue?_eq_some_iff, Denotes]
  constructor
  · rintro ⟨value, below⟩
    have small := (digitValue?_eq_some_iff.mp value).2
    exact ⟨below, (digitValue?_glyph small).mp value⟩
  · rintro ⟨below, glyph⟩
    obtain ⟨small, _⟩ := List.getElem?_eq_some_iff.mp glyph
    exact ⟨(digitValue?_glyph small).mpr glyph, below⟩

theorem isDigit_eq_true_iff : isDigit radix b = true ↔ ∃ d, Denotes radix b d := by
  simp only [isDigit, Option.isSome_iff_exists, digitValue?_eq_some_iff_denotes]

theorem isDigit_eq_false_iff : isDigit radix b = false ↔ ∀ d, ¬ Denotes radix b d := by
  rw [← Bool.not_eq_true, isDigit_eq_true_iff, not_exists]

end Digits

section Runs

variable {radix : Nat} {taken : List UInt8} {ds : List Nat}

/-- The value that a reader builds up digit by digit is the one of positional notation. -/
theorem value_eq_ofDigits (run : List.Forall₂ (Denotes radix) taken ds) :
    value radix taken = Nat.ofDigits radix ds.reverse := by
  have denoted : taken.map (fun b => (digitValue? radix b).getD 0) = ds := by
    induction run with
    | nil => rfl
    | cons digit _ ih => simp [digitValue?_eq_some_iff_denotes.mpr digit, ih]
  calc value radix taken
      = (taken.map fun b => (digitValue? radix b).getD 0).foldl (fun n d => n * radix + d) 0 := by
        rw [value, List.foldl_map]
    _ = ds.foldl (fun n d => n * radix + d) 0 := by rw [denoted]
    _ = Nat.ofDigits radix ds.reverse := by
        rw [Nat.ofDigits_eq_foldr, List.foldr_reverse]
        simp [Nat.add_comm, Nat.mul_comm]

theorem isDigit_of_run (run : List.Forall₂ (Denotes radix) taken ds) :
    ∀ b ∈ taken, isDigit radix b = true := by
  induction run with
  | nil => simp
  | cons digit _ ih => exact List.forall_mem_cons.mpr ⟨isDigit_eq_true_iff.mpr ⟨_, digit⟩, ih⟩

/-- Every byte of a run of digits has a value. -/
theorem exists_denoted (run : ∀ b ∈ taken, isDigit radix b = true) :
    ∃ ds, List.Forall₂ (Denotes radix) taken ds := by
  induction taken with
  | nil => exact ⟨[], .nil⟩
  | cons b taken ih =>
    obtain ⟨first, others⟩ := List.forall_mem_cons.mp run
    obtain ⟨d, digit⟩ := isDigit_eq_true_iff.mp first
    obtain ⟨ds, rest⟩ := ih others
    exact ⟨d :: ds, .cons digit rest⟩

end Runs

/-- Every input has a first run of digits or no digit at all. -/
theorem exists_finds (radix : Nat) (input : List UInt8) : ∃ n rest, Finds radix input n rest := by
  have skipped : ∀ b ∈ input.takeWhile (fun b => !isDigit radix b), ∀ d, ¬ Denotes radix b d := by
    intro b member
    have other := List.mem_takeWhile_imp member
    exact isDigit_eq_false_iff.mp (by simpa using other)
  have parts := List.takeWhile_append_dropWhile (p := fun b => !isDigit radix b) (l := input)
  cases found : input.dropWhile (fun b => !isDigit radix b) with
  | nil =>
    rw [found, List.append_nil] at parts
    exact ⟨none, [], .nothing (parts ▸ skipped)⟩
  | cons b others =>
    have first : isDigit radix b = true := by
      have stopped := List.head?_dropWhile_not (fun b => !isDigit radix b) input
      simpa [found] using stopped
    have started : (b :: others).takeWhile (isDigit radix) ≠ [] := by simp [first]
    have digits : ∀ c ∈ (b :: others).takeWhile (isDigit radix), isDigit radix c = true :=
      fun c member => List.mem_takeWhile_imp member
    obtain ⟨ds, run⟩ := exists_denoted digits
    have after : ∀ c ∈ ((b :: others).dropWhile (isDigit radix)).head?, ∀ d,
        ¬ Denotes radix c d := by
      intro c member
      have stopped := List.head?_dropWhile_not (isDigit radix) (b :: others)
      rw [Option.mem_def.mp member] at stopped
      exact isDigit_eq_false_iff.mp (by simpa using stopped)
    have whole := Finds.number skipped started run after
    rw [List.takeWhile_append_dropWhile, ← found, parts] at whole
    exact ⟨_, _, whole⟩

/-- Reading comes to the cell nearest to what there is to find. -/
theorem read_of_finds {radix : Nat} (positive : 0 < radix) {input rest : List UInt8} {n : Option Nat}
    (finds : Finds radix input n rest) : read radix input = (n.map fun n : Nat => saturate n, rest) := by
  cases finds with
  | nothing without =>
    exact read_nothing fun b member => isDigit_eq_false_iff.mpr (without b member)
  | number before started run after =>
    have number := read_digits positive (fun b member => isDigit_eq_false_iff.mpr (before b member))
      (isDigit_of_run run) started rest fun b member => isDigit_eq_false_iff.mpr (after b member)
    rw [number, value_eq_ofDigits run]
    rfl

end Numeral

namespace Host

open Numeral

/-- In every radix and on every input there is something to find, be it nothing, and reading a number
comes to it: the number itself, or the greatest cell if the number is greater. What follows the
digits is left to be read, and nothing else of the host changes. -/
theorem readNumber_finds {radix : Nat} (low : 2 ≤ radix) (high : radix ≤ 36) (h : Host) :
    (∃ n rest, Finds radix h.input n rest) ∧
      ∀ n rest, Finds radix h.input n rest →
        h.readNumber radix =
          .ok (n.map fun n : Nat => Int64.ofInt (min n Int64.maxValue.toInt),
            { h with input := rest }) := by
  constructor
  · exact exists_finds radix h.input
  · intro n rest finds
    have known : radixOk radix = true := by simp [radixOk, low, high]
    simp only [readNumber, known, if_true, read_of_finds (by omega) finds, saturate_natCast]

/-- A sign is skipped, a capital is a digit and the letter after it none; thirteen digits can be too
many for a cell. -/
theorem capital_finds :
    Host.readNumber { clerk with input := [45, 55, 70, 103] } 16 =
        .ok (some 127, { clerk with input := [103] }) ∧
      Host.readNumber { clerk with input := List.replicate 13 122 } 36 =
        .ok (some Int64.maxValue, { clerk with input := [] }) := by
  have few : Finds 16 ([45] ++ ([55, 70] ++ [103])) (some (Nat.ofDigits 16 [7, 15].reverse)) [103] :=
    .number (by simpa using isDigit_eq_false_iff.mp rfl) (by simp)
      (.cons (by decide) (.cons (by decide) .nil)) (by simpa using isDigit_eq_false_iff.mp rfl)
  have many : Finds 36 ([] ++ (List.replicate 13 122 ++ []))
      (some (Nat.ofDigits 36 (List.replicate 13 35).reverse)) [] :=
    .number (by simp) (by simp) (by decide) (by simp)
  constructor
  · exact (readNumber_finds (by decide) (by decide) { clerk with input := [45, 55, 70, 103] }).2 _ _ few
  · exact (readNumber_finds (by decide) (by decide)
      { clerk with input := List.replicate 13 122 }).2 _ _ many

end Host

end Funge
