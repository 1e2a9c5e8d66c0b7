import Funge.Proofs.Readings
import Mathlib.Data.List.Forall2
import Mathlib.Data.Nat.Digits.Lemmas

/-!
# The canonical text of a number

What a text has to be like to be the numeral of an integer is said without a writer: a sign where the
integer is negative, and digits whose positional value is its magnitude, with no zero in front of
another digit. In every radix an integer has one such text and a text stands for one integer at most.
Both writers of cells come to that text, the one that works out the digits and the one that takes the
usual decimal text, so they agree where both apply, and no two cells are written alike.
-/

namespace Funge.Numeral

/-- A character is the digit of a radix with some value. Capitals are none. -/
def Glyph (radix : Nat) (c : Char) (d : Nat) : Prop := d < radix ∧ glyphs[d]? = some c

instance (radix : Nat) (c : Char) (d : Nat) : Decidable (Glyph radix c d) :=
  inferInstanceAs (Decidable (_ ∧ _))

/-- A run of digits, the highest first, spells its positional value. Only a zero that stands alone
comes first. -/
inductive Spells (radix : Nat) : List Char → Nat → Prop
  | digits {run : List Char} {ds : List Nat} (started : ds ≠ [])
      (digital : List.Forall₂ (Glyph radix) run ds) (bare : ds.head? = some 0 → ds = [0]) :
      Spells radix run (Nat.ofDigits radix ds.reverse)

/-- The canonical texts of integers: a minus sign stands before the negative ones and no others. -/
inductive Canonical (radix : Nat) : List Char → Int → Prop
  | natural {run : List Char} {n : Nat} (spelled : Spells radix run n) : Canonical radix run n
  | negative {run : List Char} {n : Nat} (spelled : Spells radix run n) (positive : 0 < n) :
      Canonical radix ('-' :: run) (-n)

section Glyphs

variable {radix : Nat} {c : Char} {d e : Nat}

theorem glyphs_eq_map_digitChar : glyphs = (List.range 36).map digitChar := by decide +kernel

theorem glyph_iff (high : radix ≤ 36) : Glyph radix c d ↔ d < radix ∧ digitChar d = c := by
  rw [Glyph, glyphs_eq_map_digitChar]
  refine and_congr_right fun below => ?_
  have inside : d < 36 := by omega
  simp [inside]

/-- A character has one value at most. -/
theorem Glyph.value_unique (first : Glyph radix c d) (second : Glyph radix c e) : d = e := by
  have distinct : glyphs.Nodup := by decide +kernel
  obtain ⟨inside, _⟩ := List.getElem?_eq_some_iff.mp first.2
  exact (List.getElem?_inj inside distinct).mp (first.2.trans second.2.symm)

theorem not_glyph_sign (radix d : Nat) : ¬ Glyph radix '-' d := by
  rintro ⟨_, listed⟩
  have absent : '-' ∉ glyphs := by decide +kernel
  exact absent (List.mem_of_getElem? listed)

end Glyphs

section Digits

variable {radix : Nat}

/-- A positive number has the digits of positional notation. -/
theorem digits_of_pos (low : 2 ≤ radix) {n : Nat} (positive : 0 < n) :
    digits radix n = Nat.digits radix n := by
  fun_induction digits radix n with
  | case1 n small =>
    rw [Nat.digits_of_lt radix n (by omega) (by omega)]
  | case2 n large ih =>
    have rest : 0 < n / radix := Nat.div_pos (by omega) (by omega)
    rw [Nat.digits_def' (by omega) positive, ih rest]

theorem digits_zero (low : 2 ≤ radix) : digits radix 0 = [0] := by
  rw [digits, if_pos (by omega)]

theorem ofDigits_digits (low : 2 ≤ radix) (n : Nat) : Nat.ofDigits radix (digits radix n) = n := by
  rcases Nat.eq_zero_or_pos n with rfl | positive
  · simp [digits_zero low]
  · rw [digits_of_pos low positive, Nat.ofDigits_digits]

theorem digits_ne_nil (radix n : Nat) : digits radix n ≠ [] := by
  rw [digits]
  split <;> simp

/-- The highest digit is no zero unless it is the only one. -/
theorem digits_bare (low : 2 ≤ radix) (n : Nat) :
    (digits radix n).reverse.head? = some 0 → (digits radix n).reverse = [0] := by
  intro leads
  rcases Nat.eq_zero_or_pos n with rfl | positive
  · rw [digits_zero low]
    rfl
  · rw [List.head?_reverse, digits_of_pos low positive] at leads
    have last := Nat.getLast_digit_ne_zero radix positive.ne'
    exact absurd (List.getLast_of_getLast?_eq_some leads) last

/-- Digits without a zero in front are those of their value. -/
theorem digits_ofDigits (low : 2 ≤ radix) {ds : List Nat} (below : ∀ d ∈ ds, d < radix)
    (started : ds ≠ []) (bare : ds.head? = some 0 → ds = [0]) :
    digits radix (Nat.ofDigits radix ds.reverse) = ds.reverse := by
  by_cases leads : ds.head? = some 0
  · rw [bare leads]
    exact digits_zero low
  · have last : ∀ h : ds.reverse ≠ [], ds.reverse.getLast h ≠ 0 := by
      intro h zero
      apply leads
      rw [← List.getLast?_reverse, List.getLast?_eq_some_getLast h, zero]
    have same := Nat.digits_ofDigits radix (by omega) ds.reverse
      (fun d member => below d (List.mem_reverse.mp member)) last
    -- Positional notation gives zero no digit at all, so the value has to be positive.
    have nonzero : Nat.ofDigits radix ds.reverse ≠ 0 := by
      intro zero
      rw [zero, Nat.digits_zero] at same
      exact started (List.reverse_eq_nil_iff.mp same.symm)
    rw [digits_of_pos low (Nat.pos_of_ne_zero nonzero), same]

end Digits

section Naturals

variable {radix : Nat} {run : List Char} {ds : List Nat} {m n : Nat}

theorem forall₂_glyph_iff (high : radix ≤ 36) :
    List.Forall₂ (Glyph radix) run ds ↔ (∀ d ∈ ds, d < radix) ∧ ds.map digitChar = run := by
  induction ds generalizing run with
  | nil => simp [eq_comm]
  | cons d ds ih =>
    cases run with
    | nil => simp
    | cons c run => simp [ih, glyph_iff high, and_assoc, and_left_comm]

/-- The numeral of a natural number spells it, and nothing else does. -/
theorem spells_iff (low : 2 ≤ radix) (high : radix ≤ 36) :
    Spells radix run n ↔ run = ofNat radix n := by
  constructor
  · rintro ⟨started, digital, bare⟩
    obtain ⟨below, same⟩ := (forall₂_glyph_iff high).mp digital
    rw [ofNat, digits_ofDigits low below started bare, List.map_reverse, List.reverse_reverse, same]
  · rintro rfl
    have started : (digits radix n).reverse ≠ [] := by simpa using digits_ne_nil radix n
    have below : ∀ d ∈ (digits radix n).reverse, d < radix := by simpa using digits_lt low n
    have digital : List.Forall₂ (Glyph radix) (ofNat radix n) (digits radix n).reverse :=
      (forall₂_glyph_iff high).mpr ⟨below, List.map_reverse⟩
    have spelled := Spells.digits started digital (digits_bare low n)
    rwa [List.reverse_reverse, ofDigits_digits low] at spelled

theorem Spells.number_unique (first : Spells radix run m) (second : Spells radix run n) : m = n := by
  obtain ⟨_, digital, _⟩ := first
  obtain ⟨_, other, _⟩ := second
  have unique : Relator.RightUnique (Glyph radix) := fun _ _ _ => Glyph.value_unique
  rw [List.right_unique_forall₂' unique digital other]

/-- A sign is no digit. -/
theorem not_spells_signed : ¬ Spells radix ('-' :: run) n := by
  rintro ⟨_, digital, _⟩
  obtain ⟨d, _, sign, _⟩ := List.forall₂_cons_left_iff.mp digital
  exact not_glyph_sign radix d sign

end Naturals

section Integers

variable {radix : Nat} {text : List Char} {y z : Int}

theorem Canonical.number_unique (first : Canonical radix text y) (second : Canonical radix text z) :
    y = z := by
  cases first with
  | natural spelled =>
    cases second with
    | natural other => rw [spelled.number_unique other]
    | negative other => exact absurd spelled not_spells_signed
  | negative spelled =>
    cases second with
    | natural other => exact absurd other not_spells_signed
    | negative other => rw [spelled.number_unique other]

/-- Each integer has one canonical text. -/
theorem canonical_iff (low : 2 ≤ radix) (high : radix ≤ 36) :
    Canonical radix text z ↔ text = ofInt radix z := by
  rw [ofInt]
  constructor
  · intro canonical
    cases canonical with
    | natural spelled =>
      rw [if_neg (by omega), (spells_iff low high).mp spelled]
      rfl
    | negative spelled positive =>
      rw [if_pos (by omega), (spells_iff low high).mp spelled, Int.natAbs_neg, Int.natAbs_natCast]
      rfl
  · rintro rfl
    have spelled : Spells radix (ofNat radix z.natAbs) z.natAbs := (spells_iff low high).mpr rfl
    split
    · have signed := Canonical.negative spelled (by omega)
      rwa [show -(z.natAbs : Int) = z by omega] at signed
    · have unsigned := Canonical.natural spelled
      rwa [show (z.natAbs : Int) = z by omega] at unsigned

end Integers

/-- In every radix each cell has a numeral. It is the one canonical text of the cell as an integer,
the decimal writer and the one that works out the digits both come to it, and no other cell has it. -/
theorem numerals_canonical {radix : Nat} (low : 2 ≤ radix) (high : radix ≤ 36) :
    (∀ v : Cell, ∃ text : List Char,
        format? radix v = some (String.ofList text) ∧ spell? radix v = some (String.ofList text) ∧
        Canonical radix text v.toInt ∧ ∀ other, Canonical radix other v.toInt → other = text) ∧
      ∀ v w : Cell, format? radix v = format? radix w → v = w := by
  have canonical (v : Cell) : Canonical radix (ofInt radix v.toInt) v.toInt :=
    (canonical_iff low high).mpr rfl
  constructor
  · intro v
    refine ⟨ofInt radix v.toInt, format?_eq_ofInt low high v, spell?_eq_ofInt low v, canonical v, ?_⟩
    intro other also
    exact (canonical_iff low high).mp also
  · intro v w same
    rw [format?_eq_ofInt low high, format?_eq_ofInt low high, Option.some.injEq, String.ofList_inj] at same
    have shared := canonical w
    rw [← same] at shared
    exact Int64.toInt_inj.mp ((canonical v).number_unique shared)

/-- The magnitude of the least cell has 64 digits in the lowest radix. -/
theorem least_cell_canonical :
    format? 2 Int64.minValue = some (String.ofList ('-' :: '1' :: List.replicate 63 '0')) ∧
      format? 10 Int64.minValue = some "-9223372036854775808" ∧
      spell? 10 Int64.minValue = some "-9223372036854775808" := by
  have bits : List.Forall₂ (Glyph 2) ('1' :: List.replicate 63 '0') (1 :: List.replicate 63 0) := by
    decide
  have figures : List.Forall₂ (Glyph 10) "9223372036854775808".toList
      [9, 2, 2, 3, 3, 7, 2, 0, 3, 6, 8, 5, 4, 7, 7, 5, 8, 0, 8] := by decide
  have binary : Canonical 2 ('-' :: '1' :: List.replicate 63 '0') Int64.minValue.toInt :=
    .negative (.digits (by simp) bits (by simp)) (by decide)
  have decimal : Canonical 10 "-9223372036854775808".toList Int64.minValue.toInt :=
    .negative (.digits (by simp) figures (by simp)) (by decide)
  obtain ⟨_, written, _, _, lowest⟩ :=
    (numerals_canonical (show 2 ≤ 2 by decide) (by decide)).1 Int64.minValue
  obtain ⟨_, formatted, spelled, _, usual⟩ :=
    (numerals_canonical (show 2 ≤ 10 by decide) (by decide)).1 Int64.minValue
  rw [written, formatted, spelled, ← lowest _ binary, ← usual _ decimal]
  exact ⟨rfl, rfl, rfl⟩

end Funge.Numeral
