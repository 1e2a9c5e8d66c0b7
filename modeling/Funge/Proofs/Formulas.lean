import Funge.Document.Codec
import Funge.Proofs.Vec
import Mathlib.Algebra.Module.Defs
import Mathlib.Data.ZMod.Basic

/-!
# Formulas of vectors

A formula composes vectors from lists, documents and units by all operations on them. What it denotes
at an index is a residue modulo 2^64 that depends on the operands at that index alone. The vector that
it is worked out to has these residues as its components and is stored up to the last one that is not
zero, whichever way it came about; some operations drop zeros at the end and others rely on there
being none. So formulas with the same components are worked out to the same stored vector, and vectors
form a module over the residues.
-/

namespace Funge

/-- The integers modulo 2^64. -/
abbrev Residue := ZMod (2 ^ 64)

namespace Cell

/-- The residue of a cell as an integer. -/
def residue (c : Cell) : Residue := (c.toInt : Residue)

/-- The cell with a residue. -/
def ofResidue (r : Residue) : Cell := Int64.ofInt r.cast

theorem intCast_bmod (n : Int) : ((n.bmod (2 ^ 64) : Int) : Residue) = n :=
  (ZMod.intCast_eq_intCast_iff _ _ _).mpr Int.bmod_emod

@[simp] theorem residue_zero : residue 0 = 0 := rfl

@[simp] theorem residue_one : residue 1 = 1 := rfl

@[simp] theorem residue_add (a b : Cell) : residue (a + b) = residue a + residue b := by
  simp only [residue, Int64.toInt_add, intCast_bmod, Int.cast_add]

@[simp] theorem residue_sub (a b : Cell) : residue (a - b) = residue a - residue b := by
  simp only [residue, Int64.toInt_sub, intCast_bmod, Int.cast_sub]

@[simp] theorem residue_neg (a : Cell) : residue (-a) = -residue a := by
  simp only [residue, Int64.toInt_neg, intCast_bmod, Int.cast_neg]

@[simp] theorem residue_mul (a b : Cell) : residue (a * b) = residue a * residue b := by
  simp only [residue, Int64.toInt_mul, intCast_bmod, Int.cast_mul]

theorem residue_ofInt (n : Int) : residue (Int64.ofInt n) = n := by
  rw [residue, Int64.toInt_ofInt]
  exact intCast_bmod n

@[simp] theorem residue_ofResidue (r : Residue) : residue (ofResidue r) = r :=
  (residue_ofInt r.cast).trans (ZMod.intCast_zmod_cast r)

/-- Cells are told apart by their residues. -/
theorem residue_injective : Function.Injective residue := by
  intro a b same
  have congruent : a.toInt % 2 ^ 64 = b.toInt % 2 ^ 64 :=
    (ZMod.intCast_eq_intCast_iff _ _ _).mp same
  have least := And.intro a.le_toInt b.le_toInt
  have greatest := And.intro a.toInt_lt b.toInt_lt
  apply Int64.toInt_inj.mp
  omega

end Cell

namespace Vec

open Cell

theorem eq_of_residue {a b : Vec} (same : ∀ i, residue (a.get i) = residue (b.get i)) : a = b :=
  ext_get fun i => residue_injective (same i)

instance : AddCommGroup Vec where
  add_assoc a b c := eq_of_residue fun i => by simp [add_assoc]
  add_comm a b := eq_of_residue fun i => by simp [add_comm]
  zero_add a := eq_of_residue fun i => by simp
  add_zero a := eq_of_residue fun i => by simp
  neg_add_cancel a := eq_of_residue fun i => by simp
  sub_eq_add_neg a b := eq_of_residue fun i => by simp [sub_eq_add_neg]
  nsmul := nsmulRec
  zsmul := zsmulRec

/-- A residue acts as the factor that it is the residue of. -/
instance : SMul Residue Vec := ⟨fun r v => v.scale (ofResidue r)⟩

@[simp] theorem residue_get_smul (r : Residue) (v : Vec) (i : Nat) :
    residue ((r • v).get i) = r * residue (v.get i) := by
  change residue ((v.scale (ofResidue r)).get i) = _
  simp [mul_comm]

theorem residue_smul (k : Cell) (v : Vec) : residue k • v = v.scale k :=
  eq_of_residue fun i => by simp [mul_comm]

instance : Module Residue Vec where
  one_smul v := eq_of_residue fun i => by simp
  mul_smul r s v := eq_of_residue fun i => by simp [mul_assoc]
  smul_zero r := eq_of_residue fun i => by simp
  smul_add r a b := eq_of_residue fun i => by simp [mul_add]
  add_smul r s v := eq_of_residue fun i => by simp [add_mul]
  zero_smul v := eq_of_residue fun i => by simp

/-- A composition of the operations on vectors. -/
inductive Formula where
  | list (cs : List Cell)
  | document (d : Document)
  | zero
  | unit (axis : Nat) (sign : Cell)
  | set (e : Formula) (i : Nat) (c : Cell)
  | neg (e : Formula)
  | scale (e : Formula) (k : Cell)
  | add (e f : Formula)
  | sub (e f : Formula)

/-- Number `i` of a document that lists numbers. -/
def entry (i : Nat) : Document → Int
  | .list items =>
    match items[i]? with
    | some (.integer n) => n
    | _ => 0
  | _ => 0

namespace Formula

/-- The vector that a formula is worked out to, unless it has a document that is refused. -/
def eval : Formula → Option Vec
  | .list cs => some (ofList cs)
  | .document d => ofDocument? d
  | .zero => some 0
  | .unit axis sign => some (Vec.unit axis sign)
  | .set e i c => e.eval.map (·.set i c)
  | .neg e => e.eval.map (- ·)
  | .scale e k => e.eval.map (·.scale k)
  | .add e f => e.eval.bind fun a => f.eval.map (a + ·)
  | .sub e f => e.eval.bind fun a => f.eval.map (a - ·)

/-- What a formula denotes at an index. -/
def component (j : Nat) : Formula → Residue
  | .list cs => residue (cs.getD j 0)
  | .document d => entry j d
  | .zero => 0
  | .unit axis sign => if j = axis then sign.toInt.sign else 0
  | .set e i c => if j = i then residue c else e.component j
  | .neg e => -e.component j
  | .scale e k => e.component j * residue k
  | .add e f => e.component j + f.component j
  | .sub e f => e.component j - f.component j

end Formula

theorem residue_of_toCell? {d : Document} {c : Cell} (read : d.toCell? = some c) :
    ∃ n, d = .integer n ∧ residue c = n := by
  cases d with
  | integer n =>
    simp only [Document.toCell?] at read
    split at read
    · cases read
      exact ⟨n, rfl, residue_ofInt n⟩
    · cases read
  | null | bool | fraction | text | list | object => cases read

/-- The components of a vector from a document are the numbers that it lists. -/
theorem residue_get_of_document {d : Document} {v : Vec} (read : ofDocument? d = some v) (i : Nat) :
    residue (v.get i) = entry i d := by
  obtain ⟨cs, listed, rfl⟩ := Option.map_eq_some_iff.mp read
  obtain ⟨items, rfl, cells⟩ := Document.of_toList? listed
  have place := congrArg (·[i]?) cells
  simp only [List.getElem?_map] at place
  rw [get_ofList, List.getD_eq_getElem?_getD]
  cases item : items[i]? with
  | none =>
    rw [item, Option.map_none, eq_comm, Option.map_eq_none_iff] at place
    simp [entry, item, place]
  | some d =>
    rw [item, Option.map_some, eq_comm, Option.map_eq_some_iff] at place
    obtain ⟨c, cell, number⟩ := place
    obtain ⟨n, rfl, same⟩ := residue_of_toCell? number.symm
    simp [entry, item, cell, same]

theorem residue_get_unit (axis : Nat) (sign : Cell) (i : Nat) :
    residue ((unit axis sign).get i) = if i = axis then (sign.toInt.sign : Residue) else 0 := by
  have zero : (0 : Cell).toInt = 0 := rfl
  rw [unit, get_set]
  split
  · rcases lt_trichotomy 0 sign.toInt with positive | none | negative
    · rw [if_pos (by rwa [Int64.lt_iff_toInt_lt, zero]), Int.sign_eq_one_of_pos positive]
      simp
    · rw [if_neg (by simp [Int64.lt_iff_toInt_lt, ← none]),
        if_neg (by simp [Int64.lt_iff_toInt_lt, ← none]), ← none]
      simp
    · rw [if_neg (by rw [Int64.lt_iff_toInt_lt, zero]; omega),
        if_pos (by rwa [Int64.lt_iff_toInt_lt, zero]), Int.sign_eq_neg_one_of_neg negative]
      simp
  · simp

/-- The components of the vector that a formula is worked out to are what it denotes. -/
theorem Formula.residue_get {e : Formula} {v : Vec} (worked : e.eval = some v) (j : Nat) :
    residue (v.get j) = e.component j := by
  induction e generalizing v with
  | list cs =>
    cases worked
    simp [component]
  | document d => exact residue_get_of_document worked j
  | zero =>
    cases worked
    rfl
  | unit axis sign =>
    cases worked
    exact residue_get_unit axis sign j
  | set e i c ih =>
    obtain ⟨a, first, rfl⟩ := Option.map_eq_some_iff.mp worked
    rw [get_set, component, ← ih first]
    split <;> rfl
  | neg e ih =>
    obtain ⟨a, first, rfl⟩ := Option.map_eq_some_iff.mp worked
    rw [get_neg, residue_neg, component, ih first]
  | scale e k ih =>
    obtain ⟨a, first, rfl⟩ := Option.map_eq_some_iff.mp worked
    rw [get_scale, residue_mul, component, ih first]
  | add e f ihe ihf =>
    obtain ⟨a, first, worked⟩ := Option.bind_eq_some_iff.mp worked
    obtain ⟨b, second, rfl⟩ := Option.map_eq_some_iff.mp worked
    rw [get_add, residue_add, component, ihe first, ihf second]
  | sub e f ihe ihf =>
    obtain ⟨a, first, worked⟩ := Option.bind_eq_some_iff.mp worked
    obtain ⟨b, second, rfl⟩ := Option.map_eq_some_iff.mp worked
    rw [get_sub, residue_sub, component, ihe first, ihf second]

/-- A vector is stored up to the last index at which its formula denotes something. -/
theorem Formula.length_le_iff {e : Formula} {v : Vec} (worked : e.eval = some v) (n : Nat) :
    v.entries.length ≤ n ↔ ∀ j, n ≤ j → e.component j = 0 := by
  have short : v.fits n = true ↔ v.entries.length ≤ n := decide_eq_true_iff
  rw [← short, fits_iff]
  constructor
  · intro vanish j beyond
    rw [← e.residue_get worked j, vanish j beyond, residue_zero]
  · intro vanish j beyond
    apply residue_injective
    rw [e.residue_get worked j, vanish j beyond, residue_zero]

/-- Whatever formula a vector is worked out from, it is stored without a zero at the end, just up to
the last component that is not zero, and its components are what the formula denotes. Two such vectors
are equal if they agree at every index, which is if their formulas do. With the cells as factors,
vectors are a module over the residues. -/
theorem formulas_determine_vectors {e f : Formula} {v w : Vec} (first : e.eval = some v)
    (second : f.eval = some w) :
    (v.entries.getLast? ≠ some 0 ∧
      ∀ n, v.entries.length ≤ n ↔ ∀ j, n ≤ j → e.component j = 0) ∧
    (∀ j, residue (v.get j) = e.component j) ∧
    (v = w ↔ ∀ j, v.get j = w.get j) ∧ (v = w ↔ ∀ j, e.component j = f.component j) ∧
    ∃ M : Module Residue Vec, ∀ (k : Cell) (u : Vec), M.smul (residue k) u = u.scale k := by
  have left := e.residue_get first
  have right := f.residue_get second
  refine ⟨⟨v.canonical, e.length_le_iff first⟩, left, ?_, ?_, inferInstance, residue_smul⟩
  · constructor
    · rintro rfl j
      rfl
    · exact ext_get
  · constructor
    · rintro rfl j
      rw [← left, right]
    · intro same
      exact eq_of_residue fun j => by rw [left, same, right]

/-- A sum in which a component vanishes because twice the least cell is zero. -/
def cancelling : Formula :=
  .add (.document (.list [.integer 5, .integer 7, .integer (-9223372036854775808)]))
    (.neg (.list [0, 7, Int64.minValue, 0]))

/-- The sum is stored as if it had been made along one axis. -/
theorem cancelling_determined :
    cancelling.eval = some ⟨[5], by decide⟩ ∧
      ∀ j, cancelling.component j = (Formula.scale (.unit 0 9) 5).component j := by
  have worked : cancelling.eval = some ⟨[5], by decide⟩ := by decide +kernel
  have along : (Formula.scale (.unit 0 9) 5).eval = some ⟨[5], by decide⟩ := by decide +kernel
  obtain ⟨_, _, _, same, _⟩ := formulas_determine_vectors worked along
  exact ⟨worked, same.mp rfl⟩

end Vec

end Funge
