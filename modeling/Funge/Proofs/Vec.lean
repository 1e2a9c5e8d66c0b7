import Funge.Vec

/-!
# Vectors by their components

A vector is determined by its components, every operation acts on them one by one, and a vector
fits a number of dimensions exactly when its components vanish from there on. The order of
vectors compares the first components that differ, so it is a lawful order for maps over points.
-/

namespace Funge

theorem getD_trimZeros (cs : List Cell) (i : Nat) : (trimZeros cs).getD i 0 = cs.getD i 0 := by
  induction cs generalizing i with
  | nil => rfl
  | cons c cs ih =>
    cases hd : trimZeros cs with
    | nil =>
      have rest : ∀ j, cs.getD j 0 = 0 := fun j => by rw [← ih j, hd]; rfl
      by_cases hc : c = 0
      · cases i with
        | zero => simp [trimZeros, hd, hc]
        | succ i => simpa [trimZeros, hd, hc] using (rest i).symm
      · cases i with
        | zero => simp [trimZeros, hd, hc]
        | succ i => simpa [trimZeros, hd, hc] using (rest i).symm
    | cons d ds =>
      cases i with
      | zero => simp [trimZeros, hd]
      | succ i =>
        have tail := ih i
        rw [hd] at tail
        simpa [trimZeros, hd] using tail

theorem length_trimZeros_le (cs : List Cell) : (trimZeros cs).length ≤ cs.length := by
  induction cs with
  | nil => exact Nat.le_refl _
  | cons c cs ih =>
    cases hd : trimZeros cs with
    | nil => by_cases hc : c = 0 <;> simp [trimZeros, hd, hc]
    | cons d ds =>
      rw [hd] at ih
      simpa [trimZeros, hd] using ih

namespace Vec

@[simp] theorem get_zero (i : Nat) : (0 : Vec).get i = 0 := rfl

@[simp] theorem get_ofList (cs : List Cell) (i : Nat) : (ofList cs).get i = cs.getD i 0 :=
  getD_trimZeros cs i

theorem size_ofList_le (cs : List Cell) : (ofList cs).size ≤ cs.length :=
  length_trimZeros_le cs

theorem get_of_size_le {v : Vec} {i : Nat} (h : v.size ≤ i) : v.get i = 0 := by
  simp only [size] at h
  simp [get, List.getD_eq_getElem?_getD, h]

/-- The last stored component is not zero. -/
theorem get_last_ne_zero {v : Vec} {n : Nat} (h : v.size = n + 1) : v.get n ≠ 0 := by
  intro zero
  apply v.canonical
  simp only [size] at h
  have stored : n < v.entries.length := by omega
  rw [List.getLast?_eq_getElem?, h, Nat.add_sub_cancel, List.getElem?_eq_getElem stored]
  simpa [get, List.getD_eq_getElem?_getD, stored] using zero

theorem fits_iff {v : Vec} {dims : Nat} : v.fits dims = true ↔ ∀ i, dims ≤ i → v.get i = 0 := by
  simp only [fits, decide_eq_true_eq]
  constructor
  · intro h i hi
    exact get_of_size_le (Nat.le_trans h hi)
  · intro h
    by_cases small : v.size ≤ dims
    · exact small
    · obtain ⟨n, hn⟩ : ∃ n, v.size = n + 1 := ⟨v.size - 1, by omega⟩
      exact False.elim (get_last_ne_zero hn (h n (by omega)))

theorem size_le_of_get {a b : Vec} (h : ∀ i, a.get i = b.get i) : a.size ≤ b.size := by
  have fit : a.fits b.size = true :=
    fits_iff.mpr fun i hi => (h i).trans (get_of_size_le hi)
  simpa [fits] using fit

/-- Two vectors that agree at every index are equal. -/
theorem ext_get {a b : Vec} (h : ∀ i, a.get i = b.get i) : a = b := by
  have sizes : a.size = b.size :=
    Nat.le_antisymm (size_le_of_get h) (size_le_of_get fun i => (h i).symm)
  have entries : a.entries = b.entries := by
    apply List.ext_getElem sizes
    intro i ha hb
    simpa [get, List.getD_eq_getElem?_getD, ha, hb] using h i
  cases a
  cases b
  cases entries
  rfl

theorem getD_zipWithAll (f : Cell → Cell → Cell) (zero : f 0 0 = 0) (as bs : List Cell) (i : Nat) :
    (List.zipWithAll (fun x y => f (x.getD 0) (y.getD 0)) as bs).getD i 0 =
      f (as.getD i 0) (bs.getD i 0) := by
  simp only [List.getD_eq_getElem?_getD, List.getElem?_zipWithAll]
  cases as[i]? <;> cases bs[i]? <;> simp [zero]

theorem get_zipWith (f : Cell → Cell → Cell) (zero : f 0 0 = 0) (a b : Vec) (i : Nat) :
    (zipWith f a b).get i = f (a.get i) (b.get i) := by
  rw [zipWith, get_ofList, getD_zipWithAll f zero]
  rfl

@[simp] theorem get_add (a b : Vec) (i : Nat) : (a + b).get i = a.get i + b.get i :=
  get_zipWith (· + ·) (by decide) a b i

@[simp] theorem get_sub (a b : Vec) (i : Nat) : (a - b).get i = a.get i - b.get i :=
  get_zipWith (· - ·) (by decide) a b i

theorem getD_map (f : Cell → Cell) (zero : f 0 = 0) (cs : List Cell) (i : Nat) :
    (cs.map f).getD i 0 = f (cs.getD i 0) := by
  simp only [List.getD_eq_getElem?_getD, List.getElem?_map]
  cases cs[i]? <;> simp [zero]

@[simp] theorem get_neg (v : Vec) (i : Nat) : (-v).get i = -v.get i :=
  getD_map (- ·) (by decide) v.entries i

@[simp] theorem get_scale (v : Vec) (k : Cell) (i : Nat) : (v.scale k).get i = v.get i * k := by
  rw [scale, get_ofList]
  exact getD_map (· * k) Int64.zero_mul v.entries i

theorem getD_setEntry (c : Cell) (i : Nat) (cs : List Cell) (j : Nat) :
    (setEntry c i cs).getD j 0 = if j = i then c else cs.getD j 0 := by
  induction i generalizing cs j with
  | zero => cases j <;> cases cs <;> simp [setEntry]
  | succ i ih =>
    cases j with
    | zero => cases cs <;> simp [setEntry]
    | succ j =>
      cases cs with
      | nil => simpa [setEntry] using ih [] j
      | cons b bs => simpa [setEntry] using ih bs j

@[simp] theorem get_set (v : Vec) (i : Nat) (c : Cell) (j : Nat) :
    (v.set i c).get j = if j = i then c else v.get j := by
  by_cases h : c = 0 ∧ v.size ≤ i
  · by_cases hj : j = i
    · subst hj
      simp [set, h, get_of_size_le h.2]
    · simp [set, h, hj]
  · simp only [set, if_neg h, get_ofList, getD_setEntry]
    rfl

theorem fits_zero (dims : Nat) : (0 : Vec).fits dims = true := fits_iff.mpr fun _ _ => rfl

theorem fits_ofList {cs : List Cell} {dims : Nat} (h : cs.length ≤ dims) :
    (ofList cs).fits dims = true := by
  simpa [fits] using Nat.le_trans (size_ofList_le cs) h

theorem fits_add {a b : Vec} {dims : Nat} (ha : a.fits dims = true) (hb : b.fits dims = true) :
    (a + b).fits dims = true := by
  rw [fits_iff] at *
  intro i hi
  simp [ha i hi, hb i hi]

theorem fits_sub {a b : Vec} {dims : Nat} (ha : a.fits dims = true) (hb : b.fits dims = true) :
    (a - b).fits dims = true := by
  rw [fits_iff] at *
  intro i hi
  simp [ha i hi, hb i hi]

theorem fits_neg {v : Vec} {dims : Nat} (h : v.fits dims = true) : (-v).fits dims = true := by
  rw [fits_iff] at *
  intro i hi
  simp [h i hi]

theorem fits_scale {v : Vec} {dims : Nat} (h : v.fits dims = true) (k : Cell) :
    (v.scale k).fits dims = true := by
  rw [fits_iff] at *
  intro i hi
  simp [h i hi]

theorem fits_set {v : Vec} {dims axis : Nat} (h : v.fits dims = true) (ha : axis < dims)
    (c : Cell) : (v.set axis c).fits dims = true := by
  rw [fits_iff] at *
  intro i hi
  have other : i ≠ axis := by omega
  simp [other, h i hi]

theorem fits_unit {dims axis : Nat} (h : axis < dims) (sign : Cell) :
    (unit axis sign).fits dims = true :=
  fits_set (fits_zero dims) h _

@[simp] theorem length_coordinates (v : Vec) (dims : Nat) : (v.coordinates dims).length = dims := by
  simp only [coordinates, size, List.length_append, List.length_take, List.length_replicate]
  omega

theorem getElem?_coordinates (v : Vec) {dims i : Nat} (h : i < dims) :
    (v.coordinates dims)[i]? = some (v.get i) := by
  by_cases stored : i < v.entries.length
  · have taken : i < (v.entries.take dims).length := by simp; omega
    simp [coordinates, List.getElem?_append_left taken, get, stored, h]
  · have taken : (v.entries.take dims).length ≤ i := by simp; omega
    have room : i - (v.entries.take dims).length < dims - v.size := by simp [size]; omega
    simp only [coordinates, List.getElem?_append_right taken, List.getElem?_replicate, if_pos room]
    rw [get_of_size_le (by simp only [size]; omega)]

/-- A list with zeros up to a length, or cut off there. -/
def padded : Nat → List Cell → List Cell
  | 0, _ => []
  | n + 1, cs => cs.headD 0 :: padded n cs.tail

theorem getElem?_padded (n : Nat) (cs : List Cell) {i : Nat} (h : i < n) :
    (padded n cs)[i]? = some (cs.getD i 0) := by
  induction n generalizing cs i with
  | zero => omega
  | succ n ih =>
    cases i with
    | zero => cases cs <;> simp [padded]
    | succ i => cases cs <;> simp [padded, ih _ (show i < n by omega)]

theorem compareZero_eq (n : Nat) (bs : List Cell) (h : bs.length ≤ n) :
    compareZero bs = compare (padded n []) (padded n bs) := by
  induction n generalizing bs with
  | zero =>
    have empty : bs = [] := List.eq_nil_of_length_eq_zero (by omega)
    subst empty
    rfl
  | succ n ih =>
    cases bs with
    | nil => rw [Std.compare_self]; rfl
    | cons b bs =>
      simp only [List.length_cons] at h
      simp only [compareZero, padded, List.headD_cons, List.tail_cons, List.headD_nil,
        List.tail_nil, List.compare_cons_cons]
      rw [ih bs (by omega)]

/-- Lists are compared as if the shorter one went on with zeros. -/
theorem compareEntries_eq (n : Nat) (as bs : List Cell) (ha : as.length ≤ n)
    (hb : bs.length ≤ n) : compareEntries as bs = compare (padded n as) (padded n bs) := by
  induction n generalizing as bs with
  | zero =>
    have empty : as = [] := List.eq_nil_of_length_eq_zero (by omega)
    subst empty
    exact compareZero_eq 0 bs hb
  | succ n ih =>
    cases as with
    | nil => exact compareZero_eq (n + 1) bs hb
    | cons a as =>
      simp only [List.length_cons] at ha
      simp only [compareEntries, padded, List.headD_cons, List.tail_cons, List.compare_cons_cons]
      rw [ih as bs.tail (by omega) (by simp only [List.length_tail]; omega)]

/-- Vectors are compared by their leading components, as many as either of them has. -/
theorem compare_eq (n : Nat) {a b : Vec} (ha : a.size ≤ n) (hb : b.size ≤ n) :
    compare a b = compare (padded n a.entries) (padded n b.entries) :=
  compareEntries_eq n a.entries b.entries ha hb

instance : Std.TransOrd Vec where
  eq_swap := by
    intro a b
    have ha : a.size ≤ max a.size b.size := Nat.le_max_left _ _
    have hb : b.size ≤ max a.size b.size := Nat.le_max_right _ _
    rw [compare_eq _ ha hb, compare_eq _ hb ha]
    exact Std.OrientedCmp.eq_swap
  isLE_trans := by
    intro a b c hab hbc
    have ha : a.size ≤ max a.size (max b.size c.size) := by omega
    have hb : b.size ≤ max a.size (max b.size c.size) := by omega
    have hc : c.size ≤ max a.size (max b.size c.size) := by omega
    rw [compare_eq _ ha hb] at hab
    rw [compare_eq _ hb hc] at hbc
    rw [compare_eq _ ha hc]
    exact Std.TransCmp.isLE_trans hab hbc

instance : Std.LawfulEqOrd Vec where
  compare_self := by
    intro a
    rw [compare_eq _ (Nat.le_refl a.size) (Nat.le_refl a.size)]
    exact Std.ReflCmp.compare_self
  eq_of_compare := by
    intro a b h
    have ha : a.size ≤ max a.size b.size := Nat.le_max_left _ _
    have hb : b.size ≤ max a.size b.size := Nat.le_max_right _ _
    rw [compare_eq _ ha hb] at h
    have same := Std.LawfulEqCmp.eq_of_compare h
    apply ext_get
    intro i
    by_cases hi : i < max a.size b.size
    · have at_i := congrArg (·[i]?) same
      simpa [getElem?_padded _ _ hi, get] using at_i
    · rw [get_of_size_le (by omega), get_of_size_le (by omega)]

end Vec

end Funge
