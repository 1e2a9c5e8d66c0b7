import Funge.Cell

/-!
# Vectors

A vector has infinitely many components of which finitely many are nonzero. It is stored up to
its last nonzero component, so two vectors are equal exactly when they agree at every index, and
each operation acts on all components modulo 2^64.
-/

namespace Funge

/-- Drops the zeros at the end of a list. -/
def trimZeros : List Cell → List Cell
  | [] => []
  | c :: cs =>
    match trimZeros cs with
    | [] => if c = 0 then [] else [c]
    | d :: ds => c :: d :: ds

theorem getLast?_trimZeros (cs : List Cell) : (trimZeros cs).getLast? ≠ some 0 := by
  induction cs with
  | nil => simp [trimZeros]
  | cons c cs ih =>
    simp only [trimZeros]
    split
    · split <;> simp_all
    · rename_i d ds h
      rw [h] at ih
      simpa [List.getLast?_cons_cons] using ih

theorem getLast?_map_neg {cs : List Cell} (h : cs.getLast? ≠ some 0) :
    (cs.map (- ·)).getLast? ≠ some 0 := by
  rw [List.getLast?_map, ne_eq, Option.map_eq_some_iff]
  rintro ⟨c, last, zero⟩
  have same : c = 0 :=
    calc c = - -c := Int64.neg_neg.symm
      _ = 0 := by rw [zero, Int64.neg_zero]
  exact h (same ▸ last)

/-- A point or a displacement of the playfield. -/
structure Vec where
  /-- The components up to the last nonzero one. -/
  entries : List Cell
  canonical : entries.getLast? ≠ some 0
deriving DecidableEq

namespace Vec

/-- The vector with the given leading components and zeros from there on. -/
def ofList (cs : List Cell) : Vec := ⟨trimZeros cs, getLast?_trimZeros cs⟩

instance : Zero Vec := ⟨⟨[], by simp⟩⟩

instance : Inhabited Vec := ⟨0⟩

/-- Component `i`. -/
def get (v : Vec) (i : Nat) : Cell := v.entries.getD i 0

/-- Number of components up to the last nonzero one. -/
def size (v : Vec) : Nat := v.entries.length

def isZero (v : Vec) : Bool := v.entries.isEmpty

/-- All components from index `dims` on are zero. -/
def fits (v : Vec) (dims : Nat) : Bool := v.size ≤ dims

/-- The first `dims` components. -/
def coordinates (v : Vec) (dims : Nat) : List Cell :=
  v.entries.take dims ++ List.replicate (dims - v.size) 0

/-- The list with component `i` replaced, with as many zeros put in between as that takes. -/
def setEntry (c : Cell) : Nat → List Cell → List Cell
  | 0, cs => c :: cs.tail
  | i + 1, cs => cs.headD 0 :: setEntry c i cs.tail

/-- The vector with component `i` replaced. Past the last component a zero is there already. -/
def set (v : Vec) (i : Nat) (c : Cell) : Vec :=
  if c = 0 ∧ v.size ≤ i then v else ofList (setEntry c i v.entries)

/-- The unit vector along an axis, pointing the way `sign` does; zero if `sign` is. -/
def unit (axis : Nat) (sign : Cell) : Vec :=
  set 0 axis (if 0 < sign then 1 else if sign < 0 then -1 else 0)

/-- Combines two vectors component by component. -/
def zipWith (f : Cell → Cell → Cell) (a b : Vec) : Vec :=
  ofList (List.zipWithAll (fun x y => f (x.getD 0) (y.getD 0)) a.entries b.entries)

instance : Add Vec := ⟨zipWith (· + ·)⟩

instance : Sub Vec := ⟨zipWith (· - ·)⟩

/-- Only zero is the negative of zero, so there are no zeros to be dropped. -/
instance : Neg Vec := ⟨fun v => ⟨v.entries.map (- ·), getLast?_map_neg v.canonical⟩⟩

/-- The vector with every component multiplied by `k`. -/
def scale (v : Vec) (k : Cell) : Vec := ofList (v.entries.map (· * k))

/-- Lexicographic comparison of the zero vector with a list of components. -/
def compareZero : List Cell → Ordering
  | [] => .eq
  | b :: bs => (compare 0 b).then (compareZero bs)

/-- Lexicographic comparison of lists of components, the shorter one continued with zeros. -/
def compareEntries : List Cell → List Cell → Ordering
  | [], bs => compareZero bs
  | a :: as, bs => (compare a (bs.headD 0)).then (compareEntries as bs.tail)

/-- Vectors are ordered by their first differing component. -/
instance : Ord Vec := ⟨fun a b => compareEntries a.entries b.entries⟩

/-- The significant components in parentheses; the zero vector is written with one zero. -/
def toText (v : Vec) : String :=
  "(" ++ (if v.isZero then "0" else ", ".intercalate (v.entries.map (toString ·.toInt))) ++ ")"

end Vec

end Funge
