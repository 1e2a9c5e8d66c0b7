import Funge.Proofs.RoundTrip
import Funge.Session

/-!
# Programs shown as they lie in space

A program that is loaded at the origin consists of bytes at places of a text, so no coordinate of
it is negative and the box around it is measured without a wrap. Its text, as it is shown, is the
box written out in full. Read again, it puts the program down with the least corner of the box at
the origin, where the box is shown as the same text.
-/

namespace Funge

theorem Vec.zero_add (v : Vec) : 0 + v = v := by
  apply ext_get
  intro i
  simp

theorem Vec.sub_zero (v : Vec) : v - 0 = v := by
  apply ext_get
  intro i
  simp

theorem Vec.add_sub_cancel_left (a b : Vec) : a + b - a = b := by
  apply ext_get
  intro i
  simp only [get_add, get_sub]
  grind

theorem Vec.add_sub_cancel (a b : Vec) : a + (b - a) = b := by
  apply ext_get
  intro i
  simp only [get_add, get_sub]
  grind

/-- Distances from a cell that is not negative do not wrap. -/
theorem Cell.sub_bounds {a b c : Cell} (low : 0 ≤ a) (above : a ≤ b) (below : b ≤ c) :
    0 ≤ b - a ∧ b - a ≤ c - a := by
  grind

namespace Text

theorem length_marks_le (bytes : List UInt8) : (marks bytes).length ≤ bytes.length := by
  induction bytes with
  | nil => exact Nat.le_refl _
  | cons b bytes ih =>
    rw [marks, List.length_cons]
    split
    · omega
    · split
      · simpa using ih
      · split <;> simpa using ih

/-- A byte that is left as ink is no break. -/
theorem plain_of_mem_marks {bytes : List UInt8} {b : UInt8} (h : .ink b ∈ marks bytes) :
    Plain b := by
  induction bytes with
  | nil => cases h
  | cons d bytes ih =>
    rw [marks] at h
    split at h
    · exact ih h
    · split at h
      · exact ih (by simpa using h)
      · rename_i noBreak
        split at h
        · exact ih (by simpa using h)
        · rename_i noPage
          rcases List.mem_cons.mp h with here | later
          · cases here
            exact ⟨fun line => noBreak (.inr line), noPage, fun ret => noBreak (.inl ret)⟩
          · exact ih later

namespace Cursor

/-- The greatest coordinate of a cursor. -/
def reach (c : Cursor) : Nat := max c.column (max c.line c.page)

theorem reach_right_le (c : Cursor) : c.right.reach ≤ c.reach + 1 := by
  simp only [reach, right]
  omega

theorem reach_nextLine_le (dims : Nat) (c : Cursor) : (c.nextLine dims).reach ≤ c.reach + 1 := by
  simp only [reach, nextLine]
  split
  · simp only
    omega
  · omega

theorem reach_nextPage_le (dims : Nat) (c : Cursor) : (c.nextPage dims).reach ≤ c.reach + 1 := by
  simp only [reach, nextPage]
  split
  · simp only
    omega
  · omega

end Cursor

/-- Each mark leads the cursor on by one place at most. -/
theorem mem_layout {dims n : Nat} {c : Cursor} {ms : List Mark} (room : c.reach + ms.length ≤ n)
    {d : Cursor} {b : UInt8} (h : (d, b) ∈ layout dims c ms) : d.reach < n ∧ .ink b ∈ ms := by
  induction ms generalizing c with
  | nil => cases h
  | cons m ms ih =>
    rw [List.length_cons] at room
    have further : ∀ next : Cursor, next.reach ≤ c.reach + 1 → (d, b) ∈ layout dims next ms →
        d.reach < n ∧ .ink b ∈ m :: ms := by
      intro next step later
      obtain ⟨bound, member⟩ := ih (by omega) later
      exact ⟨bound, List.mem_cons_of_mem m member⟩
    cases m with
    | ink a =>
      rcases List.mem_cons.mp h with here | later
      · cases here
        exact ⟨by omega, List.mem_cons_self⟩
      · exact further c.right c.reach_right_le later
    | lineBreak => exact further (c.nextLine dims) (c.reach_nextLine_le dims) h
    | pageBreak => exact further (c.nextPage dims) (c.reach_nextPage_le dims) h

/-- A text has no more columns, lines or pages than bytes. -/
theorem mem_placed {dims : Nat} {source : List UInt8} {c : Cursor} {b : UInt8}
    (h : (c, b) ∈ placed dims false source) : c.reach < source.length ∧ Plain b := by
  have room : Cursor.reach {} + (marks source).length ≤ source.length := by
    have shorter := length_marks_le source
    simpa [Cursor.reach] using shorter
  obtain ⟨bound, member⟩ := mem_layout room h
  exact ⟨bound, plain_of_mem_marks member⟩

/-- The cursor that counts the components of a point. -/
def Cursor.ofVec (v : Vec) : Cursor :=
  ⟨(v.get 0).toCount, (v.get 1).toCount, (v.get 2).toCount⟩

theorem ofNat_toCount {a : Cell} (h : 0 ≤ a) : Int64.ofNat a.toCount = a := by
  have lower : 0 ≤ a.toInt := by simpa using Int64.le_iff_toInt_le.mp h
  have upper := a.toInt_lt
  apply Int64.toInt_inj.mp
  rw [Cell.toCount, Int64.toInt_ofNat_of_lt (by omega)]
  omega

theorem Cursor.toVec_ofVec {v : Vec} (low : ∀ i, 0 ≤ v.get i) (flat : v.fits 3 = true) :
    (ofVec v).toVec = v := by
  apply Vec.ext_get
  intro i
  match i with
  | 0 => simp [toVec, ofVec, ofNat_toCount (low 0)]
  | 1 => simp [toVec, ofVec, ofNat_toCount (low 1)]
  | 2 => simp [toVec, ofVec, ofNat_toCount (low 2)]
  | i + 3 =>
    rw [Vec.fits_iff.mp flat (i + 3) (by omega)]
    simp [toVec]

theorem Cursor.toVec_bounds {c : Cursor} {n : Nat} (h : c.reach < n) (small : n < 2 ^ 63) (i : Nat) :
    0 ≤ (c.toVec.get i).toInt ∧ (c.toVec.get i).toInt < n := by
  have component : ∀ {m : Nat}, m ≤ c.reach →
      0 ≤ (Int64.ofNat m).toInt ∧ (Int64.ofNat m).toInt < n := by
    intro m hm
    rw [Int64.toInt_ofNat_of_lt (by omega)]
    omega
  simp only [reach] at component
  match i with
  | 0 => simpa [toVec] using component (m := c.column) (by omega)
  | 1 => simpa [toVec] using component (m := c.line) (by omega)
  | 2 => simpa [toVec] using component (m := c.page) (by omega)
  | i + 3 => simpa [toVec] using (show 0 < n by omega)

end Text

namespace Space

open Text

/-- What is found at a point after writes was there before or is written. -/
theorem inscribe_eq_or_mem (dims : Nat) (m : Vec → Cell) (writes : List (Vec × Cell)) (v : Vec) :
    inscribe dims m writes v = m v ∨ (v, inscribe dims m writes v) ∈ writes := by
  induction writes generalizing m with
  | nil => exact .inl rfl
  | cons w writes ih =>
    obtain ⟨u, d⟩ := w
    rw [inscribe]
    split
    · rcases ih (Function.update m u d) with kept | written
      · by_cases here : v = u
        · subst here
          rw [kept, Function.update_self]
          exact .inr List.mem_cons_self
        · rw [kept, Function.update_of_ne here]
          exact .inl rfl
      · exact .inr (List.mem_cons_of_mem _ written)
    · exact .inl rfl

/-- Every live cell is a byte of a text, other than a break, in one of the first `n` columns,
lines and pages. -/
def Typeset (s : Space) (n : Nat) : Prop :=
  ∀ v, s.peek v ≠ Cell.blank →
    ∃ c b, v = Cursor.toVec c ∧ c.reach < n ∧ s.peek v = Cell.ofByte b ∧ Plain b

/-- A program is typeset by its load. -/
theorem load_typeset {dims : Nat} (positive : 0 < dims) (source : List UInt8) :
    ∃ size s, (empty dims).load 0 source false = (.ok size, s) ∧ s.dims = dims ∧ s.Sound ∧
      s.Typeset source.length := by
  obtain ⟨size, s, loaded, same, holds⟩ := load_holds positive (Vec.fits_zero dims) source false
  refine ⟨size, s, loaded, same, holds.sound, ?_⟩
  intro v ink
  rw [holds.peek] at ink ⊢
  rcases inscribe_eq_or_mem dims (fun _ => Cell.blank) _ v with blank | written
  · exact False.elim (ink blank)
  · obtain ⟨c, b, place, _, point, value⟩ := Call.mem_writes_load.mp written
    obtain ⟨bound, plain⟩ := mem_placed place
    exact ⟨c, b, by rw [point, Vec.zero_add], bound, value, plain⟩

/-- The corners have the least and the greatest coordinates of the live cells. -/
structure Box (s : Space) (least greatest : Vec) : Prop where
  low : ∀ i, ∃ v, s.peek v ≠ Cell.blank ∧ v.get i = least.get i
  high : ∀ i, ∃ v, s.peek v ≠ Cell.blank ∧ v.get i = greatest.get i
  between : ∀ v, s.peek v ≠ Cell.blank → ∀ i, least.get i ≤ v.get i ∧ v.get i ≤ greatest.get i

theorem Box.unique {s : Space} {least greatest least' greatest' : Vec}
    (box : s.Box least greatest) (box' : s.Box least' greatest') :
    least = least' ∧ greatest = greatest' := by
  constructor
  · apply Vec.ext_get
    intro i
    obtain ⟨v, live, lowest⟩ := box.low i
    obtain ⟨v', live', lowest'⟩ := box'.low i
    have above := (box.between v' live' i).1
    have above' := (box'.between v live i).1
    rw [lowest'] at above
    rw [lowest] at above'
    exact Int64.le_antisymm above above'
  · apply Vec.ext_get
    intro i
    obtain ⟨v, live, highest⟩ := box.high i
    obtain ⟨v', live', highest'⟩ := box'.high i
    have below := (box.between v' live' i).2
    have below' := (box'.between v live i).2
    rw [highest'] at below
    rw [highest] at below'
    exact Int64.le_antisymm below' below

theorem Sound.fits_of_live {s : Space} (h : s.Sound) {v : Vec} (live : s.peek v ≠ Cell.blank) :
    v.fits s.dims = true := h.fitting v ((h.mem_iff v).mpr live)

/-- The corners that the bookkeeping gives are those of the box. -/
theorem Sound.box_of_bounds? {s : Space} (h : s.Sound) {least greatest : Vec}
    (bounds : s.bounds? = some (least, greatest)) : s.Box least greatest := by
  obtain ⟨fits, fits', extents⟩ := h.bounds?.2 least greatest bounds
  have spans : ∀ i, i < s.dims → Occupancy.Spans
      (fun c => ∃ v, s.peek v ≠ Cell.blank ∧ v.get i = c) (some (least.get i, greatest.get i)) := by
    intro i hi
    rw [← extents i hi]
    exact h.spans hi
  obtain ⟨u, alive, _⟩ := (spans 0 h.positive).1
  have flat : ∀ {v : Vec} {i : Nat}, v.fits s.dims = true → ¬ i < s.dims → v.get i = 0 :=
    fun hv hi => Vec.fits_iff.mp hv _ (Nat.le_of_not_lt hi)
  refine ⟨?_, ?_, ?_⟩
  · intro i
    by_cases hi : i < s.dims
    · exact (spans i hi).1
    · exact ⟨u, alive, by rw [flat (h.fits_of_live alive) hi, flat fits hi]⟩
  · intro i
    by_cases hi : i < s.dims
    · exact (spans i hi).2.1
    · exact ⟨u, alive, by rw [flat (h.fits_of_live alive) hi, flat fits' hi]⟩
  · intro v live i
    by_cases hi : i < s.dims
    · exact (spans i hi).2.2 (v.get i) ⟨v, live, rfl⟩
    · rw [flat (h.fits_of_live live) hi, flat fits hi, flat fits' hi]
      exact ⟨Int64.le_refl _, Int64.le_refl _⟩

theorem Sound.bounds?_eq_some {s : Space} (h : s.Sound) {least greatest : Vec}
    (box : s.Box least greatest) : s.bounds? = some (least, greatest) := by
  cases bounds : s.bounds? with
  | none =>
    obtain ⟨v, live, _⟩ := box.low 0
    exact False.elim (live (h.bounds?.1.mp bounds v))
  | some corners =>
    obtain ⟨least', greatest'⟩ := corners
    obtain ⟨rfl, rfl⟩ := box.unique (h.box_of_bounds? bounds)
    rfl

/-- A space that holds the same cells with the least corner at the origin has its box there. -/
theorem Box.moved {s t : Space} {least greatest : Vec} (box : s.Box least greatest)
    (low : ∀ i, 0 ≤ least.get i) (same : ∀ v, t.peek v = s.peek (least + v)) :
    t.Box 0 (greatest - least) := by
  have back : ∀ v, t.peek (v - least) = s.peek v := by
    intro v
    rw [same, Vec.add_sub_cancel]
  refine ⟨?_, ?_, ?_⟩
  · intro i
    obtain ⟨v, live, lowest⟩ := box.low i
    refine ⟨v - least, by rwa [back], ?_⟩
    simp [lowest]
  · intro i
    obtain ⟨v, live, highest⟩ := box.high i
    refine ⟨v - least, by rwa [back], ?_⟩
    simp [highest]
  · intro v live i
    rw [same] at live
    obtain ⟨above, below⟩ := box.between (least + v) live i
    have inside := Cell.sub_bounds (low i) above below
    rwa [← Vec.get_sub, ← Vec.get_sub, Vec.add_sub_cancel_left] at inside

/-- Size of the region that a box is, its greatest corner included. -/
def boxSize (dims : Nat) (least greatest : Vec) : Vec :=
  greatest - least + Vec.ofList (List.replicate dims 1)

theorem toCount_add_one {a b : Cell} (low : 0 ≤ a) (ordered : a ≤ b) (room : b.toInt < 2 ^ 63 - 1) :
    (b - a + 1).toCount = (b - a).toCount + 1 := by
  have difference := Int64.toInt_sub_of_le b a low ordered
  have lower : 0 ≤ a.toInt := by simpa using Int64.le_iff_toInt_le.mp low
  have upper : a.toInt ≤ b.toInt := Int64.le_iff_toInt_le.mp ordered
  have sum : (b - a + 1).toInt = (b - a).toInt + 1 := by
    rw [Int64.toInt_add, Int64.toInt_one, Int.bmod_eq_of_le (by omega) (by omega)]
  rw [Cell.toCount, Cell.toCount, sum]
  omega

theorem cellByte_ofByte (b : UInt8) : cellByte (Cell.ofByte b) = b := by
  have small := b.toNat_lt
  have value : (Cell.ofByte b).toInt = b.toNat := Int64.toInt_ofNat_of_lt (by omega)
  have low : 0 ≤ Cell.ofByte b := by
    rw [Int64.le_iff_toInt_le, value]
    simp
  have high : Cell.ofByte b ≤ 255 := by
    rw [Int64.le_iff_toInt_le, value]
    simp
    omega
  simp [cellByte, Cell.toByte?, low, high, value]

namespace Typeset

variable {s : Space} {n : Nat} (h : s.Typeset n)

include h

/-- Every cell is written as a byte that stands for it and breaks nothing. -/
theorem legible (v : Vec) :
    Cell.ofByte (cellByte (s.peek v)) = s.peek v ∧ Plain (cellByte (s.peek v)) := by
  by_cases blank : s.peek v = Cell.blank
  · rw [blank]
    exact ⟨rfl, by decide, by decide, by decide⟩
  · obtain ⟨c, b, _, _, value, plain⟩ := h v blank
    rw [value, cellByte_ofByte]
    exact ⟨rfl, plain⟩

variable (stored : n < 2 ^ 63) {least greatest : Vec} (box : s.Box least greatest)

include stored in
theorem live_bounds {v : Vec} (live : s.peek v ≠ Cell.blank) (i : Nat) :
    0 ≤ (v.get i).toInt ∧ (v.get i).toInt < n := by
  obtain ⟨c, b, rfl, bound, _⟩ := h v live
  exact c.toVec_bounds bound stored i

include box

theorem least_fits : least.fits 3 = true := by
  rw [Vec.fits_iff]
  intro i hi
  obtain ⟨v, live, lowest⟩ := box.low i
  obtain ⟨c, b, rfl, _⟩ := h v live
  rw [← lowest]
  exact Vec.fits_iff.mp (Vec.fits_ofList (Nat.le_refl 3)) i hi

include stored

theorem least_nonneg (i : Nat) : 0 ≤ least.get i := by
  obtain ⟨v, live, lowest⟩ := box.low i
  rw [Int64.le_iff_toInt_le, ← lowest]
  exact (h.live_bounds stored live i).1

/-- On each axis the region of the box takes one place more than the distance of its corners. -/
theorem regionLength_boxSize (sound : s.Sound) (i : Nat) :
    s.regionLength (boxSize s.dims least greatest) i = ((greatest - least).get i).toCount + 1 := by
  obtain ⟨v, live, highest⟩ := box.high i
  by_cases axis : i < s.dims
  · have ordered : least.get i ≤ greatest.get i := highest ▸ (box.between v live i).1
    have room := (h.live_bounds stored live i).2
    rw [highest] at room
    have one : (List.replicate s.dims (1 : Cell)).getD i 0 = 1 := by simp [axis]
    rw [regionLength, if_pos axis, boxSize, Vec.get_add, Vec.get_ofList, one, Vec.get_sub,
      toCount_add_one (h.least_nonneg stored box i) ordered (by omega)]
  · have flat : ∀ u, s.peek u ≠ Cell.blank → u.get i = 0 := fun u hu =>
      Vec.fits_iff.mp (sound.fits_of_live hu) i (Nat.le_of_not_lt axis)
    obtain ⟨u, live', lowest⟩ := box.low i
    rw [regionLength, if_neg axis, Vec.get_sub, ← lowest, ← highest, flat u live', flat v live]
    rfl

/-- Every live cell belongs to the region of the box. -/
theorem exists_cursor (sound : s.Sound) {v : Vec} (live : s.peek v ≠ Cell.blank) :
    ∃ c, s.InRegion (boxSize s.dims least greatest) c ∧ v = least + c.toVec := by
  have inside : ∀ i, 0 ≤ (v - least).get i ∧ (v - least).get i ≤ (greatest - least).get i := by
    intro i
    obtain ⟨above, below⟩ := box.between v live i
    rw [Vec.get_sub, Vec.get_sub]
    exact Cell.sub_bounds (h.least_nonneg stored box i) above below
  have flat : v.fits 3 = true := by
    obtain ⟨c, b, rfl, _⟩ := h v live
    exact Vec.fits_ofList (Nat.le_refl 3)
  have shorter : ∀ i, ((v - least).get i).toCount <
      s.regionLength (boxSize s.dims least greatest) i := by
    intro i
    have below := Int64.le_iff_toInt_le.mp (inside i).2
    rw [h.regionLength_boxSize stored box sound, Cell.toCount, Cell.toCount]
    omega
  refine ⟨.ofVec (v - least), ⟨shorter 0, shorter 1, shorter 2⟩, ?_⟩
  rw [Cursor.toVec_ofVec (fun i => (inside i).1) (Vec.fits_sub flat (h.least_fits box)),
    Vec.add_sub_cancel]

/-- The box, written out and loaded at the origin, is the program moved there. -/
theorem reload (sound : s.Sound) {text : List UInt8}
    (dumped : s.dump least (boxSize s.dims least greatest) false = .ok text) :
    ∃ extent copy, (empty s.dims).load 0 text false = (.ok extent, copy) ∧ copy.dims = s.dims ∧
      copy.Sound ∧ ∀ v, copy.peek v = s.peek (least + v) := by
  obtain ⟨fits, _⟩ := sound.bounds?.2 least greatest (sound.bounds?_eq_some box)
  obtain ⟨accepted, rfl⟩ := dump_eq_ok sound.positive fits dumped
  have places : placed s.dims false (joinPages (s.region least (boxSize s.dims least greatest))) =
      pagePlaces 0 (s.region least (boxSize s.dims least greatest)) :=
    placed_region fun c _ => (h.legible (least + c.toVec)).2
  obtain ⟨extent, copy, loaded, same, cells⟩ := load_of_places sound.positive (Vec.fits_zero _)
    accepted (fun c _ => (h.legible (least + c.toVec)).1)
    (fun c b place => mem_pagePlaces_region.mp (places ▸ place))
    (fun c hc _ => places ▸ mem_pagePlaces_region.mpr ⟨hc, rfl⟩)
  -- The copy is sound because it comes from a load, whatever its text.
  obtain ⟨_, _, loaded', _, sound', _⟩ := load_typeset sound.positive
    (joinPages (s.region least (boxSize s.dims least greatest)))
  obtain ⟨-, rfl⟩ := Prod.mk.inj (loaded.symm.trans loaded')
  refine ⟨extent, copy, loaded, same, sound', ?_⟩
  intro v
  by_cases live : s.peek (least + v) = Cell.blank
  · -- What the copy holds it has from a place of the region.
    by_contra other
    rw [live] at other
    obtain ⟨_, c, _, rfl, held⟩ := (cells v (copy.peek v)).mp (sound'.mem_toList.mpr ⟨other, rfl⟩)
    rw [Vec.zero_add] at live
    exact other (held.symm.trans live)
  · obtain ⟨c, inside, place⟩ := h.exists_cursor stored box sound live
    have point := Vec.add_left_cancel place
    exact (sound'.mem_toList.mp ((cells v _).mpr ⟨live, c, inside, by rw [point, Vec.zero_add],
      by rw [point]⟩)).2

end Typeset

/-- A region is shown alike wherever its cells are. -/
theorem dump_moved {s t : Space} (positive : 0 < s.dims) (dims : t.dims = s.dims) {least : Vec}
    (fits : least.fits s.dims = true) (same : ∀ v, t.peek v = s.peek (least + v)) (size : Vec)
    (linear : Bool) : t.dump 0 size linear = s.dump least size linear := by
  have lengths : t.regionLength size = s.regionLength size := by
    funext axis
    rw [regionLength, regionLength, dims]
  have regions : t.region 0 size = s.region least size := by
    simp only [region, lengths, same, Vec.zero_add]
  rw [dump_eq (dims ▸ positive) (Vec.fits_zero _), dump_eq positive fits, lengths, regions]

theorem bounds?_empty (dims : Nat) : (empty dims).bounds? = none :=
  (sound_empty dims).bounds?.1.mpr fun v => by simp [peek, empty]

theorem Sound.toList_eq_nil {s : Space} (h : s.Sound) (bounds : s.bounds? = none) :
    s.toList = [] := by
  rw [List.eq_nil_iff_forall_not_mem]
  rintro ⟨v, a⟩ listed
  obtain ⟨ink, rfl⟩ := h.mem_toList.mp listed
  exact ink (h.bounds?.1.mp bounds v)

/-- Least corner of the box around the live cells, or the origin where there are none. -/
def corner (s : Space) : Vec := (s.bounds?.map Prod.fst).getD 0

end Space

namespace Session

open Space

/-- The text that a program is shown as is shown as itself. Loaded, it puts down the cells of the
program and nothing else, moved so that the least corner of their box is the origin. No memory
holds a source of as many bytes as the bound says, and only that many could make a box too wide
for words to measure. -/
theorem render_idempotent {source text : List UInt8} {dims : Nat} (positive : 1 ≤ dims)
    (stored : source.length < 2 ^ 63) (shown : render source dims false = .ok text) :
    render text dims false = .ok text ∧
    ∃ size program extent copy,
      (Space.empty dims).load 0 source false = (.ok size, program) ∧
      (Space.empty dims).load 0 text false = (.ok extent, copy) ∧
      copy.bounds? = program.bounds?.map (fun (least, greatest) => (0, greatest - least)) ∧
      ∀ v a, (v, a) ∈ copy.toList ↔ (program.corner + v, a) ∈ program.toList := by
  obtain ⟨size, program, loaded, rfl, sound, typeset⟩ := load_typeset positive source
  simp only [render, loaded] at shown
  cases bounds : program.bounds? with
  | none =>
    rw [bounds] at shown
    cases shown
    have again : (Space.empty program.dims).load 0 [] false =
        (.ok 0, Space.empty program.dims) := rfl
    have bounds' := bounds?_empty program.dims
    refine ⟨?_, size, program, 0, Space.empty program.dims, loaded, again, ?_, ?_⟩
    · simp only [render, again, bounds']
    · rw [bounds', bounds, Option.map_none]
    · intro v a
      rw [(sound_empty program.dims).toList_eq_nil bounds', sound.toList_eq_nil bounds]
      simp
  | some corners =>
    obtain ⟨least, greatest⟩ := corners
    rw [bounds] at shown
    have box := sound.box_of_bounds? bounds
    obtain ⟨extent, copy, again, same, sound', moved⟩ := typeset.reload stored box sound shown
    have bounds' := sound'.bounds?_eq_some (box.moved (typeset.least_nonneg stored box) moved)
    refine ⟨?_, size, program, extent, copy, loaded, again, ?_, ?_⟩
    · have fits := (sound.bounds?.2 least greatest bounds).1
      simp only [render, again, bounds', Vec.sub_zero]
      exact (dump_moved sound.positive same fits moved _ false).trans shown
    · rw [bounds', bounds, Option.map_some]
    · intro v a
      rw [sound'.mem_toList, sound.mem_toList, moved, corner, bounds]
      rfl

/-- A program with a margin, an empty line and lines of different lengths. -/
theorem indented_idempotent :
    render [32, 32, 97, 98, 13, 10, 10, 32, 32, 99] 2 false =
      .ok [97, 98, 10, 32, 32, 10, 99, 32] ∧
    render [97, 98, 10, 32, 32, 10, 99, 32] 2 false = .ok [97, 98, 10, 32, 32, 10, 99, 32] ∧
    ∃ size program extent copy,
      (Space.empty 2).load 0 [32, 32, 97, 98, 13, 10, 10, 32, 32, 99] false =
        (.ok size, program) ∧
      (Space.empty 2).load 0 [97, 98, 10, 32, 32, 10, 99, 32] false = (.ok extent, copy) ∧
      copy.bounds? = program.bounds?.map (fun (least, greatest) => (0, greatest - least)) ∧
      ∀ v a, (v, a) ∈ copy.toList ↔ (program.corner + v, a) ∈ program.toList := by
  have shown : render [32, 32, 97, 98, 13, 10, 10, 32, 32, 99] 2 false =
      .ok [97, 98, 10, 32, 32, 10, 99, 32] := by
    decide +kernel
  exact ⟨shown, render_idempotent (by decide) (by decide) shown⟩

end Session

end Funge
