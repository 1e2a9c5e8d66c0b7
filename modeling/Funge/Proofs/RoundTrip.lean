import Funge.Proofs.Dimensions
import Funge.Proofs.Playfield

/-!
# A region written out and read back

A dump in full writes a region line by line and page by page, with breaks that lead a reader from
one line to the start of the next. Hence every byte of the text has the place in it that its cell
has in the region, and a load of the text puts the region down again, wherever it starts.
-/

namespace Funge

theorem Vec.add_left_cancel {a b c : Vec} (h : a + b = a + c) : b = c := by
  apply ext_get
  intro i
  have component := congrArg (get · i) h
  simpa using component

/-- A point counted from one corner, moved as another corner is from that one. -/
theorem Vec.add_add_sub (a b c : Vec) : a + c + (b - a) = b + c := by
  apply ext_get
  intro i
  simp only [get_add, get_sub]
  grind

namespace Text

/-- A byte that takes a column: no break of a line or a page. -/
def Plain (b : UInt8) : Prop := b ≠ lineFeed ∧ b ≠ formFeed ∧ b ≠ carriageReturn

theorem marks_plain {b : UInt8} (plain : Plain b) (rest : List UInt8) :
    marks (b :: rest) = .ink b :: marks rest := by
  obtain ⟨line, page, ret⟩ := plain
  simp [marks, line, page, ret]

theorem marks_lineFeed (rest : List UInt8) :
    marks (lineFeed :: rest) = .lineBreak :: marks rest := by
  simp [marks, lineFeed, carriageReturn]

theorem marks_formFeed (rest : List UInt8) :
    marks (formFeed :: rest) = .pageBreak :: marks rest := by
  simp [marks, lineFeed, formFeed, carriageReturn]

/-- A line takes the columns from the cursor on. -/
theorem layout_line (dims : Nat) {line : List UInt8} (plain : ∀ b ∈ line, Plain b) (c : Cursor)
    (rest : List UInt8) :
    layout dims c (marks (line ++ rest)) =
      row c line ++ layout dims { c with column := c.column + line.length } (marks rest) := by
  induction line generalizing c with
  | nil => simp [row]
  | cons b line ih =>
    have tail := ih (fun d hd => plain d (List.mem_cons_of_mem b hd)) c.right
    rw [List.cons_append, marks_plain (plain b List.mem_cons_self), layout, tail, row_cons]
    simp [Cursor.right, Nat.add_comm, Nat.add_left_comm]

/-- The bytes of a page with their places, its lines counted from `first`. -/
def linePlaces (page first : Nat) (lines : List (List UInt8)) : List (Cursor × UInt8) :=
  (lines.zipIdx first).flatMap fun (line, y) => row ⟨0, y, page⟩ line

/-- The bytes of pages with their places, the pages counted from `first`. -/
def pagePlaces (first : Nat) (pages : List (List (List UInt8))) : List (Cursor × UInt8) :=
  (pages.zipIdx first).flatMap fun (lines, z) => linePlaces z 0 lines

/-- Joined lines take the places of a page. Where the text ends on it depends on its last line,
but not on which page. -/
theorem layout_lines {dims : Nat} {lines : List (List UInt8)}
    (plain : ∀ line ∈ lines, ∀ b ∈ line, Plain b) (flat : dims < 2 → lines.length ≤ 1)
    (page first : Nat) :
    ∃ last : Cursor, last.page = page ∧ ∀ rest,
      layout dims ⟨0, first, page⟩ (marks ([lineFeed].intercalate lines ++ rest)) =
        linePlaces page first lines ++ layout dims last (marks rest) := by
  induction lines generalizing first with
  | nil => exact ⟨⟨0, first, page⟩, rfl, fun rest => rfl⟩
  | cons line lines ih =>
    have head := layout_line dims (plain line List.mem_cons_self)
    cases lines with
    | nil =>
      refine ⟨⟨line.length, first, page⟩, rfl, fun rest => ?_⟩
      rw [List.intercalate_singleton, head]
      simp [linePlaces]
    | cons next lines =>
      have two : 2 ≤ dims := by
        by_cases small : dims < 2
        · simpa using flat small
        · omega
      obtain ⟨last, same, tail⟩ := ih (fun l hl => plain l (List.mem_cons_of_mem line hl))
        (fun small => by omega) (first + 1)
      refine ⟨last, same, fun rest => ?_⟩
      rw [List.intercalate_cons_cons, List.append_assoc, List.append_assoc, head,
        List.singleton_append, marks_lineFeed, layout]
      simp only [Cursor.nextLine, if_pos two]
      rw [tail]
      simp [linePlaces, List.zipIdx_cons]

/-- Joined pages take the places of the pages, as long as the space has the axes for them. -/
theorem layout_joinPages {dims : Nat} {pages : List (List (List UInt8))}
    (plain : ∀ lines ∈ pages, ∀ line ∈ lines, ∀ b ∈ line, Plain b)
    (flat : dims < 2 → ∀ lines ∈ pages, lines.length ≤ 1) (thin : dims < 3 → pages.length ≤ 1)
    (first : Nat) :
    layout dims ⟨0, 0, first⟩ (marks (joinPages pages)) = pagePlaces first pages := by
  induction pages generalizing first with
  | nil => rfl
  | cons lines pages ih =>
    obtain ⟨last, same, head⟩ := layout_lines (plain lines List.mem_cons_self)
      (fun small => flat small lines List.mem_cons_self) first 0
    cases pages with
    | nil =>
      have alone := head []
      rw [List.append_nil] at alone
      rw [joinPages, List.map_singleton, List.intercalate_singleton, alone]
      simp [pagePlaces, marks, layout]
    | cons next pages =>
      have three : 3 ≤ dims := by
        by_cases small : dims < 3
        · simpa using thin small
        · omega
      have tail := ih (fun l hl => plain l (List.mem_cons_of_mem lines hl))
        (fun small => by omega) (fun small => by omega) (first + 1)
      rw [joinPages, List.map_cons] at tail
      rw [joinPages, List.map_cons, List.map_cons, List.intercalate_cons_cons, List.append_assoc,
        head, List.singleton_append, marks_formFeed, layout]
      simp only [Cursor.nextPage, if_pos three, same]
      rw [tail]
      simp [pagePlaces, List.zipIdx_cons]

theorem mem_row {c d : Cursor} {b : UInt8} {bytes : List UInt8} (start : c.column = 0) :
    (d, b) ∈ row c bytes ↔ d.line = c.line ∧ d.page = c.page ∧ bytes[d.column]? = some b := by
  simp only [row, start, List.mem_map, Prod.mk.injEq, Prod.exists,
    List.mk_mem_zipIdx_iff_getElem?]
  constructor
  · rintro ⟨b', x, found, rfl, rfl⟩
    exact ⟨rfl, rfl, found⟩
  · rintro ⟨line, page, found⟩
    refine ⟨b, d.column, found, ?_, rfl⟩
    rw [← line, ← page]

/-- A byte stands at a place exactly when the page has it in that line and column. -/
theorem mem_pagePlaces {pages : List (List (List UInt8))} {c : Cursor} {b : UInt8} :
    (c, b) ∈ pagePlaces 0 pages ↔ ∃ lines bytes, pages[c.page]? = some lines ∧
      lines[c.line]? = some bytes ∧ bytes[c.column]? = some b := by
  simp only [pagePlaces, linePlaces, List.mem_flatMap, Prod.exists,
    List.mk_mem_zipIdx_iff_getElem?]
  constructor
  · rintro ⟨lines, z, page, bytes, y, line, member⟩
    obtain ⟨rfl, rfl, column⟩ := (mem_row rfl).mp member
    exact ⟨lines, bytes, page, line, column⟩
  · rintro ⟨lines, bytes, page, line, column⟩
    exact ⟨lines, c.page, page, bytes, c.line, line, (mem_row rfl).mpr ⟨rfl, rfl, column⟩⟩

/-- Cursors of a text that is not astronomically long are told apart by their points. -/
theorem Cursor.toVec_inj {c d : Cursor} (hc : max c.column (max c.line c.page) < 2 ^ 63)
    (hd : max d.column (max d.line d.page) < 2 ^ 63) (same : c.toVec = d.toVec) : c = d := by
  have component : ∀ {m n : Nat}, m < 2 ^ 63 → n < 2 ^ 63 → Int64.ofNat m = Int64.ofNat n →
      m = n := by
    intro m n hm hn h
    have values := congrArg Int64.toInt h
    rw [Int64.toInt_ofNat_of_lt hm, Int64.toInt_ofNat_of_lt hn] at values
    exact_mod_cast values
  have column := congrArg (Vec.get · 0) same
  have line := congrArg (Vec.get · 1) same
  have page := congrArg (Vec.get · 2) same
  simp only [toVec, Vec.get_ofList, List.getD_cons_zero, List.getD_cons_succ] at column line page
  obtain ⟨x, y, z⟩ := c
  obtain ⟨x', y', z'⟩ := d
  simp only at hc hd column line page
  rw [component (by omega) (by omega) column, component (by omega) (by omega) line,
    component (by omega) (by omega) page]

end Text

namespace Space

open Text

/-- The cell that a cursor counts from the corner of a region belongs to the region. -/
def InRegion (s : Space) (size : Vec) (c : Cursor) : Prop :=
  c.column < s.regionLength size 0 ∧ c.line < s.regionLength size 1 ∧
    c.page < s.regionLength size 2

/-- A dump in full that is granted joins the pages of a region that is not too large. -/
theorem dump_eq_ok {s : Space} (positive : 0 < s.dims) {origin size : Vec}
    (fits : origin.fits s.dims = true) {text : List UInt8}
    (h : s.dump origin size false = .ok text) :
    max (s.regionLength size 0) 1 * max (s.regionLength size 1) 1 *
        max (s.regionLength size 2) 1 ≤ maxDump ∧
      text = joinPages (s.region origin size) := by
  rw [dump_eq positive fits] at h
  split at h
  · cases h
  · rename_i accepted
    cases h
    exact ⟨Nat.le_of_not_lt accepted, rfl⟩

theorem getElem?_map_range {α : Type} {n i : Nat} {f : Nat → α} {a : α} :
    ((List.range n).map f)[i]? = some a ↔ i < n ∧ a = f i := by
  by_cases bound : i < n
  · simp [bound, eq_comm]
  · simp [bound]

/-- The bytes of a region stand at the places of their cells. -/
theorem mem_pagePlaces_region {s : Space} {origin size : Vec} {c : Cursor} {b : UInt8} :
    (c, b) ∈ pagePlaces 0 (s.region origin size) ↔
      s.InRegion size c ∧ b = cellByte (s.peek (origin + c.toVec)) := by
  rw [mem_pagePlaces, region]
  constructor
  · rintro ⟨lines, bytes, page, line, column⟩
    obtain ⟨hz, rfl⟩ := getElem?_map_range.mp page
    obtain ⟨hy, rfl⟩ := getElem?_map_range.mp line
    obtain ⟨hx, rfl⟩ := getElem?_map_range.mp column
    exact ⟨⟨hx, hy, hz⟩, rfl⟩
  · rintro ⟨⟨hx, hy, hz⟩, rfl⟩
    exact ⟨_, _, getElem?_map_range.mpr ⟨hz, rfl⟩, getElem?_map_range.mpr ⟨hy, rfl⟩,
      getElem?_map_range.mpr ⟨hx, rfl⟩⟩

/-- The places of a region's text are those of its pages, when no cell is written as a break. -/
theorem placed_region {s : Space} {origin size : Vec}
    (plain : ∀ c, s.InRegion size c → Plain (cellByte (s.peek (origin + c.toVec)))) :
    placed s.dims false (joinPages (s.region origin size)) =
      pagePlaces 0 (s.region origin size) := by
  apply layout_joinPages
  · intro lines hl line hline b hb
    simp only [region, List.mem_map, List.mem_range] at hl
    obtain ⟨z, hz, rfl⟩ := hl
    simp only [List.mem_map, List.mem_range] at hline
    obtain ⟨y, hy, rfl⟩ := hline
    simp only [List.mem_map, List.mem_range] at hb
    obtain ⟨x, hx, rfl⟩ := hb
    exact plain ⟨x, y, z⟩ ⟨hx, hy, hz⟩
  · intro small lines hl
    simp only [region, List.mem_map] at hl
    obtain ⟨z, _, rfl⟩ := hl
    simp [regionLength, show ¬ 1 < s.dims by omega]
  · intro small
    simp [region, regionLength, show ¬ 2 < s.dims by omega]

/-- The axes of a region that is not too large are shorter than words can count. -/
theorem InRegion.small {s : Space} {size : Vec} {c : Cursor} (h : s.InRegion size c)
    (accepted : max (s.regionLength size 0) 1 * max (s.regionLength size 1) 1 *
      max (s.regionLength size 2) 1 ≤ maxDump) :
    max c.column (max c.line c.page) < 2 ^ 63 := by
  obtain ⟨hx, hy, hz⟩ := h
  generalize s.regionLength size 0 = columns at *
  generalize s.regionLength size 1 = lines at *
  generalize s.regionLength size 2 = pages at *
  have area : max columns 1 * max lines 1 ≤ maxDump :=
    Nat.le_trans (Nat.le_mul_of_pos_right _ (by omega)) accepted
  have width : max columns 1 ≤ maxDump :=
    Nat.le_trans (Nat.le_mul_of_pos_right _ (by omega)) area
  have height : max lines 1 ≤ maxDump :=
    Nat.le_trans (Nat.le_mul_of_pos_left _ (by omega)) area
  have depth : max pages 1 ≤ maxDump :=
    Nat.le_trans (Nat.le_mul_of_pos_left _ (Nat.mul_pos (by omega) (by omega))) accepted
  have limit : maxDump < 2 ^ 63 := by decide
  omega

/-- Writes that leave a point out do not change what it holds. -/
theorem inscribe_of_not_mem (dims : Nat) (m : Vec → Cell) {writes : List (Vec × Cell)} {v : Vec}
    (unwritten : ∀ c, (v, c) ∉ writes) : inscribe dims m writes v = m v := by
  induction writes generalizing m with
  | nil => rfl
  | cons w writes ih =>
    obtain ⟨u, d⟩ := w
    have other : v ≠ u := fun same => unwritten d (by simp [same])
    rw [inscribe]
    split
    · rw [ih _ fun c hc => unwritten c (List.mem_cons_of_mem _ hc), Function.update_of_ne other]
    · rfl

/-- Writes that agree on the value at a point leave it there. -/
theorem inscribe_of_mem {dims : Nat} (m : Vec → Cell) {writes : List (Vec × Cell)} {v : Vec}
    {c : Cell} (fitting : ∀ w ∈ writes, w.1.fits dims = true) (written : (v, c) ∈ writes)
    (only : ∀ d, (v, d) ∈ writes → d = c) : inscribe dims m writes v = c := by
  induction writes generalizing m with
  | nil => cases written
  | cons w writes ih =>
    obtain ⟨u, d⟩ := w
    rw [inscribe, if_pos (fitting (u, d) List.mem_cons_self)]
    by_cases again : (v, c) ∈ writes
    · exact ih _ (fun w hw => fitting w (List.mem_cons_of_mem _ hw)) again
        fun e he => only e (List.mem_cons_of_mem _ he)
    · obtain ⟨rfl, rfl⟩ : v = u ∧ c = d := by simpa [again] using written
      have unwritten : ∀ e, (v, e) ∉ writes := by
        intro e he
        rw [only e (List.mem_cons_of_mem _ he)] at he
        exact again he
      rw [inscribe_of_not_mem dims _ unwritten, Function.update_self]

/-- The live cells are listed with what they hold. -/
theorem Sound.mem_toList {s : Space} (h : s.Sound) {v : Vec} {a : Cell} :
    (v, a) ∈ s.toList ↔ a ≠ Cell.blank ∧ s.peek v = a := by
  rw [toList, Std.TreeMap.mem_toList_iff_getElem?_eq_some]
  constructor
  · intro stored
    refine ⟨h.inked v a stored, ?_⟩
    simp [peek, Std.TreeMap.getD_eq_getD_getElem?, stored]
  · rintro ⟨ink, rfl⟩
    exact Std.TreeMap.getElem?_eq_some_getD ((h.mem_iff v).mpr ink)

theorem ofByte_ne_blank {b : UInt8} (h : b ≠ Text.space) : Cell.ofByte b ≠ Cell.blank := by
  intro same
  apply h
  have values := congrArg Int64.toInt same
  have small := b.toNat_lt
  rw [Cell.ofByte, Int64.toInt_ofNat_of_lt (by omega)] at values
  have number : (Cell.blank).toInt = 32 := by decide
  apply UInt8.toNat.inj
  have expected : Text.space.toNat = 32 := by decide
  omega

/-- A load writes the bytes that are not blank. -/
theorem Call.mem_writes_load {dims : Nat} {origin : Vec} {source : List UInt8} {binary : Bool}
    {v : Vec} {a : Cell} :
    (v, a) ∈ (Call.load origin source binary).writes dims ↔
      ∃ c b, (c, b) ∈ placed dims binary source ∧ b ≠ Text.space ∧ v = origin + c.toVec ∧
        a = Cell.ofByte b := by
  simp only [Call.writes, List.mem_map, List.mem_filter, decide_eq_true_eq, Prod.exists,
    Prod.mk.injEq, and_assoc, @eq_comm _ v, @eq_comm _ a]

/-- After a load at an origin that fits, the blank space holds what the load writes. -/
theorem load_holds {dims : Nat} (positive : 0 < dims) {origin : Vec}
    (fits : origin.fits dims = true) (source : List UInt8) (binary : Bool) :
    ∃ size s, (empty dims).load origin source binary = (.ok size, s) ∧ s.dims = dims ∧
      s.Holds (inscribe dims (fun _ => Cell.blank) ((Call.load origin source binary).writes dims)) := by
  have full : max dims 1 = dims := by omega
  obtain ⟨size, s, loaded, same⟩ := load_of_fits (s := empty dims) (by simp [empty])
    (by simpa [empty, full] using fits) source binary
  obtain ⟨holds, _⟩ := holds_lastWritten dims [.load origin source binary]
  rw [full] at holds
  simp only [List.foldl_cons, List.foldl_nil, Call.apply, loaded, lastWritten] at holds
  exact ⟨size, s, loaded, by simpa [empty, full] using same, holds⟩

/-- A load at an origin that fits, into the blank space, leaves just the bytes that are not
blank, at their places, as long as no two bytes meet in a point. -/
theorem load_empty {dims : Nat} (positive : 0 < dims) {origin : Vec}
    (fits : origin.fits dims = true) (source : List UInt8) (binary : Bool)
    (agree : ∀ c b d e, (c, b) ∈ placed dims binary source → (d, e) ∈ placed dims binary source →
      origin + c.toVec = origin + d.toVec → b = e) :
    ∃ size s, (empty dims).load origin source binary = (.ok size, s) ∧ s.dims = dims ∧
      ∀ v a, (v, a) ∈ s.toList ↔ ∃ c b, (c, b) ∈ placed dims binary source ∧
        b ≠ Text.space ∧ v = origin + c.toVec ∧ a = Cell.ofByte b := by
  obtain ⟨size, s, loaded, same, holds⟩ := load_holds positive fits source binary
  refine ⟨size, s, loaded, same, ?_⟩
  have fitting : ∀ w ∈ (Call.load origin source binary).writes dims, w.1.fits dims = true := by
    rintro ⟨v, a⟩ hv
    obtain ⟨c, b, hp, _, rfl, _⟩ := Call.mem_writes_load.mp hv
    exact Vec.fits_add fits
      (Cursor.toVec_fits positive (placed_within dims binary source (c, b) hp))
  have only : ∀ v a a', (v, a) ∈ (Call.load origin source binary).writes dims →
      (v, a') ∈ (Call.load origin source binary).writes dims → a' = a := by
    intro v a a' h h'
    obtain ⟨c, b, hp, _, rfl, rfl⟩ := Call.mem_writes_load.mp h
    obtain ⟨d, e, hq, _, meet, rfl⟩ := Call.mem_writes_load.mp h'
    rw [agree c b d e hp hq meet]
  intro v a
  rw [holds.sound.mem_toList, holds.peek, ← Call.mem_writes_load]
  constructor
  · rintro ⟨ink, held⟩
    by_cases written : ∃ d, (v, d) ∈ (Call.load origin source binary).writes dims
    · obtain ⟨d, hd⟩ := written
      rw [inscribe_of_mem _ fitting hd fun e => only v d e hd] at held
      exact held ▸ hd
    · rw [inscribe_of_not_mem dims _ fun d hd => written ⟨d, hd⟩] at held
      exact False.elim (ink held.symm)
  · intro written
    obtain ⟨c, b, _, ink, _, rfl⟩ := Call.mem_writes_load.mp written
    exact ⟨ofByte_ne_blank ink, inscribe_of_mem _ fitting written fun e => only v _ e written⟩

/-- The byte that a cell with a byte in it is written as stands for the cell. -/
theorem ofByte_cellByte {a : Cell} (low : 0 ≤ a) (high : a ≤ 255) :
    Cell.ofByte (cellByte a) = a := by
  have lower : 0 ≤ a.toInt := by simpa using Int64.le_iff_toInt_le.mp low
  have upper : a.toInt ≤ 255 := by simpa using Int64.le_iff_toInt_le.mp high
  have value : (cellByte a).toNat = a.toInt.toNat := by
    simp only [cellByte, Cell.toByte?, low, high, and_self, if_true, Option.getD_some,
      UInt8.toNat_ofNat']
    omega
  rw [Cell.ofByte, value]
  apply Int64.toInt_inj.mp
  rw [Int64.toInt_ofNat_of_lt (by omega)]
  omega

theorem plain_cellByte {a : Cell} (low : 0 ≤ a) (high : a ≤ 255) (line : a ≠ 10) (page : a ≠ 12)
    (ret : a ≠ 13) : Plain (cellByte a) := by
  have faithful := ofByte_cellByte low high
  refine ⟨?_, ?_, ?_⟩
  · intro h
    rw [h] at faithful
    exact line faithful.symm
  · intro h
    rw [h] at faithful
    exact page faithful.symm
  · intro h
    rw [h] at faithful
    exact ret faithful.symm

/-- A text that has no byte outside of a region, has the byte of its cell at each place, and lacks
no byte but blanks puts the cells of the region down. -/
theorem load_of_places {s : Space} (positive : 0 < s.dims) {origin origin' size : Vec}
    (fits' : origin'.fits s.dims = true)
    (accepted : max (s.regionLength size 0) 1 * max (s.regionLength size 1) 1 *
      max (s.regionLength size 2) 1 ≤ maxDump)
    (faithful : ∀ c, s.InRegion size c →
      Cell.ofByte (cellByte (s.peek (origin + c.toVec))) = s.peek (origin + c.toVec))
    {text : List UInt8}
    (within : ∀ c b, (c, b) ∈ placed s.dims false text →
      s.InRegion size c ∧ b = cellByte (s.peek (origin + c.toVec)))
    (inked : ∀ c, s.InRegion size c → cellByte (s.peek (origin + c.toVec)) ≠ Text.space →
      (c, cellByte (s.peek (origin + c.toVec))) ∈ placed s.dims false text) :
    ∃ extent copy, (empty s.dims).load origin' text false = (.ok extent, copy) ∧
      copy.dims = s.dims ∧
      ∀ v a, (v, a) ∈ copy.toList ↔ a ≠ Cell.blank ∧ ∃ c, s.InRegion size c ∧
        v = origin' + c.toVec ∧ s.peek (origin + c.toVec) = a := by
  have agree : ∀ c b d e, (c, b) ∈ placed s.dims false text → (d, e) ∈ placed s.dims false text →
      origin' + c.toVec = origin' + d.toVec → b = e := by
    intro c b d e first second meet
    obtain ⟨hc, rfl⟩ := within c b first
    obtain ⟨hd, rfl⟩ := within d e second
    rw [Cursor.toVec_inj (hc.small accepted) (hd.small accepted) (Vec.add_left_cancel meet)]
  obtain ⟨extent, copy, loaded, same, cells⟩ := load_empty positive fits' text false agree
  refine ⟨extent, copy, loaded, same, ?_⟩
  intro v a
  rw [cells]
  constructor
  · rintro ⟨c, b, place, ink, rfl, rfl⟩
    obtain ⟨hc, rfl⟩ := within c b place
    exact ⟨ofByte_ne_blank ink, c, hc, rfl, (faithful c hc).symm⟩
  · rintro ⟨ink, c, hc, rfl, rfl⟩
    have visible : cellByte (s.peek (origin + c.toVec)) ≠ Text.space := by
      intro blank
      apply ink
      rw [← faithful c hc, blank]
      rfl
    exact ⟨c, _, inked c hc visible, visible, rfl, (faithful c hc).symm⟩

/-- A region whose cells hold bytes that are no breaks, dumped and loaded into a blank space of
the same dimensions, gives back its cells that are not blank and nothing else, moved as the
origin of the load is from the origin of the dump. -/
theorem load_dump {s : Space} (positive : 0 < s.dims) {origin origin' size : Vec}
    (fits : origin.fits s.dims = true) (fits' : origin'.fits s.dims = true) {text : List UInt8}
    (dumped : s.dump origin size false = .ok text)
    (bytes : ∀ c, s.InRegion size c → 0 ≤ s.peek (origin + c.toVec) ∧
      s.peek (origin + c.toVec) ≤ 255 ∧ s.peek (origin + c.toVec) ≠ 10 ∧
      s.peek (origin + c.toVec) ≠ 12 ∧ s.peek (origin + c.toVec) ≠ 13) :
    ∃ extent copy, (empty s.dims).load origin' text false = (.ok extent, copy) ∧
      copy.dims = s.dims ∧
      ∀ v a, (v, a) ∈ copy.toList ↔ a ≠ Cell.blank ∧ ∃ c, s.InRegion size c ∧
        v = origin + c.toVec + (origin' - origin) ∧ s.peek (origin + c.toVec) = a := by
  obtain ⟨accepted, rfl⟩ := dump_eq_ok positive fits dumped
  have faithful : ∀ c, s.InRegion size c →
      Cell.ofByte (cellByte (s.peek (origin + c.toVec))) = s.peek (origin + c.toVec) :=
    fun c hc => ofByte_cellByte (bytes c hc).1 (bytes c hc).2.1
  have places : placed s.dims false (joinPages (s.region origin size)) =
      pagePlaces 0 (s.region origin size) := placed_region fun c hc =>
    let ⟨low, high, line, page, ret⟩ := bytes c hc
    plain_cellByte low high line page ret
  have within : ∀ c b, (c, b) ∈ placed s.dims false (joinPages (s.region origin size)) →
      s.InRegion size c ∧ b = cellByte (s.peek (origin + c.toVec)) := by
    intro c b place
    rw [places] at place
    exact mem_pagePlaces_region.mp place
  have inked : ∀ c, s.InRegion size c → cellByte (s.peek (origin + c.toVec)) ≠ Text.space →
      (c, cellByte (s.peek (origin + c.toVec))) ∈
        placed s.dims false (joinPages (s.region origin size)) := by
    intro c hc _
    rw [places]
    exact mem_pagePlaces_region.mpr ⟨hc, rfl⟩
  simp only [Vec.add_add_sub]
  exact load_of_places positive fits' accepted faithful within inked

/-- Two pages, the first with a blank in its line and an empty line below it. -/
def leaflet : Space :=
  ((empty 3).load (Vec.ofList [3, -2, 5]) [97, 32, 98, 10, 12, 99] false).2

/-- The leaflet, dumped with a margin, is loaded again at another place. -/
theorem leaflet_reloaded :
    leaflet.dump (Vec.ofList [2, -2, 5]) (Vec.ofList [4, 2, 2]) false =
      .ok [32, 97, 32, 98, 10, 32, 32, 32, 32, 12, 32, 99, 32, 32, 10, 32, 32, 32, 32] ∧
    ∃ extent copy, (empty 3).load (Vec.ofList [0, 7]) [32, 97, 32, 98, 10, 32, 32, 32, 32, 12, 32,
        99, 32, 32, 10, 32, 32, 32, 32] false = (.ok extent, copy) ∧ copy.dims = 3 ∧
      ∀ v a, (v, a) ∈ copy.toList ↔ a ≠ Cell.blank ∧ ∃ c : Cursor,
        leaflet.InRegion (Vec.ofList [4, 2, 2]) c ∧
        v = Vec.ofList [2, -2, 5] + c.toVec + (Vec.ofList [0, 7] - Vec.ofList [2, -2, 5]) ∧
        leaflet.peek (Vec.ofList [2, -2, 5] + c.toVec) = a := by
  have three : leaflet.dims = 3 := by decide +kernel
  have dumped : leaflet.dump (Vec.ofList [2, -2, 5]) (Vec.ofList [4, 2, 2]) false =
      .ok [32, 97, 32, 98, 10, 32, 32, 32, 32, 12, 32, 99, 32, 32, 10, 32, 32, 32, 32] := by
    decide +kernel
  have cells : ∀ x < 4, ∀ y < 2, ∀ z < 2,
      let a := leaflet.peek (Vec.ofList [2, -2, 5] + (Cursor.mk x y z).toVec)
      0 ≤ a ∧ a ≤ 255 ∧ a ≠ 10 ∧ a ≠ 12 ∧ a ≠ 13 := by
    decide +kernel
  have margin : (Vec.ofList [2, -2, 5]).fits leaflet.dims = true := by decide +kernel
  have home : (Vec.ofList [0, 7]).fits leaflet.dims = true := by decide +kernel
  have reloaded := load_dump (by decide +kernel) margin home dumped
    (by rintro ⟨x, y, z⟩ ⟨hx, hy, hz⟩; exact cells x hx y hy z hz)
  rw [three] at reloaded
  exact ⟨dumped, reloaded⟩

end Space

end Funge
