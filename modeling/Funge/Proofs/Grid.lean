import Funge.Proofs.Rendering
import Mathlib.Order.Bounds.Basic

/-!
# The grid of a source

A source can be read as a grid without a cursor. Its line breaks are made alike, the breaks for
which the space has no axis are left out, and what remains is split into pages and these into
lines. A byte then has its page, its line and its column. A load puts every byte that is not blank
where the grid has it, leaves all other cells alone, and measures the bytes that it has put.
-/

namespace Funge

namespace Text

instance : DecidablePred Plain := fun b => inferInstanceAs (Decidable (b ≠ _ ∧ b ≠ _ ∧ b ≠ _))

/-- The text with a line feed for every line break. A carriage return and a line feed after it are
one break, and each of them alone is one. -/
def unifyBreaks : List UInt8 → List UInt8
  | 13 :: 10 :: rest => lineFeed :: unifyBreaks rest
  | 13 :: rest => lineFeed :: unifyBreaks rest
  | b :: rest => b :: unifyBreaks rest
  | [] => []

/-- The text without the breaks for which a space has no axis. -/
def dropBreaks (dims : Nat) (text : List UInt8) : List UInt8 :=
  text.filter fun b => (2 ≤ dims || b != lineFeed) && (3 ≤ dims || b != formFeed)

/-- The pages of a source, each a list of lines. Plain bytes are one line of one page. -/
def grid (dims : Nat) (binary : Bool) (source : List UInt8) : List (List (List UInt8)) :=
  if binary then [[source]]
  else ((dropBreaks dims (unifyBreaks source)).splitOn formFeed).map (·.splitOn lineFeed)

/-- The byte at a place of the pages. -/
def byteAt? (pages : List (List (List UInt8))) (c : Cursor) : Option UInt8 := do
  let lines ← pages[c.page]?
  let bytes ← lines[c.line]?
  bytes[c.column]?

theorem byteAt?_eq_some {pages : List (List (List UInt8))} {c : Cursor} {b : UInt8} :
    byteAt? pages c = some b ↔ (c, b) ∈ pagePlaces 0 pages := by
  rw [mem_pagePlaces]
  simp [byteAt?, Option.bind_eq_some_iff]

section Splitting

theorem flatten_splitOn (a : UInt8) (text : List UInt8) :
    (text.splitOn a).flatten = text.filter (· ≠ a) := by
  induction text with
  | nil => rfl
  | cons b text ih =>
    obtain ⟨first, others, split⟩ := List.exists_cons_of_ne_nil (List.splitOn_ne_nil a text)
    rw [split] at ih
    rw [List.splitOn_cons_eq_if_modifyHead, split]
    by_cases same : b = a
    · simpa [same] using ih
    · simpa [same] using ih

theorem unifyBreaks_no_return (source : List UInt8) : carriageReturn ∉ unifyBreaks source := by
  fun_induction unifyBreaks source with
  | case1 rest ih => simpa [carriageReturn, lineFeed] using ih
  | case2 rest _ ih => simpa [carriageReturn, lineFeed] using ih
  | case3 b rest _ other ih => simpa [carriageReturn, eq_comm] using And.intro other ih
  | case4 => simp

/-- Making the breaks of a text alike does not change what it consists of. -/
theorem marks_unifyBreaks (source : List UInt8) : marks (unifyBreaks source) = marks source := by
  fun_induction unifyBreaks source with
  | case1 rest ih => simp [marks, carriageReturn, lineFeed, ih]
  | case2 rest unpaired ih =>
    have alone : rest.head? ≠ some lineFeed := by
      intro next
      obtain ⟨rest', rfl⟩ := List.head?_eq_some_iff.mp next
      exact unpaired rest' rfl
    rw [marks_lineFeed, ih]
    simp [marks, alone, carriageReturn]
  | case3 b rest _ other ih =>
    have plain : b ≠ carriageReturn := other
    simp [marks, plain, ih]
  | case4 => rfl

/-- A break for which the space has no axis does not move the cursor. -/
theorem layout_dropBreaks (dims : Nat) (c : Cursor) {text : List UInt8}
    (unified : carriageReturn ∉ text) :
    layout dims c (marks (dropBreaks dims text)) = layout dims c (marks text) := by
  induction text generalizing c with
  | nil => rfl
  | cons b text ih =>
    obtain ⟨other, unified⟩ := not_or.mp (List.mem_cons.not.mp unified)
    have rest (c : Cursor) := ih c unified
    have distinct : lineFeed ≠ formFeed := by decide
    rw [dropBreaks, List.filter_cons, ← dropBreaks]
    by_cases line : b = lineFeed
    · subst line
      by_cases two : 2 ≤ dims
      · simp [two, distinct, marks_lineFeed, layout, rest]
      · simp [two, marks_lineFeed, layout, rest, Cursor.nextLine]
    by_cases page : b = formFeed
    · subst page
      by_cases three : 3 ≤ dims
      · simp [three, distinct.symm, marks_formFeed, layout, rest]
      · simp [three, marks_formFeed, layout, rest, Cursor.nextPage]
    · have plain : Plain b := ⟨line, page, Ne.symm other⟩
      simp [line, page, marks_plain plain, layout, rest]

theorem joinPages_grid (dims : Nat) (source : List UInt8) :
    joinPages (grid dims false source) = dropBreaks dims (unifyBreaks source) := by
  simp only [grid, joinPages, Bool.false_eq_true, if_false, List.map_map, Function.comp_def,
    List.intercalate_splitOn, List.map_id']

/-- Without its breaks a text is the same before and after they are made alike. -/
theorem filter_unifyBreaks (source : List UInt8) :
    (unifyBreaks source).filter (Plain ·) = source.filter (Plain ·) := by
  have feed : ¬ Plain lineFeed := by decide
  have feed' : ¬ Plain 10 := feed
  have returns : ¬ Plain 13 := by decide
  fun_induction unifyBreaks source with
  | case1 rest ih => simp [feed, feed', returns, ih]
  | case2 rest _ ih => simp [feed, returns, ih]
  | case3 b rest _ _ ih => simp [List.filter_cons, ih]
  | case4 => rfl

/-- The bytes of the grid, read page by page and line by line, are those of the source that are no
breaks. -/
theorem flatten_grid (dims : Nat) (source : List UInt8) :
    (grid dims false source).flatten.flatten = source.filter (Plain ·) := by
  have returns : ∀ b ∈ unifyBreaks source, b ≠ carriageReturn := by
    rintro b member rfl
    exact unifyBreaks_no_return source member
  rw [← filter_unifyBreaks]
  simp only [grid, Bool.false_eq_true, if_false, List.flatten_flatten, List.map_map,
    Function.comp_def, flatten_splitOn, ← List.filter_flatten, List.filter_filter, dropBreaks]
  apply List.filter_congr
  intro b member
  have other := returns b member
  by_cases line : b = lineFeed <;> by_cases page : b = formFeed <;> simp [Plain, line, page, other]

theorem plain_of_mem_grid {dims : Nat} {source : List UInt8} {lines : List (List UInt8)}
    {line : List UInt8} {b : UInt8} (page : lines ∈ grid dims false source) (row : line ∈ lines)
    (byte : b ∈ line) : Plain b := by
  have member : b ∈ (grid dims false source).flatten.flatten :=
    List.mem_flatten_of_mem (List.mem_flatten_of_mem page row) byte
  rw [flatten_grid, List.mem_filter] at member
  simpa using member.2

/-- A text without a break is not split. -/
theorem length_splitOn_le {a : UInt8} {text : List UInt8} (none : a ∉ text) :
    (text.splitOn a).length ≤ 1 := by
  rw [List.splitOn_eq_singleton none]
  exact Nat.le_refl 1

/-- The cursor comes to every byte where the grid has it. -/
theorem placed_grid (dims : Nat) (binary : Bool) (source : List UInt8) :
    placed dims binary source = pagePlaces 0 (grid dims binary source) := by
  cases binary with
  | true => simp [placed, grid, pagePlaces, linePlaces]
  | false =>
    have unified := unifyBreaks_no_return source
    have read : layout dims {} (marks source) =
        layout dims {} (marks (joinPages (grid dims false source))) := by
      rw [joinPages_grid, layout_dropBreaks dims {} unified, marks_unifyBreaks]
    change layout dims {} (marks source) = _
    rw [read]
    apply layout_joinPages
    · intro lines page line row b byte
      exact plain_of_mem_grid page row byte
    · intro small lines page
      simp only [grid, Bool.false_eq_true, if_false, List.mem_map] at page
      obtain ⟨text, part, rfl⟩ := page
      apply length_splitOn_le
      intro member
      have inside := List.mem_flatten_of_mem part member
      rw [flatten_splitOn] at inside
      simp [dropBreaks, Nat.not_le.mpr small] at inside
    · intro small
      simp only [grid, Bool.false_eq_true, if_false, List.length_map]
      apply length_splitOn_le
      simp [dropBreaks, Nat.not_le.mpr small]

end Splitting

/-- The coordinate of a place on an axis. -/
def Cursor.along (c : Cursor) : Nat → Nat
  | 0 => c.column
  | 1 => c.line
  | 2 => c.page
  | _ => 0

theorem Cursor.along_join (c d : Cursor) (axis : Nat) :
    (c.join d).along axis = max (c.along axis) (d.along axis) := by
  match axis with
  | 0 => rfl
  | 1 => rfl
  | 2 => rfl
  | axis + 3 => simp [along]

theorem Cursor.along_le_reach (c : Cursor) (axis : Nat) : c.along axis ≤ c.reach := by
  match axis with
  | 0 => simp [along, reach]
  | 1 => simp [along, reach]
  | 2 => simp [along, reach]
  | axis + 3 => simp [along]

/-- The source has a byte that is not blank at the place. -/
def Inked (dims : Nat) (binary : Bool) (source : List UInt8) (c : Cursor) (b : UInt8) : Prop :=
  byteAt? (grid dims binary source) c = some b ∧ b ≠ space

instance (dims : Nat) (binary : Bool) (source : List UInt8) (c : Cursor) (b : UInt8) :
    Decidable (Inked dims binary source c b) := inferInstanceAs (Decidable (_ ∧ _))

/-- The corner is at the greatest coordinates of the places, and there is none if there are no
places. -/
def Encloses (places : List Cursor) : Option Cursor → Prop
  | none => places = []
  | some corner => ∀ axis, IsGreatest {n | ∃ c ∈ places, c.along axis = n} (corner.along axis)

/-- The corner moves on to one more place. -/
theorem Encloses.join {places : List Cursor} {corner : Option Cursor} (h : Encloses places corner)
    (c : Cursor) : Encloses (places ++ [c]) (some (c.join (corner.getD {}))) := by
  intro axis
  rw [Cursor.along_join]
  cases corner with
  | none =>
    obtain rfl : places = [] := h
    have start : Cursor.along {} axis ≤ c.along axis := by
      match axis with
      | 0 | 1 | 2 | axis + 3 => exact Nat.zero_le _
    rw [Option.getD_none, Nat.max_eq_left start]
    constructor
    · exact ⟨c, by simp, rfl⟩
    · rintro n ⟨d, member, rfl⟩
      rw [List.mem_singleton.mp member]
  | some corner =>
    obtain ⟨⟨e, listed, attained⟩, above⟩ := h axis
    rw [Option.getD_some]
    constructor
    · rcases Nat.le_total (c.along axis) (corner.along axis) with less | more
      · exact ⟨e, List.mem_append_left _ listed, by omega⟩
      · exact ⟨c, by simp, by omega⟩
    · rintro n ⟨d, member, rfl⟩
      rcases List.mem_append.mp member with old | new
      · have below : d.along axis ≤ corner.along axis := above ⟨d, old, rfl⟩
        omega
      · rw [List.mem_singleton.mp new]
        omega

theorem mem_grid_reach {dims : Nat} {binary : Bool} {source : List UInt8} {c : Cursor} {b : UInt8}
    (h : byteAt? (grid dims binary source) c = some b) : c.reach < source.length := by
  rw [byteAt?_eq_some, ← placed_grid] at h
  cases binary with
  | false => exact (mem_placed h).1
  | true =>
    obtain ⟨line, page, found⟩ := (mem_row rfl).mp h
    obtain ⟨bound, _⟩ := List.getElem?_eq_some_iff.mp found
    simpa [Cursor.reach, line, page] using bound

theorem inked_iff {dims : Nat} {binary : Bool} {source : List UInt8} {c : Cursor} {b : UInt8} :
    Inked dims binary source c b ↔ (c, b) ∈ placed dims binary source ∧ b ≠ space := by
  rw [Inked, byteAt?_eq_some, placed_grid]

/-- No two bytes of a source that can be stored meet in a point, from wherever they are counted. -/
theorem grid_points_distinct {dims : Nat} {binary : Bool} {source : List UInt8}
    (stored : source.length < 2 ^ 63) {origin : Vec} {c d : Cursor} {b e : UInt8}
    (hc : byteAt? (grid dims binary source) c = some b)
    (hd : byteAt? (grid dims binary source) d = some e)
    (meet : origin + c.toVec = origin + d.toVec) : c = d :=
  Cursor.toVec_inj (Nat.lt_trans (mem_grid_reach hc) stored)
    (Nat.lt_trans (mem_grid_reach hd) stored) (Vec.add_left_cancel meet)

end Text

namespace Space

open Text

/-- Putting bytes into their places keeps the corner at the places of those that are written. -/
theorem encloses_putPlaced {origin : Vec} {s s' : Space} {corner corner' : Option Cursor}
    {done : List Cursor} {places : List (Cursor × UInt8)} (h : Encloses done corner)
    (put : putPlaced origin s corner places = (.ok corner', s')) :
    Encloses (done ++ (places.filter (·.2 ≠ Text.space)).map Prod.fst) corner' := by
  induction places generalizing s corner done with
  | nil =>
    cases put
    simpa using h
  | cons place places ih =>
    obtain ⟨c, b⟩ := place
    rw [putPlaced] at put
    by_cases blank : b = Text.space
    · have skipped : putByte origin c b s corner = .ok (s, corner) := by simp [putByte, blank]
      rw [skipped] at put
      simpa [blank] using ih h put
    · cases written : s.set (origin + c.toVec) (Cell.ofByte b) with
      | error e => simp [putByte, blank, written, Except.map] at put
      | ok next =>
        simp only [putByte, blank, written, Except.map, if_false] at put
        simpa [blank] using ih (h.join c) put

theorem get_cornerSize (dims : Nat) (c : Cursor) {axis : Nat} (bound : axis < min dims 3) :
    (cornerSize dims (some c)).get axis = Int64.ofNat (c.along axis + 1) := by
  have first : axis < dims := by omega
  match axis with
  | 0 | 1 | 2 => simp [cornerSize, Cursor.along, List.getD_eq_getElem?_getD, first]
  | axis + 3 => omega

theorem fits_cornerSize (dims : Nat) (corner : Option Cursor) :
    (cornerSize dims corner).fits (min dims 3) = true := by
  cases corner with
  | none => exact Vec.fits_zero _
  | some c => exact Vec.fits_ofList (by simp)

/-- What a load writes at each point, in terms of its grid. -/
theorem peek_load {s s' : Space} (sound : s.Sound) {origin : Vec}
    (fits : origin.fits s.dims = true) {source : List UInt8} (stored : source.length < 2 ^ 63)
    {binary : Bool} {result : Except SpaceError Vec}
    (loaded : s.load origin source binary = (result, s')) :
    (∀ c b, Inked s.dims binary source c b → s'.peek (origin + c.toVec) = Cell.ofByte b) ∧
    ∀ v, (∀ c b, Inked s.dims binary source c b → v ≠ origin + c.toVec) →
      s'.peek v = s.peek v := by
  have start : s.Holds s.peek := ⟨sound, fun _ => rfl⟩
  have holds := (start.apply (.load origin source binary)).1
  simp only [Call.apply, loaded] at holds
  constructor
  · intro c b inked
    rw [holds.peek]
    apply inscribe_of_mem
    · rintro ⟨v, a⟩ written
      obtain ⟨d, e, place, _, rfl, _⟩ := Call.mem_writes_load.mp written
      exact Vec.fits_add fits
        (Cursor.toVec_fits sound.positive (placed_within s.dims binary source (d, e) place))
    · obtain ⟨place, ink⟩ := inked_iff.mp inked
      exact Call.mem_writes_load.mpr ⟨c, b, place, ink, rfl, rfl⟩
    · intro a written
      obtain ⟨d, e, place, ink, meet, rfl⟩ := Call.mem_writes_load.mp written
      have other := (inked_iff.mpr ⟨place, ink⟩).1
      obtain rfl := grid_points_distinct stored inked.1 other meet
      obtain rfl : b = e := Option.some.inj (inked.1.symm.trans other)
      rfl
  · intro v free
    rw [holds.peek]
    apply inscribe_of_not_mem
    intro a written
    obtain ⟨c, b, place, ink, here, _⟩ := Call.mem_writes_load.mp written
    exact free c b (inked_iff.mpr ⟨place, ink⟩) here

/-- What a load measures, in terms of its grid. -/
theorem encloses_load {s : Space} (positive : 0 < s.dims) {origin : Vec}
    (fits : origin.fits s.dims = true) (source : List UInt8) (binary : Bool) :
    ∃ corner s' places, s.load origin source binary = (.ok (cornerSize s.dims corner), s') ∧
      s'.dims = s.dims ∧ Encloses places corner ∧
      ∀ c, c ∈ places ↔ ∃ b, Inked s.dims binary source c b := by
  have within : ∀ place ∈ placed s.dims binary source,
      (origin + place.1.toVec).fits s.dims = true := fun place listed =>
    Vec.fits_add fits
      (Cursor.toVec_fits positive (placed_within s.dims binary source place listed))
  have start : Encloses [] none := rfl
  obtain ⟨corner, s', put, same⟩ := putPlaced_of_fits none within
  refine ⟨corner, s', _, ?_, same, encloses_putPlaced start put, ?_⟩
  · rw [load_eq, put]
    rfl
  · intro c
    simp [inked_iff]

/-- A load puts every byte of its source that is not blank where the grid has it, with no two bytes
at one point, and leaves all other cells as they are. The size that it gives is one more than the
greatest coordinates of the bytes put. -/
theorem load_grid {s : Space} (sound : s.Sound) {origin : Vec} (fits : origin.fits s.dims = true)
    {source : List UInt8} (stored : source.length < 2 ^ 63) (binary : Bool) :
    (grid s.dims binary source).flatten.flatten =
      (if binary then source else source.filter (Plain ·)) ∧
    (∀ c b d e, byteAt? (grid s.dims binary source) c = some b →
      byteAt? (grid s.dims binary source) d = some e →
      origin + c.toVec = origin + d.toVec → c = d) ∧
    ∃ size s', s.load origin source binary = (.ok size, s') ∧ s'.dims = s.dims ∧
      (∀ c b, Inked s.dims binary source c b → s'.peek (origin + c.toVec) = Cell.ofByte b) ∧
      (∀ v, (∀ c b, Inked s.dims binary source c b → v ≠ origin + c.toVec) →
        s'.peek v = s.peek v) ∧
      size.fits (min s.dims 3) = true ∧
      ((∀ c b, ¬ Inked s.dims binary source c b) → size = 0) ∧
      ((∃ c b, Inked s.dims binary source c b) → ∀ axis, axis < min s.dims 3 →
        ∃ n, IsGreatest {n | ∃ c b, Inked s.dims binary source c b ∧ c.along axis = n} n ∧
          (size.get axis).toInt = n + 1) := by
  obtain ⟨corner, s', places, loaded, same, encloses, listed⟩ :=
    encloses_load sound.positive fits source binary
  obtain ⟨written, kept⟩ := peek_load sound fits stored loaded
  refine ⟨?_, ?_, cornerSize s.dims corner, s', loaded, same, written, kept,
    fits_cornerSize s.dims corner, ?_, ?_⟩
  · cases binary with
    | false => exact flatten_grid s.dims source
    | true => simp [grid]
  · intro c b d e hc hd meet
    exact grid_points_distinct stored hc hd meet
  · intro blank
    have none : places = [] := by
      rw [List.eq_nil_iff_forall_not_mem]
      intro c member
      obtain ⟨b, inked⟩ := (listed c).mp member
      exact blank c b inked
    cases corner with
    | none => rfl
    | some corner =>
      obtain ⟨⟨c, member, _⟩, _⟩ := encloses 0
      rw [none] at member
      cases member
  · rintro ⟨c, b, inked⟩ axis bound
    have member := (listed c).mpr ⟨b, inked⟩
    cases corner with
    | none =>
      rw [show places = [] from encloses] at member
      cases member
    | some corner =>
      have same_set : {n | ∃ c b, Inked s.dims binary source c b ∧ c.along axis = n} =
          {n | ∃ c ∈ places, c.along axis = n} := by
        ext n
        simp [listed]
      obtain ⟨⟨d, there, attained⟩, _⟩ := encloses axis
      obtain ⟨e, inked'⟩ := (listed d).mp there
      have near := d.along_le_reach axis
      have reach := mem_grid_reach inked'.1
      refine ⟨corner.along axis, same_set ▸ encloses axis, ?_⟩
      rw [get_cornerSize s.dims corner bound, Int64.toInt_ofNat_of_lt (by omega)]
      omega

/-- A space with one cell, and a source that has a blank over it in its second line. -/
def blotted : Space := (empty 3).write (Vec.ofList [3, -1, 5]) 49

def blotter : List UInt8 := [97, 13, 10, 32, 98, 12, 99]

/-- The source has two lines on its first page and one on its second. The cell under the blank
stays. -/
theorem blotter_loaded :
    grid 3 false blotter = [[[97], [32, 98]], [[99]]] ∧
    ∃ size s, blotted.load (Vec.ofList [3, -2, 5]) blotter false = (.ok size, s) ∧
      s.peek (Vec.ofList [4, -1, 5]) = 98 ∧ s.peek (Vec.ofList [3, -1, 5]) = 49 ∧
      ∃ n, IsGreatest {n | ∃ c b, Inked 3 false blotter c b ∧ c.along 1 = n} n ∧
        (size.get 1).toInt = n + 1 := by
  have sound : blotted.Sound := (sound_empty 3).write (by decide) 49
  have three : blotted.dims = 3 := by decide
  have fits : (Vec.ofList [3, -2, 5]).fits blotted.dims = true := by decide
  have stored : blotter.length < 2 ^ 63 := by decide
  have law := load_grid sound fits stored false
  rw [three] at law
  obtain ⟨_, apart, size, s, loaded, _, written, kept, _, _, greatest⟩ := law
  have letter : Inked 3 false blotter ⟨1, 1, 0⟩ 98 := by decide
  have blank : byteAt? (grid 3 false blotter) ⟨0, 1, 0⟩ = some space := by decide
  refine ⟨by decide, size, s, loaded, ?_, ?_, greatest ⟨_, _, letter⟩ 1 (by decide)⟩
  · exact written _ _ letter
  · have below : s.peek (Vec.ofList [3, -1, 5]) = blotted.peek (Vec.ofList [3, -1, 5]) := by
      apply kept
      intro c b inked here
      obtain rfl := apart _ _ _ _ blank inked.1 here
      exact inked.2 (Option.some.inj (inked.1.symm.trans blank))
    rw [below]
    decide +kernel

end Space

end Funge
