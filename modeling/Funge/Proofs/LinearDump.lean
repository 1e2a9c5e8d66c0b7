import Funge.Proofs.Numerals
import Funge.Proofs.RoundTrip
import Mathlib.Data.List.DropRight
import Mathlib.Data.List.SplitBy

/-!
# The linear form of a dump

Where no cell of a region holds a digit, its linear form loses nothing: the digits in it are the
lengths of runs, so writing the runs out again gives the trimmed text, and trimming has dropped
blanks and breaks behind which nothing is left. A load of that text puts down the same cells as
a load of the full one.
-/

namespace Funge

theorem Vec.add_sub_cancel_right (a b : Vec) : a + b - b = a := by
  apply ext_get
  intro i
  simp

namespace Text

/-- Writes the runs of a text out: a byte after digits becomes as many copies of it as they say.
The digits read so far are given; digits that no byte follows stay. -/
def expand (count : List UInt8) : List UInt8 → List UInt8
  | [] => count
  | b :: rest =>
    if Numeral.isDigit 10 b then expand (count ++ [b]) rest
    else List.replicate (if count = [] then 1 else Numeral.value 10 count) b ++ expand [] rest

def expandRuns (bytes : List UInt8) : List UInt8 := expand [] bytes

section Runs

theorem expand_digits {digits : List UInt8} (run : ∀ b ∈ digits, Numeral.isDigit 10 b = true)
    (count rest : List UInt8) : expand count (digits ++ rest) = expand (count ++ digits) rest := by
  induction digits generalizing count with
  | nil => simp
  | cons b digits ih =>
    rw [List.cons_append, expand, if_pos (run b List.mem_cons_self),
      ih fun d hd => run d (List.mem_cons_of_mem b hd)]
    simp

/-- A shortened run is written out to the run. -/
theorem expandRuns_shortenRun {b : UInt8} (other : Numeral.isDigit 10 b = false) (n : Nat)
    (rest : List UInt8) :
    expandRuns (shortenRun (List.replicate (n + 1) b) ++ rest) =
      List.replicate (n + 1) b ++ expandRuns rest := by
  cases n with
  | zero => simp [shortenRun, expandRuns, expand, other]
  | succ n =>
    obtain ⟨run, started, same⟩ := Numeral.value_bytes (show 2 ≤ 10 by omega) (by omega) (n + 2)
    have short : shortenRun (List.replicate (n + 2) b) = Numeral.bytes 10 (n + 2) ++ [b] := by
      simp [shortenRun, Numeral.bytes]
    rw [short, expandRuns, List.append_assoc, expand_digits run]
    simp [expand, other, started, same, expandRuns]

/-- The pieces that a text is divided into are runs of one byte. -/
theorem eq_replicate_of_mem_splitBy {bytes run : List UInt8}
    (h : run ∈ bytes.splitBy fun a b => a == b && isFiller a) :
    ∃ b n, run = List.replicate (n + 1) b := by
  have chain := List.isChain_of_mem_splitBy h
  cases run with
  | nil => exact absurd rfl (List.ne_nil_of_mem_splitBy h)
  | cons b rest =>
    have alike : (b :: rest).IsChain (· = ·) := chain.imp fun x y hxy => by simp at hxy; exact hxy.1
    refine ⟨b, rest.length, ?_⟩
    rw [List.replicate_succ, ← List.isChain_cons_eq_iff_eq_replicate.mp alike]

/-- A text without digits is got back from its shortened form. -/
theorem expandRuns_shortenRuns {bytes : List UInt8}
    (others : ∀ b ∈ bytes, Numeral.isDigit 10 b = false) :
    expandRuns (shortenRuns bytes) = bytes := by
  have pieces : ∀ runs : List (List UInt8), (∀ run ∈ runs, ∃ b n, run = List.replicate (n + 1) b) →
      (∀ b ∈ runs.flatten, Numeral.isDigit 10 b = false) →
      expandRuns (runs.flatMap shortenRun) = runs.flatten := by
    intro runs alike others
    induction runs with
    | nil => rfl
    | cons run runs ih =>
      obtain ⟨b, n, rfl⟩ := alike run List.mem_cons_self
      have other : Numeral.isDigit 10 b = false := others b (by simp)
      rw [List.flatMap_cons, expandRuns_shortenRun other, List.flatten_cons,
        ih (fun r hr => alike r (List.mem_cons_of_mem _ hr)) fun d hd => others d (by simp [hd])]
  have whole := pieces (bytes.splitBy fun a b => a == b && isFiller a)
    fun _ => eq_replicate_of_mem_splitBy
  rw [List.flatten_splitBy] at whole
  exact whole others

end Runs

section Trimming

variable {α : Type} {p : α → Bool} {xs : List α} {i : Nat} {x : α}

/-- What is kept of a list is at its old place. -/
theorem getElem?_of_dropTrailing (h : (dropTrailing p xs)[i]? = some x) : xs[i]? = some x := by
  obtain ⟨bound, rfl⟩ := List.getElem?_eq_some_iff.mp h
  exact List.prefix_iff_getElem?.mp (List.rdropWhile_prefix p xs) i bound

/-- What is not to be dropped is kept. -/
theorem getElem?_dropTrailing (h : xs[i]? = some x) (kept : p x = false) :
    (dropTrailing p xs)[i]? = some x := by
  change (xs.rdropWhile p)[i]? = some x
  induction xs using List.reverseRecOn with
  | nil => cases h
  | append_singleton xs y ih =>
    by_cases drop : p y = true
    · have other : i ≠ xs.length := by
        rintro rfl
        rw [List.getElem?_concat_length, Option.some.injEq] at h
        rw [h, kept] at drop
        cases drop
      have bound := (List.getElem?_eq_some_iff.mp h).1
      rw [List.length_append, List.length_singleton] at bound
      rw [List.getElem?_append_left (by omega)] at h
      rw [List.rdropWhile_concat_pos p xs y drop]
      exact ih h
    · rw [List.rdropWhile_concat_neg p xs y drop]
      exact h

/-- The bytes of trimmed pages have the places that they have in the pages. -/
theorem mem_pagePlaces_of_trimPages {pages : List (List (List UInt8))} {c : Cursor} {b : UInt8}
    (h : (c, b) ∈ pagePlaces 0 (trimPages pages)) : (c, b) ∈ pagePlaces 0 pages := by
  obtain ⟨lines, bytes, page, line, column⟩ := mem_pagePlaces.mp h
  have among := getElem?_of_dropTrailing page
  rw [List.getElem?_map, Option.map_eq_some_iff] at among
  obtain ⟨full, found, rfl⟩ := among
  have within := getElem?_of_dropTrailing line
  rw [List.getElem?_map, Option.map_eq_some_iff] at within
  obtain ⟨whole, found', rfl⟩ := within
  exact mem_pagePlaces.mpr ⟨full, whole, found, found', getElem?_of_dropTrailing column⟩

/-- Of all bytes of pages, trimming drops none but blanks. -/
theorem mem_pagePlaces_trimPages {pages : List (List (List UInt8))} {c : Cursor} {b : UInt8}
    (h : (c, b) ∈ pagePlaces 0 pages) (ink : b ≠ space) : (c, b) ∈ pagePlaces 0 (trimPages pages) := by
  have filled {γ : Type} {ys : List γ} {j : Nat} {y : γ} (found : ys[j]? = some y) :
      ys.isEmpty = false := by
    cases ys with
    | nil => cases found
    | cons z ys => rfl
  obtain ⟨lines, bytes, page, line, column⟩ := mem_pagePlaces.mp h
  have byte : (dropTrailing (· == space) bytes)[c.column]? = some b :=
    getElem?_dropTrailing column (by simpa using ink)
  have trimmed : (lines.map fun line => dropTrailing (· == space) line)[c.line]? =
      some (dropTrailing (· == space) bytes) := by
    rw [List.getElem?_map, line, Option.map_some]
  have kept := getElem?_dropTrailing trimmed (filled byte)
  refine mem_pagePlaces.mpr ⟨_, _, getElem?_dropTrailing ?_ (filled kept), kept, byte⟩
  rw [List.getElem?_map, page, Option.map_some]

end Trimming

theorem mem_of_mem_dropTrailing {α : Type} {p : α → Bool} {xs : List α} {x : α}
    (h : x ∈ dropTrailing p xs) : x ∈ xs := (List.rdropWhile_prefix p xs).mem h

/-- Trimmed pages are pages of fewer lines with fewer bytes. -/
theorem mem_trimPages {pages : List (List (List UInt8))} {lines : List (List UInt8)}
    (h : lines ∈ trimPages pages) :
    ∃ full ∈ pages, lines.length ≤ full.length ∧
      ∀ line ∈ lines, ∃ whole ∈ full, ∀ b ∈ line, b ∈ whole := by
  obtain ⟨full, member, rfl⟩ := List.mem_map.mp (mem_of_mem_dropTrailing h)
  refine ⟨full, member, ?_, ?_⟩
  · have shorter := (List.rdropWhile_prefix List.isEmpty
      (full.map fun line => dropTrailing (· == space) line)).length_le
    rwa [List.length_map] at shorter
  · intro line hl
    obtain ⟨whole, inside, rfl⟩ := List.mem_map.mp (mem_of_mem_dropTrailing hl)
    exact ⟨whole, inside, fun b hb => mem_of_mem_dropTrailing hb⟩

theorem length_trimPages_le (pages : List (List (List UInt8))) :
    (trimPages pages).length ≤ pages.length := by
  have shorter := (List.rdropWhile_prefix List.isEmpty (pages.map fun lines =>
    dropTrailing List.isEmpty (lines.map fun line => dropTrailing (· == space) line))).length_le
  rwa [List.length_map] at shorter

theorem mem_intercalate {α : Type} {mark b : α} {parts : List (List α)}
    (h : b ∈ [mark].intercalate parts) : b = mark ∨ ∃ part ∈ parts, b ∈ part := by
  induction parts with
  | nil => cases h
  | cons part parts ih =>
    cases parts with
    | nil => exact .inr ⟨part, List.mem_cons_self, by simpa using h⟩
    | cons next parts =>
      rw [List.intercalate_cons_cons, List.append_assoc, List.mem_append, List.singleton_append,
        List.mem_cons] at h
      rcases h with first | here | later
      · exact .inr ⟨part, List.mem_cons_self, first⟩
      · exact .inl here
      · rcases ih later with here | ⟨other, member, inside⟩
        · exact .inl here
        · exact .inr ⟨other, List.mem_cons_of_mem part member, inside⟩

/-- A joined text has the bytes of its lines and breaks. -/
theorem mem_joinPages {pages : List (List (List UInt8))} {b : UInt8} (h : b ∈ joinPages pages) :
    b = formFeed ∨ b = lineFeed ∨ ∃ lines ∈ pages, ∃ line ∈ lines, b ∈ line := by
  rcases mem_intercalate h with break' | ⟨page, member, inside⟩
  · exact .inl break'
  · obtain ⟨lines, listed, rfl⟩ := List.mem_map.mp member
    rcases mem_intercalate inside with break' | ⟨line, hl, hb⟩
    · exact .inr (.inl break')
    · exact .inr (.inr ⟨lines, listed, line, hl, hb⟩)

end Text

namespace Space

open Text

theorem of_mapM_eq_ok {α β : Type} {f : α → Except SpaceError β} {g : α → β} {P : α → Prop}
    (only : ∀ x y, f x = .ok y → y = g x ∧ P x) {xs : List α} {ys : List β}
    (h : xs.mapM f = .ok ys) : ys = xs.map g ∧ ∀ x ∈ xs, P x := by
  induction xs generalizing ys with
  | nil =>
    cases h
    exact ⟨rfl, fun x hx => by cases hx⟩
  | cons x xs ih =>
    rw [List.mapM_cons] at h
    cases first : f x with
    | error e => simp [first, bind, Except.bind] at h
    | ok y =>
      cases others : xs.mapM f with
      | error e => simp [first, others, bind, Except.bind] at h
      | ok zs =>
        simp only [first, others, bind, Except.bind, pure, Except.pure, Except.ok.injEq] at h
        obtain ⟨rfl, hx⟩ := only x y first
        obtain ⟨rfl, hxs⟩ := ih others
        refine ⟨h.symm, ?_⟩
        intro z hz
        rcases List.mem_cons.mp hz with rfl | later
        · exact hx
        · exact hxs z later

/-- A linear dump that is granted is made of a region that is not too large and whose points all
fit, if there are any. -/
theorem dump_linear_eq_ok {s : Space} {origin size : Vec} {text : List UInt8}
    (h : s.dump origin size true = .ok text) :
    max (s.regionLength size 0) 1 * max (s.regionLength size 1) 1 *
        max (s.regionLength size 2) 1 ≤ maxDump ∧
      (∀ c, s.InRegion size c → (origin + c.toVec).fits s.dims = true) ∧
      text = shortenRuns (joinPages (trimPages (s.region origin size))) := by
  have read : ∀ v b, cellByte <$> s.get v = .ok b → b = cellByte (s.peek v) ∧ v.fits s.dims = true := by
    intro v b found
    by_cases fits : v.fits s.dims = true
    · rw [get_of_fits fits] at found
      cases found
      exact ⟨rfl, fits⟩
    · simp [get, fits, Functor.map, Except.map] at found
  have region : ∀ pages, ((List.range (s.regionLength size 2)).mapM fun z =>
      (List.range (s.regionLength size 1)).mapM fun y =>
        (List.range (s.regionLength size 0)).mapM fun x =>
          cellByte <$> s.get (origin + (Cursor.mk x y z).toVec)) = .ok pages →
      pages = s.region origin size ∧ ∀ z ∈ List.range (s.regionLength size 2),
        ∀ y ∈ List.range (s.regionLength size 1), ∀ x ∈ List.range (s.regionLength size 0),
          (origin + (Cursor.mk x y z).toVec).fits s.dims = true := fun pages =>
    of_mapM_eq_ok fun z lines => of_mapM_eq_ok fun y line => of_mapM_eq_ok fun x b => read _ b
  simp only [dump] at h
  split at h
  · cases h
  · rename_i accepted
    cases written : ((List.range (s.regionLength size 2)).mapM fun z =>
      (List.range (s.regionLength size 1)).mapM fun y =>
        (List.range (s.regionLength size 0)).mapM fun x =>
          cellByte <$> s.get (origin + (Cursor.mk x y z).toVec)) with
    | error e =>
      rw [written] at h
      simp only [bind, Except.bind, reduceCtorEq] at h
    | ok pages =>
      obtain ⟨same, fits⟩ := region pages written
      rw [written] at h
      simp only [bind, Except.bind, pure, Except.pure, if_true, Except.ok.injEq] at h
      refine ⟨Nat.le_of_not_lt accepted, ?_, by rw [← h, same]⟩
      rintro ⟨x, y, z⟩ ⟨hx, hy, hz⟩
      exact fits z (List.mem_range.mpr hz) y (List.mem_range.mpr hy) x (List.mem_range.mpr hx)

/-- The bytes of a region are those of its cells. -/
theorem mem_region {s : Space} {origin size : Vec} {lines : List (List UInt8)} {line : List UInt8}
    {b : UInt8} (page : lines ∈ s.region origin size) (row : line ∈ lines) (byte : b ∈ line) :
    ∃ c, s.InRegion size c ∧ b = cellByte (s.peek (origin + c.toVec)) := by
  obtain ⟨z, hz, rfl⟩ := List.mem_map.mp page
  obtain ⟨y, hy, rfl⟩ := List.mem_map.mp row
  obtain ⟨x, hx, rfl⟩ := List.mem_map.mp byte
  exact ⟨⟨x, y, z⟩, ⟨List.mem_range.mp hx, List.mem_range.mp hy, List.mem_range.mp hz⟩, rfl⟩

/-- The places of a region's trimmed text are those of its trimmed pages. -/
theorem placed_trimmed {s : Space} {origin size : Vec}
    (plain : ∀ c, s.InRegion size c → Plain (cellByte (s.peek (origin + c.toVec)))) :
    placed s.dims false (joinPages (trimPages (s.region origin size))) =
      pagePlaces 0 (trimPages (s.region origin size)) := by
  apply layout_joinPages
  · intro lines page line row b byte
    obtain ⟨full, among, _, wholes⟩ := mem_trimPages page
    obtain ⟨whole, within, bytes⟩ := wholes line row
    obtain ⟨c, hc, rfl⟩ := mem_region among within (bytes b byte)
    exact plain c hc
  · intro small lines page
    obtain ⟨full, among, shorter, _⟩ := mem_trimPages page
    obtain ⟨z, _, rfl⟩ := List.mem_map.mp among
    have one : s.regionLength size 1 = 1 := if_neg (by omega)
    rw [List.length_map, List.length_range, one] at shorter
    exact shorter
  · intro small
    have shorter := length_trimPages_le (s.region origin size)
    have single : (s.region origin size).length = 1 := by
      simp [region, regionLength, show ¬ 2 < s.dims by omega]
    omega

theorem isDigit_decimal {b : UInt8} (h : Numeral.isDigit 10 b = true) :
    48 ≤ b.toNat ∧ b.toNat ≤ 57 := by
  simp only [Numeral.isDigit, Numeral.digitValue?] at h
  split at h
  · rename_i decimal
    exact decimal
  · split at h
    · rw [Option.filter_some, if_neg (by simp; omega)] at h
      cases h
    · split at h
      · rw [Option.filter_some, if_neg (by simp; omega)] at h
        cases h
      · cases h

theorem not_isDigit_cellByte {a : Cell} (low : 0 ≤ a) (high : a ≤ 255)
    (other : ¬ (48 ≤ a ∧ a ≤ 57)) : Numeral.isDigit 10 (cellByte a) = false := by
  rw [← Bool.not_eq_true]
  intro digit
  obtain ⟨above, below⟩ := isDigit_decimal digit
  have faithful := congrArg Int64.toInt (ofByte_cellByte low high)
  rw [Cell.ofByte, Int64.toInt_ofNat_of_lt (by omega)] at faithful
  apply other
  rw [Int64.le_iff_toInt_le, Int64.le_iff_toInt_le]
  have least : (48 : Cell).toInt = 48 := by decide
  have greatest : (57 : Cell).toInt = 57 := by decide
  omega

/-- Expanded, the linear form of a region with neither breaks nor digits in its cells is the
trimmed text. -/
theorem expandRuns_dump {s : Space} {origin size : Vec} {text : List UInt8}
    (dumped : s.dump origin size true = .ok text)
    (others : ∀ c, s.InRegion size c →
      Numeral.isDigit 10 (cellByte (s.peek (origin + c.toVec))) = false) :
    expandRuns text = joinPages (trimPages (s.region origin size)) := by
  obtain ⟨_, _, same⟩ := dump_linear_eq_ok dumped
  rw [same]
  apply expandRuns_shortenRuns
  intro b hb
  rcases mem_joinPages hb with rfl | rfl | ⟨lines, page, line, row, byte⟩
  · rfl
  · rfl
  · obtain ⟨full, among, _, wholes⟩ := mem_trimPages page
    obtain ⟨whole, within, bytes⟩ := wholes line row
    obtain ⟨c, hc, rfl⟩ := mem_region among within (bytes b byte)
    exact others c hc

/-- A text without bytes changes nothing, wherever it is loaded. -/
theorem load_of_placed_nil {s : Space} {text : List UInt8} {binary : Bool}
    (nothing : placed s.dims binary text = []) (origin : Vec) :
    s.load origin text binary = (.ok 0, s) := by
  rw [load_eq, nothing]
  rfl

theorem InRegion.toVec_fits {s : Space} (positive : 0 < s.dims) {size : Vec} {c : Cursor}
    (h : s.InRegion size c) : c.toVec.fits s.dims = true :=
  Cursor.toVec_fits positive (region_within h.2.1 h.2.2)

/-- The linear form of a region whose cells hold bytes that are neither breaks nor digits, with
its runs written out again and loaded at the same place of a blank space, gives back the cells of
the region that are not blank and nothing else. -/
theorem load_expanded_dump {s : Space} (positive : 0 < s.dims) {origin size : Vec}
    {text : List UInt8} (dumped : s.dump origin size true = .ok text)
    (bytes : ∀ c, s.InRegion size c → 0 ≤ s.peek (origin + c.toVec) ∧
      s.peek (origin + c.toVec) ≤ 255 ∧ s.peek (origin + c.toVec) ≠ 10 ∧
      s.peek (origin + c.toVec) ≠ 12 ∧ s.peek (origin + c.toVec) ≠ 13 ∧
      ¬ (48 ≤ s.peek (origin + c.toVec) ∧ s.peek (origin + c.toVec) ≤ 57)) :
    ∃ extent copy, (empty s.dims).load origin (expandRuns text) false = (.ok extent, copy) ∧
      copy.dims = s.dims ∧
      ∀ v a, (v, a) ∈ copy.toList ↔ a ≠ Cell.blank ∧ ∃ c, s.InRegion size c ∧
        v = origin + c.toVec ∧ s.peek (origin + c.toVec) = a := by
  obtain ⟨accepted, points, _⟩ := dump_linear_eq_ok dumped
  have expanded := expandRuns_dump dumped fun c hc =>
    let ⟨low, high, _, _, _, digit⟩ := bytes c hc
    not_isDigit_cellByte low high digit
  have places := placed_trimmed fun c hc =>
    let ⟨low, high, line, page, ret, _⟩ := bytes c hc
    plain_cellByte low high line page ret
  rw [← expanded] at places
  have within : ∀ c b, (c, b) ∈ placed s.dims false (expandRuns text) →
      s.InRegion size c ∧ b = cellByte (s.peek (origin + c.toVec)) := by
    intro c b place
    rw [places] at place
    exact mem_pagePlaces_region.mp (mem_pagePlaces_of_trimPages place)
  by_cases fits : origin.fits s.dims = true
  · refine load_of_places positive fits accepted ?_ within ?_
    · intro c hc
      exact ofByte_cellByte (bytes c hc).1 (bytes c hc).2.1
    · intro c hc ink
      rw [places]
      exact mem_pagePlaces_trimPages (mem_pagePlaces_region.mpr ⟨hc, rfl⟩) ink
  · -- An origin that does not fit is granted for a region without cells only.
    have vacant : ∀ c, ¬ s.InRegion size c := by
      intro c hc
      have point := Vec.fits_sub (points c hc) (hc.toVec_fits positive)
      rw [Vec.add_sub_cancel_right] at point
      exact fits point
    have full : (empty s.dims).dims = s.dims := by
      simp only [empty]
      omega
    have nothing : placed (empty s.dims).dims false (expandRuns text) = [] := by
      rw [full, List.eq_nil_iff_forall_not_mem]
      rintro ⟨c, b⟩ place
      exact vacant c (within c b place).1
    refine ⟨0, empty s.dims, load_of_placed_nil nothing origin, full, ?_⟩
    intro v a
    constructor
    · intro live
      simp [toList, empty] at live
    · rintro ⟨_, c, hc, _⟩
      exact absurd hc (vacant c)

/-- A page with a gap in its first line and two empty lines, an empty page, and a third page. -/
def broadsheet : Space :=
  ((empty 3).load (Vec.ofList [-1, 2])
    [97, 32, 32, 32, 32, 98, 10, 10, 10, 99, 12, 12, 32, 100] false).2

/-- The broadsheet, dumped with a margin that is trimmed away, is got back from its linear form. -/
theorem broadsheet_reloaded :
    broadsheet.dump (Vec.ofList [-1, 2]) (Vec.ofList [7, 4, 4]) true =
      .ok [97, 52, 32, 98, 51, 10, 99, 50, 12, 32, 100] ∧
    expandRuns [97, 52, 32, 98, 51, 10, 99, 50, 12, 32, 100] =
      [97, 32, 32, 32, 32, 98, 10, 10, 10, 99, 12, 12, 32, 100] ∧
    ∃ extent copy, (empty 3).load (Vec.ofList [-1, 2])
        (expandRuns [97, 52, 32, 98, 51, 10, 99, 50, 12, 32, 100]) false = (.ok extent, copy) ∧
      copy.dims = 3 ∧
      ∀ v a, (v, a) ∈ copy.toList ↔ a ≠ Cell.blank ∧ ∃ c : Cursor,
        broadsheet.InRegion (Vec.ofList [7, 4, 4]) c ∧ v = Vec.ofList [-1, 2] + c.toVec ∧
        broadsheet.peek (Vec.ofList [-1, 2] + c.toVec) = a := by
  have three : broadsheet.dims = 3 := by decide +kernel
  have dumped : broadsheet.dump (Vec.ofList [-1, 2]) (Vec.ofList [7, 4, 4]) true =
      .ok [97, 52, 32, 98, 51, 10, 99, 50, 12, 32, 100] := by
    decide +kernel
  have cells : ∀ x < 7, ∀ y < 4, ∀ z < 4,
      let a := broadsheet.peek (Vec.ofList [-1, 2] + (Cursor.mk x y z).toVec)
      0 ≤ a ∧ a ≤ 255 ∧ a ≠ 10 ∧ a ≠ 12 ∧ a ≠ 13 := by
    decide +kernel
  have letters : ∀ x < 7, ∀ y < 4, ∀ z < 4,
      let a := broadsheet.peek (Vec.ofList [-1, 2] + (Cursor.mk x y z).toVec)
      ¬ (48 ≤ a ∧ a ≤ 57) := by
    decide +kernel
  have reloaded := load_expanded_dump (by decide +kernel) dumped <| by
    rintro ⟨x, y, z⟩ ⟨hx, hy, hz⟩
    obtain ⟨low, high, line, page, ret⟩ := cells x hx y hy z hz
    exact ⟨low, high, line, page, ret, letters x hx y hy z hz⟩
  rw [three] at reloaded
  exact ⟨dumped, by decide +kernel, reloaded⟩

end Space

end Funge
