import Funge.Proofs.Layout
import Funge.Proofs.Occupancy
import Funge.Proofs.Vec
import Mathlib.Data.Set.Card

/-!
# The playfield as a map

The bookkeeping of a space is sound when it stores no blank and nothing that does not fit, and
every axis tallies the live cells at each of its coordinates. A write keeps that. Hence after
any sequence of writes and loads a space is known by one map, the last value written at each
point, and its size, its extents and its box are those of the points where the map is not blank.
-/

namespace Funge

namespace Space

section Keys

variable (cells : Std.TreeMap Vec Cell) {v : Vec} {c : Cell}

theorem keys_insert_of_mem (h : v ∈ cells) : (cells.insert v c).keys.Perm cells.keys := by
  rw [List.perm_ext_iff_of_nodup Std.TreeMap.nodup_keys Std.TreeMap.nodup_keys]
  intro u
  simp only [Std.TreeMap.mem_keys, Std.TreeMap.mem_insert, Std.LawfulEqOrd.compare_eq_iff_eq]
  constructor
  · rintro (rfl | hu)
    · exact h
    · exact hu
  · exact Or.inr

theorem keys_insert_of_not_mem (h : v ∉ cells) :
    (cells.insert v c).keys.Perm (v :: cells.keys) := by
  have fresh : v ∉ cells.keys := fun hv => h (Std.TreeMap.mem_keys.mp hv)
  rw [List.perm_ext_iff_of_nodup Std.TreeMap.nodup_keys
    (List.nodup_cons.mpr ⟨fresh, Std.TreeMap.nodup_keys⟩)]
  intro u
  rw [Std.TreeMap.mem_keys, Std.TreeMap.mem_insert, Std.LawfulEqOrd.compare_eq_iff_eq,
    List.mem_cons, Std.TreeMap.mem_keys, eq_comm]

theorem keys_erase_of_mem (h : v ∈ cells) : cells.keys.Perm (v :: (cells.erase v).keys) := by
  have gone : v ∉ (cells.erase v).keys := by simp
  rw [List.perm_ext_iff_of_nodup Std.TreeMap.nodup_keys
    (List.nodup_cons.mpr ⟨gone, Std.TreeMap.nodup_keys⟩)]
  intro u
  simp only [Std.TreeMap.mem_keys, Std.TreeMap.mem_erase, List.mem_cons, ne_eq,
    Std.LawfulEqOrd.compare_eq_iff_eq]
  by_cases hu : u = v
  · simp [hu, h]
  · simp [hu, Ne.symm hu]

end Keys

/-- Number of live cells with coordinate `c` on an axis. -/
def tally (s : Space) (axis : Nat) (c : Cell) : Nat := s.cells.keys.countP (·.get axis = c)

/-- The bookkeeping agrees with the cells. -/
structure Sound (s : Space) : Prop where
  positive : 0 < s.dims
  fitting : ∀ v ∈ s.cells, v.fits s.dims = true
  inked : ∀ (v : Vec) (c : Cell), s.cells[v]? = some c → c ≠ Cell.blank
  axes_length : s.axes.length = s.dims
  tallied : ∀ (axis : Nat) (o : Occupancy), s.axes[axis]? = some o → o.Tallies (s.tally axis)

theorem sound_empty (dims : Nat) : (empty dims).Sound where
  positive := by simp only [empty]; omega
  fitting v hv := by simp [empty] at hv
  inked v c h := by simp [empty] at h
  axes_length := by simp [empty]
  tallied axis o ho := by
    have blank : o = .empty := by
      have member := List.mem_of_getElem? ho
      exact List.eq_of_mem_replicate member
    subst blank
    have zero : (empty dims).tally axis = fun _ => 0 := by
      funext c
      simp [tally, empty]
    rw [zero]
    exact Occupancy.tallies_empty

/-- A record of an axis after all axes have changed by the coordinates of a point. -/
theorem getElem?_zipWith_coordinates {f : Occupancy → Cell → Occupancy} {axes : List Occupancy}
    {v : Vec} {dims axis : Nat} {o : Occupancy} (len : axes.length = dims)
    (h : (List.zipWith f axes (v.coordinates dims))[axis]? = some o) :
    ∃ o', axes[axis]? = some o' ∧ o = f o' (v.get axis) := by
  rw [List.getElem?_zipWith] at h
  cases ho : axes[axis]? with
  | none => simp [ho] at h
  | some o' =>
    have bound : axis < dims := by
      have := (List.getElem?_eq_some_iff.mp ho).1
      omega
    simp only [ho, Vec.getElem?_coordinates v bound, Option.some.injEq] at h
    exact ⟨o', rfl, h.symm⟩

theorem tally_insert_new {s : Space} {v : Vec} (h : v ∉ s.cells) (c : Cell)
    (axes : List Occupancy) (axis : Nat) :
    tally { s with cells := s.cells.insert v c, axes } axis =
      fun x => if x = v.get axis then s.tally axis x + 1 else s.tally axis x := by
  funext x
  simp only [tally, (keys_insert_of_not_mem s.cells h).countP_eq, List.countP_cons,
    decide_eq_true_eq, eq_comm (a := x)]
  split <;> rfl

theorem tally_erase {s : Space} {v : Vec} (h : v ∈ s.cells) (axes : List Occupancy)
    (axis : Nat) :
    tally { s with cells := s.cells.erase v, axes } axis =
      fun x => if x = v.get axis then s.tally axis x - 1 else s.tally axis x := by
  funext x
  simp only [tally, (keys_erase_of_mem s.cells h).countP_eq, List.countP_cons,
    decide_eq_true_eq, eq_comm (a := x)]
  split <;> simp

theorem tally_pos {s : Space} {v : Vec} (h : v ∈ s.cells) (axis : Nat) :
    0 < s.tally axis (v.get axis) := by
  rw [tally, List.countP_pos_iff]
  exact ⟨v, Std.TreeMap.mem_keys.mpr h, by simp⟩

theorem tally_pos_iff {s : Space} {axis : Nat} {c : Cell} :
    0 < s.tally axis c ↔ ∃ v ∈ s.cells, v.get axis = c := by
  rw [tally, List.countP_pos_iff]
  simp [Std.TreeMap.mem_keys]

/-- Erasing a live cell keeps the bookkeeping sound. -/
theorem Sound.erase {s : Space} (h : s.Sound) {v : Vec} (live : v ∈ s.cells) :
    Sound { s with
      cells := s.cells.erase v
      axes := List.zipWith Occupancy.remove s.axes (v.coordinates s.dims) } where
  positive := h.positive
  fitting u hu := h.fitting u (Std.TreeMap.mem_of_mem_erase hu)
  inked u c hu := by
    rw [Std.TreeMap.getElem?_erase] at hu
    split at hu
    · cases hu
    · exact h.inked u c hu
  axes_length := by simp [h.axes_length]
  tallied axis o ho := by
    obtain ⟨o', old, rfl⟩ := getElem?_zipWith_coordinates h.axes_length ho
    rw [tally_erase live]
    exact (h.tallied axis o' old).remove (tally_pos live axis)

theorem Sound.fits_of_mem_insert {s : Space} (h : s.Sound) {u v : Vec} {c : Cell}
    (fits : v.fits s.dims = true) (hu : u ∈ s.cells.insert v c) : u.fits s.dims = true := by
  rcases Std.TreeMap.mem_insert.mp hu with he | hu
  · rw [← Std.LawfulEqOrd.eq_of_compare he]
    exact fits
  · exact h.fitting u hu

theorem Sound.ne_blank_of_insert {s : Space} (h : s.Sound) {u v : Vec} {c d : Cell}
    (ink : c ≠ Cell.blank) (hu : (s.cells.insert v c)[u]? = some d) : d ≠ Cell.blank := by
  rw [Std.TreeMap.getElem?_insert] at hu
  split at hu
  · cases hu
    exact ink
  · exact h.inked u d hu

/-- A new live cell keeps the bookkeeping sound. -/
theorem Sound.insert_new {s : Space} (h : s.Sound) {v : Vec} (fits : v.fits s.dims = true)
    (absent : v ∉ s.cells) {c : Cell} (ink : c ≠ Cell.blank) :
    Sound { s with
      cells := s.cells.insert v c
      axes := List.zipWith Occupancy.add s.axes (v.coordinates s.dims) } where
  positive := h.positive
  fitting _ hu := h.fits_of_mem_insert fits hu
  inked _ _ hu := h.ne_blank_of_insert ink hu
  axes_length := by simp [h.axes_length]
  tallied axis o ho := by
    obtain ⟨o', old, rfl⟩ := getElem?_zipWith_coordinates h.axes_length ho
    rw [tally_insert_new absent]
    exact (h.tallied axis o' old).add (v.get axis)

/-- Another value in a live cell keeps the bookkeeping sound. -/
theorem Sound.insert_old {s : Space} (h : s.Sound) {v : Vec} (live : v ∈ s.cells) {c : Cell}
    (ink : c ≠ Cell.blank) : Sound { s with cells := s.cells.insert v c } where
  positive := h.positive
  fitting _ hu := h.fits_of_mem_insert (h.fitting v live) hu
  inked _ _ hu := h.ne_blank_of_insert ink hu
  axes_length := h.axes_length
  tallied axis o ho := by
    have same : tally { s with cells := s.cells.insert v c } axis = s.tally axis := by
      funext x
      exact (keys_insert_of_mem s.cells live).countP_eq _
    rw [same]
    exact h.tallied axis o ho

theorem Sound.write {s : Space} (h : s.Sound) {v : Vec} (fits : v.fits s.dims = true) (c : Cell) :
    (s.write v c).Sound := by
  unfold Space.write
  by_cases blank : c = Cell.blank
  · by_cases live : v ∈ s.cells
    · simpa [blank, live] using h.erase live
    · simpa [blank, live] using h
  · by_cases live : v ∈ s.cells
    · simpa [blank, live] using h.insert_old live blank
    · simpa [blank, live] using h.insert_new fits live blank

theorem peek_write (s : Space) (v : Vec) (c : Cell) (u : Vec) :
    (s.write v c).peek u = if u = v then c else s.peek u := by
  have key : compare v u = .eq ↔ u = v := by
    rw [Std.LawfulEqOrd.compare_eq_iff_eq, eq_comm]
  unfold write
  by_cases blank : c = Cell.blank
  · by_cases live : v ∈ s.cells
    · simp [blank, live, peek, Std.TreeMap.getD_erase, key]
    · by_cases hu : u = v
      · simp [blank, live, hu, peek, Std.TreeMap.getD_eq_fallback live]
      · simp [blank, live, hu]
  · simp [blank, peek, Std.TreeMap.getD_insert, key]

/-- The live cells are those that do not read as blank. -/
theorem Sound.mem_iff {s : Space} (h : s.Sound) (v : Vec) : v ∈ s.cells ↔ s.peek v ≠ Cell.blank := by
  constructor
  · intro live
    apply h.inked v
    rw [peek, Std.TreeMap.getElem?_eq_some_getD live]
  · intro ink
    by_cases live : v ∈ s.cells
    · exact live
    · exact False.elim (ink (Std.TreeMap.getD_eq_fallback live))

theorem extent?_eq {s : Space} {axis : Nat} {o : Occupancy} (found : s.axes[axis]? = some o) :
    s.extent? axis = o.extent? := by
  simp [extent?, found]

theorem Sound.axis_lt {s : Space} (h : s.Sound) {axis : Nat} {o : Occupancy}
    (found : s.axes[axis]? = some o) : axis < s.dims := by
  obtain ⟨stored, _⟩ := List.getElem?_eq_some_iff.mp found
  rwa [h.axes_length] at stored

theorem Sound.exists_axis {s : Space} (h : s.Sound) {axis : Nat} (bound : axis < s.dims) :
    ∃ o, s.axes[axis]? = some o := by
  rw [← h.axes_length] at bound
  exact ⟨s.axes[axis], List.getElem?_eq_getElem bound⟩

theorem Sound.spans {s : Space} (h : s.Sound) {axis : Nat} (bound : axis < s.dims) :
    Occupancy.Spans (fun c => ∃ v, s.peek v ≠ Cell.blank ∧ v.get axis = c) (s.extent? axis) := by
  obtain ⟨o, found⟩ := h.exists_axis bound
  rw [extent?_eq found]
  refine (h.tallied axis o found).spans.congr fun c => ?_
  rw [tally_pos_iff]
  exact exists_congr fun v => and_congr_left fun _ => h.mem_iff v

/-- Every axis has an extent exactly when some cell is live. -/
theorem Sound.extent?_eq_none_iff {s : Space} (h : s.Sound) {axis : Nat} (bound : axis < s.dims) :
    s.extent? axis = none ↔ ∀ v, s.peek v = Cell.blank := by
  have spans := h.spans bound
  constructor
  · intro without v
    rw [without] at spans
    by_cases ink : s.peek v = Cell.blank
    · exact ink
    · exact False.elim (spans (v.get axis) ⟨v, ink, rfl⟩)
  · intro blank
    cases he : s.extent? axis with
    | none => rfl
    | some extent =>
      rw [he] at spans
      obtain ⟨v, ink, _⟩ := spans.1
      exact False.elim (ink (blank v))

theorem mapM_extent?_eq_none {axes : List Occupancy} {o : Occupancy} (h : o ∈ axes)
    (without : o.extent? = none) : axes.mapM Occupancy.extent? = none := by
  induction axes with
  | nil => cases h
  | cons a axes ih =>
    rw [List.mapM_cons]
    rcases List.mem_cons.mp h with rfl | h
    · rw [without]
      rfl
    · cases a.extent? with
      | none => rfl
      | some extent => rw [ih h]; rfl

theorem mapM_extent?_eq_some {axes : List Occupancy} (h : ∀ o ∈ axes, o.extent?.isSome) :
    ∃ extents, axes.mapM Occupancy.extent? = some extents ∧ extents.length = axes.length ∧
      ∀ i : Nat, extents[i]? = axes[i]?.bind Occupancy.extent? := by
  induction axes with
  | nil => exact ⟨[], rfl, rfl, fun i => rfl⟩
  | cons a axes ih =>
    obtain ⟨extent, he⟩ := Option.isSome_iff_exists.mp (h a List.mem_cons_self)
    obtain ⟨extents, hm, len, entry⟩ := ih fun o ho => h o (List.mem_cons_of_mem a ho)
    refine ⟨extent :: extents, ?_, by simp [len], ?_⟩
    · rw [List.mapM_cons, he, hm]
      rfl
    · intro i
      cases i with
      | zero => simp [he]
      | succ i => simpa using entry i

/-- The box has corners made of the extents of all axes. -/
theorem Sound.bounds? {s : Space} (h : s.Sound) :
    (s.bounds? = none ↔ ∀ v, s.peek v = Cell.blank) ∧
    ∀ least greatest, s.bounds? = some (least, greatest) →
      least.fits s.dims = true ∧ greatest.fits s.dims = true ∧
      ∀ axis, axis < s.dims → s.extent? axis = some (least.get axis, greatest.get axis) := by
  by_cases blank : ∀ v, s.peek v = Cell.blank
  · obtain ⟨o, found⟩ := h.exists_axis h.positive
    have first : o.extent? = none := by
      rw [← extent?_eq found]
      exact (h.extent?_eq_none_iff h.positive).mpr blank
    have without := mapM_extent?_eq_none (List.mem_of_getElem? found) first
    simp [Space.bounds?, without, blank]
  · have every : ∀ o ∈ s.axes, o.extent?.isSome := by
      intro o ho
      obtain ⟨axis, found⟩ := List.mem_iff_getElem?.mp ho
      rw [Option.isSome_iff_ne_none]
      intro without
      exact blank ((h.extent?_eq_none_iff (h.axis_lt found)).mp ((extent?_eq found).trans without))
    obtain ⟨extents, hm, len, entry⟩ := mapM_extent?_eq_some every
    rw [h.axes_length] at len
    refine ⟨by simp [Space.bounds?, hm, blank], ?_⟩
    intro least greatest hb
    simp only [Space.bounds?, hm, Option.map_some, Option.some.injEq, Prod.mk.injEq] at hb
    obtain ⟨rfl, rfl⟩ := hb
    refine ⟨Vec.fits_ofList (by simp [len]), Vec.fits_ofList (by simp [len]), ?_⟩
    intro axis bound
    obtain ⟨extent, at_axis⟩ : ∃ extent, extents[axis]? = some extent :=
      ⟨_, List.getElem?_eq_getElem (by omega)⟩
    rw [extent?, ← entry axis, at_axis]
    simp [List.getD_eq_getElem?_getD, at_axis]

theorem Sound.outside_iff_excludes {s : Space} (h : s.Sound) (v : Vec) :
    s.outside v = true ↔ v.fits s.dims = false ∨
      ∃ (axis : Nat) (o : Occupancy), s.axes[axis]? = some o ∧ o.excludes (v.get axis) = true := by
  simp only [outside, Bool.or_eq_true, Bool.not_eq_true', List.any_eq_true]
  apply or_congr_right
  constructor
  · rintro ⟨⟨o, c⟩, member, excluded⟩
    obtain ⟨axis, entry⟩ := List.mem_iff_getElem?.mp member
    obtain ⟨ho, hc⟩ := List.getElem?_zip_eq_some.mp entry
    rw [Vec.getElem?_coordinates v (h.axis_lt ho), Option.some.injEq] at hc
    exact ⟨axis, o, ho, by rw [hc]; exact excluded⟩
  · rintro ⟨axis, o, ho, excluded⟩
    have entry : (s.axes.zip (v.coordinates s.dims))[axis]? = some (o, v.get axis) :=
      List.getElem?_zip_eq_some.mpr ⟨ho, Vec.getElem?_coordinates v (h.axis_lt ho)⟩
    exact ⟨(o, v.get axis), List.mem_of_getElem? entry, excluded⟩

/-- A point is outside when it does not fit, nothing is live, or an axis leaves it out. -/
theorem Sound.outside_iff {s : Space} (h : s.Sound) (v : Vec) :
    s.outside v = true ↔ v.fits s.dims = false ∨ (∀ u, s.peek u = Cell.blank) ∨
      ∃ axis lo hi, axis < s.dims ∧ s.extent? axis = some (lo, hi) ∧
        (v.get axis < lo ∨ hi < v.get axis) := by
  rw [h.outside_iff_excludes]
  apply or_congr_right
  constructor
  · rintro ⟨axis, o, ho, excluded⟩
    have bound := h.axis_lt ho
    have extent := extent?_eq ho
    rw [Occupancy.excludes_iff] at excluded
    cases he : o.extent? with
    | none => exact Or.inl ((h.extent?_eq_none_iff bound).mp (extent.trans he))
    | some e => exact Or.inr ⟨axis, e.1, e.2, bound, extent.trans he, excluded e.1 e.2 he⟩
  · rintro (blank | ⟨axis, lo, hi, bound, he, beyond⟩)
    · obtain ⟨o, ho⟩ := h.exists_axis h.positive
      have without := (h.extent?_eq_none_iff h.positive).mpr blank
      refine ⟨0, o, ho, (Occupancy.excludes_iff o _).mpr ?_⟩
      intro lo hi he
      rw [← extent?_eq ho, without] at he
      cases he
    · obtain ⟨o, ho⟩ := h.exists_axis bound
      refine ⟨axis, o, ho, (Occupancy.excludes_iff o _).mpr ?_⟩
      intro lo' hi' he'
      rw [← extent?_eq ho, he] at he'
      cases he'
      exact beyond

theorem Sound.encard_live {s : Space} (h : s.Sound) :
    {v | s.peek v ≠ Cell.blank}.encard = s.size := by
  have points : {v | s.peek v ≠ Cell.blank} = (s.cells.keys.toFinset : Set Vec) := by
    ext v
    simp [← h.mem_iff v]
  rw [points, Set.encard_coe_eq_coe_finsetCard, List.toFinset_card_of_nodup Std.TreeMap.nodup_keys,
    Std.TreeMap.length_keys]
  rfl

/-- A call that writes to a space. -/
inductive Call where
  | set (point : Vec) (value : Cell)
  | load (origin : Vec) (source : List UInt8) (binary : Bool)

/-- The space after a call, be it granted or refused. -/
def Call.apply (s : Space) : Call → Space
  | .set v c =>
    match s.set v c with
    | .ok s' => s'
    | .error _ => s
  | .load origin source binary => (s.load origin source binary).2

/-- The points and values that a call writes, in order. -/
def Call.writes (dims : Nat) : Call → List (Vec × Cell)
  | .set v c => [(v, c)]
  | .load origin source binary =>
    ((Text.placed dims binary source).filter (·.2 ≠ Text.space)).map fun (c, b) =>
      (origin + c.toVec, Cell.ofByte b)

/-- The map after writes. They end at the first point that does not fit. -/
def inscribe (dims : Nat) (m : Vec → Cell) : List (Vec × Cell) → Vec → Cell
  | [] => m
  | (v, c) :: rest => if v.fits dims then inscribe dims (Function.update m v c) rest else m

/-- The last value written at each point by a sequence of calls, and blank where there is none. -/
def lastWritten (dims : Nat) (calls : List Call) : Vec → Cell :=
  calls.foldl (fun m call => inscribe dims m (call.writes dims)) fun _ => Cell.blank

/-- The bookkeeping is sound and the cells read as the map says. -/
structure Holds (s : Space) (m : Vec → Cell) : Prop where
  sound : s.Sound
  peek : ∀ v, s.peek v = m v

theorem Holds.write {s : Space} {m : Vec → Cell} (h : s.Holds m) {v : Vec}
    (fits : v.fits s.dims = true) (c : Cell) : (s.write v c).Holds (Function.update m v c) where
  sound := h.sound.write fits c
  peek u := by
    rw [peek_write, Function.update_apply, h.peek]

/-- Bytes put into their places are written in order up to the first that does not fit. -/
theorem Holds.putPlaced {s : Space} {m : Vec → Cell} (h : s.Holds m) (origin : Vec)
    (corner : Option Text.Cursor) (places : List (Text.Cursor × UInt8)) :
    (putPlaced origin s corner places).2.Holds (inscribe s.dims m
      ((places.filter (·.2 ≠ Text.space)).map fun (c, b) => (origin + c.toVec, Cell.ofByte b))) ∧
    (putPlaced origin s corner places).2.dims = s.dims := by
  induction places generalizing s m corner with
  | nil => exact ⟨h, rfl⟩
  | cons place places ih =>
    obtain ⟨c, b⟩ := place
    by_cases blank : b = Text.space
    · have skipped : putByte origin c b s corner = .ok (s, corner) := by simp [putByte, blank]
      simp only [Space.putPlaced, skipped]
      simpa [blank] using ih h corner
    · by_cases fits : (origin + c.toVec).fits s.dims = true
      · have put : putByte origin c b s corner =
            .ok (s.write (origin + c.toVec) (Cell.ofByte b), some (c.join (corner.getD {}))) := by
          simp [putByte, blank, set, fits, Except.map]
        have rest := ih (h.write fits (Cell.ofByte b)) (some (c.join (corner.getD {})))
        rw [dims_write] at rest
        simp only [Space.putPlaced, put]
        simpa [blank, inscribe, fits] using rest
      · have refused : putByte origin c b s corner =
            .error (.dimension (origin + c.toVec) s.dims) := by
          simp [putByte, blank, set, fits, Except.map]
        simp only [Space.putPlaced, refused]
        simpa [blank, inscribe, fits] using h

theorem Holds.apply {s : Space} {m : Vec → Cell} (h : s.Holds m) (call : Call) :
    (call.apply s).Holds (inscribe s.dims m (call.writes s.dims)) ∧
      (call.apply s).dims = s.dims := by
  cases call with
  | set v c =>
    by_cases fits : v.fits s.dims = true
    · have granted : s.set v c = .ok (s.write v c) := by simp [Space.set, fits]
      simpa [Call.apply, Call.writes, inscribe, granted, fits] using h.write fits c
    · have refused : s.set v c = .error (.dimension v s.dims) := by simp [Space.set, fits]
      simpa [Call.apply, Call.writes, inscribe, refused, fits] using h
  | load origin source binary =>
    simp only [Call.apply, Call.writes, load_eq]
    exact h.putPlaced origin none (Text.placed s.dims binary source)

/-- After any calls from the blank space, the space holds the last values written. -/
theorem holds_lastWritten (dims : Nat) (calls : List Call) :
    (calls.foldl Call.apply (empty dims)).Holds (lastWritten (max dims 1) calls) ∧
      (calls.foldl Call.apply (empty dims)).dims = max dims 1 := by
  have run : ∀ (s : Space) (m : Vec → Cell), s.Holds m → s.dims = max dims 1 →
      (calls.foldl Call.apply s).Holds
        (calls.foldl (fun m call => inscribe (max dims 1) m (call.writes (max dims 1))) m) ∧
      (calls.foldl Call.apply s).dims = max dims 1 := by
    induction calls with
    | nil => exact fun s m h hd => ⟨h, hd⟩
    | cons call calls ih =>
      intro s m h hd
      obtain ⟨next, same⟩ := h.apply call
      rw [hd] at next same
      exact ih _ _ next same
  refine run (empty dims) (fun _ => Cell.blank) ⟨sound_empty dims, ?_⟩ rfl
  intro v
  simp [peek, empty]

/-- After every sequence of writes and loads, granted or refused, the space is the map of the
last values written: it reads as that map, stores no blank, counts the points that are not blank,
and knows the least and the greatest coordinate of those points on each of its axes. -/
theorem calls_refine_lastWritten (dims : Nat) (calls : List Call) :
    let s := calls.foldl Call.apply (empty dims)
    let m := lastWritten (max dims 1) calls
    s.dims = max dims 1 ∧
    (∀ v, v.fits s.dims = true → s.get v = .ok (m v)) ∧
    (∀ v c, (v, c) ∈ s.toList → c ≠ Cell.blank) ∧
    {v | m v ≠ Cell.blank}.encard = s.size ∧
    (∀ axis, axis < s.dims →
      (s.extent? axis = none ↔ ∀ v, m v = Cell.blank) ∧
      ∀ lo hi, s.extent? axis = some (lo, hi) →
        (∃ v, m v ≠ Cell.blank ∧ v.get axis = lo) ∧ (∃ v, m v ≠ Cell.blank ∧ v.get axis = hi) ∧
        ∀ v, m v ≠ Cell.blank → lo ≤ v.get axis ∧ v.get axis ≤ hi) ∧
    (s.bounds? = none ↔ ∀ v, m v = Cell.blank) ∧
    (∀ least greatest, s.bounds? = some (least, greatest) →
      least.fits s.dims = true ∧ greatest.fits s.dims = true ∧
      ∀ axis, axis < s.dims → s.extent? axis = some (least.get axis, greatest.get axis)) ∧
    (∀ v, s.outside v = true ↔ v.fits s.dims = false ∨ (∀ u, m u = Cell.blank) ∨
      ∃ axis lo hi, axis < s.dims ∧ s.extent? axis = some (lo, hi) ∧
        (v.get axis < lo ∨ hi < v.get axis)) := by
  intro s m
  obtain ⟨holds, same⟩ := holds_lastWritten dims calls
  have sound : s.Sound := holds.sound
  have reads : s.peek = m := funext holds.peek
  rw [← reads]
  refine ⟨same, ?_, ?_, sound.encard_live, ?_, sound.bounds?.1, sound.bounds?.2, sound.outside_iff⟩
  · intro v fits
    simp [get, fits]
  · intro v c stored
    exact sound.inked v c (Std.TreeMap.mem_toList_iff_getElem?_eq_some.mp stored)
  · intro axis bound
    refine ⟨sound.extent?_eq_none_iff bound, ?_⟩
    intro lo hi he
    have spans := sound.spans bound
    rw [he] at spans
    obtain ⟨low, high, between⟩ := spans
    exact ⟨low, high, fun v ink => between (v.get axis) ⟨v, ink, rfl⟩⟩

end Space

end Funge
