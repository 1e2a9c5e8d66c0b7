import Funge.Space.Occupancy

/-!
# Occupancy of an axis, counted

An occupancy tallies a number of cells at each coordinate when it lists exactly the coordinates
with a positive number, and its extent spans exactly those. Adding a cell keeps this, and so
does removing one that was counted, although the extent is then looked up at its ends only.
-/

namespace Funge

namespace Occupancy

/-- The extent runs from the least to the greatest live coordinate, if there is any. -/
def Spans (live : Cell → Prop) : Option (Cell × Cell) → Prop
  | none => ∀ c, ¬ live c
  | some (lo, hi) => live lo ∧ live hi ∧ ∀ c, live c → lo ≤ c ∧ c ≤ hi

/-- The occupancy counts `number c` cells at every coordinate `c`. -/
structure Tallies (o : Occupancy) (number : Cell → Nat) : Prop where
  listed : ∀ c, o.counts[c]? = if number c = 0 then none else some (number c)
  spans : Spans (0 < number ·) o.extent?

theorem Tallies.mem_iff {o : Occupancy} {number : Cell → Nat} (h : o.Tallies number) (c : Cell) :
    c ∈ o.counts ↔ 0 < number c := by
  rw [← Std.TreeMap.isSome_getElem?_iff_mem, h.listed c]
  by_cases hc : number c = 0
  · simp [hc]
  · simp [hc]
    omega

theorem tallies_empty : Tallies empty fun _ => 0 where
  listed c := by simp [empty]
  spans c := Nat.lt_irrefl 0

theorem max_cases (a b : Cell) : a ≤ max a b ∧ b ≤ max a b ∧ (max a b = a ∨ max a b = b) := by
  have unfolded : max a b = if a ≤ b then b else a := rfl
  rw [unfolded]
  by_cases h : a ≤ b
  · simp [h]
  · have other : b ≤ a := (Int64.le_total b a).resolve_right h
    simp [h, other]

theorem widen_spans {live : Cell → Prop} {extent? : Option (Cell × Cell)}
    (h : Spans live extent?) (c : Cell) :
    Spans (fun x => x = c ∨ live x) (some (widen c extent?)) := by
  cases extent? with
  | none =>
    refine ⟨Or.inl rfl, Or.inl rfl, ?_⟩
    rintro x (rfl | hx)
    · exact ⟨Int64.le_refl x, Int64.le_refl x⟩
    · exact False.elim (h x hx)
  | some extent =>
    obtain ⟨lo, hi⟩ := extent
    obtain ⟨hlo, hhi, between⟩ := h
    refine ⟨?_, ?_, ?_⟩
    · rcases Std.min_eq_or (a := lo) (b := c) with h | h
      · exact Or.inr (by simpa only [h] using hlo)
      · exact Or.inl h
    · rcases (max_cases hi c).2.2 with h | h
      · exact Or.inr (by simpa only [h] using hhi)
      · exact Or.inl h
    · rintro x (rfl | hx)
      · exact ⟨Std.min_le_right, (max_cases hi x).2.1⟩
      · obtain ⟨above, below⟩ := between x hx
        exact ⟨Int64.le_trans Std.min_le_left above, Int64.le_trans below (max_cases hi c).1⟩

/-- Looking up the extent finds the least and the greatest listed coordinate. -/
theorem edges_spans (counts : Std.TreeMap Cell Nat) : Spans (· ∈ counts) (edges counts) := by
  cases hlo : counts.minKey? with
  | none =>
    have none_listed : counts.isEmpty = true := Std.TreeMap.minKey?_eq_none_iff.mp hlo
    have result : edges counts = none := by simp [edges, hlo]
    rw [result]
    intro c
    exact Std.TreeMap.isEmpty_iff_forall_not_mem.mp none_listed c
  | some lo =>
    obtain ⟨lo_mem, least⟩ := Std.TreeMap.minKey?_eq_some_iff_mem_and_forall.mp hlo
    cases hhi : counts.maxKey? with
    | none =>
      have none_listed : counts.isEmpty = true := Std.TreeMap.maxKey?_eq_none_iff.mp hhi
      exact False.elim (Std.TreeMap.isEmpty_iff_forall_not_mem.mp none_listed lo lo_mem)
    | some hi =>
      obtain ⟨hi_mem, greatest⟩ := Std.TreeMap.maxKey?_eq_some_iff_mem_and_forall.mp hhi
      have result : edges counts = some (lo, hi) := by simp [edges, hlo, hhi]
      rw [result]
      refine ⟨lo_mem, hi_mem, ?_⟩
      intro c hc
      exact ⟨Std.isLE_compare.mp (least c hc), Std.isLE_compare.mp (greatest c hc)⟩

theorem Spans.congr {live live' : Cell → Prop} {extent? : Option (Cell × Cell)}
    (h : Spans live extent?) (same : ∀ c, live c ↔ live' c) : Spans live' extent? := by
  have heq : live = live' := funext fun c => propext (same c)
  exact heq ▸ h

/-- One more cell at a coordinate is one more in its tally. -/
theorem Tallies.add {o : Occupancy} {number : Cell → Nat} (h : o.Tallies number) (c : Cell) :
    (o.add c).Tallies fun x => if x = c then number x + 1 else number x where
  listed x := by
    have old : o.counts.getD c 0 = number c := by
      rw [Std.TreeMap.getD_eq_getD_getElem?, h.listed c]
      by_cases hc : number c = 0 <;> simp [hc]
    by_cases hx : x = c
    · subst hx
      simp [Occupancy.add, old]
    · have hne : ¬ c = x := fun he => hx he.symm
      simp [Occupancy.add, Std.TreeMap.getElem?_insert, hx, hne, h.listed x]
  spans := by
    refine (widen_spans h.spans c).congr fun x => ?_
    by_cases hx : x = c <;> simp [hx]

/-- Where the last cell of an inner coordinate goes, the extent stays. -/
theorem Spans.inner {live : Cell → Prop} {lo hi c : Cell} (h : Spans live (some (lo, hi)))
    (hlo : c ≠ lo) (hhi : c ≠ hi) : Spans (fun x => x ≠ c ∧ live x) (some (lo, hi)) := by
  obtain ⟨lo_live, hi_live, between⟩ := h
  exact ⟨⟨hlo.symm, lo_live⟩, ⟨hhi.symm, hi_live⟩, fun x hx => between x hx.2⟩

/-- The last cell at a coordinate takes the coordinate off the list. -/
theorem Tallies.remove_last {o : Occupancy} {number : Cell → Nat} (h : o.Tallies number)
    {c : Cell} (one : number c = 1) :
    (o.remove c).Tallies fun x => if x = c then number x - 1 else number x := by
  have found : o.counts[c]? = some 1 := by simp [h.listed c, one]
  have result : o.remove c =
      ⟨o.counts.erase c, if o.atEdge c then edges (o.counts.erase c) else o.extent?⟩ := by
    simp only [Occupancy.remove, found]
  have left : ∀ x, x ∈ o.counts.erase c ↔ x ≠ c ∧ 0 < number x := by
    intro x
    rw [Std.TreeMap.mem_erase, h.mem_iff x, ne_eq, Std.LawfulEqOrd.compare_eq_iff_eq, eq_comm]
  have rest : ∀ x, (x ≠ c ∧ 0 < number x) ↔ 0 < if x = c then number x - 1 else number x := by
    intro x
    by_cases hx : x = c <;> simp [hx, one]
  rw [result]
  refine ⟨?_, ?_⟩
  · intro x
    by_cases hx : x = c
    · simp [hx, one]
    · have hne : ¬ c = x := fun he => hx he.symm
      simp [Std.TreeMap.getElem?_erase, hx, hne, h.listed x]
  · by_cases edge : o.atEdge c = true
    · simp only [edge, if_true]
      exact (edges_spans _).congr fun x => (left x).trans (rest x)
    · simp only [edge]
      cases he : o.extent? with
      | none =>
        have spans := h.spans
        rw [he] at spans
        exact False.elim (spans c (by omega))
      | some extent =>
        obtain ⟨lo, hi⟩ := extent
        have inner : c ≠ lo ∧ c ≠ hi := by simpa [atEdge, he] using edge
        have spans := h.spans
        rw [he] at spans
        exact (spans.inner inner.1 inner.2).congr rest

/-- One cell fewer at a coordinate that has any is one fewer in its tally. -/
theorem Tallies.remove {o : Occupancy} {number : Cell → Nat} (h : o.Tallies number) {c : Cell}
    (positive : 0 < number c) :
    (o.remove c).Tallies fun x => if x = c then number x - 1 else number x := by
  obtain ⟨n, hn⟩ : ∃ n, number c = n + 1 := ⟨number c - 1, by omega⟩
  cases n with
  | zero => exact h.remove_last hn
  | succ n =>
    have found : o.counts[c]? = some (n + 2) := by simp [h.listed c, hn]
    have result : o.remove c = { o with counts := o.counts.insert c (n + 1) } := by
      simp only [Occupancy.remove, found]
    rw [result]
    refine ⟨?_, ?_⟩
    · intro x
      by_cases hx : x = c
      · simp [hx, hn]
      · have hne : ¬ c = x := fun he => hx he.symm
        simp [Std.TreeMap.getElem?_insert, hx, hne, h.listed x]
    · refine h.spans.congr fun x => ?_
      by_cases hx : x = c <;> simp [hx, hn]

theorem excludes_iff (o : Occupancy) (c : Cell) :
    o.excludes c = true ↔ ∀ lo hi, o.extent? = some (lo, hi) → c < lo ∨ hi < c := by
  cases he : o.extent? with
  | none => simp [excludes, he]
  | some extent =>
    obtain ⟨lo, hi⟩ := extent
    simp [excludes, he]

end Occupancy

end Funge
