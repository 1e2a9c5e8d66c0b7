import Funge.Proofs.Footprint
import Funge.Proofs.Reachable
import Mathlib.Data.List.Perm.Basic
import Mathlib.Data.Prod.Basic

/-!
# Scheduling

A tick replaces each pointer by the children that its step has made, oldest first, followed by
the pointer itself if it is still alive. The children are put in one by one, each in front of its
parent, so this needs identities that are new and all different; reachable machines that have not
quit have them.
-/

namespace Funge

/-- Children in the order of their birth: alive, with identities given out between two counts. -/
structure Fresh (first : Nat) (children : List Pointer) (last : Nat) : Prop where
  alive : ∀ c ∈ children, c.alive = true
  ordered : children.Pairwise (·.id < ·.id)
  above : ∀ c ∈ children, first ≤ c.id
  below : ∀ c ∈ children, c.id < last
  grows : first ≤ last

theorem Fresh.nil {first last : Nat} (h : first ≤ last) : Fresh first [] last := by
  refine ⟨?_, .nil, ?_, ?_, h⟩ <;> exact fun c member => (by cases member)

theorem Fresh.append {first middle last : Nat} {older younger : List Pointer}
    (one : Fresh first older middle) (two : Fresh middle younger last) :
    Fresh first (older ++ younger) last := by
  refine ⟨?_, ?_, ?_, ?_, Nat.le_trans one.grows two.grows⟩
  · intro c member
    rcases List.mem_append.mp member with old | new
    · exact one.alive c old
    · exact two.alive c new
  · refine List.pairwise_append.mpr ⟨one.ordered, two.ordered, ?_⟩
    intro a old b new
    have below := one.below a old
    have above := two.above b new
    omega
  · intro c member
    rcases List.mem_append.mp member with old | new
    · exact one.above c old
    · have above := two.above c new
      have grows := one.grows
      omega
  · intro c member
    rcases List.mem_append.mp member with old | new
    · have below := one.below c old
      have grows := two.grows
      omega
    · exact two.below c new

/-- The newborns that have come up between two foci of one pointer are its children. -/
structure Focus.Born (f : Focus) (children : List Pointer) (g : Focus) : Prop where
  same : g.pointer.id = f.pointer.id
  listed : g.world.newborns.toList = f.world.newborns.toList ++ children.map (·, f.pointer.id)
  fresh : Fresh f.world.nextId children g.world.nextId

namespace Focus.Born

variable {f g h : Focus} {children more : List Pointer} {parts : List Part}

theorem nothing (frame : f.Differs parts g) (identity : .identity ∉ parts)
    (newborns : .newborns ∉ parts) (nextId : .nextId ∉ parts) : f.Born [] g := by
  have same : (g.pointer.id, g.pointer.dims) = (f.pointer.id, f.pointer.dims) :=
    frame .identity identity
  have listed : g.world.newborns = f.world.newborns := frame .newborns newborns
  have counted : g.world.nextId = f.world.nextId := frame .nextId nextId
  exact ⟨congrArg Prod.fst same, by simp [listed], Fresh.nil (by omega)⟩

theorem trans (first : f.Born children g) (second : g.Born more h) :
    f.Born (children ++ more) h := by
  refine ⟨second.same.trans first.same, ?_, first.fresh.append second.fresh⟩
  rw [second.listed, first.listed, first.same, List.map_append, List.append_assoc]

end Focus.Born

section Births

theorem Pointer.split_eq {p child : Pointer} {id : Nat} {s : Space}
    (h : p.split id s = .ok child) :
    ∃ position, child = { p with
      id := id, delta := -p.delta, alive := true, instances := .empty, quit := none, position } := by
  simp only [Pointer.split, bind, Except.bind, pure, Except.pure] at h
  split at h
  · cases h
  · rename_i position _
    cases h
    exact ⟨position, rfl⟩

theorem Pointer.settle_eq {p q : Pointer} {s : Space} (h : p.settle s = .ok q) :
    ∃ position, q = { p with position } := by
  unfold Pointer.settle at h
  split at h
  · cases h
    exact ⟨p.position, rfl⟩
  · cases read : (s.get p.position).mapError MachineError.space with
    | error e => simp [read, bind, Except.bind] at h
    | ok cell =>
      simp only [read, bind, Except.bind, pure, Except.pure] at h
      split at h
      · split at h
        · cases h
        · rename_i position _
          cases h
          exact ⟨position, rfl⟩
      · cases h
        exact ⟨p.position, rfl⟩

theorem Action.split_born (f : Focus) : ∃ children, f.Born children (split f).2 := by
  cases divided : f.pointer.split f.world.nextId f.world.space with
  | error e =>
    refine ⟨[], ?_⟩
    simp only [split, run_bind, run_nextId, run_pointer, run_world, divided, run_attempt_error]
    exact ⟨rfl, by simp, Fresh.nil (Nat.le_succ _)⟩
  | ok child =>
    obtain ⟨position, same⟩ := Pointer.split_eq divided
    have named : child.id = f.world.nextId := by rw [same]
    have living : child.alive = true := by rw [same]
    refine ⟨[child], ?_⟩
    simp only [split, run_bind, run_nextId, run_pointer, run_world, divided, run_attempt_ok, run_note,
      run_modifyWorld]
    refine ⟨rfl, by simp [Focus.note, World.note], ?_⟩
    have alone {P : Pointer → Prop} (h : P child) : ∀ c ∈ [child], P c := by
      intro c member
      rw [List.mem_singleton.mp member]
      exact h
    refine ⟨alone living, List.pairwise_singleton _ _, alone ?_, alone ?_, Nat.le_succ _⟩
    · exact Nat.le_of_eq named.symm
    · exact Nat.lt_succ_of_le (Nat.le_of_eq named)

/-- The newborns after a split are those from before and a child of the pointer. -/
theorem Action.mem_newborns_split {f : Focus} {child : Pointer × Nat}
    (h : child ∈ (split f).2.world.newborns) :
    child ∈ f.world.newborns ∨ ∃ id position, child.1 = { f.pointer with
      id := id, delta := -f.pointer.delta, alive := true, instances := .empty, quit := none,
      position } := by
  cases divided : f.pointer.split f.world.nextId f.world.space with
  | error e =>
    simp only [split, run_bind, run_nextId, run_pointer, run_world, divided, run_attempt_error] at h
    exact .inl h
  | ok newborn =>
    obtain ⟨position, same⟩ := Pointer.split_eq divided
    simp only [split, run_bind, run_nextId, run_pointer, run_world, divided, run_attempt_ok, run_note,
      run_modifyWorld] at h
    rcases Array.mem_push.mp h with old | new
    · exact .inl old
    · exact .inr ⟨f.world.nextId, position, by rw [new, same]⟩

/-- No instruction but a split makes children. -/
theorem Instruction.born {i : Instruction} (single : i ≠ .iterate) (iteration : Action Unit)
    (f : Focus) : ∃ children, f.Born children (i.perform iteration f).2 := by
  by_cases splits : i = .split
  · subst splits
    exact Action.split_born f
  · have frame := i.touches single iteration f
    refine ⟨[], Focus.Born.nothing frame ?_ ?_ ?_⟩ <;> cases i <;>
      first | (exact absurd rfl splits) | (simp [Instruction.footprint])

theorem Focus.step_born (f : Focus) : ∃ children, f.Born children f.step.2 := by
  refine Focus.step_follows (R := fun f g => ∃ children, f.Born children g) ?_ ?_ ?_ f
  · rintro f g h ⟨children, first⟩ ⟨more, second⟩
    exact ⟨children ++ more, first.trans second⟩
  · intro f g frame
    exact ⟨[], Born.nothing frame (by decide) (by decide) (by decide)⟩
  · exact fun i single iteration f => i.born single iteration f

end Births

/-- What a turn has made of a pointer: its children, oldest first, and the pointer after its
step. -/
structure Turned where
  children : List Pointer
  pointer : Pointer

namespace Turned

/-- The children with their parent. -/
def births (t : Turned) : List (Pointer × Nat) := t.children.map (·, t.pointer.id)

/-- What takes the place of the pointer. -/
def heirs (t : Turned) : List Pointer :=
  t.children ++ if t.pointer.alive then [t.pointer] else []

end Turned

namespace Machine

/-- Every pointer of a list takes one step, in order, each in the world that the one before has
left. The children of a turn are the newborns that its step has added. -/
inductive Turns : World → List Pointer → List Turned → World → Prop
  | done (w : World) : Turns w [] [] w
  | step {w after : World} {p : Pointer} {ps : List Pointer} {f : Focus} {children : List Pointer}
      {turns : List Turned} : Focus.step ⟨p, w⟩ = (.ok (), f) →
      f.world.newborns.toList = w.newborns.toList ++ children.map (·, p.id) →
      Turns f.world ps turns after → Turns w (p :: ps) (⟨children, f.pointer⟩ :: turns) after

/-- What the turns of a pass tell about children and identities. -/
structure Accounts (w : World) (ps : List Pointer) (turns : List Turned) (after : World) : Prop where
  ids : turns.map (·.pointer.id) = ps.map (·.id)
  listed : after.newborns.toList = w.newborns.toList ++ turns.flatMap Turned.births
  fresh : Fresh w.nextId (turns.flatMap Turned.children) after.nextId

/-- A complete pass over live pointers is a sequence of turns. -/
theorem turns_of_stepAll {w after : World} {ps stepped : List Pointer}
    (living : ∀ p ∈ ps, p.alive = true) (passed : stepAll w ps = (.complete, stepped, after)) :
    ∃ turns, Turns w ps turns after ∧ stepped = turns.map Turned.pointer ∧
      Accounts w ps turns after := by
  induction ps generalizing w stepped with
  | nil =>
    cases passed
    exact ⟨[], .done after, rfl, rfl, by simp, Fresh.nil (Nat.le_refl _)⟩
  | cons p ps ih =>
    have first : p.alive = true := living p List.mem_cons_self
    obtain ⟨children, born⟩ := Focus.step_born ⟨p, w⟩
    unfold stepAll at passed
    rw [if_pos first] at passed
    split at passed
    · cases passed
    · rename_i f step
      rw [step] at born
      split at passed
      · cases passed
      · rcases rest : stepAll f.world ps with ⟨pass, others, last⟩
        rw [rest] at passed
        cases passed
        obtain ⟨turns, turned, same, accounts⟩ :=
          ih (fun q member => living q (List.mem_cons_of_mem p member)) rest
        have kept : f.pointer.id = p.id := born.same
        refine ⟨⟨children, f.pointer⟩ :: turns, .step step born.listed turned, by simp [same], ?_, ?_,
          born.fresh.append accounts.fresh⟩
        · simp only [List.map_cons, accounts.ids, kept]
        · rw [accounts.listed, born.listed, List.append_assoc, List.flatMap_cons, Turned.births, kept]

section Adoption

theorem insertIdx_length {α : Type} (before after : List α) (x : α) :
    (before ++ after).insertIdx before.length x = before ++ x :: after := by
  induction before with
  | nil => rfl
  | cons b before ih => simp [ih]

/-- A child goes right in front of the first pointer with the identity of its parent. -/
theorem insertChild_eq {before after : List Pointer} {p : Pointer} (child : Pointer)
    (others : ∀ q ∈ before, q.id ≠ p.id) :
    insertChild (before ++ p :: after) child p.id = before ++ child :: p :: after := by
  have missing : before.findIdx? (·.id = p.id) = none := by
    rw [List.findIdx?_eq_none_iff]
    exact fun q member => decide_eq_false (others q member)
  have place : (before ++ p :: after).findIdx? (·.id = p.id) = some before.length := by
    simp [List.findIdx?_append, missing, List.findIdx?_cons]
  unfold insertChild
  rw [place]
  exact insertIdx_length before (p :: after) child

/-- The children of one pointer come to stand in front of it in the order of their birth. -/
theorem adopt_children {before after children : List Pointer} {p : Pointer}
    (others : ∀ q ∈ before ++ children, q.id ≠ p.id) :
    adopt (before ++ p :: after) (children.map (·, p.id)) = before ++ children ++ p :: after := by
  induction children generalizing before with
  | nil => simp [adopt]
  | cons c children ih =>
    have placed : insertChild (before ++ p :: after) c p.id = (before ++ [c]) ++ p :: after := by
      rw [insertChild_eq c fun q member => others q (List.mem_append_left _ member)]
      simp
    change adopt (insertChild (before ++ p :: after) c p.id) (children.map (·, p.id)) = _
    rw [placed, ih (by simpa using others)]
    simp

/-- Adoption puts the children of every turn in front of their parent. -/
theorem adopt_turns {before : List Pointer} {turns : List Turned}
    (apart : (turns.map (·.pointer.id)).Nodup)
    (others : ∀ q ∈ before ++ turns.flatMap Turned.children, ∀ t ∈ turns, q.id ≠ t.pointer.id) :
    adopt (before ++ turns.map Turned.pointer) (turns.flatMap Turned.births) =
      before ++ turns.flatMap fun t => t.children ++ [t.pointer] := by
  induction turns generalizing before with
  | nil => simp [adopt]
  | cons t turns ih =>
    obtain ⟨unique, rest⟩ := List.nodup_cons.mp apart
    have split : adopt (before ++ t.pointer :: turns.map Turned.pointer)
        (t.births ++ turns.flatMap Turned.births) =
        adopt (adopt (before ++ t.pointer :: turns.map Turned.pointer) t.births)
          (turns.flatMap Turned.births) := List.foldl_append
    have mine : adopt (before ++ t.pointer :: turns.map Turned.pointer) t.births =
        (before ++ t.children ++ [t.pointer]) ++ turns.map Turned.pointer := by
      rw [Turned.births, adopt_children fun q member => ?_]
      · simp
      · refine others q ?_ t List.mem_cons_self
        rcases List.mem_append.mp member with old | new
        · exact List.mem_append_left _ old
        · exact List.mem_append_right _ (List.mem_append_left _ new)
    rw [List.map_cons, List.flatMap_cons, split, mine, ih rest]
    · simp
    · intro q member u listed
      have within := others q
      simp only [List.mem_append, List.mem_singleton, List.flatMap_cons] at member within
      rcases member with ((old | new) | rfl) | later
      · exact within (.inl old) u (List.mem_cons_of_mem t listed)
      · exact within (.inr (.inl new)) u (List.mem_cons_of_mem t listed)
      · intro same
        exact unique (List.mem_map.mpr ⟨u, listed, same.symm⟩)
      · exact within (.inr (.inr later)) u (List.mem_cons_of_mem t listed)

theorem mem_adopt_of_mem {ps : List Pointer} {p : Pointer} (h : p ∈ ps)
    (newborns : List (Pointer × Nat)) : p ∈ adopt ps newborns := by
  induction newborns generalizing ps with
  | nil => exact h
  | cons child rest ih =>
    refine ih ?_
    have inside : (ps.findIdx? (·.id = child.2)).getD 0 ≤ ps.length := by
      cases found : ps.findIdx? (·.id = child.2) with
      | none => exact Nat.zero_le _
      | some i => exact Nat.le_of_lt (List.findIdx?_eq_some_iff_findIdx_eq.mp found).1
    exact (List.mem_insertIdx inside).mpr (.inr h)

end Adoption

/-- The children are all alive, so the dead that leave are the pointers that have stopped. -/
theorem filter_turns {turns : List Turned}
    (living : ∀ c ∈ turns.flatMap Turned.children, c.alive = true) :
    (turns.flatMap fun t => t.children ++ [t.pointer]).filter (·.alive) =
      turns.flatMap Turned.heirs := by
  induction turns with
  | nil => rfl
  | cons t turns ih =>
    have mine : t.children.filter (·.alive) = t.children :=
      List.filter_eq_self.mpr fun c member => living c (List.mem_append_left _ member)
    have rest := ih fun c member => living c (List.mem_append_right _ member)
    simp only [List.flatMap_cons, List.filter_append, mine, rest, Turned.heirs, List.filter_cons,
      List.filter_nil]

theorem filter_pointers (turns : List Turned) :
    (turns.map Turned.pointer).filter (·.alive) =
      turns.flatMap fun t => if t.pointer.alive then [t.pointer] else [] := by
  induction turns with
  | nil => rfl
  | cons t turns ih =>
    rw [List.map_cons, List.filter_cons, List.flatMap_cons, ih]
    split <;> rfl

theorem mem_heirs {turns : List Turned} {p : Pointer} (h : p ∈ turns.flatMap Turned.heirs) :
    p ∈ turns.flatMap Turned.children ∨ p.alive = true ∧ ∃ t ∈ turns, p = t.pointer := by
  obtain ⟨t, listed, member⟩ := List.mem_flatMap.mp h
  rcases List.mem_append.mp member with child | self
  · exact .inl (List.mem_flatMap.mpr ⟨t, listed, child⟩)
  · split at self
    · rename_i living
      rw [List.mem_singleton.mp self]
      exact .inr ⟨living, t, listed, rfl⟩
    · cases self

/-- What a machine that has not quit looks like between two calls. -/
structure Orderly (m : Machine) : Prop where
  settled : m.world.newborns = #[]
  distinct : (m.pointers.map (·.id)).Nodup
  counted : ∀ p ∈ m.pointers, p.id < m.world.nextId
  living : ∀ p ∈ m.pointers, p.alive = true

variable {m : Machine}

theorem Orderly.old (h : m.Orderly) {turns : List Turned} {w : World}
    (accounts : Accounts m.world m.pointers turns w) {t : Turned} (turned : t ∈ turns) :
    t.pointer.id < m.world.nextId := by
  have member : t.pointer.id ∈ m.pointers.map (·.id) := by
    rw [← accounts.ids]
    exact List.mem_map.mpr ⟨t, turned, rfl⟩
  obtain ⟨p, present, same⟩ := List.mem_map.mp member
  have below := h.counted p present
  omega

/-- The pointers after a complete pass are the heirs of its turns. -/
theorem Orderly.adopt_eq (h : m.Orderly) {turns : List Turned} {w : World}
    (accounts : Accounts m.world m.pointers turns w) :
    (adopt (turns.map Turned.pointer) w.newborns.toList).filter (·.alive) =
      turns.flatMap Turned.heirs := by
  have listed : w.newborns.toList = turns.flatMap Turned.births := by
    simpa [h.settled] using accounts.listed
  have apart : (turns.map (·.pointer.id)).Nodup := by
    rw [accounts.ids]
    exact h.distinct
  have others : ∀ q ∈ [] ++ turns.flatMap Turned.children, ∀ t ∈ turns, q.id ≠ t.pointer.id := by
    intro q member t turned
    have below := h.old accounts turned
    have above := accounts.fresh.above q member
    omega
  have placed : adopt (turns.map Turned.pointer) (turns.flatMap Turned.births) =
      turns.flatMap fun t => t.children ++ [t.pointer] := adopt_turns apart others
  rw [listed, placed]
  exact filter_turns accounts.fresh.alive

/-- Identities stay distinct: those of children are new, and the others were distinct before. -/
theorem Orderly.heirs (h : m.Orderly) {turns : List Turned} {w : World}
    (accounts : Accounts m.world m.pointers turns w) :
    ((turns.flatMap Turned.heirs).map (·.id)).Nodup ∧
      (∀ p ∈ turns.flatMap Turned.heirs, p.id < w.nextId) ∧
      ∀ p ∈ turns.flatMap Turned.heirs, p.alive = true := by
  refine ⟨?_, ?_, ?_⟩
  · have perm : (turns.flatMap Turned.children ++ (turns.map Turned.pointer).filter (·.alive)).Perm
        (turns.flatMap Turned.heirs) := by
      rw [filter_pointers]
      exact List.flatMap_append_perm turns _ _
    have children : ((turns.flatMap Turned.children).map (·.id)).Nodup :=
      (List.pairwise_map.mpr accounts.fresh.ordered).imp Nat.ne_of_lt
    have pointers : (((turns.map Turned.pointer).filter (·.alive)).map (·.id)).Nodup := by
      refine List.Nodup.sublist (List.filter_sublist.map _) ?_
      rw [List.map_map]
      exact accounts.ids ▸ h.distinct
    rw [← (perm.map (·.id)).nodup_iff, List.map_append]
    refine List.nodup_append.mpr ⟨children, pointers, ?_⟩
    rintro a new b remaining same
    obtain ⟨c, child, rfl⟩ := List.mem_map.mp new
    obtain ⟨p, survivor, rfl⟩ := List.mem_map.mp remaining
    obtain ⟨t, turned, rfl⟩ := List.mem_map.mp (List.mem_filter.mp survivor).1
    have below := h.old accounts turned
    have above := accounts.fresh.above c child
    omega
  · intro p member
    rcases mem_heirs member with child | ⟨_, t, turned, rfl⟩
    · exact accounts.fresh.below p child
    · exact Nat.lt_of_lt_of_le (h.old accounts turned) accounts.fresh.grows
  · intro p member
    rcases mem_heirs member with child | ⟨living, _⟩
    · exact accounts.fresh.alive p child
    · exact living

theorem Orderly.spawn (h : m.Orderly) : m.spawn.2.Orderly := by
  unfold Machine.spawn
  simp only
  split
  · refine ⟨h.settled, h.distinct, fun p member => ?_, h.living⟩
    have below := h.counted p member
    exact Nat.lt_succ_of_lt below
  · rename_i p settled
    obtain ⟨position, moved⟩ := Pointer.settle_eq settled
    have named : p.id = m.world.nextId := congrArg Pointer.id moved
    have living : p.alive = true := congrArg Pointer.alive moved
    refine ⟨h.settled, ?_, ?_, ?_⟩
    · rw [List.map_append]
      refine List.nodup_append.mpr ⟨h.distinct, List.pairwise_singleton _ _, ?_⟩
      rintro a old b new same
      obtain ⟨q, present, rfl⟩ := List.mem_map.mp old
      have fresh : b = p.id := List.mem_singleton.mp new
      have below := h.counted q present
      omega
    · intro q member
      change q.id < m.world.nextId + 1
      rcases List.mem_append.mp member with old | new
      · have below := h.counted q old
        omega
      · rw [List.mem_singleton.mp new]
        omega
    · intro q member
      rcases List.mem_append.mp member with old | new
      · exact h.living q old
      · rw [List.mem_singleton.mp new]
        exact living

/-- A machine that has not quit, and that a tick does not make quit, stays in order. -/
theorem Orderly.tick (h : m.Orderly) (going : m.exit = none) (returned : Returned m.tick.1)
    (sound : m.Sound) (stays : m.tick.2.exit = none) : m.tick.2.Orderly := by
  rcases tick_cases going with ⟨e, ps, w, _, ticked⟩ | ⟨id, code, ps, w, journal, _, ticked⟩ |
    ⟨ps, w, journal, passed, ticked⟩
  · have unfailing := sound.tick.2
    rw [ticked] at unfailing returned
    obtain ⟨fault, rfl⟩ := unfailing e rfl
    exact absurd rfl (returned fault)
  · rw [ticked] at stays
    cases stays
  · obtain ⟨turns, _, rfl, accounts⟩ := turns_of_stepAll h.living passed
    obtain ⟨distinct, counted, living⟩ := h.heirs accounts
    rw [ticked]
    simp only [h.adopt_eq accounts]
    exact ⟨rfl, distinct, counted, living⟩

variable {settings : Settings} {host : Host}

theorem Reachable.orderly (reached : Reachable settings host m) (going : m.exit = none) :
    m.Orderly := by
  have both : m.Sound ∧ (m.exit = none → m.Orderly) := by
    refine reached.invariant (P := fun m => m.Sound ∧ (m.exit = none → m.Orderly)) ?_ ?_ ?_ ?_ ?_
    · refine ⟨sound_standard settings host, fun _ => ⟨rfl, .nil, ?_, ?_⟩⟩ <;>
        exact fun p member => (by cases member)
    · rintro m ⟨sound, orderly⟩ _
      refine ⟨sound.spawn.1, fun going => (orderly ?_).spawn⟩
      rw [← going]
      unfold Machine.spawn
      simp only
      split <;> rfl
    · rintro m source ⟨sound, orderly⟩
      refine ⟨sound.place source, fun going => ?_⟩
      have before := orderly going
      exact ⟨before.settled, before.distinct, before.counted, before.living⟩
    · rintro m ⟨sound, orderly⟩ returned
      refine ⟨sound.tick.1, fun stays => ?_⟩
      by_cases going : m.exit = none
      · exact (orderly going).tick going returned sound stays
      · rw [tick_of_quit going] at stays
        exact absurd stays going
    · rintro m other ⟨sound, orderly⟩
      refine ⟨⟨{ sound.world with }, sound.pointers⟩, fun going => ?_⟩
      have before := orderly going
      exact ⟨before.settled, before.distinct, before.counted, before.living⟩
  exact both.2 going

/-- A tick in which no pointer quits replaces every pointer by its heirs. When a child is put in,
its parent is always there, and identities are in order before and after. -/
theorem tick_replaces_pointers {m' : Machine} (reached : Reachable settings host m)
    (going : m.exit = none) (ticked : m.tick = (.ok (), m')) (stays : m'.exit = none) :
    ∃ turns w journal, Turns m.world m.pointers turns w ∧
      m'.pointers = turns.flatMap Turned.heirs ∧
      m'.world = { w with newborns := #[], journal } ∧
      (∀ earlier child parent later, w.newborns.toList = earlier ++ (child, parent) :: later →
        ∃ p ∈ adopt (turns.map Turned.pointer) earlier, p.id = parent) ∧
      m.Orderly ∧ m'.Orderly := by
  have orderly := reached.orderly going
  have after : m'.Orderly := by
    have kept := orderly.tick going (.of_ok (congrArg Prod.fst ticked)) reached.sound
    rw [ticked] at kept
    exact kept stays
  rcases tick_cases going with ⟨e, ps, w, _, failed⟩ | ⟨id, code, ps, w, journal, _, quit⟩ |
    ⟨ps, w, journal, passed, complete⟩
  · rw [ticked] at failed
    cases failed
  · rw [ticked] at quit
    cases quit
    cases stays
  · obtain ⟨turns, turned, rfl, accounts⟩ := turns_of_stepAll orderly.living passed
    rw [ticked] at complete
    cases complete
    refine ⟨turns, w, journal, turned, orderly.adopt_eq accounts, rfl, ?_, orderly, after⟩
    intro earlier child parent later listed
    have born : (child, parent) ∈ turns.flatMap Turned.births := by
      have all := accounts.listed
      rw [orderly.settled, listed] at all
      have all : earlier ++ (child, parent) :: later = turns.flatMap Turned.births := all
      rw [← all]
      exact List.mem_append_right _ List.mem_cons_self
    obtain ⟨t, present, mine⟩ := List.mem_flatMap.mp born
    obtain ⟨c, _, same⟩ := List.mem_map.mp mine
    cases same
    exact ⟨t.pointer, mem_adopt_of_mem (List.mem_map.mpr ⟨t, present, rfl⟩) earlier, rfl⟩

/-- A machine whose pointer is about to split twice in one step. -/
def twins : Machine := ((standard {} .bare).load [50, 107, 116, 64]).2.tick.2

theorem twins_before_parent :
    twins.tick.2.pointers.map (·.id) = [1, 2, 0] ∧
    ∃ turns w journal, Turns twins.world twins.pointers turns w ∧
      twins.tick.2.pointers = turns.flatMap Turned.heirs ∧
      twins.tick.2.world = { w with newborns := #[], journal } ∧ twins.tick.2.Orderly := by
  have loaded : ((standard {} .bare).load [50, 107, 116, 64]).1 = .ok 0 := by decide +kernel
  have begun : ((standard {} .bare).load [50, 107, 116, 64]).2.tick.1 = .ok () := by decide +kernel
  have ticked : twins.tick = (.ok (), twins.tick.2) := Prod.fst_eq_iff.mp (by decide +kernel)
  have reached : Reachable {} .bare twins :=
    .tick (.load _ .start (.of_ok loaded)) (.of_ok begun)
  obtain ⟨turns, w, journal, turned, heirs, world, _, _, orderly⟩ :=
    tick_replaces_pointers reached (by decide +kernel) ticked (by decide +kernel)
  exact ⟨by decide +kernel, turns, w, journal, turned, heirs, world, orderly⟩

end Machine

end Funge
