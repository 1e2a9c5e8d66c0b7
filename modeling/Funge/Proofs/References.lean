import Funge.Proofs.Chronicle
import Mathlib.Algebra.Group.Nat.Defs

/-!
# References

All pointers share one table of references, which is made when it is first needed. The table
after any calls lists the vectors of all references made so far, in their order: whatever else
the pointers do, the table is neither made anew nor shortened nor overwritten. So a reference
leads to its vector for good, and no two are the same.
-/

namespace Funge

namespace InstanceStore

theorem lookup_replace (entries : List (Handprint × Instance)) (code other : Handprint)
    (i : Instance) :
    (entries.map fun (c, j) => if c = code then (c, i) else (c, j)).lookup other =
      if other = code then (entries.lookup other).map fun _ => i else entries.lookup other := by
  induction entries with
  | nil => simp
  | cons entry entries ih =>
    obtain ⟨c, j⟩ := entry
    by_cases here : c = code
    · by_cases sought : other = c
      · subst here sought
        simp
      · subst here
        simpa [List.lookup_cons, beq_false_of_ne sought] using ih
    · by_cases sought : other = c
      · subst sought
        simp [here]
      · simpa [here, List.lookup_cons, beq_false_of_ne sought] using ih

theorem get?_of_not_contains {s : InstanceStore} {code : Handprint}
    (h : ¬ s.contains code = true) : s.get? code = none := by
  simpa [contains] using h

/-- A store gives what was put into it last. -/
theorem get?_put (s : InstanceStore) (code other : Handprint) (i : Instance) :
    (s.put code i).get? other = if other = code then some i else s.get? other := by
  by_cases known : s.contains code = true
  · simp only [put, if_pos known, get?, lookup_replace]
    split
    · rename_i same
      obtain ⟨j, found⟩ := Option.isSome_iff_exists.mp known
      rw [get?] at found
      rw [same, found]
      rfl
    · rfl
  · have absent : s.entries.lookup code = none := get?_of_not_contains known
    simp only [put, if_neg known, get?, List.lookup_append]
    by_cases same : other = code
    · subst same
      simp [absent]
    · simp [same, List.lookup_cons, beq_false_of_ne same]

/-- What ensuring an instance comes to. -/
theorem ensure_cases {s s' : InstanceStore} {r : Registry} {code : Handprint}
    (h : s.ensure r code = .ok s') :
    (s.contains code = true ∧ s' = s) ∨
      s.get? code = none ∧ ∃ i, (r.get? code).bind Fingerprint.start = some i ∧ s' = s.put code i := by
  unfold ensure at h
  split at h
  · rename_i known
    cases h
    exact .inl ⟨known, rfl⟩
  · rename_i unknown
    split at h
    · rename_i i start
      cases h
      exact .inr ⟨get?_of_not_contains unknown, i, start, rfl⟩
    · cases h

end InstanceStore

theorem Registry.standard_references :
    (standard.get? Action.referencesCode).bind Fingerprint.start = some (.references #[]) := by
  rfl

theorem Vec.coordinates_ofList {cells : List Cell} {dims : Nat} (length : cells.length = dims) :
    (Vec.ofList cells).coordinates dims = cells := by
  apply List.ext_getElem?
  intro i
  by_cases inside : i < dims
  · rw [getElem?_coordinates _ inside, get_ofList, List.getD_eq_getElem?_getD]
    simp [List.getElem?_eq_getElem (length ▸ inside : i < cells.length)]
  · rw [List.getElem?_eq_none (by simpa using inside), List.getElem?_eq_none (by omega)]

namespace Pointer

/-- The cells of the top stack in the order in which they are popped. In queue mode that is from the
bottom. -/
def offered (p : Pointer) : List Cell :=
  match p.stacks.stacks with
  | [] => []
  | t :: _ => if p.flags.queue then t.cells.reverse else t.cells

/-- A pointer pops some cells off its top stack, where zeros follow on the last one, and then pushes
others, in invert mode to the bottom; nothing else changes. The cells are listed in the order in which
they are popped and pushed. -/
def Exchanges (p : Pointer) (popped pushed : List Cell) (q : Pointer) : Prop :=
  let left := p.offered.drop popped.length
  let kept := if p.flags.queue then left.reverse else left
  p.stacks.stacks ≠ [] ∧
  popped = p.offered.take popped.length ++ List.replicate (popped.length - p.offered.length) 0 ∧
  q = { p with
    «stacks» := ⟨⟨if p.flags.invert then kept ++ pushed else pushed.reverse ++ kept⟩ ::
      p.stacks.stacks.tail⟩ }

theorem inPopOrder_top (p : Pointer) : p.top.inPopOrder p.mode = p.offered := by
  rcases p with ⟨id, dims, ⟨layers⟩⟩
  cases layers with
  | nil => exact ite_self _
  | cons t rest => rfl

theorem pop_offered (p : Pointer) : p.pop.1 = p.offered.headD 0 := by
  have popped := Stack.pop_ofPopOrder p.mode p.offered
  rw [← inPopOrder_top, Stack.ofPopOrder_inPopOrder] at popped
  rw [← inPopOrder_top]
  exact congrArg Prod.fst popped

section Exchange

variable {p : Pointer} (stacked : p.stacks.stacks ≠ [])

include stacked

theorem exchanges_popMany (n : Nat) (pushed : List Cell) :
    p.Exchanges (p.top.popMany p.mode n).1 pushed
      (p.setTop ((p.top.popMany p.mode n).2.pushMany p.mode pushed)) := by
  have length := Stack.length_popMany p.top p.mode n
  have pops := Stack.popMany_ofPopOrder p.mode p.offered n
  rw [← inPopOrder_top, Stack.ofPopOrder_inPopOrder, inPopOrder_top] at pops
  refine ⟨stacked, ?_, ?_⟩
  · rw [length, pops]
  · rw [length, pops, Stack.pushMany_eq, Stack.cells_ofPopOrder]
    rcases p with ⟨id, dims, ⟨layers⟩⟩
    cases layers with
    | nil => exact absurd rfl stacked
    | cons t rest => rfl

/-- A cell for a vector. -/
theorem exchanges_popVec (c : Cell) :
    p.Exchanges (p.top.popMany p.mode p.dims).1 [c] (p.popVec.2.push c) := by
  have same : p.popVec.2.push c =
      p.setTop ((p.top.popMany p.mode p.dims).2.pushMany p.mode [c]) := by
    change (p.setTop _).setTop ((p.setTop _).top.push c p.mode) = _
    rw [setTop_setTop, top_setTop_of_stacked stacked]
    rfl
  rw [same]
  exact exchanges_popMany stacked p.dims [c]

/-- A vector for a cell. -/
theorem exchanges_pop {cells : List Cell} (length : cells.length = p.dims) :
    p.Exchanges [p.pop.1] cells (p.pop.2.pushVec (Vec.ofList cells)) := by
  have same : p.pop.2.pushVec (Vec.ofList cells) =
      p.setTop ((p.top.popMany p.mode 1).2.pushMany p.mode cells) := by
    change (p.setTop _).setTop ((p.setTop _).top.pushVec _ p.dims p.mode) = _
    rw [setTop_setTop, top_setTop_of_stacked stacked, Stack.pushVec, Vec.coordinates_ofList length]
    rfl
  rw [same]
  exact exchanges_popMany stacked 1 cells

end Exchange

/-- Without flags, both ends are the top. -/
theorem Exchanges.of_flags {p q : Pointer} {popped pushed : List Cell} {t : Stack}
    {rest : List Stack} (h : p.Exchanges popped pushed q)
    (shape : (p.stacks.stacks, p.flags) = (t :: rest, {})) :
    popped = t.cells.take popped.length ++ List.replicate (popped.length - t.cells.length) 0 ∧
      q.stacks.stacks = ⟨pushed.reverse ++ t.cells.drop popped.length⟩ :: rest := by
  obtain ⟨layers, flags⟩ := Prod.mk.inj shape
  have offered : p.offered = t.cells := by simp [Pointer.offered, layers, flags]
  obtain ⟨_, taken, rfl⟩ := h
  rw [offered] at taken
  exact ⟨taken, by simp [offered, layers, flags]⟩

theorem ensureInstance_shared {p : Pointer} {r : Registry} {shared : InstanceStore}
    {fp : Fingerprint} {code : Handprint} {stores : InstanceStore × InstanceStore}
    (h : p.ensureInstance r shared fp code = .ok stores) :
    stores.2 = shared ∨ shared.ensure r code = .ok stores.2 := by
  unfold ensureInstance at h
  split at h
  · cases h
    exact .inl rfl
  · cases ensured : shared.ensure r code with
    | error e => simp [ensured, Except.map] at h
    | ok shared' =>
      simp only [ensured, Except.map, Except.ok.injEq] at h
      rw [← h]
      exact .inr rfl
  · cases ensured : p.instances.ensure r code with
    | error e => simp [ensured, Except.map] at h
    | ok own =>
      simp only [ensured, Except.map, Except.ok.injEq] at h
      rw [← h]
      exact .inl rfl
  · cases h

/-- A load makes at most an instance of its own among the shared ones. -/
theorem load_shared {p q : Pointer} {r : Registry} {shared shared' : InstanceStore}
    {code : Handprint} {fp : Fingerprint} (h : p.load r shared code = .ok (q, shared', fp)) :
    shared' = shared ∨ shared.ensure r code = .ok shared' := by
  unfold load at h
  split at h
  · cases h
  · rename_i found _
    cases stores : p.ensureInstance r shared found code with
    | error e => simp [stores, bind, Except.bind] at h
    | ok made =>
      simp only [stores, bind, Except.bind, pure, Except.pure, Except.ok.injEq, Prod.mk.injEq] at h
      obtain ⟨_, rfl, _⟩ := h
      exact ensureInstance_shared stores

end Pointer

namespace World

/-- The vectors that the references `0`, `1`, … lead to. -/
def referents (w : World) : List Vec :=
  match w.shared.get? Action.referencesCode with
  | some (.references table) => table.toList
  | _ => []

/-- The fingerprints are the standard ones, and nothing but a table of references is kept as
one. -/
structure Referring (w : World) : Prop where
  registry : w.registry = .standard
  typed : ∀ i, w.shared.get? Action.referencesCode = some i → ∃ table, i = .references table

theorem referents_of_get? {w : World} {table : Array Vec}
    (h : w.shared.get? Action.referencesCode = some (.references table)) :
    w.referents = table.toList := by
  rw [referents, h]

/-- The shared instances and the fingerprints are the same. -/
def SameInstances (u v : World) : Prop := v.shared = u.shared ∧ v.registry = u.registry

theorem SameInstances.referring {u v : World} (h : SameInstances u v) (referring : u.Referring) :
    v.Referring ∧ v.referents = u.referents := by
  refine ⟨⟨h.2.trans referring.registry, ?_⟩, ?_⟩
  · rw [h.1]
    exact referring.typed
  · rw [referents, referents, h.1]

/-- Making an instance, be it the table itself, keeps what the references lead to. -/
theorem Referring.ensure {w : World} (h : w.Referring) {code : Handprint} {shared : InstanceStore}
    (made : w.shared.ensure w.registry code = .ok shared) :
    ({ w with shared } : World).Referring ∧ ({ w with shared } : World).referents = w.referents := by
  rcases InstanceStore.ensure_cases made with ⟨_, rfl⟩ | ⟨absent, i, start, rfl⟩
  · exact ⟨h, rfl⟩
  · have get := InstanceStore.get?_put w.shared code Action.referencesCode i
    by_cases own : Action.referencesCode = code
    · subst own
      rw [h.registry, Registry.standard_references, Option.some.injEq] at start
      subst start
      rw [if_pos rfl] at get
      refine ⟨⟨h.registry, ?_⟩, ?_⟩
      · intro j found
        exact ⟨#[], Option.some.inj (found.symm.trans get)⟩
      · rw [referents_of_get? get, referents, absent]
    · rw [if_neg own] at get
      refine ⟨⟨h.registry, ?_⟩, ?_⟩
      · intro j found
        exact h.typed j (get.symm.trans found)
      · simp only [referents, get]

/-- The table can be had at any time, and it lists what the references lead to. -/
theorem Referring.table {w : World} (h : w.Referring) :
    ∃ shared table, w.shared.ensure w.registry Action.referencesCode = .ok shared ∧
      shared.get? Action.referencesCode = some (.references table) ∧ table.toList = w.referents := by
  by_cases known : w.shared.contains Action.referencesCode = true
  · obtain ⟨i, found⟩ := Option.isSome_iff_exists.mp known
    obtain ⟨table, rfl⟩ := h.typed i found
    refine ⟨w.shared, table, ?_, found, (referents_of_get? found).symm⟩
    simp [InstanceStore.ensure, known]
  · refine ⟨w.shared.put Action.referencesCode (.references #[]), #[], ?_, ?_, ?_⟩
    · simp [InstanceStore.ensure, known, h.registry, Registry.standard_references]
    · simp [InstanceStore.get?_put]
    · simp [referents, InstanceStore.get?_of_not_contains known]

end World

namespace Action

open World

/-- From a world with a table, the action ends in one that has the same references. -/
def KeepsReferences (f g : Focus) : Prop :=
  f.world.Referring → g.world.Referring ∧ g.world.referents = f.world.referents

theorem KeepsReferences.refl (f : Focus) : KeepsReferences f f := fun referring => ⟨referring, rfl⟩

theorem KeepsReferences.trans (f g h : Focus) (first : KeepsReferences f g)
    (second : KeepsReferences g h) : KeepsReferences f h := by
  intro referring
  obtain ⟨one, same⟩ := first referring
  obtain ⟨two, same'⟩ := second one
  exact ⟨two, same'.trans same⟩

/-- What leaves the shared instances and the settings alone keeps the references. -/
theorem keepsReferences_of_differs {parts : List Part} {f g : Focus} (h : f.Differs parts g)
    (shared : .shared ∉ parts) (setting : .setting ∉ parts) : KeepsReferences f g := by
  have same : SameInstances f.world g.world :=
    ⟨h .shared shared, congrArg (fun parts => parts.1.2.1) (h .setting setting)⟩
  exact same.referring

theorem follows_keepsReferences {α : Type} {parts : List Part} {a : Action α}
    (h : Touches parts a) (shared : .shared ∉ parts) (setting : .setting ∉ parts) :
    Follows KeepsReferences a :=
  fun f => keepsReferences_of_differs (h f) shared setting

theorem run_references {f : Focus} (h : f.world.Referring) :
    ∃ shared table, references f = (.ok table, { f with world := { f.world with shared } }) ∧
      f.world.shared.ensure f.world.registry referencesCode = .ok shared ∧
      table.toList = f.world.referents := by
  obtain ⟨shared, table, made, get, listed⟩ := h.table
  refine ⟨shared, table, ?_, made, listed⟩
  rw [references, run_bind_ok (run_world f), made, run_bind_ok (run_attempt_ok _ _ f),
    run_bind_ok (run_modifyWorld _ f)]
  simp only [get]
  rfl

/-- A reference is the number of those made before it, and leads to the vector popped for it. -/
theorem run_refer {f : Focus} (h : f.world.Referring) :
    ∃ g, refer f = (.ok (), g) ∧
      g.pointer = f.pointer.popVec.2.push (Int64.ofNat f.world.referents.length) ∧
      g.world.Referring ∧ g.world.referents = f.world.referents ++ [f.pointer.popVec.1] := by
  have popped : popVec f = (.ok f.pointer.popVec.1, { f with pointer := f.pointer.popVec.2 }) := rfl
  obtain ⟨shared, table, found, _, listed⟩ :=
    run_references (f := { f with pointer := f.pointer.popVec.2 }) h
  have get := InstanceStore.get?_put shared referencesCode referencesCode
    (.references (table.push f.pointer.popVec.1))
  rw [if_pos rfl] at get
  rw [refer, run_bind_ok popped, run_bind_ok found, run_bind_ok (run_modifyWorld _ _)]
  refine ⟨_, rfl, ?_, ⟨h.registry, ?_⟩, ?_⟩
  · rw [← listed]
    simp
  · intro i held
    exact ⟨_, Option.some.inj (held.symm.trans get)⟩
  · rw [referents_of_get? get, Array.toList_push, listed]

/-- A reference that was made leads to its vector. -/
theorem run_dereference {f : Focus} (h : f.world.Referring) {n : Nat} {v : Vec}
    (small : n < 2 ^ 63) (popped : f.pointer.pop.1 = Int64.ofNat n)
    (listed : f.world.referents[n]? = some v) :
    ∃ g, dereference f = (.ok (), g) ∧ g.pointer = f.pointer.pop.2.pushVec v := by
  have pops : pop f = (.ok f.pointer.pop.1, { f with pointer := f.pointer.pop.2 }) := rfl
  obtain ⟨shared, table, found, _, same⟩ :=
    run_references (f := { f with pointer := f.pointer.pop.2 }) h
  have value : (Int64.ofNat n).toInt = n := Int64.toInt_ofNat_of_lt small
  have natural : ¬ Int64.ofNat n < 0 := by
    rw [Int64.lt_iff_toInt_lt, value]
    simp
  have count : Cell.toCount (Int64.ofNat n) = n := by simp [Cell.toCount, value]
  have entry : table[n]? = some v := by
    rw [← Array.getElem?_toList, same]
    exact listed
  rw [dereference, run_bind_ok pops, run_bind_ok found, popped, if_neg natural, count, entry]
  exact ⟨_, rfl, rfl⟩

theorem references_keepsReferences : Follows KeepsReferences references := by
  intro f referring
  obtain ⟨shared, table, found, made, _⟩ := run_references referring
  rw [found]
  exact referring.ensure made

theorem dereference_keepsReferences : Follows KeepsReferences dereference := by
  have pops : Touches [.top] pop := touches_pop (by decide)
  refine Follows.bind KeepsReferences.trans
    (follows_keepsReferences pops (by decide) (by decide)) fun r => ?_
  refine Follows.bind KeepsReferences.trans references_keepsReferences fun table => ?_
  split
  · exact follows_keepsReferences (touches_pushVec (by decide) _ : Touches [.top] _)
      (by decide) (by decide)
  · exact follows_keepsReferences (touches_throw _ : Touches [] _) (by decide) (by decide)

theorem loadFingerprint_keepsReferences (code : Handprint) :
    Follows KeepsReferences (loadFingerprint code) := by
  intro f
  rw [loadFingerprint, run_bind_ok (run_world f), run_bind_ok (run_pointer f)]
  cases loaded : f.pointer.load f.world.registry f.world.shared code with
  | error e => exact KeepsReferences.refl f
  | ok result =>
    obtain ⟨q, shared, fp⟩ := result
    rw [run_bind_ok (run_attempt_ok _ _ f)]
    have kept : KeepsReferences f { f with world := { f.world with shared } } := by
      rcases Pointer.load_shared loaded with same | made
      · exact SameInstances.referring ⟨same, rfl⟩
      · exact fun referring => referring.ensure made
    exact KeepsReferences.trans _ _ _ kept (SameInstances.referring ⟨rfl, rfl⟩)

theorem loadSemantics_keepsReferences : Follows KeepsReferences loadSemantics := by
  have handprint : Touches [.top] popHandprint := touches_popHandprint (by decide)
  refine Follows.bind KeepsReferences.trans
    (follows_keepsReferences handprint (by decide) (by decide)) fun code => ?_
  refine Follows.bind KeepsReferences.trans (loadFingerprint_keepsReferences code) fun _ => ?_
  have rest : Touches [.top, .space]
      (switchTo (Cell.ofChar ')') >>= fun _ => push (Int64.ofNat code.toNat) >>= fun _ => push 1) :=
    (touches_switchTo (by decide) _).bind fun _ =>
      (touches_push (by decide) _).bind fun _ => touches_push (by decide) 1
  exact follows_keepsReferences rest (by decide) (by decide)

end Action

namespace Instruction

theorem shared_mem_footprint {i : Instruction} (h : .shared ∈ i.footprint) :
    i = .loadSemantics ∨ i = .refer ∨ i = .dereference := by
  cases i <;> simp [footprint] at h ⊢

end Instruction

namespace Episode

/-- The vector that the episode makes a reference to, if it does. -/
def referred (e : Episode) : List Vec :=
  if e.instruction = .refer then [e.before.pointer.popVec.1] else []

/-- An episode adds the reference it makes to the end of the table, and none else changes what
references lead to. -/
theorem Genuine.referents {e : Episode} (genuine : e.Genuine) (h : e.before.world.Referring) :
    e.after.world.Referring ∧
      e.after.world.referents = e.before.world.referents ++ e.referred := by
  obtain ⟨single, iteration, ran⟩ := genuine
  by_cases refers : e.instruction = .refer
  · obtain ⟨g, made, _, referring, listed⟩ := Action.run_refer h
    rw [refers, Instruction.perform, made, Prod.mk.injEq] at ran
    rw [← ran.2, referred, if_pos refers]
    exact ⟨referring, listed⟩
  · have keeps : Action.KeepsReferences e.before e.after := by
      have after : e.after = (e.instruction.perform iteration e.before).2 := by rw [ran]
      rw [after]
      by_cases shares : .shared ∈ e.instruction.footprint
      · rcases Instruction.shared_mem_footprint shares with known | known | known
        · rw [known]
          exact Action.loadSemantics_keepsReferences _
        · exact absurd known refers
        · rw [known]
          exact Action.dereference_keepsReferences _
      · exact Action.follows_keepsReferences (Instruction.touches single iteration) shares
          (Instruction.setting_not_mem_footprint _) _
    rw [referred, if_neg refers, List.append_nil]
    exact keeps h

/-- The references made by episodes, in order. -/
def references (es : List Episode) : List Vec := es.flatMap referred

/-- Number of references made by episodes. -/
def referrals (es : List Episode) : Nat := es.countP (·.instruction = .refer)

theorem length_references (es : List Episode) : (references es).length = referrals es := by
  induction es with
  | nil => rfl
  | cons e es ih =>
    rw [references, List.flatMap_cons, List.length_append, ← references, ih, referrals, referrals,
      List.countP_cons, referred]
    split <;> simp [*, Nat.add_comm]

/-- The reference that the episode at an index makes: the number of those made before. -/
def reference (es : List Episode) (i : Nat) : Cell := Int64.ofNat (referrals (es.take i))

/-- A reference made at an index stands in the table at its number ever after. -/
theorem getElem?_references {es : List Episode} {i j : Nat} {e : Episode} (earlier : i < j)
    (found : es[i]? = some e) (refers : e.instruction = .refer) :
    (references (es.take j))[referrals (es.take i)]? = some e.before.pointer.popVec.1 := by
  have parts : es.take j = es.take i ++ e :: (es.take j).drop (i + 1) := by
    obtain ⟨bound, rfl⟩ := List.getElem?_eq_some_iff.mp found
    have inside : i < (es.take j).length := by
      rw [List.length_take]
      omega
    have here : (es.take j)[i] = es[i] := List.getElem_take
    calc es.take j = (es.take j).take i ++ (es.take j).drop i := (List.take_append_drop i _).symm
      _ = es.take i ++ es[i] :: (es.take j).drop (i + 1) := by
        rw [List.take_take, Nat.min_eq_left (Nat.le_of_lt earlier),
          List.drop_eq_getElem_cons inside, here]
  have listed : references (es.take j) = references (es.take i) ++
      e.before.pointer.popVec.1 :: references ((es.take j).drop (i + 1)) := by
    conv_lhs => rw [parts]
    simp [references, referred, refers]
  rw [listed, ← length_references]
  simp

/-- Each reference has a number of its own. -/
theorem referrals_lt {es : List Episode} {i j : Nat} {e : Episode} (earlier : i < j)
    (found : es[i]? = some e) (refers : e.instruction = .refer) :
    referrals (es.take i) < referrals (es.take j) := by
  rw [← length_references (es.take j)]
  exact (List.getElem?_eq_some_iff.mp (getElem?_references earlier found refers)).1

end Episode

theorem World.sameInstances_housekeeping : Housekeeping SameInstances where
  trans _ _ _ first second := ⟨second.1.trans first.1, second.2.trans first.2⟩
  motion _ _ h :=
    ⟨h .shared (by decide), congrArg (fun parts => parts.1.2.1) (h .setting (by decide))⟩
  booked _ _ _ _ := ⟨rfl, rfl⟩
  placed _ _ := ⟨rfl, rfl⟩
  surrounded _ _ := ⟨rfl, rfl⟩

/-- At each episode the table lists the references made by the episodes before it. -/
theorem Linked.referents {u v : World} {es : List Episode}
    (h : Linked World.SameInstances u es v) (referring : u.Referring) {i : Nat} {e : Episode}
    (found : es[i]? = some e) :
    e.Genuine ∧ e.before.world.Referring ∧
      e.before.world.referents = u.referents ++ Episode.references (es.take i) := by
  induction h generalizing i with
  | rest _ => cases found
  | @next u v first es start genuine rest ih =>
    obtain ⟨before, same⟩ := start.referring referring
    cases i with
    | zero =>
      obtain rfl : first = e := by simpa using found
      exact ⟨genuine, before, by simpa [Episode.references] using same⟩
    | succ i =>
      obtain ⟨after, listed⟩ := genuine.referents before
      obtain ⟨genuine', referring', listed'⟩ := ih after found
      refine ⟨genuine', referring', ?_⟩
      rw [listed', listed, same]
      simp [Episode.references]

namespace Machine

theorem referring_standard (settings : Settings) (host : Host) :
    (standard settings host).world.Referring ∧ (standard settings host).world.referents = [] := by
  refine ⟨⟨rfl, ?_⟩, rfl⟩
  intro i found
  cases found

/-- In any calls of a standard machine, by any number of pointers, every reference is made for a
vector, with as many components as there are dimensions, that was popped last component first.
Whenever a pointer pops that reference later to look it up, it succeeds and pushes the components of
that vector, first component first. No two references are the same. The bound on the number of
references is far beyond what memory can hold. -/
theorem references_endure (settings : Settings) (host : Host) (calls : List Call)
    (room : Episode.referrals ((standard settings host).chronicle calls) ≤ 2 ^ 63) :
    let es := (standard settings host).chronicle calls
    (∀ (i : Nat) (e : Episode), es[i]? = some e → e.instruction = .refer →
      ∃ v : List Cell, v.length = max settings.dims 1 ∧ e.result = .ok () ∧
        e.before.pointer.Exchanges v.reverse [Episode.reference es i] e.after.pointer ∧
        ∀ (j : Nat) (d : Episode), i < j → es[j]? = some d → d.instruction = .dereference →
          d.before.pointer.offered.headD 0 = Episode.reference es i →
          d.result = .ok () ∧
          d.before.pointer.Exchanges [Episode.reference es i] v d.after.pointer) ∧
    ∀ (i j : Nat) (e d : Episode), es[i]? = some e → es[j]? = some d →
      e.instruction = .refer → d.instruction = .refer →
      Episode.reference es i = Episode.reference es j → i = j := by
  intro es
  obtain ⟨referring, none_yet⟩ := referring_standard settings host
  have linked : Linked World.SameInstances (standard settings host).world es _ :=
    linked_chronicle World.sameInstances_housekeeping (standard settings host) calls
  have table {i : Nat} {e : Episode} (found : es[i]? = some e) :
      e.Genuine ∧ e.before.world.Referring ∧
        e.before.world.referents = Episode.references (es.take i) := by
    simpa [none_yet] using linked.referents referring found
  have sound {i : Nat} {e : Episode} (found : es[i]? = some e) :
      e.before.Sound (max settings.dims 1) :=
    chronicle_sound settings host calls e (List.mem_of_getElem? found)
  have small {i : Nat} {e : Episode} (found : es[i]? = some e) (refers : e.instruction = .refer) :
      Episode.referrals (es.take i) < 2 ^ 63 := by
    obtain ⟨bound, _⟩ := List.getElem?_eq_some_iff.mp found
    have fewer := Episode.referrals_lt bound found refers
    rw [List.take_length] at fewer
    exact Nat.lt_of_lt_of_le fewer room
  refine ⟨?_, ?_⟩
  · intro i e made refers
    obtain ⟨⟨_, iteration, ran⟩, referring, listed⟩ := table made
    obtain ⟨g, done, pushed, _⟩ := Action.run_refer referring
    rw [refers, Instruction.perform, done, Prod.mk.injEq] at ran
    rw [listed, Episode.length_references, ran.2] at pushed
    let cells := (e.before.pointer.top.popMany e.before.pointer.mode e.before.pointer.dims).1
    have components : cells.reverse.length = max settings.dims 1 := by
      rw [List.length_reverse, Stack.length_popMany]
      exact (sound made).pointer.agrees
    refine ⟨cells.reverse, components, ran.1.symm, ?_, ?_⟩
    · rw [List.reverse_reverse, pushed]
      exact Pointer.exchanges_popVec (sound made).pointer.stacked _
    · intro j d later used looks popped
      obtain ⟨⟨_, iteration, ran⟩, referring, listed⟩ := table used
      have entry := Episode.getElem?_references later made refers
      rw [← listed] at entry
      rw [← Pointer.pop_offered] at popped
      obtain ⟨g, found, pushed⟩ := Action.run_dereference referring (small made refers) popped entry
      rw [looks, Instruction.perform, found, Prod.mk.injEq] at ran
      rw [ran.2] at pushed
      refine ⟨ran.1.symm, ?_⟩
      rw [← popped, pushed]
      exact Pointer.exchanges_pop (sound used).pointer.stacked
        (components.trans (sound used).pointer.agrees.symm)
  · intro i j e d first second refers refers' same
    have numbers := congrArg Int64.toInt same
    rw [Episode.reference, Episode.reference, Int64.toInt_ofNat_of_lt (small first refers),
      Int64.toInt_ofNat_of_lt (small second refers')] at numbers
    rcases Nat.lt_trichotomy i j with before | equal | after
    · have fewer := Episode.referrals_lt before first refers
      omega
    · exact equal
    · have fewer := Episode.referrals_lt after second refers'
      omega

/-- Load the references, refer to a vector, split, and look the reference up. The child turns back and
makes a second reference before that. -/
def sharing : List Call :=
  .load [38, 49, 40, 51, 55, 82, 116, 68, 64] :: List.replicate 8 .tick

/-- The handprint of the references, as a program reads it. -/
def handprintInput : Host := { Host.bare with input := [49, 51, 56, 48, 50, 55, 49, 54, 56, 51] }

/-- The 3 and the 7 that one pointer referred to come back from the reference. -/
theorem sharing_endures :
    let es := (standard {} handprintInput).chronicle sharing
    es.map Episode.instruction = [.readNumber, .operand (.literal 1), .loadSemantics,
      .operand (.literal 3), .operand (.literal 7), .refer, .split, .refer, .dereference] ∧
    Episode.reference es 5 = 0 ∧ Episode.reference es 7 = 1 ∧
    ∃ e d, es[5]? = some e ∧ es[8]? = some d ∧
      e.before.pointer.stacks.stacks = [⟨[7, 3, 1, 1380271683]⟩] ∧
      e.after.pointer.stacks.stacks = [⟨[0, 1, 1380271683]⟩] ∧
      d.before.pointer.stacks.stacks = [⟨[0, 1, 1380271683]⟩] ∧ d.result = .ok () ∧
      d.after.pointer.stacks.stacks = [⟨[7, 3, 1, 1380271683]⟩] := by
  intro es
  have listed : es.map Episode.instruction = [.readNumber, .operand (.literal 1), .loadSemantics,
      .operand (.literal 3), .operand (.literal 7), .refer, .split, .refer, .dereference] := by
    decide +kernel
  have first : Episode.reference es 5 = 0 := by decide +kernel
  have second : Episode.reference es 7 = 1 := by decide +kernel
  have room : Episode.referrals es ≤ 2 ^ 63 := by decide +kernel
  have starts : es[5]?.map (fun e => (e.before.pointer.stacks.stacks, e.before.pointer.flags)) =
      some ([⟨[7, 3, 1, 1380271683]⟩], ({} : Flags)) := by decide +kernel
  have looksUp : es[8]?.map (fun d => (d.before.pointer.stacks.stacks, d.before.pointer.flags)) =
      some ([⟨[0, 1, 1380271683]⟩], ({} : Flags)) := by decide +kernel
  have entry (i : Nat) : es[i]?.map Episode.instruction = _ :=
    (List.getElem?_map ..).symm.trans (congrArg (·[i]?) listed)
  obtain ⟨e, made, refers⟩ := Option.map_eq_some_iff.mp (entry 5)
  obtain ⟨d, used, looks⟩ := Option.map_eq_some_iff.mp (entry 8)
  rw [made, Option.map_some, Option.some.injEq] at starts
  rw [used, Option.map_some, Option.some.injEq] at looksUp
  obtain ⟨v, length, _, exchanged, later⟩ :=
    (references_endure {} handprintInput sharing room).1 5 e made refers
  obtain ⟨taken, after⟩ := exchanged.of_flags starts
  have two : v.reverse.length = 2 := by simpa using length
  rw [two] at taken after
  obtain rfl : v = [3, 7] := by simpa using congrArg List.reverse taken
  have zero : d.before.pointer.offered.headD 0 = Episode.reference es 5 := by
    obtain ⟨layers, flags⟩ := Prod.mk.inj looksUp
    simp [first, Pointer.offered, layers, flags]
  obtain ⟨succeeds, pushes⟩ := later 8 d (by decide) used looks zero
  have restored := (pushes.of_flags looksUp).2
  rw [first] at after
  exact ⟨listed, first, second, e, d, made, used, (Prod.mk.inj starts).1, after,
    (Prod.mk.inj looksUp).1, succeeds, restored⟩

end Machine

end Funge
