import Funge.Proofs.Action
import Funge.Proofs.Loading
import Funge.Proofs.Reachable

/-!
# Active loads

A pointer may load and unload fingerprints in any order, also the same one several times and
several ones that share letters. The loads in effect form a list: a load goes to its end, and an
unload takes the last load of its fingerprint out, wherever that stands. The bindings of every
letter are those that the entries of this list contribute, in its order. An unload is granted just
when no later entry binds one of its letters, so taking bindings off the top is the same as taking
one entry out of the list.
-/

namespace Funge

/-- The letter at a place of the alphabet. -/
def letterAt (place : Fin 26) : Char := Char.ofNat (65 + place)

theorem toNat_letterAt (place : Fin 26) : (letterAt place).toNat = 65 + place := by
  revert place
  decide

theorem toInt_ofChar (c : Char) : (Cell.ofChar c).toInt = c.toNat := by
  have small : c.toNat < 2 ^ 32 := c.val.toNat_lt
  exact Int64.toInt_ofNat_of_lt (by omega)

theorem letterIndex?_ofChar (c : Char) (place : Fin 26) :
    Cell.letterIndex? (Cell.ofChar c) = some place ↔ c = letterAt place := by
  have code : (Cell.ofChar c).toInt.toNat = c.toNat := by rw [toInt_ofChar, Int.toNat_natCast]
  have place_lt := place.isLt
  constructor
  · intro found
    unfold Cell.letterIndex? at found
    split at found
    · rename_i upper
      simp only [Option.some.injEq, Fin.ext_iff] at found
      have value : c.toNat = 65 + place := by omega
      rw [← Char.ofNat_toNat c, value]
      rfl
    · cases found
  · rintro rfl
    rw [toNat_letterAt] at code
    unfold Cell.letterIndex?
    rw [dif_pos (by omega)]
    simp only [Option.some.injEq, Fin.ext_iff]
    omega

namespace Registry

/-- What a load contributes to the bindings of a letter, in the order in which it binds. -/
def contribution (r : Registry) (place : Fin 26) (code : Handprint) : List Binding :=
  match r.get? code with
  | none => []
  | some fp => fp.bindings.filterMap fun b => if b.1 = letterAt place then some ⟨code, b.2⟩ else none

/-- The fingerprint has an instruction for the letter. -/
def binds (r : Registry) (place : Fin 26) (code : Handprint) : Bool :=
  (r.get? code).any fun fp => fp.bindings.any (·.1 = letterAt place)

variable {r : Registry} {place : Fin 26} {code : Handprint} {fp : Fingerprint}

theorem code_of_contribution {b : Binding} (h : b ∈ r.contribution place code) : b.code = code := by
  unfold contribution at h
  split at h
  · cases h
  · obtain ⟨entry, _, same⟩ := List.mem_filterMap.mp h
    split at same
    · cases same
      rfl
    · cases same

theorem contribution_eq_nil_iff : r.contribution place code = [] ↔ r.binds place code = false := by
  unfold contribution binds
  cases r.get? code with
  | none => simp
  | some fp => simp

/-- The bindings that a load pushes on a letter are its contribution to that letter. -/
theorem contribution_eq (found : r.get? code = some fp) (place : Fin 26) :
    r.contribution place code =
      ((Pointer.letterBindings fp).filter (·.1 = place)).map fun b => ⟨code, b.2⟩ := by
  simp only [contribution, found, Pointer.letterBindings, List.filter_filterMap, List.map_filterMap]
  refine congrArg (List.filterMap · fp.bindings) (funext fun b => ?_)
  have at_place := letterIndex?_ofChar b.1 place
  cases index : Cell.letterIndex? (Cell.ofChar b.1) with
  | none =>
    rw [index] at at_place
    simp [← at_place]
  | some l =>
    rw [index, Option.some.injEq] at at_place
    by_cases same : l = place
    · simp [Option.filter, same, at_place.mp same]
    · simp [Option.filter, same, ← at_place]

theorem binds_iff_mem (found : r.get? code = some fp) (place : Fin 26) :
    r.binds place code = true ↔ place ∈ (Pointer.letterBindings fp).map Prod.fst := by
  rw [← Bool.not_eq_false, ← contribution_eq_nil_iff, contribution_eq found]
  simp

theorem binds_iff_exists (found : r.get? code = some fp) :
    r.binds place code = true ↔ ∃ i, (letterAt place, i) ∈ fp.bindings := by
  simp [binds, found]

theorem count_letterBindings (found : r.get? code = some fp) (place : Fin 26) :
    ((Pointer.letterBindings fp).map Prod.fst).count place = (r.contribution place code).length := by
  rw [contribution_eq found, List.length_map, ← List.countP_eq_length_filter, List.count,
    List.countP_map]
  rfl

end Registry

namespace Overrides

theorem stack_pushAll (bindings : List (Fin 26 × Instruction)) (code : Handprint) (o : Overrides)
    (place : Fin 26) :
    (bindings.foldl (fun o b => o.push b.1 ⟨code, b.2⟩) o).stack place =
      ((bindings.filter (·.1 = place)).map fun b => ⟨code, b.2⟩).reverse ++ o.stack place := by
  induction bindings generalizing o with
  | nil => rfl
  | cons b rest ih =>
    rw [List.foldl_cons, ih, stack_push]
    by_cases same : b.1 = place <;> simp [same]

theorem stack_popAll (letters : List (Fin 26)) (o : Overrides) (place : Fin 26) :
    (letters.foldl Overrides.pop o).stack place = (o.stack place).drop (letters.count place) := by
  induction letters generalizing o with
  | nil => rfl
  | cons l rest ih =>
    rw [List.foldl_cons, ih, stack_pop]
    by_cases same : l = place
    · simp [same, List.drop_tail]
    · simp [same]

end Overrides

namespace Registry

variable {r : Registry} {place : Fin 26} {code : Handprint} {latest : List Handprint}

/-- The bindings of a letter from the top down while the given loads are in effect, the latest of
which comes first. -/
def layers (r : Registry) (place : Fin 26) (latest : List Handprint) : List Binding :=
  latest.flatMap fun code => (r.contribution place code).reverse

theorem layers_cons (r : Registry) (place : Fin 26) (code : Handprint) (latest : List Handprint) :
    r.layers place (code :: latest) = (r.contribution place code).reverse ++ r.layers place latest :=
  rfl

theorem reverse_layers (r : Registry) (place : Fin 26) (active : List Handprint) :
    (r.layers place active.reverse).reverse = active.flatMap (r.contribution place) := by
  simp [layers, List.reverse_flatMap, Function.comp_def]

/-- The binding on top comes from the latest load that binds the letter. -/
theorem head?_layers (r : Registry) (place : Fin 26) (latest : List Handprint) :
    (r.layers place latest).head?.map (·.code) = latest.find? (r.binds place) := by
  induction latest with
  | nil => rfl
  | cons c rest ih =>
    rw [layers_cons]
    cases bound : r.binds place c with
    | false =>
      rw [contribution_eq_nil_iff.mpr bound, List.find?_cons_of_neg (by simp [bound])]
      exact ih
    | true =>
      cases entries : (r.contribution place c).reverse with
      | nil =>
        rw [List.reverse_eq_nil_iff, contribution_eq_nil_iff, bound] at entries
        cases entries
      | cons b bs =>
        have member : b ∈ r.contribution place c := by
          rw [← List.mem_reverse, entries]
          exact List.mem_cons_self
        rw [List.find?_cons_of_pos bound]
        simp [code_of_contribution member]

/-- To take an entry out of the loads is to take its bindings off the top, if the latest load that
binds the letter is one of the same fingerprint. -/
theorem layers_erase (on_top : r.binds place code = true → latest.find? (r.binds place) = some code) :
    r.layers place (latest.erase code) =
      (r.layers place latest).drop (r.contribution place code).length := by
  induction latest with
  | nil => simp [layers]
  | cons c rest ih =>
    by_cases same : c = code
    · subst same
      rw [List.erase_cons_head, layers_cons, List.drop_left' (List.length_reverse)]
    · rw [List.erase_cons_tail (by simpa using same), layers_cons, layers_cons]
      cases bound : r.binds place c with
      | false =>
        rw [contribution_eq_nil_iff.mpr bound]
        rw [List.find?_cons_of_neg (by simp [bound])] at on_top
        exact ih on_top
      | true =>
        -- An entry in front that binds the letter leaves nothing for `code` to contribute.
        rw [List.find?_cons_of_pos bound, Option.some.injEq] at on_top
        have unbound : r.binds place code = false := by
          cases bound' : r.binds place code with
          | false => rfl
          | true => exact absurd (on_top bound') same
        have nothing := contribution_eq_nil_iff.mpr unbound
        rw [ih fun bound' => by rw [unbound] at bound'; cases bound']
        simp [nothing]

end Registry

theorem Pointer.get?_of_load {p q : Pointer} {r : Registry} {shared shared' : InstanceStore}
    {code : Handprint} {fp : Fingerprint} (h : p.load r shared code = .ok (q, shared', fp)) :
    r.get? code = some fp := by
  unfold load at h
  split at h
  · cases h
  · rename_i fp' found
    cases he : p.ensureInstance r shared fp' code with
    | error e => simp [he, bind, Except.bind] at h
    | ok stores =>
      simp only [he, bind, Except.bind, pure, Except.pure, Except.ok.injEq, Prod.mk.injEq] at h
      rw [found, h.2.2]

theorem Pointer.get?_of_unload {p q : Pointer} {r : Registry} {code : Handprint}
    {fp : Fingerprint} (h : p.unload r code = .ok (q, fp)) : r.get? code = some fp := by
  unfold unload at h
  split at h
  · cases h
  · rename_i fp' found
    simp only at h
    split at h
    · cases h
      exact found
    · cases h

/-- The bindings of every letter are those of the loads in effect. -/
def Overrides.Mirrors (r : Registry) (active : List Handprint) (o : Overrides) : Prop :=
  ∀ place, o.stack place = r.layers place active.reverse

namespace Pointer

variable {p q : Pointer} {r : Registry} {active : List Handprint} {code : Handprint}
  {fp : Fingerprint}

theorem load_mirrors {shared shared' : InstanceStore} (h : p.overrides.Mirrors r active)
    (loaded : p.load r shared code = .ok (q, shared', fp)) :
    q.overrides.Mirrors r (active ++ [code]) := by
  obtain ⟨_, own, rfl⟩ := load_eq loaded
  intro place
  rw [Overrides.stack_pushAll, ← Registry.contribution_eq (get?_of_load loaded), h place,
    List.reverse_append]
  rfl

theorem top?_mirrors (h : p.overrides.Mirrors r active) (place : Fin 26) :
    (p.overrides.top? place).any (·.code = code) = true ↔
      active.reverse.find? (r.binds place) = some code := by
  rw [← Registry.head?_layers, ← h place, Overrides.top?]
  cases (p.overrides.stack place).head? <;> simp

theorem unload_of_get? (found : r.get? code = some fp) (p : Pointer) :
    p.unload r code =
      if ((letterBindings fp).map Prod.fst).all fun l => (p.overrides.top? l).any (·.code = code) then
        .ok ({ p with
          overrides := ((letterBindings fp).map Prod.fst).foldl Overrides.pop p.overrides }, fp)
      else .error (.notLoaded code) := by
  simp [unload, found]

/-- The condition of an unload: each of its letters was last bound by the same fingerprint. -/
theorem unload_granted (h : p.overrides.Mirrors r active) (found : r.get? code = some fp) :
    (((letterBindings fp).map Prod.fst).all fun l => (p.overrides.top? l).any (·.code = code)) = true ↔
      ∀ place, r.binds place code = true → active.reverse.find? (r.binds place) = some code := by
  rw [List.all_eq_true]
  constructor
  · intro on_top place bound
    exact (top?_mirrors h place).mp (on_top place ((Registry.binds_iff_mem found place).mp bound))
  · intro last place member
    exact (top?_mirrors h place).mpr (last place ((Registry.binds_iff_mem found place).mpr member))

theorem unload_mirrors (h : p.overrides.Mirrors r active) (unloaded : p.unload r code = .ok (q, fp)) :
    q.overrides.Mirrors r (active.reverse.erase code).reverse := by
  have found := get?_of_unload unloaded
  have last : ∀ place, r.binds place code = true →
      active.reverse.find? (r.binds place) = some code := by
    rw [← unload_granted h found]
    rw [unload_of_get? found] at unloaded
    split at unloaded
    · rename_i granted
      exact granted
    · cases unloaded
  intro place
  rw [unload_eq unloaded, List.reverse_reverse]
  simp only
  rw [Overrides.stack_popAll, Registry.count_letterBindings found, h place,
    Registry.layers_erase (last place)]

end Pointer

/-- A call that loads or unloads a fingerprint. Before a load, other pointers may have changed the
instances that all share. -/
inductive LoadingCall where
  | load (shared : InstanceStore) (code : Handprint)
  | unload (code : Handprint)

namespace LoadingCall

def run : LoadingCall → Action Unit
  | .load shared code => do
    Action.modifyWorld ({ · with shared })
    Action.loadFingerprint code
  | .unload code => Action.unloadFingerprint code

/-- The loads in effect after a call with the given result. -/
def record (active : List Handprint) : LoadingCall → Except OpError Unit → List Handprint
  | .load _ code, .ok () => active ++ [code]
  | .unload code, .ok () => (active.reverse.erase code).reverse
  | _, .error _ => active

/-- The focus and the loads in effect after calls. -/
def runAll (f : Focus) (active : List Handprint) : List LoadingCall → Focus × List Handprint
  | [] => (f, active)
  | call :: rest => runAll (call.run f).2 (call.record active (call.run f).1) rest

variable {f : Focus} {active : List Handprint}

/-- What a call does: it fails and leaves the pointer alone, or it loads, or it unloads. -/
theorem run_cases (call : LoadingCall) (f : Focus) :
    (call.run f).2.world.registry = f.world.registry ∧
    ((∃ e, (call.run f).1 = .error e ∧ (call.run f).2.pointer = f.pointer) ∨
      (∃ shared code shared' fp, call = .load shared code ∧ (call.run f).1 = .ok () ∧
        f.pointer.load f.world.registry shared code = .ok ((call.run f).2.pointer, shared', fp)) ∨
      ∃ code fp, call = .unload code ∧ (call.run f).1 = .ok () ∧
        f.pointer.unload f.world.registry code = .ok ((call.run f).2.pointer, fp)) := by
  cases call with
  | load shared code =>
    cases loaded : f.pointer.load f.world.registry shared code with
    | error e => simp [run, Action.loadFingerprint, Action.run_bind, loaded]
    | ok result =>
      obtain ⟨q, shared', fp⟩ := result
      have ran : run (.load shared code) f =
          (.ok (), Focus.note ⟨q, { f.world with shared := shared' }⟩
            (.fingerprintLoaded q.id fp.name)) := by
        simp [run, Action.loadFingerprint, Action.run_bind, loaded]
      rw [ran]
      exact ⟨rfl, .inr (.inl ⟨shared, code, shared', fp, rfl, rfl, loaded⟩)⟩
  | unload code =>
    cases unloaded : f.pointer.unload f.world.registry code with
    | error e => simp [run, Action.unloadFingerprint, Action.run_bind, unloaded]
    | ok result =>
      obtain ⟨q, fp⟩ := result
      simp [run, Action.unloadFingerprint, Action.run_bind, unloaded, Focus.note, World.note]

/-- A call that fails leaves all bindings alone. -/
theorem overrides_of_failed (call : LoadingCall) {e : OpError} (failed : (call.run f).1 = .error e) :
    (call.run f).2.pointer.overrides = f.pointer.overrides := by
  obtain ⟨_, ⟨_, _, same⟩ | ⟨_, _, _, _, _, ok, _⟩ | ⟨_, _, _, ok, _⟩⟩ := call.run_cases f
  · rw [same]
  · rw [ok] at failed
    cases failed
  · rw [ok] at failed
    cases failed

/-- One call keeps the bindings in step with the loads in effect. -/
theorem run_mirrors (call : LoadingCall) (h : f.pointer.overrides.Mirrors f.world.registry active) :
    (call.run f).2.world.registry = f.world.registry ∧
      (call.run f).2.pointer.overrides.Mirrors f.world.registry
        (call.record active (call.run f).1) := by
  obtain ⟨registry, ⟨e, failed, same⟩ | ⟨shared, code, shared', fp, rfl, ok, loaded⟩ |
    ⟨code, fp, rfl, ok, unloaded⟩⟩ := call.run_cases f
  · refine ⟨registry, ?_⟩
    rw [failed, same]
    cases call <;> exact h
  · refine ⟨registry, ?_⟩
    rw [ok]
    exact Pointer.load_mirrors h loaded
  · refine ⟨registry, ?_⟩
    rw [ok]
    exact Pointer.unload_mirrors h unloaded

/-- So does any sequence of calls. -/
theorem runAll_mirrors (calls : List LoadingCall)
    (h : f.pointer.overrides.Mirrors f.world.registry active) :
    (runAll f active calls).1.world.registry = f.world.registry ∧
      (runAll f active calls).1.pointer.overrides.Mirrors f.world.registry
        (runAll f active calls).2 := by
  induction calls generalizing f active with
  | nil => exact ⟨rfl, h⟩
  | cons call rest ih =>
    obtain ⟨registry, kept⟩ := call.run_mirrors h
    rw [← registry] at kept
    have all := ih kept
    rw [registry] at all
    exact all

theorem unload_ok_iff {code : Handprint} {fp : Fingerprint}
    (h : f.pointer.overrides.Mirrors f.world.registry active)
    (found : f.world.registry.get? code = some fp) :
    (Action.unloadFingerprint code f).1 = .ok () ↔
      ∀ place, f.world.registry.binds place code = true →
        active.reverse.find? (f.world.registry.binds place) = some code := by
  rw [← Pointer.unload_granted h found]
  have unloaded := Pointer.unload_of_get? found f.pointer
  split at unloaded
  · rename_i granted
    simp [Action.unloadFingerprint, Action.run_bind, unloaded, granted]
  · rename_i refused
    simp [Action.unloadFingerprint, Action.run_bind, unloaded, refused]

end LoadingCall

/-- After any calls on a pointer without bindings, the bindings of each letter from the bottom up
are those that the loads in effect contribute in their order. An unload of a known fingerprint
succeeds exactly when each of its letters was last bound by a load of the same fingerprint, and a
call that fails changes no binding. -/
theorem bindings_mirror_active_loads (f : Focus) (fresh : f.pointer.overrides = .empty)
    (calls : List LoadingCall) :
    let r := f.world.registry
    let g := (LoadingCall.runAll f [] calls).1
    let active := (LoadingCall.runAll f [] calls).2
    (∀ place, (g.pointer.overrides.stack place).reverse = active.flatMap (r.contribution place)) ∧
    (∀ code fp, r.get? code = some fp →
      ((Action.unloadFingerprint code g).1 = .ok () ↔
        ∀ place i, (letterAt place, i) ∈ fp.bindings →
          active.reverse.find? (r.binds place) = some code)) ∧
    ∀ (call : LoadingCall) (e : OpError), (call.run g).1 = .error e →
      ∀ place, (call.run g).2.pointer.overrides.stack place = g.pointer.overrides.stack place := by
  intro r g active
  have start : f.pointer.overrides.Mirrors r [] := by
    intro place
    rw [fresh]
    exact Overrides.stack_empty place
  obtain ⟨registry, mirrors⟩ : g.world.registry = r ∧ g.pointer.overrides.Mirrors r active :=
    LoadingCall.runAll_mirrors calls start
  refine ⟨?_, ?_, ?_⟩
  · intro place
    rw [mirrors place, Registry.reverse_layers]
  · intro code fp found
    rw [← registry] at mirrors found
    rw [LoadingCall.unload_ok_iff mirrors found]
    rw [registry] at found ⊢
    refine forall_congr' fun place => ?_
    rw [Registry.binds_iff_exists found]
    exact exists_imp
  · intro call e failed place
    rw [call.overrides_of_failed failed]

/-- The first pointer of a machine, before it has loaded anything. -/
def newcomer : Focus := ⟨.start 0 2, .start {} .bare .standard .standard⟩

/-- The first of two fingerprints without a common letter is unloaded first, and a third one then
covers a letter of the other. -/
def crossedLoads : List LoadingCall :=
  [.load .empty (Handprint.ofName "BOOL"), .load .empty (Handprint.ofName "REFC"),
    .unload (Handprint.ofName "BOOL"), .load .empty (Handprint.ofName "ROMA")]

theorem crossedLoads_bindings :
    let g := (LoadingCall.runAll newcomer [] crossedLoads).1
    (g.pointer.overrides.stack 3).reverse.map Binding.instruction =
      [.dereference, .operand (.literal 500)] ∧
    (Action.unloadFingerprint (Handprint.ofName "REFC") g).1 ≠ .ok () ∧
    (Action.unloadFingerprint (Handprint.ofName "REFC") g).2.pointer.overrides.stack 3 =
      g.pointer.overrides.stack 3 := by
  intro g
  obtain ⟨mirrored, granted, unchanged⟩ := bindings_mirror_active_loads newcomer rfl crossedLoads
  have active : (LoadingCall.runAll newcomer [] crossedLoads).2 =
      [Handprint.ofName "REFC", Handprint.ofName "ROMA"] := by decide +kernel
  have covered : (Action.unloadFingerprint (Handprint.ofName "REFC") g).1 ≠ .ok () := by
    intro ok
    have last := (granted (Handprint.ofName "REFC") .refc rfl).mp ok 3 .dereference (by decide)
    rw [active] at last
    exact absurd last (by decide +kernel)
  refine ⟨?_, covered, ?_⟩
  · rw [mirrored 3, active]
    decide +kernel
  · cases failed : (Action.unloadFingerprint (Handprint.ofName "REFC") g).1 with
    | ok _ => exact absurd failed covered
    | error e => exact unchanged (.unload (Handprint.ofName "REFC")) e failed 3

end Funge
