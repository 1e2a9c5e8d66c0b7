import Funge.Fingerprint.Standard
import Funge.Pointer.Loading

/-!
# Loads and unloads

A load or an unload changes bindings and instances of a pointer and nothing else. What it binds
comes from the fingerprint that was loaded, and it fails locally as long as no fingerprint wants
data of the space. The standard fingerprints do not, and none of them binds an iteration.
-/

namespace Funge

namespace Overrides

@[simp] theorem stack_empty (letter : Fin 26) : empty.stack letter = [] := by
  simp [stack, empty]

theorem stack_push (o : Overrides) (letter other : Fin 26) (b : Binding) :
    (o.push letter b).stack other = if letter = other then b :: o.stack other else o.stack other := by
  by_cases same : letter = other
  · subst same
    simp [push, stack]
  · have apart : (letter : Nat) ≠ other := fun h => same (Fin.ext h)
    simp [push, stack, same, Vector.getElem_set_ne, apart]

theorem stack_pop (o : Overrides) (letter other : Fin 26) :
    (o.pop letter).stack other = if letter = other then (o.stack other).tail else o.stack other := by
  by_cases same : letter = other
  · subst same
    simp [pop, stack]
  · have apart : (letter : Nat) ≠ other := fun h => same (Fin.ext h)
    simp [pop, stack, same, Vector.getElem_set_ne, apart]

/-- No letter is bound to the instruction. -/
def Avoids (o : Overrides) (i : Instruction) : Prop :=
  ∀ letter, ∀ b ∈ o.stack letter, b.instruction ≠ i

theorem avoids_empty (i : Instruction) : empty.Avoids i := by
  intro letter b member
  rw [stack_empty] at member
  cases member

theorem Avoids.push {o : Overrides} {i : Instruction} (h : o.Avoids i) (letter : Fin 26)
    {b : Binding} (other : b.instruction ≠ i) : (o.push letter b).Avoids i := by
  intro l c member
  rw [stack_push] at member
  split at member
  · rcases List.mem_cons.mp member with rfl | old
    · exact other
    · exact h l c old
  · exact h l c member

theorem Avoids.pop {o : Overrides} {i : Instruction} (h : o.Avoids i) (letter : Fin 26) :
    (o.pop letter).Avoids i := by
  intro l c member
  rw [stack_pop] at member
  split at member
  · exact h l c (List.mem_of_mem_tail member)
  · exact h l c member

theorem Avoids.pushAll {i : Instruction} {bindings : List (Fin 26 × Instruction)}
    (others : ∀ b ∈ bindings, b.2 ≠ i) (code : Handprint) {o : Overrides} (h : o.Avoids i) :
    (bindings.foldl (fun o b => o.push b.1 ⟨code, b.2⟩) o).Avoids i := by
  induction bindings generalizing o with
  | nil => exact h
  | cons b rest ih =>
    have first : b.2 ≠ i := others b List.mem_cons_self
    exact ih (fun c member => others c (List.mem_cons_of_mem b member)) (h.push b.1 first)

theorem Avoids.popAll {i : Instruction} (letters : List (Fin 26)) {o : Overrides}
    (h : o.Avoids i) : (letters.foldl Overrides.pop o).Avoids i := by
  induction letters generalizing o with
  | nil => exact h
  | cons l rest ih => exact ih (h.pop l)

end Overrides

theorem InstanceStore.ensure_local {s : InstanceStore} {r : Registry} {code : Handprint}
    {e : OpError} (h : s.ensure r code = .error e) : e.isFatal = false := by
  unfold InstanceStore.ensure at h
  split at h
  · cases h
  · split at h
    · cases h
    · cases h
      rfl

namespace Pointer

/-- Making an instance fails locally, unless it would belong to the space. -/
theorem ensureInstance_local {p : Pointer} {r : Registry} {shared : InstanceStore}
    {fp : Fingerprint} {code : Handprint} (supported : fp.instancing ≠ .space) {e : OpError}
    (h : p.ensureInstance r shared fp code = .error e) : e.isFatal = false := by
  unfold ensureInstance at h
  split at h
  · cases h
  · cases he : shared.ensure r code with
    | ok s => simp [he, Except.map] at h
    | error e' =>
      simp only [he, Except.map, Except.error.injEq] at h
      exact h ▸ InstanceStore.ensure_local he
  · cases he : p.instances.ensure r code with
    | ok s => simp [he, Except.map] at h
    | error e' =>
      simp only [he, Except.map, Except.error.injEq] at h
      exact h ▸ InstanceStore.ensure_local he
  · rename_i space
    exact False.elim (supported space)

theorem load_local {p : Pointer} {r : Registry} {shared : InstanceStore} {code : Handprint}
    (supported : ∀ fp ∈ r.fingerprints, fp.instancing ≠ .space) {e : OpError}
    (h : p.load r shared code = .error e) : e.isFatal = false := by
  unfold load at h
  split at h
  · cases h
    rfl
  · rename_i fp found
    have member : fp ∈ r.fingerprints := List.mem_of_find?_eq_some found
    cases he : p.ensureInstance r shared fp code with
    | ok stores => simp [he, bind, Except.bind, pure, Except.pure] at h
    | error e' =>
      simp only [he, bind, Except.bind, Except.error.injEq] at h
      exact h ▸ ensureInstance_local (supported fp member) he

theorem load_eq {p q : Pointer} {r : Registry} {shared shared' : InstanceStore}
    {code : Handprint} {fp : Fingerprint} (h : p.load r shared code = .ok (q, shared', fp)) :
    fp ∈ r.fingerprints ∧
      ∃ own, q =
        { p with
          instances := own
          overrides := (letterBindings fp).foldl (fun o b => o.push b.1 ⟨code, b.2⟩) p.overrides } := by
  unfold load at h
  split at h
  · cases h
  · rename_i fp' found
    cases he : p.ensureInstance r shared fp' code with
    | error e => simp [he, bind, Except.bind] at h
    | ok stores =>
      simp only [he, bind, Except.bind, pure, Except.pure, Except.ok.injEq, Prod.mk.injEq] at h
      obtain ⟨rfl, _, rfl⟩ := h
      exact ⟨List.mem_of_find?_eq_some found, _, rfl⟩

theorem unload_eq {p q : Pointer} {r : Registry} {code : Handprint} {fp : Fingerprint}
    (h : p.unload r code = .ok (q, fp)) :
    q =
      { p with
        overrides := ((letterBindings fp).map Prod.fst).foldl Overrides.pop p.overrides } := by
  unfold unload at h
  split at h
  · cases h
  · simp only at h
    split at h
    · cases h
      rfl
    · cases h

theorem unload_local {p : Pointer} {r : Registry} {code : Handprint} {e : OpError}
    (h : p.unload r code = .error e) : e.isFatal = false := by
  unfold unload at h
  split at h
  · cases h
    rfl
  · simp only at h
    split at h
    · cases h
    · cases h
      rfl

theorem mem_letterBindings {fp : Fingerprint} {b : Fin 26 × Instruction}
    (h : b ∈ letterBindings fp) : ∃ letter, (letter, b.2) ∈ fp.bindings := by
  obtain ⟨⟨letter, i⟩, member, found⟩ := List.mem_filterMap.mp h
  obtain ⟨index, _, same⟩ := Option.map_eq_some_iff.mp found
  subst same
  exact ⟨letter, member⟩

end Pointer

namespace Registry

theorem mem_register {r : Registry} {f fp : Fingerprint} (h : fp ∈ (r.register f).fingerprints) :
    fp = f ∨ fp ∈ r.fingerprints := by
  rcases List.mem_cons.mp h with same | old
  · exact .inl same
  · exact .inr (List.mem_filter.mp old).1

theorem mem_registerAll {fps : List Fingerprint} {r : Registry} {fp : Fingerprint}
    (h : fp ∈ (fps.foldl register r).fingerprints) : fp ∈ fps ∨ fp ∈ r.fingerprints := by
  induction fps generalizing r with
  | nil => exact .inr h
  | cons f rest ih =>
    rcases ih h with later | earlier
    · exact .inl (List.mem_cons_of_mem f later)
    · rcases mem_register earlier with rfl | old
      · exact .inl List.mem_cons_self
      · exact .inr old

theorem mem_standard {fp : Fingerprint} (h : fp ∈ standard.fingerprints) :
    fp ∈ [Fingerprint.null, .roma, .bool, .modu, .mode, .base, .refc, .hrti] := by
  rcases mem_registerAll h with listed | old
  · exact listed
  · cases old

/-- No standard fingerprint keeps data with the space. -/
theorem standard_supported {fp : Fingerprint} (h : fp ∈ standard.fingerprints) :
    fp.instancing ≠ .space := by
  have all : ∀ fp ∈ [Fingerprint.null, .roma, .bool, .modu, .mode, .base, .refc, .hrti],
      fp.instancing ≠ .space := by decide
  exact all fp (mem_standard h)

/-- No standard fingerprint binds an iteration. -/
theorem standard_bindings {fp : Fingerprint} (h : fp ∈ standard.fingerprints) :
    ∀ b ∈ fp.bindings, b.2 ≠ .iterate := by
  have all : ∀ fp ∈ [Fingerprint.null, .roma, .bool, .modu, .mode, .base, .refc, .hrti],
      ∀ b ∈ fp.bindings, b.2 ≠ .iterate := by decide
  exact all fp (mem_standard h)

end Registry

end Funge
