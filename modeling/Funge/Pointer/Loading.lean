import Funge.Pointer.Basic

/-!
# Loading fingerprints

A load puts one binding on the stack of every letter that the fingerprint defines, and an unload
takes them off again. An unload is refused unless all those bindings lie on top.
-/

namespace Funge.Pointer

/-- The letters of a fingerprint that have a stack of bindings, with their instructions. -/
def letterBindings (f : Fingerprint) : List (Fin 26 × Instruction) :=
  f.bindings.filterMap fun (letter, i) => (Cell.letterIndex? (Cell.ofChar letter)).map (·, i)

/-- The stores of the pointer and of the machine after the instance that a fingerprint needs has
been made. -/
def ensureInstance (p : Pointer) (r : Registry) (shared : InstanceStore) (f : Fingerprint)
    (code : Handprint) : Except OpError (InstanceStore × InstanceStore) :=
  match f.instancing with
  | .global => .ok (p.instances, shared)
  | .interpreter => (shared.ensure r code).map (p.instances, ·)
  | .pointer => (p.instances.ensure r code).map (·, shared)
  | .space => .error (.fatal (.unsupportedInstancing f.name f.instancing))

/-- Loads a fingerprint. Gives the pointer, the shared store and the fingerprint. -/
def load (p : Pointer) (r : Registry) (shared : InstanceStore) (code : Handprint) :
    Except OpError (Pointer × InstanceStore × Fingerprint) :=
  match r.get? code with
  | none => .error (.unknownFingerprint code)
  | some f => do
    let (own, shared) ← p.ensureInstance r shared f code
    let overrides := (letterBindings f).foldl (fun o (l, i) => o.push l ⟨code, i⟩) p.overrides
    return ({ p with instances := own, overrides }, shared, f)

/-- Unloads a fingerprint. -/
def unload (p : Pointer) (r : Registry) (code : Handprint) :
    Except OpError (Pointer × Fingerprint) :=
  match r.get? code with
  | none => .error (.unknownFingerprint code)
  | some f =>
    let letters := (letterBindings f).map Prod.fst
    if letters.all fun l => (p.overrides.top? l).any (·.code = code) then
      .ok ({ p with overrides := letters.foldl Overrides.pop p.overrides }, f)
    else .error (.notLoaded code)

end Funge.Pointer
