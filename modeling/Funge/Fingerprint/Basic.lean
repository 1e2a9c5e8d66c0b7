import Funge.Error
import Funge.Instruction

/-!
# Fingerprints

A fingerprint binds instructions to letters. The registry holds the fingerprints that a program
can load, at most one for each handprint.
-/

namespace Funge

structure Fingerprint where
  name : String
  instancing : Instancing
  /-- Letters with their instructions. -/
  bindings : List (Char × Instruction)
  /-- The data that a new instance starts with, if there are any. -/
  start : Option Instance := none

namespace Fingerprint

def handprint (f : Fingerprint) : Handprint := Handprint.ofName f.name

def letters (f : Fingerprint) : String := String.ofList (f.bindings.map Prod.fst)

def describe (f : Fingerprint) : String :=
  "Fingerprint \x7b name: " ++ Text.quoted f.name ++ ", instancing: " ++ f.instancing.name ++
    ", letters: " ++ Text.quoted f.letters ++ " \x7d"

end Fingerprint

/-- Fingerprints by handprint. -/
structure Registry where
  fingerprints : List Fingerprint

namespace Registry

def empty : Registry := ⟨[]⟩

def get? (r : Registry) (code : Handprint) : Option Fingerprint :=
  r.fingerprints.find? (·.handprint = code)

/-- Adds a fingerprint in place of the one with the same handprint. -/
def register (r : Registry) (f : Fingerprint) : Registry :=
  ⟨f :: r.fingerprints.filter (·.handprint ≠ f.handprint)⟩

def size (r : Registry) : Nat := r.fingerprints.length

def isEmpty (r : Registry) : Bool := r.fingerprints.isEmpty

end Registry

/-- The store with an instance for a handprint, made if there is none. -/
def InstanceStore.ensure (s : InstanceStore) (r : Registry) (code : Handprint) :
    Except OpError InstanceStore :=
  if s.contains code then .ok s
  else
    match (r.get? code).bind Fingerprint.start with
    | some i => .ok (s.put code i)
    | none => .error (.unknownFingerprint code)

end Funge
