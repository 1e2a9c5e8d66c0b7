/-!
# Settings of a machine
-/

namespace Funge

/-- What happens at a cell with no instruction. -/
inductive UnknownPolicy where
  /-- The pointer goes on, and a warning is recorded. -/
  | warn
  /-- The pointer is reflected. -/
  | reflect
deriving DecidableEq

structure Settings where
  /-- Dimensions of the space and of every pointer. -/
  dims : Nat := 2
  unknown : UnknownPolicy := .warn
  /-- Number of ticks after which a run is broken off. -/
  maxTicks : Option Nat := none
deriving DecidableEq

/-- The settings with another number of dimensions, at least one. -/
def Settings.withDims (s : Settings) (dims : Nat) : Settings := { s with dims := max dims 1 }

end Funge
