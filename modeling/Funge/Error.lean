import Funge.Fingerprint.Instance
import Funge.Host
import Funge.Space.Travel
import Funge.StackStack

/-!
# Failures

A failure of an instruction stays inside the step and only reflects the pointer, unless it is
fatal. A fatal failure breaks off the run of the machine.
-/

namespace Funge

/-- Why the machine stops without having finished. -/
inductive MachineError where
  | space (cause : SpaceError)
  | unsupportedInstancing (name : String) (instancing : Instancing)
  | tickLimit (limit : Nat)
  | fault (cause : Fault)
deriving DecidableEq

def MachineError.message : MachineError → String
  | .space cause => cause.message
  | .unsupportedInstancing name instancing =>
    s!"fingerprint {name} needs {instancing.name} instancing, which is not supported"
  | .tickLimit limit => s!"tick limit of {limit} reached"
  | .fault cause => cause.message

/-- Why an instruction fails. -/
inductive OpError where
  | noSecondStack
  /-- A reference that was never given out. -/
  | outOfRange (reference : Cell)
  | invalidArgument (value : Cell)
  | dimensions (needed actual : Nat)
  | channel (cause : ChannelError)
  | inputExhausted
  | unknownFingerprint (code : Handprint)
  | notLoaded (code : Handprint)
  /-- No loaded fingerprint has an instruction for the letter. -/
  | unbound (letter : Char)
  | unsupported (code : Cell)
  /-- The instruction does nothing but fail. -/
  | refused
  | timerNotMarked
  /-- A region of the space cannot be served. -/
  | region (cause : SpaceError)
  | fatal (cause : MachineError)
deriving DecidableEq

namespace OpError

def message : OpError → String
  | .noSecondStack => "no second stack on the stack-of-stacks"
  | .outOfRange reference => s!"reference {reference.toInt} is out of range"
  | .invalidArgument value => s!"invalid argument {value.toInt}"
  | .dimensions needed actual => s!"instruction needs {needed} dimensions, ip has {actual}"
  | .channel cause => s!"i/o failed: {cause.message}"
  | .inputExhausted => "input exhausted"
  | .unknownFingerprint code => s!"unknown fingerprint {code.toHex}"
  | .notLoaded code => s!"fingerprint {code.toHex} is not loaded"
  | .unbound letter => "no fingerprint binds '" ++ String.singleton letter ++ "'"
  | .unsupported code => s!"unsupported instruction {code.toInt}"
  | .refused => "NULL"
  | .timerNotMarked => "timer not marked"
  | .region cause => cause.message
  | .fatal cause => cause.message

def isFatal : OpError → Bool
  | .fatal _ => true
  | _ => false

/-- A region that is too large fails the instruction; a point that does not fit is fatal. -/
def ofSpace : SpaceError → OpError
  | .tooLarge size => .region (.tooLarge size)
  | .dimension point dims => .fatal (.space (.dimension point dims))

def ofStack : StackError → OpError
  | .noSecondStack => .noSecondStack
  | .tooLarge count => .invalidArgument count

end OpError

end Funge
