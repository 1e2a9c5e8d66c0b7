import Funge.World

/-!
# The report

What a program can know about its surroundings, put together on a stack of its own. A program takes
the whole report or a single cell of it; past the end of the report, cells are counted on into the
stack of the program.
-/

namespace Funge.Report

/-- Capabilities: concurrency, reading and writing files. -/
def capabilities : Cell := 7

/-- Bytes of a cell. -/
def cellBytes : Cell := 8

/-- The name of this machine. -/
def machine : Handprint := Handprint.ofName "NFNG"

def version : Cell := 1

/-- There is no way to run commands. -/
def paradigm : Cell := 0

/-- What divides the parts of a path. -/
def separator : Cell := 47

def team : Cell := 0

/-- Three small numbers in one cell. -/
def packed (a : Int) (b c : Nat) : Cell := Int64.ofInt (a * 65536 + b * 256 + c)

def date (m : Moment) : Cell := packed (m.year - 1900) m.month m.day

def time (m : Moment) : Cell := packed m.hour m.minute m.second

/-- The report as a stack of its own, first item on top. The items are pushed last to first. -/
def assemble (p : Pointer) (w : World) : Stack :=
  let (least, greatest) := w.space.bounds?.getD (0, 0)
  Stack.empty
    |>.push 0 .normal
    |>.pushTexts (w.host.environment.map fun (key, value) => key ++ "=" ++ value) .normal
    |>.push 0 .normal
    |>.pushTexts w.host.arguments .normal
    |>.pushMany .normal (p.stacks.sizes.map Int64.ofNat).reverse
    |>.push (Int64.ofNat p.stacks.depth) .normal
    |>.push (time w.host.now) .normal
    |>.push (date w.host.now) .normal
    |>.pushVec (greatest - least) p.dims .normal
    |>.pushVec least p.dims .normal
    |>.pushVec p.offset p.dims .normal
    |>.pushVec p.delta p.dims .normal
    |>.pushVec p.position p.dims .normal
    |>.push team .normal
    |>.push (Int64.ofNat p.id) .normal
    |>.push (Int64.ofNat p.dims) .normal
    |>.push separator .normal
    |>.push paradigm .normal
    |>.push version .normal
    |>.push (Int64.ofNat machine.toNat) .normal
    |>.push cellBytes .normal
    |>.push capabilities .normal

end Funge.Report

namespace Funge

/-- Pops a number: from one on it selects a cell, else the whole report is pushed. -/
def Action.report : Action Unit := do
  let n ← Action.pop
  let p ← Action.pointer
  let report := Report.assemble p (← Action.world)
  if n ≤ 0 then Action.modifyPointer (·.pushMany report.toBottom)
  else
    let index := n.toCount - 1
    Action.push (if index < report.size then report.pick index else p.top.pick (index - report.size))

end Funge
