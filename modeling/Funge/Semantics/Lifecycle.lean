import Funge.World

/-!
# The life of a pointer

Stopping, quitting and splitting. A child waits in the world until the machine takes it up.
-/

namespace Funge.Action

def stop : Action Unit := do
  let p ← pointer
  note (.stopped p.id p.position)
  modifyPointer Pointer.stop

def quit : Action Unit := do
  let code ← pop
  note (.quitRequested (← pointer).id code)
  modifyPointer (·.requestQuit code)

/-- A new identity for a pointer. -/
def nextId : Action Nat :=
  modifyGet fun f => (f.world.nextId, { f with world := { f.world with nextId := f.world.nextId + 1 } })

def split : Action Unit := do
  let id ← nextId
  let p ← pointer
  let child ← attempt .fatal (p.split id (← world).space)
  note (.split p.id id child.position)
  modifyWorld fun w => { w with newborns := w.newborns.push (child, p.id) }

end Funge.Action
