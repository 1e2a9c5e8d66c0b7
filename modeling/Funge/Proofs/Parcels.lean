import Funge.Proofs.Codes

/-!
# Parcels

Cells, vectors and texts pushed onto one stack in any order. Where pushes and pops work on the same
end, each parcel is a run of cells that ends where it says itself: a vector by its number of
dimensions, a text by its zero. So pops of the matching kinds in the opposite order give all of them
back, and no parcel takes cells of the one below it.
-/

namespace Funge

namespace Vec

/-- The vector with the first `dims` components of `v` and zeros from there on. -/
def leading (v : Vec) (dims : Nat) : Vec := ofList ((List.range dims).map v.get)

theorem get_leading (v : Vec) (dims i : Nat) :
    (v.leading dims).get i = if i < dims then v.get i else 0 := by
  by_cases inside : i < dims
  · simp [leading, List.getD_eq_getElem?_getD, inside]
  · simp [leading, List.getD_eq_getElem?_getD, inside]

theorem ofList_coordinates_eq_leading (v : Vec) (dims : Nat) :
    ofList (v.coordinates dims) = v.leading dims := by
  apply ext_get
  intro i
  rw [get_leading, get_ofList, List.getD_eq_getElem?_getD]
  by_cases inside : i < dims
  · rw [getElem?_coordinates v inside, if_pos inside]
    rfl
  · simp [inside]

end Vec

namespace Stack

/-- What is pushed in one go. -/
inductive Parcel where
  | cell (c : Cell)
  /-- The first `dims` components of a vector. -/
  | vector (v : Vec) (dims : Nat)
  | text (s : String)
deriving DecidableEq

/-- What a pop in one go asks for. -/
inductive Kind where
  | cell
  | vector (dims : Nat)
  | text
deriving DecidableEq

/-- Pops a parcel of some kind. -/
def Kind.pop (mode : Mode) (s : Stack) : Kind → Parcel × Stack
  | .cell => (s.pop mode).map .cell id
  | .vector dims => (s.popVec dims mode).map (.vector · dims) id
  | .text => (s.popText mode).map .text id

namespace Parcel

def kind : Parcel → Kind
  | .cell _ => .cell
  | .vector _ dims => .vector dims
  | .text _ => .text

def push (mode : Mode) (s : Stack) : Parcel → Stack
  | .cell c => s.push c mode
  | .vector v dims => s.pushVec v dims mode
  | .text written => s.pushText written mode

/-- No text has a zero inside. -/
def Plain : Parcel → Prop
  | .text s => '\x00' ∉ s.toList
  | _ => True

/-- The parcel as it is popped: a vector has lost the components that were not pushed. -/
def returned : Parcel → Parcel
  | .vector v dims => .vector (v.leading dims) dims
  | other => other

end Parcel

def pushParcels (mode : Mode) (s : Stack) (parcels : List Parcel) : Stack :=
  parcels.foldl (Parcel.push mode) s

/-- Pops parcels of the given kinds, listed in the order in which they came. -/
def popParcels (mode : Mode) : List Kind → Stack → List Parcel × Stack
  | [], s => ([], s)
  | kind :: kinds, s =>
    let (parcel, s) := kind.pop mode s
    let (parcels, s) := popParcels mode kinds s
    (parcel :: parcels, s)

theorem popParcels_append (mode : Mode) (first second : List Kind) (s : Stack) :
    popParcels mode (first ++ second) s =
      ((popParcels mode first s).1 ++ (popParcels mode second (popParcels mode first s).2).1,
        (popParcels mode second (popParcels mode first s).2).2) := by
  induction first generalizing s with
  | nil => rfl
  | cons kind first ih => simp [popParcels, ih]

section SameEnd

variable {mode : Mode}

/-- A parcel is popped as it was pushed, and what lay there before is left. -/
theorem pop_push_parcel (lifo : mode.invert = mode.queue) {parcel : Parcel} (plain : parcel.Plain)
    (s : Stack) : parcel.kind.pop mode (parcel.push mode s) = (parcel.returned, s) := by
  rw [← ofPopOrder_inPopOrder s mode]
  cases parcel with
  | cell c =>
    rw [Parcel.push, push_ofPopOrder lifo, Parcel.kind, Kind.pop, pop_cons]
    rfl
  | vector v dims =>
    rw [Parcel.push, pushVec_ofPopOrder lifo, Parcel.kind, Kind.pop, popVec_vector,
      Vec.ofList_coordinates_eq_leading]
    rfl
  | text written =>
    rw [Parcel.push, pushText_ofPopOrder lifo, Parcel.kind, Kind.pop, popText_append mode plain]
    rfl

/-- Whatever is pushed onto a stack one after the other comes back by the matching pops in the
opposite order, and the stack is then as it was, if pushes and pops work on the same end and no text
has a zero inside. -/
theorem parcels_return (lifo : mode.invert = mode.queue) (s : Stack) (parcels : List Parcel)
    (plain : ∀ parcel ∈ parcels, parcel.Plain) :
    popParcels mode (parcels.reverse.map Parcel.kind) (s.pushParcels mode parcels) =
      (parcels.reverse.map Parcel.returned, s) := by
  induction parcels generalizing s with
  | nil => rfl
  | cons parcel parcels ih =>
    obtain ⟨first, others⟩ := List.forall_mem_cons.mp plain
    have pushed : s.pushParcels mode (parcel :: parcels) =
        (parcel.push mode s).pushParcels mode parcels := rfl
    -- The first parcel lies below all others, so it is what their pops come down to.
    have upper := ih (parcel.push mode s) others
    have last := pop_push_parcel lifo first s
    rw [List.reverse_cons, List.map_append, popParcels_append, pushed, upper, List.map_append]
    simp [popParcels, last]

/-- With both ends swapped, a vector with more components than are pushed lies between two texts, one
of them empty, and a zero. -/
theorem mingled_parcels_return :
    popParcels ⟨true, true⟩ [.cell, .text, .vector 2, .text]
        (pushParcels ⟨true, true⟩ ⟨[7, 8]⟩
          [.text "", .vector (Vec.ofList [5, 0, 9]) 2, .text "hé", .cell 0]) =
      ([.cell 0, .text "hé", .vector (Vec.ofList [5]) 2, .text ""], ⟨[7, 8]⟩) :=
  parcels_return rfl ⟨[7, 8]⟩ [.text "", .vector (Vec.ofList [5, 0, 9]) 2, .text "hé", .cell 0]
    (by simp [Parcel.Plain])

end SameEnd

end Stack

end Funge
