import Funge.Document.Reader
import Funge.Document.Codec
import Funge.Proofs.Transfers

/-!
# Depth

A stack stack starts with one stack, and no operation takes the last one away, so the top stack is
always where it is looked for. What is read from a document has as many stacks as the document lists.
A document that lists none is not refused: it is the one way to stacks without a top.
-/

namespace Funge

namespace StackStack

/-- Where a stack stack comes from. -/
inductive Origin where
  | single
  | document (d : Document)

/-- The stacks that come from there, unless a document is refused. -/
def Origin.make? : Origin → Option StackStack
  | .single => some StackStack.single
  | .document d => StackStack.ofDocument? d

/-- A document with an empty list in place of stacks. -/
def Origin.ListsNone : Origin → Prop
  | .single => False
  | .document d => Document.fields? ["stacks"] d = some [some (.list [])]

/-- What can be done with stacks: the operations that move cells, and any change to the top stack or
to the one below it. -/
inductive Use where
  | operation (o : Operation) (n : Cell)
  | changeTop (change : Stack → Stack)
  | changeSecond (change : Stack → Stack)

/-- The stacks after a use, granted or refused. -/
def Use.run (ss : StackStack) : Use → StackStack
  | .operation o n => (o.apply ss n).2
  | .changeTop change => ss.setTop (change ss.top)
  | .changeSecond change =>
    match ss.second? with
    | some u => ss.setSecond (change u)
    | none => ss

/-- The places of the top stack and of the one below it, counted from the bottom, are places of
stacks. There is a stack below the top one unless that is the only one. -/
structure Addressed (ss : StackStack) : Prop where
  deep : 1 ≤ ss.depth
  top : ss.stacks.reverse[ss.depth - 1]? = some ss.top
  second : ss.depth ≠ 1 →
    ∃ u, ss.second? = some u ∧ ss.stacks.reverse[ss.depth - 1 - 1]? = some u

theorem addressed_of_ne_nil {ss : StackStack} (stacked : ss.stacks ≠ []) : ss.Addressed := by
  obtain ⟨layers⟩ := ss
  match layers, stacked with
  | [t], _ => exact ⟨Nat.le_refl 1, rfl, fun several => absurd rfl several⟩
  | t :: u :: rest, _ =>
    constructor
    · simp [depth]
    · simp [depth, StackStack.top]
    · intro _
      exact ⟨u, rfl, by simp [depth]⟩

theorem Operation.apply_ne_nil {ss : StackStack} (stacked : ss.stacks ≠ []) (o : Operation)
    (n : Cell) : (o.apply ss n).2.stacks ≠ [] := by
  cases o with
  | beginBlock => exact beginBlock_ne_nil stacked n
  | endBlock => exact endBlock_ne_nil stacked n
  | transfer => exact transfer_ne_nil stacked n

/-- No use takes the last stack away. -/
theorem Use.run_ne_nil {ss : StackStack} (stacked : ss.stacks ≠ []) (use : Use) :
    StackStack.stacks (use.run ss) ≠ [] := by
  cases use with
  | operation o n => exact Operation.apply_ne_nil stacked o n
  | changeTop change => exact setTop_ne_nil stacked _
  | changeSecond change =>
    cases below : ss.second? with
    | none => simpa [run, below] using stacked
    | some u => simpa [run, below] using setSecond_ne_nil stacked (change u)

theorem run_all_ne_nil {ss : StackStack} (stacked : ss.stacks ≠ []) (uses : List Use) :
    StackStack.stacks (uses.foldl Use.run ss) ≠ [] := by
  induction uses generalizing ss with
  | nil => exact stacked
  | cons use uses ih => exact ih (use.run_ne_nil stacked)

/-- There are as many stacks as a document lists. -/
theorem depth_of_document {d : Document} {ss : StackStack}
    (made : StackStack.ofDocument? d = some ss) :
    ∃ items, Document.fields? ["stacks"] d = some [some (.list items)] ∧
      ss.depth = items.length := by
  simp only [StackStack.ofDocument?, Option.bind_eq_bind, Option.bind_eq_some_iff] at made
  obtain ⟨fields, found, made⟩ := made
  split at made
  · obtain ⟨layers, read, same⟩ := Option.bind_eq_some_iff.mp made
    obtain ⟨items, rfl, listed⟩ := Document.of_toList? read
    cases same
    have lengths := congrArg List.length listed
    exact ⟨items, found, by simpa [depth] using lengths.symm⟩
  · cases made

/-- A stack stack from a document has no stack exactly if the document lists none. -/
theorem Origin.depth_eq_zero_iff {origin : Origin} {ss : StackStack}
    (made : origin.make? = some ss) : ss.depth = 0 ↔ origin.ListsNone := by
  cases origin with
  | single =>
    cases made
    simp [depth, StackStack.single, ListsNone]
  | document d =>
    obtain ⟨items, found, deep⟩ := depth_of_document made
    simp [deep, ListsNone, found]

/-- Stacks have no top exactly if they were read from a document that lists none. In every other case,
whatever is done with them in any order, there is at least one stack, and the places at which the top
stack and the one below it are looked for are places of stacks. -/
theorem stacked_unless_none_listed (origin : Origin) (ss : StackStack)
    (made : origin.make? = some ss) :
    (ss.depth = 0 ↔ origin.ListsNone) ∧
      (¬ origin.ListsNone → ∀ uses : List Use, (uses.foldl Use.run ss).Addressed) := by
  have none := Origin.depth_eq_zero_iff made
  constructor
  · exact none
  · intro listed uses
    have stacked : ss.stacks ≠ [] := by
      intro empty
      exact listed (none.mp (by simp [depth, empty]))
    exact addressed_of_ne_nil (run_all_ne_nil stacked uses)

/-- A document with one stack of two cells. -/
def sheet : Document :=
  .object [(some "stacks", .list [.object [(some "cells", .list [.integer 1, .integer 2])]])]

/-- A block is ended before there is one, which is refused, and again after the stack below it was
emptied. -/
theorem sheet_stays_stacked :
    Origin.make? (.document sheet) = some ⟨[⟨[2, 1]⟩]⟩ ∧
      (([.operation .endBlock 0, .operation .beginBlock 3, .changeSecond fun _ => .empty,
        .operation .endBlock (-1)] : List Use).foldl Use.run ⟨[⟨[2, 1]⟩]⟩).Addressed := by
  have made : Origin.make? (.document sheet) = some ⟨[⟨[2, 1]⟩]⟩ := rfl
  have listed : ¬ Origin.ListsNone (.document sheet) := by
    intro none
    cases none
  exact ⟨made, (stacked_unless_none_listed _ _ made).2 listed _⟩

/-- A document that lists no stack is read, and then there is no top stack to be found. -/
theorem no_stack_read :
    ∃ ss, (Document.read? "\x7b\"stacks\":[]\x7d").bind StackStack.ofDocument? = some ss ∧
      ss.depth = 0 ∧ ss.stacks.reverse[ss.depth - 1]? = none :=
  ⟨⟨[]⟩, by decide +kernel, rfl, rfl⟩

end StackStack

end Funge
