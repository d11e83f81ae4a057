import Mathlib.Data.List.Basic
import PrimeBle.Library.Machine

/-! # Bounded mailboxes

What a bounded queue between a sender that cannot wait and a receiver that polls is
for. Items are put in order and lost when the mailbox is full; the receiver takes
the oldest one, and asks whether any was lost since it asked before; a line is
raised with every item and lowered when the mailbox is found empty. A receiver that
goes on taking while nothing is put gets everything, in order, and then hears that
there is nothing (`Mailbox.takes_all`).
-/

/-- Items that wait, whether any was lost since it was asked, and the line. -/
structure Mailbox (Item : Type*) where
  items : List Item
  lost : Bool
  raised : Bool

namespace Mailbox

variable {Item : Type*}

def empty : Mailbox Item := ⟨[], false, false⟩

/-- What is done with a mailbox. -/
inductive Use (Item : Type*) where
  | put (item : Item)
  | take
  | ask
  /-- The mailbox is replaced by an empty one. -/
  | replace
  | pass

/-- What the receiver hears. -/
inductive Answer (Item : Type*) where
  | silence
  | got (item : Item)
  | nothing
  | anyLost (lost : Bool)

/-- The outcome of taking: an item, or that there is none. -/
def Answer.taken : Answer Item → Option (Option Item)
  | .got item => some (some item)
  | .nothing => some none
  | .silence | .anyLost _ => none

def put (capacity : ℕ) (mailbox : Mailbox Item) (item : Item) : Mailbox Item :=
  if mailbox.items.length < capacity then
    { mailbox with items := mailbox.items ++ [item], raised := true }
  else { mailbox with lost := true, raised := true }

def take (mailbox : Mailbox Item) : Mailbox Item × Answer Item :=
  match mailbox.items with
  | [] => ({ mailbox with raised := false }, .nothing)
  | item :: items => ({ mailbox with items }, .got item)

/-- A mailbox with room for so many items. -/
def machine (capacity : ℕ) : Machine (Mailbox Item) (Use Item) (Answer Item) where
  step mailbox
    | .put item => (mailbox.put capacity item, .silence)
    | .take => mailbox.take
    | .ask => ({ mailbox with lost := false }, .anyLost mailbox.lost)
    | .replace => (.empty, .silence)
    | .pass => (mailbox, .silence)

/-- The receiver is the only one to use the mailbox. -/
def Use.receives : Use Item → Bool
  | .take | .ask | .pass => true
  | .put _ | .replace => false

def Use.takes : Use Item → Bool
  | .take => true
  | .put _ | .ask | .replace | .pass => false

/-- The outcomes of taking so many times. -/
def outcomes (items : List Item) (count : ℕ) : List (Option Item) :=
  (items.map some ++ List.replicate count none).take count

theorem outcomes_nil (count : ℕ) : outcomes ([] : List Item) count = List.replicate count none := by
  rw [outcomes, List.map_nil, List.nil_append, List.take_of_length_le (by simp)]

theorem outcomes_cons (item : Item) (items : List Item) (count : ℕ) :
    outcomes (item :: items) (count + 1) = some item :: outcomes items count := by
  simp only [outcomes, List.map_cons, List.cons_append, List.take_succ_cons,
    List.replicate_succ', ← List.append_assoc]
  rw [List.take_append_of_le_length (by simp)]

section Receiver

variable (capacity : ℕ) (mailbox : Mailbox Item)

/-- What one use by the receiver does. -/
theorem step_receives {use : Use Item} (receives : use.receives = true) :
    (use.takes = true ∧ ((machine capacity).step mailbox use) = mailbox.take) ∨
      use.takes = false ∧ ∃ lost answer,
        (machine capacity).step mailbox use = ({ mailbox with lost }, answer) ∧
          answer.taken = none := by
  cases use with
  | put item => cases receives
  | replace => cases receives
  | take => exact Or.inl ⟨rfl, rfl⟩
  | ask => exact Or.inr ⟨rfl, _, _, rfl, rfl⟩
  | pass => exact Or.inr ⟨rfl, mailbox.lost, _, rfl, rfl⟩

/-- **Taking everything.** While only the receiver uses the mailbox, it takes the items
that waited, oldest first, and then hears that there is nothing; the others still
wait; and the line is down if it was, or once the mailbox was found empty. -/
theorem takes_all (uses : List (Use Item))
    (receives : ∀ use ∈ uses, use.receives = true) :
    (((machine capacity).trace mailbox uses).map Machine.Transition.output).filterMap
        Answer.taken =
      outcomes mailbox.items (uses.countP Use.takes) ∧
    ((machine capacity).run mailbox uses).items = mailbox.items.drop (uses.countP Use.takes) ∧
    (mailbox.raised = false ∨ mailbox.items.length < uses.countP Use.takes →
      ((machine capacity).run mailbox uses).raised = false) := by
  induction uses generalizing mailbox with
  | nil =>
      exact ⟨rfl, rfl, fun lowered => lowered.resolve_right (Nat.not_lt_zero _)⟩
  | cons use uses ih =>
      obtain ⟨here, later⟩ := List.forall_mem_cons.mp receives
      rcases step_receives capacity mailbox here with
        ⟨takes, stepped⟩ | ⟨passes, lost, answer, stepped, silent⟩
      · obtain ⟨items, lost, raised⟩ := mailbox
        cases items with
        | nil =>
            obtain ⟨outputs, final, lowered⟩ := ih ⟨[], lost, false⟩ later
            have found : (machine capacity).step ⟨[], lost, raised⟩ use =
                (⟨[], lost, false⟩, .nothing) := stepped
            rw [outcomes_nil] at outputs
            simp only [Machine.trace_cons, Machine.run_cons, List.map_cons, Machine.fire_output,
              found, List.filterMap_cons, Answer.taken, List.countP_cons, takes, ↓reduceIte,
              outcomes_nil, outputs, List.replicate_succ, List.drop_nil] at final ⊢
            exact ⟨trivial, final, fun _ => lowered (Or.inl rfl)⟩
        | cons item items =>
            obtain ⟨outputs, final, lowered⟩ := ih ⟨items, lost, raised⟩ later
            have got : (machine capacity).step ⟨item :: items, lost, raised⟩ use =
                (⟨items, lost, raised⟩, .got item) := stepped
            simp only [Machine.trace_cons, Machine.run_cons, List.map_cons, Machine.fire_output,
              got, List.filterMap_cons, Answer.taken, List.countP_cons, takes, ↓reduceIte,
              outcomes_cons, outputs, List.drop_succ_cons, List.length_cons]
            exact ⟨trivial, final, fun down => lowered (down.imp id Nat.lt_of_succ_lt_succ)⟩
      · obtain ⟨outputs, final, lowered⟩ := ih { mailbox with lost } later
        simp only [Machine.trace_cons, Machine.run_cons, List.map_cons, Machine.fire_output,
          stepped, List.filterMap_cons, silent, List.countP_cons, passes, Bool.false_eq_true,
          ↓reduceIte, Nat.add_zero]
        exact ⟨outputs, final, lowered⟩

end Receiver

end Mailbox
