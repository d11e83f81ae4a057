import Mathlib.Order.Basic
import PrimeBle.Library.Machine

/-! # What a state remembers of a run

Four kinds of bookkeeping, each from what one step does to it. A queue holds what
has entered and not yet left, in order (`Machine.queue_conserved`); a flag is up
if something raised it after the last thing that took it down
(`Machine.flag_iff`); a register holds the last value written to it
(`Machine.register_eq`); and epochs, once left, are not entered again
(`Machine.epochs_sorted`).
-/

namespace Machine

variable {State Event Output : Type*} (machine : Machine State Event Output)

section Queue

variable {Item : Type*} {queue : State → List Item}
  {enters leaves : Transition State Event Output → List Item}

/-- **Queues.** If every step conserves items and their order, so does every run. -/
theorem queue_conserved
    (conserves : ∀ state event, queue state ++ enters (machine.fire state event) =
      leaves (machine.fire state event) ++ queue (machine.step state event).1)
    (state : State) (events : List Event) :
    queue state ++ (machine.trace state events).flatMap enters =
      (machine.trace state events).flatMap leaves ++ queue (machine.run state events) := by
  induction events generalizing state with
  | nil =>
      simp only [trace_nil, List.flatMap_nil, List.append_nil, List.nil_append, run_nil]
  | cons event events ih =>
      have rest := ih (machine.step state event).1
      simp only [trace_cons, List.flatMap_cons, run_cons]
      rw [← List.append_assoc, conserves state event, List.append_assoc, rest, List.append_assoc]

end Queue

section Flag

variable {flag : State → Prop} {raises lowers : Transition State Event Output → Prop}

/-- A flag is up if it was and nothing took it down, or if something raised it and
nothing took it down after that. -/
theorem flag_iff_or
    (keeps : ∀ state event, flag (machine.step state event).1 ↔
      raises (machine.fire state event) ∨ flag state ∧ ¬ lowers (machine.fire state event))
    (state : State) (events : List Event) :
    flag (machine.run state events) ↔
      (flag state ∧ ∀ transition ∈ machine.trace state events, ¬ lowers transition) ∨
      ∃ before event after, events = before ++ event :: after ∧
        raises (machine.fire (machine.run state before) event) ∧
        ∀ transition ∈ machine.trace (machine.run state (before ++ [event])) after,
          ¬ lowers transition := by
  induction events generalizing state with
  | nil => simp
  | cons event events ih =>
      rw [run_cons, ih, keeps, trace_cons, List.forall_mem_cons]
      constructor
      · rintro (⟨raised | ⟨up, kept⟩, quiet⟩ | ⟨before, later, after, rfl, raised, quiet⟩)
        · exact Or.inr ⟨[], event, events, rfl, raised, quiet⟩
        · exact Or.inl ⟨up, kept, quiet⟩
        · exact Or.inr ⟨event :: before, later, after, rfl, raised, quiet⟩
      · rintro (⟨up, kept, quiet⟩ | ⟨before, later, after, split, raised, quiet⟩)
        · exact Or.inl ⟨Or.inr ⟨up, kept⟩, quiet⟩
        · cases before with
          | nil =>
              obtain ⟨rfl, rfl⟩ := List.cons.inj split
              exact Or.inl ⟨Or.inl raised, quiet⟩
          | cons first rest =>
              obtain ⟨rfl, rfl⟩ := List.cons.inj split
              exact Or.inr ⟨rest, later, after, rfl, raised, quiet⟩

/-- **Flags.** A flag that starts down is up exactly when a step raised it and none
after that took it down. -/
theorem flag_iff
    (keeps : ∀ state event, flag (machine.step state event).1 ↔
      raises (machine.fire state event) ∨ flag state ∧ ¬ lowers (machine.fire state event))
    {state : State} (down : ¬ flag state) (events : List Event) :
    flag (machine.run state events) ↔
      ∃ before event after, events = before ++ event :: after ∧
        raises (machine.fire (machine.run state before) event) ∧
        ∀ transition ∈ machine.trace (machine.run state (before ++ [event])) after,
          ¬ lowers transition := by
  rw [machine.flag_iff_or keeps state events]
  simp only [down, false_and, false_or]

end Flag

section Register

variable {Value : Type*} {read : State → Value}
  {writes : Transition State Event Output → Option Value}

/-- **Registers.** A register holds the last value written along the run, or what
it held before. -/
theorem register_eq
    (keeps : ∀ state event, read (machine.step state event).1 =
      (writes (machine.fire state event)).getD (read state))
    (state : State) (events : List Event) :
    read (machine.run state events) =
      (((machine.trace state events).filterMap writes).getLast?).getD (read state) := by
  induction events generalizing state with
  | nil => rfl
  | cons event events ih =>
      rw [run_cons, ih, keeps, trace_cons, List.filterMap_cons]
      cases written : writes (machine.fire state event) with
      | none => rfl
      | some value =>
          simp only [Option.getD_some]
          rw [List.getLast?_cons]
          rfl

end Register

section Epochs

variable {Epoch : Type*} [Preorder Epoch] {notBefore : State → Epoch → Prop}
  {epoch : Transition State Event Output → Option Epoch}

/-- **Epochs.** Let a state say which epochs are not over. If steps end epochs and
bring none back, and what happens in an epoch happens in one that is not over and
ends those before it, then the epochs of what happens along a run are in order. -/
theorem epochs_sorted
    (kept : ∀ state event bound, notBefore state bound →
      notBefore (machine.step state event).1 bound)
    (enters : ∀ state event bound now, notBefore state bound →
      epoch (machine.fire state event) = some now → bound ≤ now ∧ notBefore state now)
    {state : State} {bound : Epoch} (start : notBefore state bound) (events : List Event) :
    (∀ now ∈ (machine.trace state events).filterMap epoch, bound ≤ now) ∧
      ((machine.trace state events).filterMap epoch).Pairwise (· ≤ ·) := by
  induction events generalizing state bound with
  | nil => exact ⟨nofun, .nil⟩
  | cons event events ih =>
      rw [trace_cons, List.filterMap_cons]
      cases happens : epoch (machine.fire state event) with
      | none => exact ih (kept state event bound start)
      | some now =>
          obtain ⟨later, ended⟩ := enters state event bound now start happens
          obtain ⟨above, sorted⟩ := ih (kept state event now ended)
          refine ⟨?_, List.pairwise_cons.mpr ⟨above, sorted⟩⟩
          rw [List.forall_mem_cons]
          exact ⟨later, fun next member => later.trans (above next member)⟩

end Epochs

end Machine
