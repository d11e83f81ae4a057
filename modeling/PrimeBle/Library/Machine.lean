import Mathlib.Data.List.Basic
import Mathlib.Data.List.Induction

/-! # Runs of deterministic labelled machines

A machine consumes one event at a time, moves to a new state and emits an
output; whatever the environment decides is part of the event. A run is a list
of events, and its trace is the list of the transitions it takes. A few rules
carry the results about runs: a predicate every allowed step preserves holds
along the run (`Machine.run_preserved`, `Machine.source_preserved`); a property
of transitions that is equivalent, under an invariant, to a condition on the
state and event before the step is equivalent to that condition along the whole
run (`Machine.forall_trace_iff_of_valid`); and a step-wise simulation or refinement
extends to runs (`Machine.run_simulates`, `Machine.run_refines`). Steps that leave
the state alone can be left out of a run (`Machine.run_acting`).
-/

/-- A deterministic machine with inputs and outputs. -/
structure Machine (State Event Output : Type*) where
  step : State → Event → State × Output

namespace Machine

/-- One step taken by a machine, with both of its ends. -/
structure Transition (State Event Output : Type*) where
  source : State
  event : Event
  output : Output
  target : State

variable {State Event Output : Type*} (machine : Machine State Event Output)

/-- The transition taken from a state on an event. -/
def fire (state : State) (event : Event) : Transition State Event Output where
  source := state
  event := event
  output := (machine.step state event).2
  target := (machine.step state event).1

/-- The state a list of events leads to. -/
def run (state : State) : List Event → State
  | [] => state
  | event :: events => run (machine.step state event).1 events

/-- The transitions taken along a list of events. -/
def trace (state : State) : List Event → List (Transition State Event Output)
  | [] => []
  | event :: events => machine.fire state event :: trace (machine.step state event).1 events

@[simp] theorem fire_source (state : State) (event : Event) :
    (machine.fire state event).source = state := rfl

@[simp] theorem fire_event (state : State) (event : Event) :
    (machine.fire state event).event = event := rfl

@[simp] theorem fire_output (state : State) (event : Event) :
    (machine.fire state event).output = (machine.step state event).2 := rfl

@[simp] theorem fire_target (state : State) (event : Event) :
    (machine.fire state event).target = (machine.step state event).1 := rfl

@[simp] theorem run_nil (state : State) : machine.run state [] = state := rfl

@[simp] theorem run_cons (state : State) (event : Event) (events : List Event) :
    machine.run state (event :: events) = machine.run (machine.step state event).1 events := rfl

@[simp] theorem trace_nil (state : State) : machine.trace state [] = [] := rfl

@[simp] theorem trace_cons (state : State) (event : Event) (events : List Event) :
    machine.trace state (event :: events) =
      machine.fire state event :: machine.trace (machine.step state event).1 events := rfl

/-- A run over appended events continues where the first part ended. -/
theorem run_append (state : State) (first second : List Event) :
    machine.run state (first ++ second) = machine.run (machine.run state first) second := by
  induction first generalizing state with
  | nil => rfl
  | cons event events ih => exact ih (machine.step state event).1

/-- The trace of appended events is the first trace followed by the trace from
where the first part ended. -/
theorem trace_append (state : State) (first second : List Event) :
    machine.trace state (first ++ second) =
      machine.trace state first ++ machine.trace (machine.run state first) second := by
  induction first generalizing state with
  | nil => rfl
  | cons event events ih =>
      simp only [List.cons_append, trace_cons, run_cons]
      rw [ih]

/-- A trace takes the events in order. -/
theorem map_event_trace (state : State) (events : List Event) :
    (machine.trace state events).map Transition.event = events := by
  induction events generalizing state with
  | nil => rfl
  | cons event events ih => rw [trace_cons, List.map_cons, ih, fire_event]

/-- A transition of a trace takes one of its events. -/
theorem event_mem_of_mem_trace {state : State} {events : List Event}
    {transition : Transition State Event Output}
    (member : transition ∈ machine.trace state events) : transition.event ∈ events := by
  have mapped : transition.event ∈ (machine.trace state events).map Transition.event :=
    List.mem_map_of_mem member
  rw [map_event_trace] at mapped
  exact mapped

/-- The transitions of a run are those its prefixes lead to. -/
theorem mem_trace_iff {state : State} {events : List Event}
    {transition : Transition State Event Output} :
    transition ∈ machine.trace state events ↔
      ∃ before event after, events = before ++ event :: after ∧
        transition = machine.fire (machine.run state before) event := by
  induction events generalizing state with
  | nil => simp
  | cons head tail ih =>
      simp only [trace_cons, List.mem_cons, ih]
      constructor
      · rintro (rfl | ⟨before, event, after, rfl, rfl⟩)
        · exact ⟨[], head, tail, rfl, rfl⟩
        · exact ⟨head :: before, event, after, rfl, rfl⟩
      · rintro ⟨before, event, after, split, rfl⟩
        cases before with
        | nil =>
            obtain ⟨rfl, rfl⟩ := List.cons.inj split
            exact Or.inl rfl
        | cons first rest =>
            obtain ⟨rfl, rfl⟩ := List.cons.inj split
            exact Or.inr ⟨rest, event, after, rfl, rfl⟩

/-- The transition taken after a prefix of a run belongs to its trace. -/
theorem fire_mem_trace (state : State) (before : List Event) (event : Event)
    (after : List Event) :
    machine.fire (machine.run state before) event ∈
      machine.trace state (before ++ event :: after) :=
  machine.mem_trace_iff.mpr ⟨before, event, after, rfl, rfl⟩

/-- A run takes the transitions of its first part. -/
theorem mem_trace_append_left {state : State} {first : List Event} (second : List Event)
    {transition : Transition State Event Output}
    (member : transition ∈ machine.trace state first) :
    transition ∈ machine.trace state (first ++ second) := by
  rw [trace_append]
  exact List.mem_append_left _ member

/-- What holds at the end of a run and not at its start became true in one of its
steps. -/
theorem exists_turn {predicate : State → Prop} {state : State} {events : List Event}
    (start : ¬ predicate state) (final : predicate (machine.run state events)) :
    ∃ transition ∈ machine.trace state events,
      ¬ predicate transition.source ∧ predicate transition.target := by
  induction events generalizing state with
  | nil => exact absurd final start
  | cons event events ih =>
      by_cases next : predicate (machine.step state event).1
      · exact ⟨_, List.mem_cons_self .., start, next⟩
      · obtain ⟨transition, member, turns⟩ := ih next final
        exact ⟨transition, List.mem_cons_of_mem _ member, turns⟩

/-- **Where a state comes from.** Suppose that a step into a state that has the
predicate is an origin of that state, or leads there from another such state whose
origins are its origins too. Then a run from a state without the predicate into
one with it took an origin of the last state. -/
theorem exists_origin {predicate : State → Prop} {allowed : State → Event → Prop}
    {origin : Transition State Event Output → State → Prop}
    (turns : ∀ state event, allowed state event → predicate (machine.step state event).1 →
      origin (machine.fire state event) (machine.step state event).1 ∨
        predicate state ∧ ∀ transition, origin transition state →
          origin transition (machine.step state event).1)
    {state : State} (start : ¬ predicate state) {events : List Event}
    (guarded : ∀ transition ∈ machine.trace state events,
      allowed transition.source transition.event)
    (final : predicate (machine.run state events)) :
    ∃ transition ∈ machine.trace state events, origin transition (machine.run state events) := by
  induction events using List.reverseRecOn with
  | nil => exact absurd final start
  | append_singleton events event ih =>
      rw [trace_append] at guarded ⊢
      rw [run_append] at final ⊢
      have here := guarded _ (List.mem_append_right _ (List.mem_singleton.mpr rfl))
      rcases turns _ event here final with origin | ⟨earlier, kept⟩
      · exact ⟨_, List.mem_append_right _ (List.mem_singleton.mpr rfl), origin⟩
      · obtain ⟨transition, member, origin⟩ :=
          ih (fun transition member => guarded _ (List.mem_append_left _ member)) earlier
        exact ⟨transition, List.mem_append_left _ member, kept transition origin⟩

section Preservation

variable {machine} {inv : State → Prop} {allowed : State → Event → Prop}

/-- **Invariants over runs.** A predicate preserved by every allowed step holds
after every run whose steps are all allowed. -/
theorem run_preserved
    (preserved : ∀ state event, inv state → allowed state event → inv (machine.step state event).1)
    {state : State} (start : inv state) {events : List Event}
    (guarded : ∀ transition ∈ machine.trace state events,
      allowed transition.source transition.event) :
    inv (machine.run state events) := by
  induction events generalizing state with
  | nil => exact start
  | cons event events ih =>
      have head := guarded _ (List.mem_cons_self ..)
      exact ih (preserved state event start head)
        (fun transition member => guarded transition (List.mem_cons_of_mem _ member))

/-- Along a run whose steps are all allowed, a preserved predicate holds before
every step. -/
theorem source_preserved
    (preserved : ∀ state event, inv state → allowed state event → inv (machine.step state event).1)
    {state : State} (start : inv state) {events : List Event}
    (guarded : ∀ transition ∈ machine.trace state events,
      allowed transition.source transition.event) :
    ∀ transition ∈ machine.trace state events, inv transition.source := by
  intro transition member
  obtain ⟨before, event, after, rfl, rfl⟩ := machine.mem_trace_iff.mp member
  apply run_preserved preserved start
  intro earlier earlierMember
  exact guarded _ (mem_trace_append_left machine _ earlierMember)

/-- A predicate that every event of a run preserves holds after the run. -/
theorem run_preserved_of_events {valid : Event → Prop}
    (preserved : ∀ state event, inv state → valid event → inv (machine.step state event).1)
    {state : State} (start : inv state) {events : List Event}
    (admissible : ∀ event ∈ events, valid event) : inv (machine.run state events) := by
  have steps : ∀ state event, inv state → (fun _ => valid) state event →
      inv (machine.step state event).1 := preserved
  exact run_preserved steps start
    fun _ member => admissible _ (machine.event_mem_of_mem_trace member)

/-- A predicate that every step preserves holds after every run. -/
theorem run_invariant
    (preserved : ∀ state event, inv state → inv (machine.step state event).1)
    {state : State} (start : inv state) (events : List Event) : inv (machine.run state events) := by
  induction events generalizing state with
  | nil => exact start
  | cons event events ih => exact ih (preserved state event start)

/-- **Counting over runs.** If every counted step costs at least one unit of what
the state has left, and no step adds to that, a run cannot take more counted
steps than its first state can pay for. -/
theorem countP_add_le {valid : Event → Prop} {cost : State → ℕ}
    {counted : Transition State Event Output → Bool}
    (paid : ∀ state event, inv state → valid event → inv (machine.step state event).1 ∧
      (counted (machine.fire state event)).toNat + cost (machine.step state event).1 ≤ cost state)
    {state : State} (start : inv state) {events : List Event}
    (admissible : ∀ event ∈ events, valid event) :
    (machine.trace state events).countP counted + cost (machine.run state events) ≤
      cost state := by
  induction events generalizing state with
  | nil => exact Nat.le_of_eq (Nat.zero_add _)
  | cons event events ih =>
      obtain ⟨here, later⟩ := List.forall_mem_cons.mp admissible
      obtain ⟨next, step⟩ := paid state event start here
      have rest := ih next later
      rw [trace_cons, run_cons, List.countP_cons]
      cases verdict : counted (machine.fire state event) with
      | false =>
          rw [verdict, Bool.toNat_false] at step
          simp only [Bool.false_eq_true, ↓reduceIte]
          omega
      | true =>
          rw [verdict, Bool.toNat_true] at step
          simp only [↓reduceIte]
          omega

end Preservation

/-- **Exact conditions over runs.** Suppose that, under an invariant, a step
that meets a condition is good and keeps the invariant, and a good step meets
the condition. Then all steps of a run are good exactly when all of them meet
the condition. -/
theorem forall_trace_iff_of_valid {inv : State → Prop} {valid : Event → Prop}
    {meets : State → Event → Prop} {good : Transition State Event Output → Prop}
    (kept : ∀ state event, inv state → valid event → meets state event →
      good (machine.fire state event) ∧ inv (machine.step state event).1)
    (needed : ∀ state event, inv state → valid event → good (machine.fire state event) →
      meets state event)
    {state : State} (start : inv state) {events : List Event}
    (admissible : ∀ event ∈ events, valid event) :
    (∀ transition ∈ machine.trace state events, good transition) ↔
      ∀ transition ∈ machine.trace state events, meets transition.source transition.event := by
  induction events generalizing state with
  | nil => simp
  | cons event events ih =>
      obtain ⟨here, later⟩ := List.forall_mem_cons.mp admissible
      simp only [trace_cons, List.forall_mem_cons, fire_source, fire_event]
      constructor
      · intro ⟨head, tail⟩
        have met := needed state event start here head
        exact ⟨met, (ih (kept state event start here met).2 later).mp tail⟩
      · intro ⟨met, tail⟩
        obtain ⟨head, next⟩ := kept state event start here met
        exact ⟨head, (ih next later).mpr tail⟩

/-- The same for runs over any events. -/
theorem forall_trace_iff {inv : State → Prop} {meets : State → Event → Prop}
    {good : Transition State Event Output → Prop}
    (kept : ∀ state event, inv state → meets state event →
      good (machine.fire state event) ∧ inv (machine.step state event).1)
    (needed : ∀ state event, inv state → good (machine.fire state event) → meets state event)
    {state : State} (start : inv state) (events : List Event) :
    (∀ transition ∈ machine.trace state events, good transition) ↔
      ∀ transition ∈ machine.trace state events, meets transition.source transition.event := by
  have admissible : ∀ event ∈ events, (fun _ => True) event := fun _ _ => trivial
  exact machine.forall_trace_iff_of_valid (fun state event before _ => kept state event before)
    (fun state event before _ => needed state event before) start admissible

/-- **Simulation over runs.** Let every allowed step from related states lead to
related states when the abstract side takes the step named by `view`. Then every
allowed run is simulated by the abstract run over the views of its trace. -/
theorem run_simulates {Abstract Label : Type*} {next : Abstract → Label → Abstract}
    {view : Transition State Event Output → Label} {related : State → Abstract → Prop}
    {allowed : State → Event → Prop}
    (simulates : ∀ state event abstract, related state abstract → allowed state event →
      related (machine.step state event).1 (next abstract (view (machine.fire state event))))
    {state : State} {abstract : Abstract} (start : related state abstract) {events : List Event}
    (guarded : ∀ transition ∈ machine.trace state events,
      allowed transition.source transition.event) :
    related (machine.run state events)
      (((machine.trace state events).map view).foldl next abstract) := by
  induction events generalizing state abstract with
  | nil => exact start
  | cons event events ih =>
      have head := guarded _ (List.mem_cons_self ..)
      exact ih (simulates state event abstract start head)
        (fun transition member => guarded transition (List.mem_cons_of_mem _ member))

/-- **Refinement over runs.** Let every step do to the abstract state and show as
output what the abstract machine does on the step's view. Then so does every run. -/
theorem run_refines {Abstract Label Shown : Type*} {abstract : Machine Abstract Label Shown}
    {project : State → Abstract} {view : Transition State Event Output → Label}
    {shown : Output → Shown}
    (refines : ∀ state event,
      abstract.step (project state) (view (machine.fire state event)) =
        (project (machine.step state event).1, shown (machine.step state event).2))
    (state : State) (events : List Event) :
    abstract.run (project state) ((machine.trace state events).map view) =
        project (machine.run state events) ∧
      (abstract.trace (project state) ((machine.trace state events).map view)).map
          Transition.output =
        (machine.trace state events).map fun transition => shown transition.output := by
  induction events generalizing state with
  | nil => exact ⟨rfl, rfl⟩
  | cons event events ih =>
      obtain ⟨final, outputs⟩ := ih (machine.step state event).1
      simp only [trace_cons, List.map_cons, run_cons, fire_output, refines state event]
      exact ⟨final, congrArg _ outputs⟩

/-- **Leaving out idle steps.** Let the steps of a run that do not act leave their
state alone. Then the run over the other events takes exactly the acting steps, and
ends where the whole run ends. -/
theorem run_acting {acts : Transition State Event Output → Bool} {state : State}
    {events : List Event}
    (still : ∀ transition ∈ machine.trace state events, acts transition = false →
      transition.target = transition.source) :
    machine.trace state (((machine.trace state events).filter acts).map Transition.event) =
        (machine.trace state events).filter acts ∧
      machine.run state (((machine.trace state events).filter acts).map Transition.event) =
        machine.run state events := by
  induction events generalizing state with
  | nil => exact ⟨rfl, rfl⟩
  | cons event events ih =>
      obtain ⟨head, tail⟩ := List.forall_mem_cons.mp still
      obtain ⟨steps, final⟩ := ih tail
      cases verdict : acts (machine.fire state event) with
      | true =>
          rw [trace_cons, List.filter_cons_of_pos verdict, List.map_cons, trace_cons, run_cons,
            run_cons, fire_event]
          exact ⟨congrArg _ steps, final⟩
      | false =>
          have same : (machine.step state event).1 = state := head verdict
          rw [same] at steps final
          rw [trace_cons, List.filter_cons_of_neg (by simp [verdict]), run_cons, same]
          exact ⟨steps, final⟩

section Agreement

variable {machine} {related : State → State → Prop} {valid : Event → Prop}

/-- **Two runs side by side.** Suppose that on every valid event related states
step to related states with the same output. Then runs over the same valid
events from related states end in related states, with the same outputs on the
way. -/
theorem runs_agree
    (agree : ∀ left right event, related left right → valid event →
      related (machine.step left event).1 (machine.step right event).1 ∧
        (machine.step left event).2 = (machine.step right event).2)
    {left right : State} (start : related left right) {events : List Event}
    (admissible : ∀ event ∈ events, valid event) :
    related (machine.run left events) (machine.run right events) ∧
      (machine.trace left events).map Transition.output =
        (machine.trace right events).map Transition.output := by
  induction events generalizing left right with
  | nil => exact ⟨start, rfl⟩
  | cons event events ih =>
      obtain ⟨here, later⟩ := List.forall_mem_cons.mp admissible
      obtain ⟨next, same⟩ := agree left right event start here
      obtain ⟨final, outputs⟩ := ih next later
      refine ⟨final, ?_⟩
      simp only [trace_cons, List.map_cons, fire_output]
      rw [same, outputs]

end Agreement

end Machine
