import Mathlib.Data.Nat.Notation

/-! # Bounded channels

A first-in first-out queue that never holds more than its capacity: sending to a
full channel is refused.
-/

/-- A queue of at most `capacity` items, oldest first. -/
structure Channel (Item : Type*) (capacity : ℕ) where
  items : List Item
  bounded : items.length ≤ capacity

namespace Channel

variable {Item : Type*} {capacity : ℕ}

def empty : Channel Item capacity := ⟨[], Nat.zero_le _⟩

def trySend (channel : Channel Item capacity) (item : Item) : Option (Channel Item capacity) :=
  if room : channel.items.length < capacity then
    some ⟨channel.items ++ [item], by rw [List.length_append]; exact room⟩
  else none

def tryReceive (channel : Channel Item capacity) : Option (Item × Channel Item capacity) :=
  match channel with
  | ⟨[], _⟩ => none
  | ⟨item :: items, bounded⟩ => some (item, ⟨items, Nat.le_of_succ_le bounded⟩)

/-- Sending appends if there is room. -/
theorem trySend_cases (channel : Channel Item capacity) (item : Item) :
    (channel.items.length < capacity ∧ ∃ next, channel.trySend item = some next ∧
      next.items = channel.items ++ [item]) ∨
    (¬ channel.items.length < capacity ∧ channel.trySend item = none) := by
  by_cases room : channel.items.length < capacity
  · have fits : (channel.items ++ [item]).length ≤ capacity := by
      rw [List.length_append]
      exact room
    refine Or.inl ⟨room, ⟨channel.items ++ [item], fits⟩, ?_, rfl⟩
    simp only [trySend, room, ↓reduceDIte]
  · refine Or.inr ⟨room, ?_⟩
    simp only [trySend, room, ↓reduceDIte]

/-- Receiving takes the oldest item, if there is one. -/
theorem tryReceive_cases (channel : Channel Item capacity) :
    (channel.items = [] ∧ channel.tryReceive = none) ∨
    ∃ item next, channel.tryReceive = some (item, next) ∧
      channel.items = item :: next.items := by
  obtain ⟨items, bounded⟩ := channel
  cases items with
  | nil => exact Or.inl ⟨rfl, rfl⟩
  | cons item items => exact Or.inr ⟨item, _, rfl, rfl⟩

end Channel
