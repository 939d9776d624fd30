import Mathlib.Data.List.Basic

/-! # Bounded FIFO queues

The abstract queue the two message queues are meant to be: a list of at most `cap` items, oldest
first. An over-long queue cannot be built, since the bound is a field.

* **`push`** accepts an item exactly when there is room; **`pop`** takes the oldest item.
* **`Trace`** — the histories of accepted and taken items of such a queue; what was accepted is
  always what was taken followed by what is still queued (`Trace.conservation`), so the items are
  taken in the order they were accepted, each at most once. -/

universe u v

/-- A list of at most `cap` items, oldest first. -/
@[ext] structure BoundedFifo (α : Type u) (cap : ℕ) where
  /-- The queued items, oldest first. -/
  items : List α
  /-- No more than `cap` items are queued. -/
  length_le : items.length ≤ cap

namespace BoundedFifo

variable {α : Type u} {β : Type v} {cap : ℕ}

/-- The queue with nothing in it. -/
def empty (α : Type u) (cap : ℕ) : BoundedFifo α cap := ⟨[], Nat.zero_le _⟩

/-- Append an item when there is room; a full queue refuses it and is left unchanged. -/
def push (q : BoundedFifo α cap) (x : α) : Bool × BoundedFifo α cap :=
  if h : q.items.length < cap then (true, ⟨q.items ++ [x], by rw [List.length_append]; exact h⟩) else (false, q)

/-- Take the oldest item; an empty queue yields none and is left unchanged. -/
def pop (q : BoundedFifo α cap) : Option α × BoundedFifo α cap :=
  (q.items.head?, ⟨q.items.tail, by rw [List.length_tail]; have := q.length_le; omega⟩)

/-- Change every queued item in place. -/
def map (q : BoundedFifo α cap) (f : α → β) : BoundedFifo β cap :=
  ⟨q.items.map f, by simpa using q.length_le⟩

theorem push_of_lt (q : BoundedFifo α cap) (x : α) (h : q.items.length < cap) :
    (q.push x).1 = true ∧ (q.push x).2.items = q.items ++ [x] := by
  simp [push, h]

theorem push_of_full (q : BoundedFifo α cap) (x : α) (h : ¬ q.items.length < cap) :
    q.push x = (false, q) := by
  simp [push, h]

@[simp] theorem pop_fst (q : BoundedFifo α cap) : q.pop.1 = q.items.head? := rfl

@[simp] theorem pop_snd_items (q : BoundedFifo α cap) : q.pop.2.items = q.items.tail := rfl

@[simp] theorem map_items (q : BoundedFifo α cap) (f : α → β) : (q.map f).items = q.items.map f :=
  rfl

/-! ## Histories -/

/-- What a queue did in one step: accepted an item, or handed one out. -/
inductive Event (α : Type u) where
  /-- An item was accepted. -/
  | enq (x : α)
  /-- An item was handed out. -/
  | deq (x : α)
  deriving DecidableEq, Repr

/-- The items accepted in a history, in order. -/
def enqs : List (Event α) → List α
  | [] => []
  | .enq x :: es => x :: enqs es
  | .deq _ :: es => enqs es

/-- The items handed out in a history, in order. -/
def deqs : List (Event α) → List α
  | [] => []
  | .enq _ :: es => deqs es
  | .deq x :: es => x :: deqs es

@[simp] theorem enqs_append (es fs : List (Event α)) : enqs (es ++ fs) = enqs es ++ enqs fs := by
  induction es with
  | nil => rfl
  | cons e es ih => cases e <;> simp [enqs, ih]

@[simp] theorem deqs_append (es fs : List (Event α)) : deqs (es ++ fs) = deqs es ++ deqs fs := by
  induction es with
  | nil => rfl
  | cons e es ih => cases e <;> simp [deqs, ih]

/-- The histories of a queue that starts empty, with the items left in it at the end. -/
inductive Trace : List (Event α) → List α → Prop
  /-- Nothing has happened and nothing is queued. -/
  | nil : Trace [] []
  /-- An item is accepted at the tail. -/
  | enq {es : List (Event α)} {l : List α} (x : α) :
      Trace es l → Trace (es ++ [.enq x]) (l ++ [x])
  /-- The oldest item is handed out. -/
  | deq {es : List (Event α)} {l : List α} {x : α} :
      Trace es (x :: l) → Trace (es ++ [.deq x]) l

/-- **Conservation.** What was accepted is what was handed out followed by what is queued. -/
theorem Trace.conservation {es : List (Event α)} {l : List α} (h : Trace es l) :
    enqs es = deqs es ++ l := by
  induction h with
  | nil => rfl
  | enq x _ ih => simp [enqs, deqs, ih]
  | deq _ ih => simp [enqs, deqs, ih]

end BoundedFifo
