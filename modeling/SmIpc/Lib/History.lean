import Mathlib.Data.List.Basic

/-! # What happened since

A log lists events in the order they happened. This file says of a log that one kind of event happened
and another has not happened since, and how one more event changes that; and it takes out of a log the
events about one thing.

* **`Since`** — an event with `p` happened, and none with `q` since; `since_snoc` is its recursion at
  the end of the log.
* **`about`** — the events about one key, in order. -/

namespace History

variable {α : Type*}

/-- An event with `p` happened, and none with `q` since. Whether an event counts as `q` may depend on
the events before it. -/
def Since (p : α → Prop) (q : List α → α → Prop) (log : List α) : Prop :=
  ∃ before e after, log = before ++ e :: after ∧ p e ∧
    ∀ mid x rest, after = mid ++ x :: rest → ¬ q (before ++ e :: mid) x

variable {p : α → Prop} {q : List α → α → Prop} {log : List α} {e : α}

@[simp] theorem not_since_nil : ¬ Since p q [] := by
  rintro ⟨before, e, after, h, -, -⟩
  simp at h

/-- The event has just happened. -/
theorem since_of_last (h : p e) : Since p q (log ++ [e]) := by
  refine ⟨log, e, [], rfl, h, ?_⟩
  intro mid x rest heq
  simp at heq

/-- An event that is no `q` changes nothing. -/
theorem Since.snoc (h : Since p q log) (he : ¬ q log e) : Since p q (log ++ [e]) := by
  obtain ⟨before, x, after, rfl, hx, hafter⟩ := h
  refine ⟨before, x, after ++ [e], by simp, hx, ?_⟩
  intro mid y rest heq
  rcases List.eq_nil_or_concat rest with rfl | ⟨rest', z, rfl⟩
  · obtain ⟨rfl, hy⟩ := List.append_inj' heq rfl
    obtain rfl : e = y := by simpa using hy
    exact he
  · rw [List.concat_eq_append, ← List.cons_append, ← List.append_assoc] at heq
    exact hafter mid y rest' (List.append_inj' heq rfl).1

/-- **One more event**: it is the event asked for, or there was one and this is no `q`. -/
theorem since_snoc : Since p q (log ++ [e]) ↔ p e ∨ Since p q log ∧ ¬ q log e := by
  constructor
  · rintro ⟨before, x, after, heq, hx, hafter⟩
    rcases List.eq_nil_or_concat after with rfl | ⟨after', y, rfl⟩
    · obtain ⟨-, he⟩ := List.append_inj' heq rfl
      obtain rfl : e = x := by simpa using he
      exact .inl hx
    · rw [List.concat_eq_append, ← List.cons_append, ← List.append_assoc] at heq
      obtain ⟨rfl, he⟩ := List.append_inj' heq rfl
      obtain rfl : e = y := by simpa using he
      refine .inr ⟨⟨before, x, after', rfl, hx, ?_⟩, hafter after' e [] (by simp)⟩
      intro mid z rest hmid
      exact hafter mid z (rest ++ [e]) (by simp [hmid])
  · rintro (h | ⟨h, he⟩)
    · exact since_of_last h
    · exact h.snoc he

/-- The event asked for, if it was not there at some point, came after it. -/
theorem Since.mem_after {more : List α} (h : Since p q (log ++ e :: more)) (he : q log e)
    (hnot : ¬ p e) : ∃ x ∈ more, p x := by
  obtain ⟨before, x, after, heq, hx, hafter⟩ := h
  rcases List.append_eq_append_iff.mp heq with ⟨mid, rfl, hmid⟩ | ⟨mid, rfl, hmid⟩
  · cases mid with
    | nil =>
      obtain ⟨rfl, -⟩ := List.cons.inj hmid
      exact absurd hx hnot
    | cons y mid =>
      obtain ⟨-, rfl⟩ := List.cons.inj hmid
      exact ⟨x, by simp, hx⟩
  · cases mid with
    | nil =>
      obtain ⟨rfl, -⟩ := List.cons.inj hmid
      exact absurd hx hnot
    | cons y mid =>
      obtain ⟨rfl, rfl⟩ := List.cons.inj hmid
      exact absurd he (hafter mid e more rfl)

section about

variable {κ : Type*} [DecidableEq κ]

/-- The events about a key, in order. -/
def about (k : κ) (log : List (κ × α)) : List α :=
  log.filterMap fun a => if a.1 = k then some a.2 else none

variable {k : κ} {log more : List (κ × α)}

@[simp] theorem about_nil : about k ([] : List (κ × α)) = [] := rfl

@[simp] theorem about_append : about k (log ++ more) = about k log ++ about k more :=
  List.filterMap_append

theorem about_cons (a : κ × α) :
    about k (a :: log) = (if a.1 = k then [a.2] else []) ++ about k log := by
  rw [about, List.filterMap_cons]
  split <;> rename_i h <;> split at h <;> simp_all [about]

end about

end History
