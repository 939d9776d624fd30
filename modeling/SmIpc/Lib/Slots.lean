import Mathlib.Data.List.Perm.Basic
import Mathlib.Logic.Function.Basic

/-! # Slots and their users

A table of slots, each marked as in use or not, and the list of the slots that users have, one entry
for each user. `Exclusive` says that the marks protect the users: every user's slot is marked, and no
two users have the same one. This file gives what the operations of such a table do to it:

* taking a slot that is not marked (`Exclusive.acquire`) and giving back one's own (`Exclusive.release`)
  keep it;
* a new user may enter a slot exactly if it is marked and has no user (`exclusive_cons`);
* the mark of a slot may be taken away exactly if no user has it (`Exclusive.unmark_iff`).

`Covered` is the other direction, that no mark is left without a user: a step keeps it exactly if a slot that
stays marked and is let go by one user has another (`Covered.step_iff`). -/

namespace Slots

variable {α : Type*}

/-- Every user's slot is marked, and no two users have the same slot. -/
def Exclusive (use : α → Bool) (users : List α) : Prop :=
  (∀ a ∈ users, use a = true) ∧ users.Nodup

theorem exclusive_nil (use : α → Bool) : Exclusive use [] :=
  ⟨fun _ ha => absurd ha List.not_mem_nil, List.nodup_nil⟩

/-- The order of the users does not matter. -/
theorem exclusive_perm {use : α → Bool} {l l' : List α} (h : l.Perm l') :
    Exclusive use l ↔ Exclusive use l' :=
  and_congr (forall_congr' fun _ => imp_congr_left h.mem_iff) h.nodup_iff

/-- Users that leave do no harm. -/
theorem Exclusive.sublist {use : α → Bool} {l l' : List α} (h : Exclusive use l)
    (hl : l'.Sublist l) : Exclusive use l' :=
  ⟨fun a ha => h.1 a (hl.subset ha), h.2.sublist hl⟩

/-- A further user needs a slot that is marked and has no user. -/
theorem exclusive_cons {use : α → Bool} {a : α} {l : List α} :
    Exclusive use (a :: l) ↔ use a = true ∧ a ∉ l ∧ Exclusive use l := by
  rw [Exclusive, List.forall_mem_cons, List.nodup_cons, Exclusive]
  exact and_assoc.trans (and_congr_right fun _ => and_left_comm)

/-- Every marked slot has a user. -/
def Covered (use : α → Bool) (users : List α) : Prop := ∀ a, use a = true → a ∈ users

/-- The order of the users does not matter. -/
theorem covered_perm {use : α → Bool} {l l' : List α} (h : l.Perm l') :
    Covered use l ↔ Covered use l' :=
  forall_congr' fun _ => imp_congr_right fun _ => h.mem_iff

/-- Some users let their slots go and have others, and slots are marked for them. The marks that are left
have users exactly if every slot let go that stays marked has another user. -/
theorem Covered.step_iff {use use' : α → Bool} {old new rest : List α} (h : Covered use (old ++ rest))
    (hnew : ∀ a, use' a = true → use a = true ∨ a ∈ new) :
    Covered use' (new ++ rest) ↔ ∀ a ∈ old, use' a = true → a ∉ new → a ∈ rest := by
  constructor
  · intro h' a _ ha hgone
    exact (List.mem_append.mp (h' a ha)).resolve_left hgone
  · intro hrest a ha
    rw [List.mem_append]
    by_cases hmem : a ∈ new
    · exact .inl hmem
    · have hold := h a ((hnew a ha).resolve_right hmem)
      rcases List.mem_append.mp hold with hgone | hstays
      · exact .inr (hrest a hgone ha hmem)
      · exact .inr hstays

variable [DecidableEq α]

/-- Marking a slot does no harm. -/
theorem Exclusive.mark {use : α → Bool} {l : List α} (h : Exclusive use l) (a : α) :
    Exclusive (Function.update use a true) l := by
  refine ⟨?_, h.2⟩
  intro b hb
  rw [Function.update_apply]
  split
  · rfl
  · exact h.1 b hb

/-- A slot that is not marked can be taken. -/
theorem Exclusive.acquire {use : α → Bool} {l : List α} (h : Exclusive use l) {a : α}
    (ha : use a = false) : Exclusive (Function.update use a true) (a :: l) := by
  refine exclusive_cons.mpr ⟨Function.update_self a true use, ?_, h.mark a⟩
  intro hmem
  rw [h.1 a hmem] at ha
  cases ha

/-- The mark of a slot can be taken away exactly if no user has the slot. -/
theorem Exclusive.unmark_iff {use : α → Bool} {l : List α} (h : Exclusive use l) (a : α) :
    Exclusive (Function.update use a false) l ↔ a ∉ l := by
  constructor
  · intro h' hmem
    have hmark := h'.1 a hmem
    rw [Function.update_self] at hmark
    cases hmark
  · intro hmem
    refine ⟨?_, h.2⟩
    intro b hb
    rw [Function.update_of_ne (ne_of_mem_of_not_mem hb hmem)]
    exact h.1 b hb

/-- A user that leaves can give its slot back. -/
theorem Exclusive.release {use : α → Bool} {a : α} {l : List α} (h : Exclusive use (a :: l)) :
    Exclusive (Function.update use a false) l := by
  obtain ⟨-, hmem, hl⟩ := exclusive_cons.mp h
  exact (hl.unmark_iff a).mpr hmem

end Slots
