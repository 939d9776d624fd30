import Mathlib.Data.List.Induction

/-! # Slots that are reused without being cleared

Messages are stored one after another in the slots of a ring, each over the beginning of what its slot
holds. Nothing says where a message ends in its slot, so what lies behind a short message is left from
the earlier users of the slot.

* **`overwrite`** — a block after a message was copied over its beginning.
* **`users n ms j`** — the messages that went to slot `j` of a ring of `n` slots, in order;
  `users_before` reads them at the time one message was stored.
* **`lastAt ms b`** — the last message that reaches offset `b`; `getElem?_foldl_overwrite` says that the
  block holds its element there. -/

namespace ReusedSlots

variable {α : Type*}

/-! ## One slot -/

/-- A block after a message was copied over its beginning. -/
def overwrite (block m : List α) : List α := m ++ block.drop m.length

/-- The beginning of the block is the message, and the rest is as it was. -/
theorem getElem?_overwrite (block m : List α) (b : ℕ) :
    (overwrite block m)[b]? = if b < m.length then m[b]? else block[b]? := by
  rw [overwrite, List.getElem?_append]
  split
  · rfl
  · rw [List.getElem?_drop, Nat.add_sub_cancel' (by omega)]

/-- The last of the messages that reaches an offset. -/
def lastAt (ms : List (List α)) (b : ℕ) : Option (List α) := ms.reverse.find? fun m => b < m.length

@[simp] theorem lastAt_nil (b : ℕ) : lastAt ([] : List (List α)) b = none := rfl

/-- One more message is the last one if it reaches the offset. -/
theorem lastAt_snoc (ms : List (List α)) (m : List α) (b : ℕ) :
    lastAt (ms ++ [m]) b = if b < m.length then some m else lastAt ms b := by
  rw [lastAt, List.reverse_append, List.reverse_singleton, List.singleton_append, List.find?_cons]
  by_cases h : b < m.length
  · rw [if_pos h, decide_eq_true h]
  · rw [if_neg h, decide_eq_false h, lastAt]

/-- No message reaches an offset when all end before it. -/
theorem lastAt_eq_none_iff {ms : List (List α)} {b : ℕ} :
    lastAt ms b = none ↔ ∀ m ∈ ms, m.length ≤ b := by
  simp [lastAt]

/-- **What a slot holds** at an offset comes from the last message that reaches it, or was there at
first. -/
theorem getElem?_foldl_overwrite (block : List α) (ms : List (List α)) (b : ℕ) :
    (ms.foldl overwrite block)[b]? =
      match lastAt ms b with
      | some m => m[b]?
      | none => block[b]? := by
  induction ms using List.reverseRecOn with
  | nil => rfl
  | append_singleton ms m ih =>
    rw [List.foldl_append, List.foldl_cons, List.foldl_nil, getElem?_overwrite, lastAt_snoc]
    split
    · rfl
    · exact ih

/-! ## The slots of a ring -/

/-- The messages that went to slot `j`, if each goes to the slot after the one before it. -/
def users (n : ℕ) (ms : List (List α)) (j : ℕ) : List (List α) :=
  (ms.zipIdx.filter fun p => p.2 % n = j).map Prod.fst

@[simp] theorem users_nil (n j : ℕ) : users n ([] : List (List α)) j = [] := rfl

/-- One more message goes to one slot. -/
theorem users_snoc (n : ℕ) (ms : List (List α)) (m : List α) (j : ℕ) :
    users n (ms ++ [m]) j = users n ms j ++ if ms.length % n = j then [m] else [] := by
  rw [users, List.zipIdx_append, List.filter_append, List.map_append, users]
  congr 1
  rw [List.zipIdx_singleton, Nat.zero_add, List.filter_cons, List.filter_nil]
  by_cases h : ms.length % n = j
  · rw [if_pos h, if_pos (decide_eq_true h), List.map_singleton]
  · rw [if_neg h, if_neg (by simpa using h), List.map_nil]

/-- **The users of a message's slot**, until all other slots have been used, are the earlier ones and the
message. -/
theorem users_before {n : ℕ} (before : List (List α)) (m : List α) {after : List (List α)}
    (h : after.length < n) :
    users n (before ++ m :: after) (before.length % n) =
      users n before (before.length % n) ++ [m] := by
  induction after using List.reverseRecOn with
  | nil => rw [users_snoc, if_pos rfl]
  | append_singleton after m' ih =>
    rw [List.length_append, List.length_singleton] at h
    rw [← List.cons_append, ← List.append_assoc, users_snoc, ih (by omega), if_neg, List.append_nil]
    -- fewer than `n` messages later the ring is at another slot
    intro heq
    rw [List.length_append, List.length_cons] at heq
    have hmod := Nat.sub_mod_eq_zero_of_mod_eq heq
    rw [Nat.add_sub_cancel_left, Nat.mod_eq_of_lt (by omega)] at hmod
    exact Nat.succ_ne_zero _ hmod

end ReusedSlots
