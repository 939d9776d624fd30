import Mathlib.Data.List.Basic
import Mathlib.Logic.Function.Basic

/-! # Circular buffers

Cursor arithmetic for a ring of `n` slots that keeps one slot spare, and the list of entries between
the read cursor and the write cursor:

* **`slot n head i`** — the `i`-th slot from `head`, wrapping once; **`next n i`** — the slot after.
* **`count n head tail`** — how many entries the cursors delimit (`head = tail` means none).
* **`view buf n head len`** — the `len` entries from `head`, oldest first, with the lemmas that
  advance either cursor: `view_push` (write at the tail), `view_pop` (read at the head), and
  `view_map` (change every slot in place). -/

namespace CircularBuffer

variable {α β : Type*}

/-! ## Cursors -/

/-- The `i`-th slot from `head`, in a ring of `n` slots. -/
def slot (n head i : ℕ) : ℕ := if head + i < n then head + i else head + i - n

/-- The slot after `i`: advance and wrap at the end. -/
def next (n i : ℕ) : ℕ := if i + 1 = n then 0 else i + 1

/-- The number of entries between the read cursor and the write cursor. -/
def count (n head tail : ℕ) : ℕ := if head ≤ tail then tail - head else n + tail - head

@[simp] theorem slot_zero {n head : ℕ} (h : head < n) : slot n head 0 = head := by
  simp [slot, h]

theorem slot_lt {n head i : ℕ} (hh : head < n) (hi : i < n) : slot n head i < n := by
  unfold slot; split <;> omega

theorem next_lt {n i : ℕ} (h : i < n) : next n i < n := by
  unfold next; split <;> omega

/-- The slot after the one a number leads to is the one its successor leads to. -/
theorem next_mod {n : ℕ} (hn : 0 < n) (a : ℕ) : next n (a % n) = (a + 1) % n := by
  have hlt := Nat.mod_lt a hn
  rw [next, ← Nat.mod_add_mod a n 1]
  split
  · rename_i hwrap
    rw [hwrap, Nat.mod_self]
  · exact (Nat.mod_eq_of_lt (by omega)).symm

/-- Slots at different distances below `n` are different. -/
theorem slot_ne {n head i j : ℕ} (hi : i < n) (hj : j < n) (hij : i ≠ j) :
    slot n head i ≠ slot n head j := by
  unfold slot; split <;> split <;> omega

/-- Advancing the head shifts every distance by one. -/
theorem slot_next {n head i : ℕ} (hi : i + 1 < n) :
    slot n (next n head) i = slot n head (i + 1) := by
  unfold slot next; split <;> split <;> split <;> omega

theorem count_lt {n head tail : ℕ} (hh : head < n) (ht : tail < n) : count n head tail < n := by
  unfold count; split <;> omega

@[simp] theorem count_self (n i : ℕ) : count n i i = 0 := by simp [count]

/-- The cursors delimit no entry exactly when they are equal. -/
theorem count_eq_zero_iff {n head tail : ℕ} (hh : head < n) :
    count n head tail = 0 ↔ head = tail := by
  unfold count; split <;> omega

/-- The write cursor is the slot just past the last entry. -/
theorem slot_count {n head tail : ℕ} (hh : head < n) (ht : tail < n) :
    slot n head (count n head tail) = tail := by
  unfold slot count; split <;> split <;> omega

/-- Advancing the write cursor of a ring that is not full adds an entry. -/
theorem count_next_tail {n head tail : ℕ} (hh : head < n) (ht : tail < n)
    (hroom : count n head tail + 1 < n) :
    count n head (next n tail) = count n head tail + 1 := by
  unfold count next at *; split at hroom <;> split <;> split <;> omega

/-- Advancing the read cursor of a ring that is not empty removes an entry. -/
theorem count_next_head {n head tail : ℕ} (hh : head < n) (ht : tail < n) (hne : head ≠ tail) :
    count n (next n head) tail + 1 = count n head tail := by
  unfold count next; split <;> split <;> split <;> omega

/-! ## Entries -/

/-- The `len` entries of the ring from slot `head` on, oldest first. -/
def view (buf : ℕ → α) (n head len : ℕ) : List α :=
  (List.range len).map fun i => buf (slot n head i)

@[simp] theorem length_view (buf : ℕ → α) (n head len : ℕ) :
    (view buf n head len).length = len := by simp [view]

@[simp] theorem view_zero (buf : ℕ → α) (n head : ℕ) : view buf n head 0 = [] := rfl

/-- One more entry at the tail. -/
theorem view_succ (buf : ℕ → α) (n head len : ℕ) :
    view buf n head (len + 1) = view buf n head len ++ [buf (slot n head len)] := by
  simp [view, List.range_succ]

/-- The oldest entry is the one at the head, and the rest is the ring with its head advanced. -/
theorem view_cons (buf : ℕ → α) {n head len : ℕ} (hh : head < n) (hlen : len < n) :
    view buf n head (len + 1) = buf head :: view buf n (next n head) len := by
  simp only [view, List.range_succ_eq_map, List.map_cons, List.map_map, slot_zero hh]
  congr 1
  refine List.map_congr_left ?_
  intro i hi
  have hi' : i < len := List.mem_range.mp hi
  simp only [Function.comp_apply, Nat.succ_eq_add_one]
  rw [slot_next (by omega)]

/-- Two rings that agree on the slots of the view have the same view. -/
theorem view_congr {buf buf' : ℕ → α} {n head len : ℕ}
    (h : ∀ i < len, buf (slot n head i) = buf' (slot n head i)) :
    view buf n head len = view buf' n head len :=
  List.map_congr_left fun i hi => h i (List.mem_range.mp hi)

/-- A write to the spare slot, just past the last entry, is not seen in the view. -/
theorem view_update_of_spare (buf : ℕ → α) {n len : ℕ} (head : ℕ) (x : α) (hlen : len < n) :
    view (Function.update buf (slot n head len) x) n head len = view buf n head len := by
  refine view_congr ?_
  intro i hi
  rw [Function.update_of_ne (slot_ne (by omega) hlen (by omega))]

/-- **Push.** Writing at the write cursor of a ring that is not full, and advancing it, appends. -/
theorem view_push (buf : ℕ → α) {n head tail : ℕ} (x : α) (hh : head < n) (ht : tail < n)
    (hroom : count n head tail + 1 < n) :
    view (Function.update buf tail x) n head (count n head (next n tail)) =
      view buf n head (count n head tail) ++ [x] := by
  -- the entry is written to the spare slot, so the old entries are as they were
  have hspare : slot n head (count n head tail) = tail := slot_count hh ht
  have hold := view_update_of_spare buf head x (show count n head tail < n by omega)
  rw [hspare] at hold
  rw [count_next_tail hh ht hroom, view_succ, hold, hspare, Function.update_self]

/-- **Pop.** A ring that is not empty starts with the entry at the read cursor; advancing the cursor
leaves the rest. -/
theorem view_pop (buf : ℕ → α) {n head tail : ℕ} (hh : head < n) (ht : tail < n)
    (hne : head ≠ tail) :
    view buf n head (count n head tail) =
      buf head :: view buf n (next n head) (count n (next n head) tail) := by
  have hlt : count n (next n head) tail < n := count_lt (next_lt hh) ht
  rw [← count_next_head hh ht hne, view_cons buf hh hlt]

/-- Changing every slot of the ring by `f` changes every entry by `f`. -/
theorem view_map {buf : ℕ → α} {buf' : ℕ → β} {n head len : ℕ} (f : α → β) (hh : head < n)
    (hlen : len < n) (h : ∀ j < n, buf' j = f (buf j)) :
    view buf' n head len = (view buf n head len).map f := by
  simp only [view, List.map_map]
  refine List.map_congr_left ?_
  intro i hi
  have hi' : i < len := List.mem_range.mp hi
  exact h _ (slot_lt hh (by omega))

/-- An entry of the view is the contents of one of its slots. -/
theorem mem_view {buf : ℕ → α} {n head len : ℕ} {x : α} :
    x ∈ view buf n head len ↔ ∃ i < len, buf (slot n head i) = x := by
  simp [view]

end CircularBuffer
