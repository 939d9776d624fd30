import Mathlib.Data.Nat.ModEq

/-! # Dividers

A counter that is looked at once a round, fires when it has reached a period, and counts: it starts at 0,
is tested before it is incremented, and a firing puts it back to 0 before the increment of the same
round. So its first interval is one round longer than the others.

* **`next`** is one round, and **`count`** what the counter holds after any number of them (`next_count`).
* **`fires_iff`** — round `v + 1` fires exactly when `v` is a positive multiple of the period.
* **`firings`** lists the rounds that fire; `firings_succ` is its recursion. -/

namespace Divider

variable {period v : ℕ}

/-- The counter after a round that finds it at `c`. -/
def next (period c : ℕ) : ℕ := if period ≤ c then 1 else c + 1

/-- What the counter holds after `v` rounds. -/
def count (period : ℕ) : ℕ → ℕ
  | 0 => 0
  | v + 1 => v % period + 1

@[simp] theorem count_zero (period : ℕ) : count period 0 = 0 := rfl

/-- The counter never passes the period. -/
theorem count_le (hp : 0 < period) (v : ℕ) : count period v ≤ period := by
  cases v with
  | zero => exact Nat.zero_le _
  | succ v => exact Nat.mod_lt v hp

/-- **A round fires** exactly when the rounds before it are a positive multiple of the period. -/
theorem fires_iff (hp : 0 < period) : period ≤ count period v ↔ 0 < v ∧ period ∣ v := by
  cases v with
  | zero =>
    rw [count_zero]
    omega
  | succ v =>
    have hlt := Nat.mod_lt v hp
    -- the counter is the period exactly where the remainder is about to wrap
    have hsucc : (v + 1) % period = (v % period + 1) % period := (Nat.mod_add_mod v period 1).symm
    rw [Nat.dvd_iff_mod_eq_zero, hsucc, count]
    constructor
    · intro hle
      rw [show v % period + 1 = period by omega, Nat.mod_self]
      exact ⟨Nat.succ_pos v, rfl⟩
    · rintro ⟨-, hzero⟩
      by_contra hgt
      rw [Nat.mod_eq_of_lt (by omega)] at hzero
      omega

/-- Where a round fires, the counter is at the period. -/
theorem count_of_fires (hp : 0 < period) (h : period ≤ count period v) :
    count period v = period :=
  Nat.le_antisymm (count_le hp v) h

/-- A round moves the counter on. -/
theorem next_count (hp : 0 < period) (v : ℕ) : next period (count period v) = count period (v + 1) := by
  rw [next]
  split
  · rename_i h
    obtain ⟨-, k, rfl⟩ := (fires_iff hp).mp h
    rw [count, Nat.mul_mod_right]
  · rename_i h
    cases v with
    | zero => rw [count_zero, count, Nat.zero_mod]
    | succ v =>
      rw [count] at h
      have hsucc : (v + 1) % period = (v % period + 1) % period :=
        (Nat.mod_add_mod v period 1).symm
      rw [count, count, hsucc, Nat.mod_eq_of_lt (show v % period + 1 < period by omega)]

/-- The rounds up to round `v` that fire, counted from 1: those numbered `1 + m * period` for a positive
`m`. -/
def firings (period v : ℕ) : List ℕ := (List.range ((v - 1) / period)).map fun m => 1 + (m + 1) * period

@[simp] theorem firings_zero (period : ℕ) : firings period 0 = [] := by
  rw [firings, Nat.zero_sub, Nat.zero_div]
  rfl

/-- The rounds that fire, with one round more. -/
theorem firings_succ (hp : 0 < period) (v : ℕ) :
    firings period (v + 1) =
      if period ≤ count period v then firings period v ++ [v + 1] else firings period v := by
  simp only [fires_iff hp]
  cases v with
  | zero =>
    rw [if_neg (by omega)]
    simp [firings]
  | succ v =>
    simp only [firings, Nat.add_sub_cancel, Nat.succ_div]
    by_cases hdvd : period ∣ v + 1
    · obtain ⟨k, hk⟩ := id hdvd
      have hkpos : 0 < k := Nat.pos_of_ne_zero fun h0 => by simp [h0] at hk
      have hdiv : v / period = k - 1 := by
        have hsd := Nat.succ_div (a := v) (b := period)
        rw [if_pos hdvd, hk, Nat.mul_div_cancel_left k hp] at hsd
        omega
      rw [if_pos hdvd, if_pos ⟨Nat.succ_pos v, hdvd⟩, List.range_succ, List.map_append, hdiv,
        List.map_singleton, Nat.sub_add_cancel hkpos, Nat.mul_comm k, ← hk]
      congr 2
      omega
    · rw [if_neg hdvd, if_neg fun h => hdvd h.2]
      rfl

end Divider
