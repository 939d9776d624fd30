import Mathlib.Algebra.Order.BigOperators.Group.List
import Mathlib.Algebra.Order.Ring.Nat
import Mathlib.Data.List.Basic
import SmIpc.Lib.ThreadPool

/-! # Semaphores held by threads

Threads of a pool hold semaphores, possibly one more than once, and wait for others.

* **`holders`** — how often a semaphore is held in a pool; `holders_set` says how one thread that moves
  changes it.
* **`exists_unblocked`** — deadlock freedom from a global order: if every semaphore that is not free is held,
  and a thread waits only for semaphores above all it holds, then whenever a thread holds or waits for
  one, some thread that does is not blocked. -/

namespace Semaphores

variable {S T : Type*} [DecidableEq S] {held : T → List S} {threads : List T}

/-- How often the semaphore is held by the threads together. -/
def holders (held : T → List S) (threads : List T) (s : S) : ℕ :=
  (threads.map fun t => (held t).count s).sum

/-- The semaphore is held as often as it occurs in what the threads hold. -/
theorem holders_eq_count (held : T → List S) (threads : List T) (s : S) :
    holders held threads s = (threads.flatMap held).count s :=
  List.count_flatMap.symm

/-- One thread moves. -/
theorem holders_set (held : T → List S) {i : ℕ} {t : T} (h : threads[i]? = some t) (t' : T) (s : S) :
    holders held (threads.set i t') s + (held t).count s =
      holders held threads s + (held t').count s := by
  rw [holders_eq_count, holders_eq_count, ((ThreadPool.perm_set h t').flatMap_right held).count_eq,
    ((ThreadPool.perm_get h).flatMap_right held).count_eq, List.flatMap_cons, List.flatMap_cons,
    List.count_append, List.count_append]
  omega

/-- A semaphore that is held is held by a thread. -/
theorem exists_holder {s : S} (h : 0 < holders held threads s) : ∃ t ∈ threads, s ∈ held t := by
  rw [holders_eq_count] at h
  exact List.mem_flatMap.mp (List.count_pos_iff.mp h)

/-- A thread holds a semaphore no more often than all together do. -/
theorem count_le_holders (held : T → List S) {t : T} (h : t ∈ threads) (s : S) :
    (held t).count s ≤ holders held threads s :=
  List.single_le_sum (fun _ _ => Nat.zero_le _) _ (List.mem_map_of_mem h)

/-- A semaphore held once by all together is held by one thread. -/
theorem eq_of_holders_le_one {s : S} (h : holders held threads s ≤ 1) {i j : ℕ} {t u : T}
    (hi : threads[i]? = some t) (hj : threads[j]? = some u) (ht : s ∈ held t) (hu : s ∈ held u) :
    i = j := by
  induction threads generalizing i j with
  | nil => cases hi
  | cons x threads ih =>
    simp only [holders, List.map_cons, List.sum_cons] at h
    have hcount : ∀ {k : ℕ} {v : T}, threads[k]? = some v → s ∈ held v →
        0 < holders held threads s := fun hk hv =>
      lt_of_lt_of_le (List.count_pos_iff.mpr hv) (count_le_holders held (List.mem_of_getElem? hk) s)
    cases i with
    | zero =>
      cases j with
      | zero => rfl
      | succ j =>
        obtain rfl : x = t := Option.some.inj hi
        have := List.count_pos_iff.mpr ht
        have := hcount hj hu
        simp only [holders] at this
        omega
    | succ i =>
      cases j with
      | zero =>
        obtain rfl : x = u := Option.some.inj hj
        have := List.count_pos_iff.mpr hu
        have := hcount hi ht
        simp only [holders] at this
        omega
      | succ j =>
        have := ih (by simp only [holders]; omega) hi hj
        omega

/-- A semaphore nobody holds. -/
theorem holders_eq_zero {s : S} (h : ∀ t ∈ threads, s ∉ held t) : holders held threads s = 0 := by
  by_contra hpos
  obtain ⟨t, ht, hs⟩ := exists_holder (Nat.pos_of_ne_zero hpos)
  exact h t ht hs

omit [DecidableEq S] in
/-- **No deadlock under a global order.** -/
theorem exists_unblocked (waits : T → Option S) (rank : S → ℕ) (bound : ℕ) (free : S → Prop)
    (hbound : ∀ s, rank s < bound) (hheld : ∀ s, ¬ free s → ∃ t ∈ threads, s ∈ held t)
    (horder : ∀ t ∈ threads, ∀ s, waits t = some s → ∀ r ∈ held t, rank r < rank s)
    {t : T} (ht : t ∈ threads) (hinvolved : held t ≠ [] ∨ (waits t).isSome) :
    ∃ t' ∈ threads, (held t' ≠ [] ∨ (waits t').isSome) ∧ ∀ s, waits t' = some s → free s := by
  -- the waited-for semaphores rise along the chain of holders, and the order is bounded
  have hchain : ∀ n : ℕ, ∀ t ∈ threads, (held t ≠ [] ∨ (waits t).isSome) →
      (∀ s, waits t = some s → bound - rank s ≤ n) →
      ∃ t' ∈ threads, (held t' ≠ [] ∨ (waits t').isSome) ∧ ∀ s, waits t' = some s → free s := by
    intro n
    induction n with
    | zero =>
      intro t ht hinv hn
      refine ⟨t, ht, hinv, ?_⟩
      intro s hs
      have := hn s hs
      have := hbound s
      omega
    | succ n ih =>
      intro t ht hinv hn
      by_cases hblocked : ∃ s, waits t = some s ∧ ¬ free s
      · obtain ⟨s, hs, hnot⟩ := hblocked
        obtain ⟨t', ht', hst'⟩ := hheld s hnot
        refine ih t' ht' (.inl (List.ne_nil_of_mem hst')) ?_
        intro s' hs'
        have := horder t' ht' s' hs' s hst'
        have := hn s hs
        have := hbound s'
        omega
      · refine ⟨t, ht, hinv, ?_⟩
        intro s hs
        by_contra hnot
        exact hblocked ⟨s, hs, hnot⟩
  exact hchain bound t ht hinvolved fun s _ => Nat.sub_le _ _

end Semaphores
