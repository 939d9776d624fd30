import Mathlib.Data.List.Perm.Basic

/-! # Pools of threads

A pool of threads is the list of their local states; a step of thread `i` replaces the `i`-th one.
The facts invariants over a pool need: what holds of every thread is kept when the moved thread
meets it again (`forall_mem_set`), and the number of threads of a kind, or in a given local state,
changes only by the moved thread (`countP_set`, `count_set`). Both come from the reading of a pool as the
moved thread and the others (`perm_get`, `perm_set`). What a step does not change of its thread, it does not
change of the pool (`map_set_of_eq`, `map_modify_of_eq`). -/

namespace ThreadPool

variable {α : Type*}

/-- A property of every thread is kept by a step that leaves the moved thread with it. -/
theorem forall_mem_set {P : α → Prop} {l : List α} (h : ∀ x ∈ l, P x) (i : ℕ) {b : α} (hb : P b) :
    ∀ x ∈ l.set i b, P x := by
  intro x hx
  rcases List.mem_or_eq_of_mem_set hx with hx | rfl
  · exact h x hx
  · exact hb

/-- The state of a thread is one of the pool's states. -/
theorem mem_of_get {l : List α} {i : ℕ} {a : α} (h : l[i]? = some a) : a ∈ l :=
  List.mem_of_getElem? h

/-- A pool is thread `i` and the other threads. -/
theorem perm_get {l : List α} {i : ℕ} {a : α} (h : l[i]? = some a) : l.Perm (a :: l.eraseIdx i) := by
  obtain ⟨hi, rfl⟩ := List.getElem?_eq_some_iff.mp h
  exact (List.getElem_cons_eraseIdx_perm hi).symm

/-- After a step of thread `i` the pool is this thread's new state and the other threads. -/
theorem perm_set {l : List α} {i : ℕ} {a : α} (h : l[i]? = some a) (b : α) :
    (l.set i b).Perm (b :: l.eraseIdx i) :=
  List.set_perm_cons_eraseIdx (List.getElem?_eq_some_iff.mp h).1 b

/-- What the threads have together is what thread `i` has and what the others have. -/
theorem flatMap_get {β : Type*} (f : α → List β) {l : List α} {i : ℕ} {a : α} (h : l[i]? = some a) :
    (l.flatMap f).Perm (f a ++ (l.eraseIdx i).flatMap f) :=
  (perm_get h).flatMap_right f

/-- What the threads have together after a step of thread `i` that adds the threads `new`. -/
theorem flatMap_set {β : Type*} (f : α → List β) {l : List α} {i : ℕ} {a : α} (h : l[i]? = some a)
    (b : α) (new : List α) :
    ((l.set i b ++ new).flatMap f).Perm (new.flatMap f ++ (f b ++ (l.eraseIdx i).flatMap f)) := by
  rw [List.flatMap_append]
  exact List.perm_append_comm.trans (List.Perm.append_left _ ((perm_set h b).flatMap_right f))

/-- When thread `i` moves from `a` to `b`, the number of threads of a kind loses the one and gains the
other. -/
theorem countP_set (p : α → Bool) {l : List α} {i : ℕ} {a : α} (h : l[i]? = some a) (b : α) :
    (l.set i b).countP p + (if p a then 1 else 0) = l.countP p + (if p b then 1 else 0) := by
  rw [(perm_set h b).countP_eq, (perm_get h).countP_eq, List.countP_cons, List.countP_cons]
  omega

/-- When thread `i` moves from `a` to `b`, the number of threads in state `c` loses the one and gains
the other. -/
theorem count_set [DecidableEq α] {l : List α} {i : ℕ} {a : α} (h : l[i]? = some a) (b c : α) :
    (l.set i b).count c + (if a = c then 1 else 0) = l.count c + (if b = c then 1 else 0) := by
  simpa only [List.count, beq_iff_eq] using countP_set (· == c) h b

/-- A view of the threads that the moved thread's step does not change. -/
theorem map_set_of_eq {β : Type*} (f : α → β) {l : List α} {i : ℕ} {a b : α} (h : l[i]? = some a)
    (hf : f b = f a) : (l.set i b).map f = l.map f := by
  have hi : i < l.length := (List.getElem?_eq_some_iff.mp h).1
  refine List.ext_getElem? fun j => ?_
  rw [List.getElem?_map, List.getElem?_map]
  by_cases hij : i = j
  · subst hij
    rw [List.getElem?_set_self hi, h]
    exact congrArg some hf
  · rw [List.getElem?_set_ne hij]

theorem map_modify_of_eq {β : Type*} (f : α → β) {g : α → α} (hf : ∀ a, f (g a) = f a) (l : List α)
    (i : ℕ) : (l.modify i g).map f = l.map f := by
  refine List.ext_getElem? fun j => ?_
  rw [List.getElem?_map, List.getElem?_modify, List.getElem?_map]
  cases l[j]? with
  | none => rfl
  | some a =>
    split
    · exact congrArg some (hf a)
    · rfl

/-- Every thread of the second pool is related to the one in its place in the first. -/
def Pointwise (R : α → α → Prop) (l l' : List α) : Prop :=
  ∀ (j : ℕ) (b : α), l'[j]? = some b → ∃ a, l[j]? = some a ∧ R a b

section Pointwise

variable {R S : α → α → Prop} {l l' : List α}

theorem pointwise_refl (hR : ∀ a, R a a) (l : List α) : Pointwise R l l :=
  fun _ b hb => ⟨b, hb, hR b⟩

/-- One thread has moved. -/
theorem pointwise_set (hR : ∀ a, R a a) {i : ℕ} {a b : α} (h : l[i]? = some a) (hab : R a b) :
    Pointwise R l (l.set i b) := by
  intro j c hc
  by_cases hij : i = j
  · subst hij
    rw [List.getElem?_set_self (List.getElem?_eq_some_iff.mp h).1] at hc
    obtain rfl := Option.some.inj hc
    exact ⟨a, h, hab⟩
  · rw [List.getElem?_set_ne hij] at hc
    exact ⟨c, hc, hR c⟩

/-- All threads have moved alike. -/
theorem pointwise_map {f : α → α} (hf : ∀ a, R a (f a)) (l : List α) : Pointwise R l (l.map f) := by
  intro j b hb
  rw [List.getElem?_map] at hb
  obtain ⟨a, ha, rfl⟩ := Option.map_eq_some_iff.mp hb
  exact ⟨a, ha, hf a⟩

theorem Pointwise.mono (h : Pointwise R l l') (hRS : ∀ a b, R a b → S a b) : Pointwise S l l' := by
  intro j b hb
  obtain ⟨a, ha, hab⟩ := h j b hb
  exact ⟨a, ha, hRS a b hab⟩

theorem Pointwise.exists_mem (h : Pointwise R l l') {b : α} (hb : b ∈ l') : ∃ a ∈ l, R a b := by
  obtain ⟨j, hj⟩ := List.mem_iff_getElem?.mp hb
  obtain ⟨a, ha, hab⟩ := h j b hj
  exact ⟨a, List.mem_of_getElem? ha, hab⟩

end Pointwise

end ThreadPool
