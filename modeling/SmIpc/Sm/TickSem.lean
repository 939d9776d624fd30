import SmIpc.Sm.LockOrder

/-! # `sem_tick_id` is given back

Every call and every pass over the tick table takes `sem_tick_id` and gives it back, except
`sm_destroy_tick`, which ends with a second `sk_sem_lock`. The thread that runs its body waits for ever
for what it holds itself, and with it every later call and pass. -/

namespace SmIpc.Sm

/-- The instruction belongs to a call on the tick table, or to a pass over it. -/
def Instr.IsTick : Instr → Prop
  | .semWait .tickId | .semPost .tickId | .slot _ | .asked _ | .restart _ | .setXtick _ _ _ _
  | .destroyTick _ => True
  | _ => False

/-- A thread in a call on the tick table or in a pass over it: it has a part of it left to run. -/
def Worker.InTick (w : Worker) : Prop := ∃ j ∈ w.code, j.IsTick

/-- Code that is run with `sem_tick_id` held has a part of a call or a pass left. -/
theorem Ok.exists_isTick {held : List Sem} {k : List Instr} (h : Ok held k)
    (hheld : .tickId ∈ held) : ∃ j ∈ k, j.IsTick := by
  induction k generalizing held with
  | nil =>
    obtain rfl : held = [] := h
    cases hheld
  | cons j k ih =>
    by_cases hj : j.IsTick
    · exact ⟨j, List.mem_cons_self, hj⟩
    · have hrest : ∃ held', .tickId ∈ held' ∧ Ok held' k := by
        cases j with
        | semWait x => exact ⟨x :: held, List.mem_cons_of_mem _ hheld, h.2⟩
        | semPost x =>
          obtain ⟨rest, rfl, hk⟩ := h
          refine ⟨rest, ?_, hk⟩
          rcases List.mem_cons.mp hheld with rfl | hmem
          · exact absurd trivial hj
          · exact hmem
        | destroyTick htick => exact absurd trivial hj
        | _ => exact ⟨held, hheld, h.2⟩
      obtain ⟨held', hheld', hk⟩ := hrest
      obtain ⟨j', hj', htick⟩ := ih hk hheld'
      exact ⟨j', List.mem_cons_of_mem _ hj', htick⟩

namespace Locks

variable {s t : Locks}

/-- With no call on the tick table and no pass over it in progress `sem_tick_id` is 1, and no thread is
about to take it, or waits for it, that already holds it. -/
def TickRestored (s : Locks) : Prop :=
  ((∀ w ∈ s.threads, ¬ w.InTick) → s.value .tickId = 1) ∧
  ∀ w ∈ s.threads, w.waits = some .tickId → .tickId ∉ w.held

/-- A thread whose code takes the semaphores in order does not wait for `sem_tick_id` with anything
held. -/
theorem not_mem_of_waits {w : Worker} (hord : w.Ordered) (hwaits : w.waits = some .tickId) :
    .tickId ∉ w.held := by
  rw [Worker.waits] at hwaits
  split at hwaits
  · rename_i x k hcode
    obtain rfl := Option.some.inj hwaits
    rw [Worker.Ordered, hcode] at hord
    intro hmem
    exact absurd (hord.1 .tickId hmem) (Nat.lt_irrefl _)
  · cases hwaits

/-- Ordered threads give `sem_tick_id` back. -/
theorem Inv.tickRestored (h : s.Inv) (hord : ∀ w ∈ s.threads, w.Ordered) : s.TickRestored := by
  constructor
  · intro hquiet
    have hzero : s.held .tickId = 0 := by
      refine Semaphores.holders_eq_zero ?_
      intro w hw hmem
      exact hquiet w hw (Ok.exists_isTick (hord w hw) hmem)
    have hsum := h.conserved .tickId
    omega
  · intro w hw hwaits
    exact not_mem_of_waits (hord w hw) hwaits

/-- **The body of `sm_destroy_tick` leaves its thread stuck.** -/
theorem Inv.stuck_of_destroys (h : s.Inv) {i : LockStep} (hi : s.Destroys i) {o : Unit}
    (hs : Locks.step s i = some (o, t)) : ∃ w ∈ t.threads, w.Stuck := by
  obtain ⟨w, htick, k, hw, hcode⟩ := hi
  obtain ⟨w', hw', hcases⟩ := step_cases hs
  obtain rfl := Option.some.inj (hw.symm.trans hw')
  rcases hcases with ⟨x, k', hcode', -⟩ | ⟨x, k', hcode', -⟩ |
    ⟨j, k', p, sh, r, hcode', hu, -, rfl⟩
  · simp [hcode] at hcode'
  · simp [hcode] at hcode'
  · obtain ⟨rfl, rfl⟩ := List.cons.inj (hcode.symm.trans hcode')
    rcases h.code w (List.mem_of_getElem? hw) with hok | ⟨-, k'', hk''⟩
    · rw [Worker.Ordered, hcode] at hok
      obtain ⟨hheld, k', rfl⟩ := hok
      cases hu
      have hlt : i.tid < s.threads.length := (List.getElem?_eq_some_iff.mp hw).1
      exact ⟨_, List.mem_iff_getElem?.mpr ⟨i.tid, List.getElem?_set_self hlt⟩, hheld, k', rfl⟩
    · simp [hcode] at hk''

/-- **A stuck thread never takes another step**: no run of the others gives it the semaphore. -/
theorem Inv.stuck_forever (h : s.Inv) {tid : ℕ} {w : Worker} (hw : s.threads[tid]? = some w)
    (hstuck : w.Stuck) {i : LockStep} (hi : i.tid = tid) : Locks.step s i = none := by
  by_contra hsome
  obtain ⟨⟨o, t⟩, hs⟩ := Option.ne_none_iff_exists'.mp hsome
  obtain ⟨w', hw', hcases⟩ := step_cases hs
  rw [hi, hw] at hw'
  obtain rfl := Option.some.inj hw'
  obtain ⟨-, k, hcode⟩ := id hstuck
  rcases hcases with ⟨x, k', hcode', hpos, -⟩ | ⟨x, k', hcode', -⟩ |
    ⟨j, k', p, sh, r, hcode', hu, -, -⟩
  · obtain ⟨hx, -⟩ := List.cons.inj (hcode.symm.trans hcode')
    obtain rfl : Sem.tickId = x := by injection hx
    have := h.value_of_stuck (List.mem_of_getElem? hw) hstuck
    omega
  · simp [hcode] at hcode'
  · obtain ⟨rfl, -⟩ := List.cons.inj (hcode.symm.trans hcode')
    cases hu with
    | done _ hwait _ => exact absurd rfl (hwait .tickId)

end Locks

/-- **`sem_tick_id` is given back as long as the body of `sm_destroy_tick` is not run, and no longer.** In
every interleaving of any number of threads: in every state reached, `sem_tick_id` is 1 when no call or
pass is in progress and no thread waits for it that holds it, exactly when no step runs the body of
`sm_destroy_tick`. And a thread that is in its second `sk_sem_lock` never takes another step. -/
theorem tickSem_restored (nqueue : ℕ) (hsize : nqueue ≤ 32766) (mem : ℤ → Message) (n : ℕ)
    (steps : List LockStep) (os : List Unit) (s : Locks)
    (hrun : StepMachine.run Locks.step (Locks.init nqueue mem n) steps = some (os, s)) :
    (StepMachine.Throughout Locks.step Locks.TickRestored (Locks.init nqueue mem n) steps ↔
      StepMachine.Along Locks.step (fun s i => ¬ s.Destroys i) (Locks.init nqueue mem n) steps) ∧
    ∀ tid w, s.threads[tid]? = some w → w.Stuck → ∀ i : LockStep, i.tid = tid →
      Locks.step s i = none := by
  have hcalm := Locks.Calm.init hsize mem n
  constructor
  · refine StepMachine.throughout_iff_along_of Locks.step (fun s i => ¬ s.Destroys i)
      (fun s => s.Inv ∧ ∀ w ∈ s.threads, w.Ordered) Locks.TickRestored ⟨hcalm.inv, hcalm.ordered⟩
      (fun _ h => h.1.tickRestored h.2) ?_ hrun
    rintro s i o t ⟨hinv, hord⟩ hs
    obtain ⟨hinv', hord'⟩ := hinv.step hs
    refine ⟨fun hi => ⟨hinv', hord' hi hord⟩, fun hi hrest => ?_⟩
    -- the thread that has run the body waits for what it holds
    obtain ⟨w, hw, hheld, k, hcode⟩ := hinv.stuck_of_destroys (not_not.mp hi) hs
    refine hrest.2 w hw ?_ ?_
    · rw [Worker.waits, hcode]
    · rw [hheld]
      exact List.mem_singleton_self _
  · have hinv : s.Inv := StepMachine.run_induction Locks.step (fun _ _ s => s.Inv) hcalm.inv
      (fun _ _ _ _ _ _ _ h hs => (h.step hs).1) hrun
    intro tid w hw hstuck i hi
    exact hinv.stuck_forever hw hstuck hi

/-- A client sets a tick and is done with it. -/
theorem tickSem_restored_setXtick :
    StepMachine.Throughout Locks.step Locks.TickRestored (Locks.init 8 (fun _ => ⟨0, 0, 0, 0⟩) 1)
      [.call 2 (.smCreateTick 7 500), .go 2 ⟨none, []⟩, .go 2 ⟨none, []⟩, .go 2 ⟨none, []⟩] := by
  refine (tickSem_restored 8 (by decide) (fun _ => ⟨0, 0, 0, 0⟩) 1 _ _ _ rfl).1.mpr ?_
  -- none of the four instructions is the body of `sm_destroy_tick`
  refine StepMachine.along_cons ?_ rfl (StepMachine.along_cons ?_ rfl
    (StepMachine.along_cons ?_ rfl (StepMachine.along_cons ?_ rfl trivial)))
  all_goals
    rintro ⟨w, htick, k, hw, hcode⟩
    obtain rfl := Option.some.inj hw
    cases hcode

/-- A client destroys a tick, and another one wants to set one: the first waits for the semaphore it
holds, and neither takes another step. -/
theorem tickSem_lost_destroy : ∃ os s w,
    StepMachine.run Locks.step (Locks.init 8 (fun _ => ⟨0, 0, 0, 0⟩) 2)
      [.call 2 (.smDestroyTick 1), .go 2 ⟨none, []⟩, .go 2 ⟨none, []⟩, .call 3 (.smCreateTick 7 500)] =
        some (os, s) ∧
    s.threads[2]? = some w ∧ w.waits = some .tickId ∧ .tickId ∈ w.held ∧
    Locks.step s (.go 2 ⟨none, []⟩) = none ∧ Locks.step s (.go 3 ⟨none, []⟩) = none :=
  ⟨_, _, _, rfl, rfl, rfl, List.mem_cons_self, rfl, rfl⟩

end SmIpc.Sm
