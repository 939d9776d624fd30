import SmIpc.Os.TickTask

/-! # The wait of the tick task

While a ticker runs, the task must not sleep for ever: either a post of `gfTickCallbackSem` is pending, or
its wait has a deadline. `sk_sem_lock_timeout` waits with `sem_wait` whatever the time-out, so only the
posts wake the task.

* `TickSys.Covered` — a wait of the task while a ticker runs is covered by a post, or by a deadline no
  later than the last pass asked for.
* `TickSys.LockCovered` is the condition on a step: a wait begins with an infinite `uTimeout`, with
  a post pending, or while no ticker runs.
* `TickSys.Watched` is the invariant: an infinite `uTimeout` means that no ticker runs, or that the start
  of one was posted.
* `waits_covered` — in every run, every state is covered exactly when every step meets the condition. It
  does not after one start and one pass (`periodic_ticker_stalls`). -/

namespace SmIpc.Os

/-- A ticker of the table runs, with a finite time to go. -/
def KalTickers.Running (tickers : KalTickers) : Prop :=
  ∃ i < maxTicksNum, (tickers i).IsStarted ∧ (tickers i).uTimeRemaining < skTimeoutInfinity

instance (tickers : KalTickers) : Decidable tickers.Running :=
  inferInstanceAs (Decidable (∃ i < maxTicksNum, _))

/-- What a section leaves running ran before it, unless the section started a ticker. -/
theorem running_section {tickers : KalTickers} {pc : TickPc} {call : TickCall} {r : SectionEnd}
    (h : call.section tickers pc = some r) (hrun : r.tickers.Running) :
    r.started.isSome ∨ tickers.Running := by
  obtain ⟨i, hi, hstarted, hremaining⟩ := hrun
  rcases section_started h i hstarted with ⟨hstarts, -⟩ | ⟨-, hwas, -, hsame⟩
  · left
    rw [hstarts]
    rfl
  · exact .inr ⟨i, hi, hwas, hsame ▸ hremaining⟩

namespace TickSys

/-- **What should hold of every state**: a wait of the task while a ticker runs is covered by a pending
post, or by a deadline no later than `uTimeout` milliseconds after the wait began. -/
def Covered (s : TickSys) : Prop :=
  match s.pc with
  | .waiting call begun =>
      s.tickers.Running → 0 < s.callbackSem ∨
        ∃ absTimeout, call = .semTimedwait absTimeout ∧
          absTimeout.nanoseconds ≤ 1000 * begun + 1000000 * s.uTimeout
  | _ => True

/-- **The condition on a step**: a wait begins with an infinite `uTimeout`, with a post pending, or
while no ticker runs. -/
def LockCovered (s : TickSys) : TickStep → Prop
  | .lock => s.uTimeout = skTimeoutInfinity ∨ 0 < s.callbackSem ∨ ¬ s.tickers.Running
  | _ => True

/-- What the task knows of the tickers, by where it stands. -/
def Watched (s : TickSys) : Prop :=
  match s.pc with
  | .top | .locking =>
      s.uTimeout = skTimeoutInfinity → s.tickers.Running → 0 < s.callbackSem
  | .waiting call _ => call = .semWait
  | .woken status => status = .success ∨ status = .errorTimeout
  | .ready => True
  | .handling i _ shortest _ =>
      ∀ j < i, (s.tickers j).IsStarted → shortest ≤ (s.tickers j).uTimeRemaining

variable {w : ℕ} {s t : TickSys} {i : TickStep} {o : TickEvent}

/-- A section keeps the posts for the tickers that run. -/
theorem posted_afterSection {pc : TickPc} {call : TickCall} {r : SectionEnd}
    (hr : call.section s.tickers pc = some r) (tid : ℕ)
    (h : s.tickers.Running → 0 < s.callbackSem) (hrun : r.tickers.Running) :
    0 < (s.afterSection tid r).callbackSem := by
  show 0 < s.callbackSem + if r.started.isSome then 1 else 0
  rcases running_section hr hrun with hstarts | hwas
  · rw [if_pos hstarts]
    omega
  · have := h hwas
    omega

/-- **A round of the pass** lowers the shortest time-out to what its ticker has to go. -/
theorem Watched.handle (h : s.Watched) {i elapsed shortest pass : ℕ}
    (hpc : s.pc = .handling i elapsed shortest pass) :
    (s.handleTicker i elapsed shortest pass).2.Watched := by
  intro j hj hstarted
  rw [Watched, hpc] at h
  obtain ⟨hle, hself⟩ := ((s.tickers i).handled elapsed).nextShortest_le shortest
  by_cases hji : j = i
  · subst hji
    simp only [handleTicker, Function.update_self] at hstarted ⊢
    exact hself hstarted
  · simp only [handleTicker, Function.update_of_ne hji] at hstarted ⊢
    exact Nat.le_trans hle (h j (by omega) hstarted)

/-- **One step keeps what the task knows.** -/
theorem Watched.acts (h : s.Watched) (ha : TickActs w s i o t) : t.Watched := by
  cases ha with
  | @call tid call pc r hfree hsection =>
    have hpc : (s.afterSection tid r).pc = s.pc := rfl
    rw [Watched] at h
    rw [Watched, hpc]
    split at h
    · exact fun hinf => posted_afterSection hsection tid (h hinf)
    · exact fun hinf => posted_afterSection hsection tid (h hinf)
    · exact h
    · exact h
    · trivial
    · -- no section is entered during a pass
      rename_i hhandling
      rw [hhandling] at hfree
      exact Bool.noConfusion hfree
  | readOld hpc =>
    rw [Watched, hpc] at h
    exact h
  | lock hpc => rfl
  | wake hpc hsem => exact .inl rfl
  | interrupt hpc => exact .inr rfl
  | reread hpc hnext =>
    rw [Watched, hpc] at h
    rw [if_pos h] at hnext
    subst hnext
    trivial
  | passStart hpc =>
    intro j hj
    omega
  | passFail hpc =>
    -- `SK_FAILED` is taken for a time-out, but not for the infinite one
    intro hinf
    have hne : SkStatus.failed.toU32 ≠ skTimeoutInfinity := by decide
    exact absurd hinf hne
  | handle hpc hi => exact h.handle hpc
  | @passEnd i elapsed shortest pass hpc hi =>
    rw [Watched, hpc] at h
    intro hinf hrun
    -- every ticker was handled, so an infinite minimum leaves none to run
    obtain ⟨j, hj, hstarted, hremaining⟩ := hrun
    have hle : shortest ≤ (s.tickers j).uTimeRemaining := h j (by omega) hstarted
    have hinf' : shortest = skTimeoutInfinity := hinf
    have hremaining' : (s.tickers j).uTimeRemaining < skTimeoutInfinity := hremaining
    omega
  | advance d => exact h

/-- Outside a wait there is nothing to cover. -/
theorem covered_of_not_waiting (h : ∀ call begun, t.pc ≠ .waiting call begun) : t.Covered := by
  rw [Covered]
  split
  · exact absurd ‹_› (h _ _)
  · trivial

/-- A wait without a deadline is covered by posts only. -/
theorem covered_semWait {begun : ℕ} (hpc : s.pc = .waiting .semWait begun) :
    s.Covered ↔ (s.tickers.Running → 0 < s.callbackSem) := by
  simp [Covered, hpc]

/-- **A step leads to a covered state exactly when it meets the condition.** -/
theorem Watched.covered_iff (h : s.Watched) (hc : s.Covered) (ha : TickActs w s i o t) :
    t.Covered ↔ s.LockCovered i := by
  cases ha with
  | @call tid call pc r hfree hsection =>
    refine iff_of_true ?_ trivial
    cases hpc : s.pc with
    | waiting wait begun =>
      rw [Watched, hpc] at h
      obtain rfl : wait = .semWait := h
      rw [covered_semWait (s := s.afterSection tid r) hpc]
      exact posted_afterSection hsection tid ((covered_semWait hpc).mp hc)
    | _ =>
      refine covered_of_not_waiting ?_
      intro wait begun heq
      have heq' : s.pc = .waiting wait begun := heq
      rw [hpc] at heq'
      cases heq'
  | lock hpc =>
    rw [covered_semWait rfl]
    constructor
    · intro hposts
      by_cases hrun : s.tickers.Running
      · exact .inr (.inl (hposts hrun))
      · exact .inr (.inr hrun)
    · rw [Watched, hpc] at h
      rintro (hinf | hpost | hnot) hrun
      · exact h hinf hrun
      · exact hpost
      · exact absurd hrun hnot
  | reread hpc hnext =>
    rw [Watched, hpc] at h
    rw [if_pos h] at hnext
    subst hnext
    exact iff_of_true (covered_of_not_waiting fun _ _ heq => (by cases heq)) trivial
  | advance d => exact iff_of_true hc trivial
  | _ => exact iff_of_true (covered_of_not_waiting fun _ _ heq => (by cases heq)) trivial

theorem Watched.init (n : ℕ) : (init n).Watched := by
  intro _ hrun
  obtain ⟨i, -, hstarted, -⟩ := hrun
  exact TickerState.noConfusion hstarted

end TickSys

/-- **The waits of the task are covered** exactly when no wait is begun with a finite `uTimeout` while
a ticker runs and no post is pending: in every run, every state reached is covered if and only if every
step meets the condition. -/
theorem waits_covered (w n : ℕ) (steps : List TickStep) (es : List TickEvent) (s : TickSys)
    (hrun : StepMachine.run (TickSys.step w) (TickSys.init n) steps = some (es, s)) :
    StepMachine.Throughout (TickSys.step w) TickSys.Covered (TickSys.init n) steps ↔
      StepMachine.Along (TickSys.step w) TickSys.LockCovered (TickSys.init n) steps :=
  StepMachine.throughout_iff_along (TickSys.step w) TickSys.LockCovered TickSys.Watched
    TickSys.Covered (TickSys.Watched.init n) trivial
    (fun _ _ _ _ hI hf => hI.acts (TickSys.step_acts hf))
    (fun _ _ _ _ hI hP hf => hI.covered_iff hP (TickSys.step_acts hf)) hrun

/-- The law while a ticker is started during the first wait of the task. -/
theorem waits_covered_first :
    StepMachine.Throughout (TickSys.step 64) TickSys.Covered (TickSys.init 1)
      [.readOld, .lock, .call 0 (.create 7 9), .call 0 .store, .call 0 (.set 0 .perio 100),
        .call 0 (.start 0)] := by
  refine (waits_covered 64 1 _ _ _ rfl).mpr ?_
  refine StepMachine.along_cons trivial rfl (StepMachine.along_cons (.inl rfl) rfl ?_)
  iterate 3 refine StepMachine.along_cons trivial rfl ?_
  exact StepMachine.along_cons trivial rfl trivial

/-- **A periodic ticker stalls.** A ticker of 100 ms is started, and the task makes its first pass, which
asks to be woken after 100 ms. The task then waits without a deadline, and no post is pending. -/
theorem periodic_ticker_stalls :
    ∃ es s, StepMachine.run (TickSys.step 64) (TickSys.init 1)
        ([.call 0 (.create 7 9), .call 0 .store, .call 0 (.set 0 .perio 100), .call 0 (.start 0),
            .readOld, .lock, .wake, .reread, .passStart] ++ List.replicate 25 .handle ++
          [.passEnd, .readOld, .lock]) = some (es, s) ∧
      s.uTimeout = 100 ∧ ¬ s.Covered := by
  refine ⟨_, _, rfl, rfl, ?_⟩
  intro hcovered
  have hposts := (TickSys.covered_semWait rfl).mp hcovered
  exact absurd (hposts ⟨0, by decide, rfl, by decide⟩) (by decide)

end SmIpc.Os
