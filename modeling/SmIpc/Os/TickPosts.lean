import SmIpc.Os.TickRefine
import SmIpc.Os.TickWait

/-! # Every pass is paid for

`sk_tick_start` posts `gfTickCallbackSem` once, and nothing else does. `tick_task` takes a post for each pass it
makes, or makes it because its wait was interrupted; it does not make one because time went by, since the wait
has no deadline. So callbacks are paid for by starts.

* `TickSys.owed` — whether the task has yet to come to a ticker in a pass that was paid for.
* `TickSys.paid_step` — one step keeps the balance of callbacks against posts and interruptions.
* `callbacks_paid` — over every stretch of a run, a ticker is called back at most once for each start of any
  ticker, each interrupted wait, and each post that was pending. A periodic ticker that is started once ticks
  once. -/

namespace SmIpc.Os

/-- A wait of the task is interrupted. -/
def TickStep.Interrupts : TickStep → Bool
  | .interrupt => true
  | _ => false

/-- A ticker is set running. -/
def TickAct.Starts (act : ℕ × TickAct) : Bool := act.2 = .started

namespace TickSys

variable {w : ℕ} {s t : TickSys} {i : TickStep} {o : TickEvent}

/-- Whether the task was woken for a pass in which it has yet to come to the ticker: 1 or 0. -/
def owed (s : TickSys) (tickId : ℕ) : ℕ :=
  match s.pc with
  | .woken _ | .ready => 1
  | .handling i _ _ _ => if i ≤ tickId then 1 else 0
  | _ => 0

/-- What a section that may start a ticker does, if it does when it succeeds. -/
theorem starts_start (tickers : KalTickers) (tickId : ℕ) (event : SkStatus → TickEvent) :
    (if (skTickStart tickers tickId).1 = .success then [(tickId, TickAct.started)] else []).countP
        TickAct.Starts =
      if (startSection tickers tickId event).started.isSome then 1 else 0 := by
  rw [startSection, skTickStart]
  split
  · split
    · rfl
    · split <;> rfl
  · rfl

/-- One act that is no start, or none. -/
theorem countP_starts_none {p : Prop} [Decidable p] {tickId : ℕ} {act : TickAct} (h : act ≠ .started) :
    (if p then [(tickId, act)] else []).countP TickAct.Starts = 0 := by
  split
  · exact List.countP_eq_zero.mpr (by simp [TickAct.Starts, h])
  · rfl

/-- **A section posts once for each ticker it starts.** -/
theorem posts_of_section {tickers : KalTickers} {pc : TickPc} {call : TickCall} {r : SectionEnd}
    (h : call.section tickers pc = some r) :
    (call.acts tickers pc).countP TickAct.Starts = if r.started.isSome then 1 else 0 := by
  unfold TickCall.section at h
  split at h
  · -- `sk_tick_create`
    simp only [TickCall.acts]
    split at h <;> rename_i heq <;> cases h <;> rw [heq] <;> rfl
  · cases h
    rfl
  · cases h
    exact countP_starts_none (by simp)
  · cases h
    exact starts_start _ _ _
  · cases h
    exact countP_starts_none (by simp)
  · -- `sk_tick_set`
    simp only [TickCall.acts]
    rw [countP_starts_none (by simp)]
    split at h
    · split at h <;> cases h <;> rfl
    · cases h
      rfl
  · cases h
    exact countP_starts_none (by simp)
  · cases h
    exact countP_starts_none (by simp)
  · cases h
    exact starts_start _ _ _
  · cases h

/-- A section calls no ticker back. -/
theorem not_called_of_section (tickers : KalTickers) (pc : TickPc) (call : TickCall) (tickId : ℕ) :
    (call.acts tickers pc).count (tickId, .called) = 0 := by
  rw [List.count_eq_zero]
  unfold TickCall.acts
  split
  · split <;> simp
  all_goals first
    | (split <;> simp)
    | simp

/-- The task owes a ticker a round at most once. -/
theorem owed_le (s : TickSys) (tickId : ℕ) : s.owed tickId ≤ 1 := by
  rw [owed]
  split
  · exact Nat.le_refl 1
  · exact Nat.le_refl 1
  · split <;> omega
  · exact Nat.zero_le 1

/-- **A round of a pass** is what the task owed its ticker, and it owes the others what it did. -/
theorem paid_handle {i elapsed shortest pass : ℕ} (hpc : s.pc = .handling i elapsed shortest pass)
    (tickId : ℕ) :
    (s.acts .handle).count (tickId, .called) + (s.handleTicker i elapsed shortest pass).2.owed tickId ≤
      s.owed tickId := by
  have howed : (s.handleTicker i elapsed shortest pass).2.owed tickId = if i + 1 ≤ tickId then 1 else 0 :=
    rfl
  have hbefore : s.owed tickId = if i ≤ tickId then 1 else 0 := by rw [owed, hpc]
  have hacts : (s.acts .handle).count (tickId, .called) ≤ if i = tickId then 1 else 0 := by
    simp only [acts, hpc]
    split
    · simp only [List.count_singleton, beq_iff_eq, Prod.mk.injEq, and_true]
      exact Nat.le_refl _
    · exact Nat.zero_le _
  rw [howed, hbefore]
  split at hacts <;> split <;> split <;> omega

/-- A step that does nothing to a ticker keeps the balance if it does not wake the task for nothing. -/
theorem paid_of_quiet {tickId : ℕ} (hacts : s.acts i = [])
    (hle : t.callbackSem + t.owed tickId ≤
      s.callbackSem + s.owed tickId + if i.Interrupts then 1 else 0) :
    (s.acts i).count (tickId, .called) + t.callbackSem + t.owed tickId ≤
      s.callbackSem + s.owed tickId + (s.acts i).countP TickAct.Starts +
        if i.Interrupts then 1 else 0 := by
  rw [hacts, List.count_nil, List.countP_nil]
  omega

/-- **One step keeps the balance.** -/
theorem paid_step (h : step w s i = some (o, t)) (tickId : ℕ) :
    (s.acts i).count (tickId, .called) + t.callbackSem + t.owed tickId ≤
      s.callbackSem + s.owed tickId + (s.acts i).countP TickAct.Starts +
        if i.Interrupts then 1 else 0 := by
  cases i with
  | call tid call =>
    simp only [step] at h
    split at h
    · cases h
    · split at h
      · cases h
      · rename_i pc hpc
        obtain ⟨r, hsection, heq⟩ := Option.map_eq_some_iff.mp h
        cases heq
        have hacts : s.acts (.call tid call) = call.acts s.tickers pc := by simp only [acts, hpc]
        have howed : (s.afterSection tid r).owed tickId = s.owed tickId := rfl
        have hsem : (s.afterSection tid r).callbackSem =
            s.callbackSem + if r.started.isSome then 1 else 0 := rfl
        rw [hacts, not_called_of_section, posts_of_section hsection, howed, hsem]
        omega
  | readOld =>
    cases step_acts h with
    | readOld hpc => exact paid_of_quiet rfl (Nat.le_add_right_of_le (Nat.le_add_right _ _))
  | lock =>
    cases step_acts h with
    | lock hpc => exact paid_of_quiet rfl (Nat.le_add_right_of_le (Nat.le_add_right _ _))
  | wake =>
    cases step_acts h with
    | wake hpc hsem =>
      -- the post that is taken pays for the pass
      apply paid_of_quiet rfl
      show s.callbackSem - 1 + 1 ≤ s.callbackSem + s.owed tickId + 0
      omega
  | interrupt =>
    cases step_acts h with
    | interrupt hpc =>
      apply paid_of_quiet rfl
      show s.callbackSem + 1 ≤ s.callbackSem + s.owed tickId + 1
      omega
  | reread =>
    cases step_acts h with
    | reread hpc hnext =>
      have hbefore : s.owed tickId = 1 := by rw [owed, hpc]
      apply paid_of_quiet rfl
      rw [hbefore]
      exact Nat.add_le_add_left (owed_le _ tickId) s.callbackSem
  | passStart =>
    cases step_acts h with
    | passStart hpc =>
      have hbefore : s.owed tickId = 1 := by rw [owed, hpc]
      apply paid_of_quiet rfl
      rw [hbefore]
      exact Nat.add_le_add_left (owed_le _ tickId) s.callbackSem
  | passFail =>
    cases step_acts h with
    | passFail hpc => exact paid_of_quiet rfl (Nat.le_add_right_of_le (Nat.le_add_right _ _))
  | handle =>
    cases step_acts h with
    | @handle i elapsed shortest pass hpc hi =>
      have hround := paid_handle hpc tickId
      have hsem : (s.handleTicker i elapsed shortest pass).2.callbackSem = s.callbackSem := rfl
      omega
  | passEnd =>
    cases step_acts h with
    | passEnd hpc hi => exact paid_of_quiet rfl (Nat.le_add_right_of_le (Nat.le_add_right _ _))
  | advance microseconds =>
    cases step_acts h with
    | advance => exact paid_of_quiet rfl (Nat.le_add_right _ _)

end TickSys

/-- **Callbacks are paid for by starts.** -/
theorem callbacks_paid (w : ℕ) (tickId : ℕ) (s : TickSys) (steps : List TickStep)
    (os : List (Option TableStep × List (ℕ × TickAct))) (t : TickSys)
    (hrun : StepMachine.run (TickSys.observed w) s steps = some (os, t)) :
    (os.flatMap Prod.snd).count (tickId, .called) + t.callbackSem + t.owed tickId ≤
      s.callbackSem + s.owed tickId + (os.flatMap Prod.snd).countP TickAct.Starts +
        steps.countP TickStep.Interrupts := by
  refine StepMachine.run_induction (TickSys.observed w)
    (fun steps os t => (os.flatMap Prod.snd).count (tickId, .called) + t.callbackSem + t.owed tickId ≤
      s.callbackSem + s.owed tickId + (os.flatMap Prod.snd).countP TickAct.Starts +
        steps.countP TickStep.Interrupts) ?_ ?_ hrun
  · simp
  · rintro steps os u i o t - hbalance hs
    obtain ⟨⟨e, t'⟩, hstep, heq⟩ := Option.map_eq_some_iff.mp hs
    cases heq
    have hpaid := TickSys.paid_step hstep tickId
    rw [List.flatMap_append, List.count_append, List.countP_append, List.countP_append,
      List.countP_singleton]
    simp only [List.flatMap_singleton]
    omega

/-- A ticker of 100 ms is started once, and the task makes a pass 100 ms later; then the clock goes on by ten
seconds. -/
def TickStep.oneStart : List TickStep :=
  [.readOld, .lock, .call 0 (.create 7 9), .call 0 .store, .call 0 (.set 0 .perio 100), .call 0 (.start 0),
    .wake, .reread, .advance 100000, .passStart] ++
    List.replicate 25 .handle ++ [.passEnd, .readOld, .lock, .advance 10000000]

/-- The balance of this run: the ticker still runs, and it has been called back no more than once. -/
theorem callbacks_paid_once : ∃ os t,
    StepMachine.run (TickSys.observed 64) (TickSys.init 1) TickStep.oneStart = some (os, t) ∧
      t.tickers.Running ∧ (os.flatMap Prod.snd).count (0, .called) ≤ 1 := by
  obtain ⟨os, t, hrun, hstarts, hrunning⟩ : ∃ os t,
      StepMachine.run (TickSys.observed 64) (TickSys.init 1) TickStep.oneStart = some (os, t) ∧
        (os.flatMap Prod.snd).countP TickAct.Starts = 1 ∧ t.tickers.Running := by
    refine ⟨_, _, rfl, rfl, ?_⟩
    exact ⟨0, by decide, rfl, by decide⟩
  refine ⟨os, t, hrun, hrunning, ?_⟩
  have hpaid := callbacks_paid 64 0 (TickSys.init 1) TickStep.oneStart os t hrun
  have hbefore : (TickSys.init 1).callbackSem + (TickSys.init 1).owed 0 = 0 := rfl
  have hinterrupts : TickStep.oneStart.countP TickStep.Interrupts = 0 := rfl
  omega

end SmIpc.Os
