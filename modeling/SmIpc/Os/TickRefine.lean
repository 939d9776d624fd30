import SmIpc.Os.TickHistory
import SmIpc.Os.TickTask

/-! # The passes of the tick task are atomic

`TickSys` has the tick task handle one ticker a step, between the sections of the threads and while the clock
goes on; `TickTable` has a pass as one step. The sections wait for `gfTickTableSem`, which the task holds
from `passStart` to `passEnd`, so a pass may as well be made whole when it begins.

* `TickSys.acts` is what a step does to which tickers, and `TickSys.begins` the step of the table it begins:
  a section, or a pass with the elapsed time that was just measured.
* `TickSys.finish` finishes the pass the task is in: the callbacks still to come, and the table after them.
* `tickTask_refines_table` — in every run, the sections and the passes made one after the other, in the order
  in which they got the table, do the same to the same tickers in the same order and leave the same table.
* `callbacks_running` — so what is known of the table and its history holds of the task: only a ticker that
  runs is called back. -/

namespace SmIpc.Os

namespace TickSys

/-! ## What is seen of a step -/

/-- What a step does, and to which ticker. -/
def acts (s : TickSys) : TickStep → List (ℕ × TickAct)
  | .call tid call =>
      match s.threads[tid]? with
      | some pc => call.acts s.tickers pc
      | none => []
  | .handle =>
      match s.pc with
      | .handling i elapsed _ _ => if (s.tickers i).IsDue elapsed then [(i, .called)] else []
      | _ => []
  | _ => []

/-- The step of the table that a step begins. -/
def begins (w : ℕ) (s : TickSys) : TickStep → Option TableStep
  | .call tid call => some (.call tid call)
  | .passStart =>
      some (.pass (internalElapsedTime w (gettimeofday s.oldUTCTime) (gettimeofday s.clock)))
  | _ => none

/-- The steps, with the step of the table each begins and what it does to which tickers. -/
def observed (w : ℕ) : StepMachine TickSys TickStep (Option TableStep × List (ℕ × TickAct)) :=
  fun s i => (step w s i).map fun r => ((s.begins w i, s.acts i), r.2)

/-! ## The pass the task is in -/

/-- What the rest of a pass does from ticker `i` on: the callbacks, and the table after it. -/
def restOfPass (s : TickSys) (i elapsed shortest : ℕ) : List (ℕ × TickAct) × TickTable :=
  let r := handleLoop elapsed (maxTicksNum - i) i s.tickers shortest
  (r.1.map fun c => (c.tickId, .called), ⟨r.2.2, s.threads⟩)

/-- The pass the task is in, finished: the callbacks still to come, and the table after them. -/
def finish (s : TickSys) : List (ℕ × TickAct) × TickTable :=
  match s.pc with
  | .handling i elapsed shortest _ => s.restOfPass i elapsed shortest
  | _ => ([], ⟨s.tickers, s.threads⟩)

variable {w : ℕ} {s t : TickSys} {i : TickStep} {o : TickEvent}

/-- Outside a pass there is nothing to finish. -/
theorem finish_of_free (h : s.pc.holdsTable = false) : s.finish = ([], ⟨s.tickers, s.threads⟩) := by
  rw [finish]
  split
  · rename_i hpc
    rw [hpc] at h
    cases h
  · rfl

/-- **The whole of a pass is a step of the table.** -/
theorem restOfPass_zero (s : TickSys) (elapsed : ℕ) :
    TickTable.step ⟨s.tickers, s.threads⟩ (.pass elapsed) =
      some (s.restOfPass 0 elapsed skTimeoutInfinity) := by
  rw [restOfPass, Nat.sub_zero]
  simp only [TickTable.step, kalHandleTimeTimeouts]

/-- **The rest of a pass, one ticker further.** -/
theorem restOfPass_handle {i elapsed shortest pass : ℕ} (hpc : s.pc = .handling i elapsed shortest pass)
    (hi : i < maxTicksNum) :
    s.restOfPass i elapsed shortest =
      (s.acts .handle ++ (s.handleTicker i elapsed shortest pass).2.finish.1,
        (s.handleTicker i elapsed shortest pass).2.finish.2) := by
  obtain ⟨n, hn⟩ : ∃ n, maxTicksNum - i = n + 1 := ⟨maxTicksNum - i - 1, by omega⟩
  have hn' : maxTicksNum - (i + 1) = n := by omega
  rw [restOfPass, hn]
  simp only [handleLoop, finish, handleTicker, restOfPass, acts, hpc, hn']
  split <;> rfl

/-! ## One step -/

/-- The step is one of the table's: what it begins is done at once. -/
theorem agrees_of_step {k : TableStep} {as : List (ℕ × TickAct)}
    (hs : TickTable.step s.finish.2 k = some (as, t.finish.2)) (hfree : s.finish.1 = []) :
    ∃ ps, StepMachine.run TickTable.step s.finish.2 (some k).toList = some (ps, t.finish.2) ∧
      s.finish.1 ++ ps.flatten = as := by
  refine ⟨[as], (StepMachine.run_cons _ _ _ k [] _).mpr ⟨as, _, [], hs, rfl, rfl⟩, ?_⟩
  rw [hfree, List.nil_append, List.flatten_singleton]

/-- The step begins none of the table's: it leaves what is to be finished, or does a first part of it. -/
theorem agrees_of_eq {as : List (ℕ × TickAct)} (h : s.finish = (as ++ t.finish.1, t.finish.2)) :
    ∃ ps, StepMachine.run TickTable.step s.finish.2 (none : Option TableStep).toList =
        some (ps, t.finish.2) ∧
      s.finish.1 ++ ps.flatten = as ++ t.finish.1 := by
  refine ⟨[], ?_, ?_⟩
  · rw [h]
    rfl
  · rw [h]
    exact List.append_nil _

/-- In a pass, what is to be finished is the rest of it. -/
theorem finish_handling {i elapsed shortest pass : ℕ} (hpc : s.pc = .handling i elapsed shortest pass) :
    s.finish = s.restOfPass i elapsed shortest := by
  rw [finish, hpc]

/-- A step outside the passes that leaves the table and the threads. -/
theorem finish_outside (h : s.pc.holdsTable = false) (h' : t.pc.holdsTable = false)
    (htickers : t.tickers = s.tickers) (hthreads : t.threads = s.threads) :
    s.finish = ([] ++ t.finish.1, t.finish.2) := by
  rw [finish_of_free h, finish_of_free h', htickers, hthreads]
  rfl

/-- A section of a thread is one of the table's steps. -/
theorem call_finishes {tid : ℕ} {call : TickCall} (h : step w s (.call tid call) = some (o, t)) :
    TickTable.step s.finish.2 (.call tid call) = some (s.acts (.call tid call), t.finish.2) ∧
      s.finish.1 = [] ∧ t.finish.1 = [] := by
  simp only [step] at h
  split at h
  · cases h
  · rename_i hheld
    have hfree : s.pc.holdsTable = false := Bool.eq_false_iff.mpr hheld
    split at h
    · cases h
    · rename_i pc hpc
      obtain ⟨r, hsection, heq⟩ := Option.map_eq_some_iff.mp h
      cases heq
      -- the thread finds the table as it is: no pass is on
      rw [finish_of_free hfree, finish_of_free (s := s.afterSection tid r) hfree]
      refine ⟨?_, rfl, rfl⟩
      simp only [TickTable.step, acts, hpc, hsection]
      rfl

/-- The start of a pass is the whole pass for the table. -/
theorem passStart_finishes (h : step w s .passStart = some (o, t)) :
    TickTable.step s.finish.2
        (.pass (internalElapsedTime w (gettimeofday s.oldUTCTime) (gettimeofday s.clock))) =
      some (s.acts .passStart ++ t.finish.1, t.finish.2) ∧ s.finish.1 = [] := by
  simp only [step] at h
  split at h
  · rename_i hpc
    cases h
    have hfree : s.pc.holdsTable = false := by rw [hpc]; rfl
    have hacts : s.acts .passStart = [] := rfl
    rw [finish_of_free hfree, finish_handling rfl, restOfPass_zero, hacts, List.nil_append]
    exact ⟨rfl, rfl⟩
  · cases h

/-- **Every step agrees with the one of the table it begins**, once the pass is finished. -/
theorem step_finishes (h : step w s i = some (o, t)) :
    ∃ ps, StepMachine.run TickTable.step s.finish.2 (s.begins w i).toList = some (ps, t.finish.2) ∧
      s.finish.1 ++ ps.flatten = s.acts i ++ t.finish.1 := by
  cases i with
  | call tid call =>
    obtain ⟨hs, hfree, hfree'⟩ := call_finishes h
    obtain ⟨ps, hrun, hps⟩ := agrees_of_step hs hfree
    refine ⟨ps, hrun, ?_⟩
    rw [hps, hfree', List.append_nil]
  | passStart =>
    obtain ⟨hs, hfree⟩ := passStart_finishes h
    exact agrees_of_step hs hfree
  | handle =>
    cases step_acts h with
    | handle hpc hi =>
      apply agrees_of_eq
      rw [finish_handling hpc]
      exact restOfPass_handle hpc hi
  | passEnd =>
    cases step_acts h with
    | @passEnd i elapsed shortest pass hpc hi =>
      apply agrees_of_eq
      rw [finish_handling hpc, restOfPass, Nat.sub_eq_zero_of_le hi]
      rfl
  | readOld =>
    cases step_acts h with
    | readOld hpc => exact agrees_of_eq (finish_outside (by rw [hpc]; rfl) rfl rfl rfl)
  | lock =>
    cases step_acts h with
    | lock hpc => exact agrees_of_eq (finish_outside (by rw [hpc]; rfl) rfl rfl rfl)
  | wake =>
    cases step_acts h with
    | wake hpc hsem => exact agrees_of_eq (finish_outside (by rw [hpc]; rfl) rfl rfl rfl)
  | interrupt =>
    cases step_acts h with
    | interrupt hpc => exact agrees_of_eq (finish_outside (by rw [hpc]; rfl) rfl rfl rfl)
  | reread =>
    cases step_acts h with
    | @reread status pc hpc hnext =>
      have hfree : pc.holdsTable = false := by
        rw [hnext]
        split <;> rfl
      exact agrees_of_eq (finish_outside (by rw [hpc]; rfl) hfree rfl rfl)
  | passFail =>
    cases step_acts h with
    | passFail hpc => exact agrees_of_eq (finish_outside (by rw [hpc]; rfl) rfl rfl rfl)
  | advance microseconds =>
    cases step_acts h with
    | advance => exact agrees_of_eq rfl

/-- The same, of what is seen of a step. -/
theorem observed_finishes {o : Option TableStep × List (ℕ × TickAct)} (h : observed w s i = some (o, t)) :
    ∃ ps, StepMachine.run TickTable.step s.finish.2 o.1.toList = some (ps, t.finish.2) ∧
      s.finish.1 ++ ps.flatten = o.2 ++ t.finish.1 := by
  obtain ⟨⟨e, t'⟩, hstep, heq⟩ := Option.map_eq_some_iff.mp h
  cases heq
  exact step_finishes hstep

end TickSys

/-! ## Runs -/

/-- **The passes of the tick task are atomic.** In every run of the tick task and of any number of threads
calling the `sk_tick_*` functions, take the sections and the passes in the order in which they got the table,
each made whole at once. That is a run of the table, in which the same is done to the same tickers in the
same order, and which leaves the same table; only the rest of a pass the task is still in is done early. -/
theorem tickTask_refines_table (w n : ℕ) (steps : List TickStep)
    (os : List (Option TableStep × List (ℕ × TickAct))) (s : TickSys)
    (hrun : StepMachine.run (TickSys.observed w) (TickSys.init n) steps = some (os, s)) :
    ∃ logs, StepMachine.run TickTable.step (TickTable.init n) (os.filterMap Prod.fst) =
        some (logs, s.finish.2) ∧
      logs.flatten = os.flatMap Prod.snd ++ s.finish.1 :=
  StepMachine.run_finishes (TickSys.observed w) TickTable.step TickSys.finish
    (fun _ _ _ _ hs => TickSys.observed_finishes hs) hrun

/-- A ticker of 100 ms is started while the task waits, and the task is in the pass that calls it back. -/
theorem tickTask_refines_table_start : ∃ os s,
    StepMachine.run (TickSys.observed 64) (TickSys.init 1)
        [.readOld, .lock, .call 0 (.create 7 9), .call 0 .store, .call 0 (.set 0 .perio 100),
          .call 0 (.start 0), .wake, .reread, .advance 100000, .passStart, .handle] = some (os, s) ∧
      os.flatMap Prod.snd =
        [(0, .reserved), (0, .configured .perio 100), (0, .started), (0, .called)] ∧
      ∃ logs, StepMachine.run TickTable.step (TickTable.init 1)
          [.call 0 (.create 7 9), .call 0 .store, .call 0 (.set 0 .perio 100), .call 0 (.start 0),
            .pass 100] = some (logs, s.finish.2) ∧
        logs.flatten = os.flatMap Prod.snd ++ s.finish.1 := by
  obtain ⟨os, s, hrun, hbegun, hacts⟩ : ∃ os s,
      StepMachine.run (TickSys.observed 64) (TickSys.init 1)
          [.readOld, .lock, .call 0 (.create 7 9), .call 0 .store, .call 0 (.set 0 .perio 100),
            .call 0 (.start 0), .wake, .reread, .advance 100000, .passStart, .handle] = some (os, s) ∧
        os.filterMap Prod.fst =
          [.call 0 (.create 7 9), .call 0 .store, .call 0 (.set 0 .perio 100), .call 0 (.start 0),
            .pass 100] ∧
        os.flatMap Prod.snd =
          [(0, .reserved), (0, .configured .perio 100), (0, .started), (0, .called)] :=
    ⟨_, _, rfl, rfl, rfl⟩
  have hrefines := tickTask_refines_table 64 1 _ os s hrun
  rw [hbegun] at hrefines
  exact ⟨os, s, hrun, hacts, hrefines⟩

/-! ## The history of a ticker -/

/-- **Only a ticker that runs is called back.** In every run of the tick task and of any number of threads
calling the `sk_tick_*` functions, whenever a ticker is called back it was started, and neither stopped nor
destroyed nor called back as a one-shot since; wherever the task was in its pass when a thread asked for
that. -/
theorem callbacks_running (w n : ℕ) (steps : List TickStep)
    (os : List (Option TableStep × List (ℕ × TickAct))) (s : TickSys)
    (hrun : StepMachine.run (TickSys.observed w) (TickSys.init n) steps = some (os, s)) (tickId : ℕ)
    (before after : List TickAct)
    (hcalled : History.about tickId (os.flatMap Prod.snd) = before ++ .called :: after) :
    TickAct.Running before := by
  obtain ⟨logs, hrun', hlogs⟩ := StepMachine.run_finishes (TickSys.observed w) TickTable.step TickSys.finish
    (fun _ _ _ _ hs => TickSys.observed_finishes hs) hrun
  have hslot : SlotInv (History.about tickId logs.flatten) (s.finish.2.tickers tickId) :=
    (TickTable.run_good hrun').1 tickId
  -- what was seen so far comes first in the history of the table
  have hlogs : logs.flatten = os.flatMap Prod.snd ++ s.finish.1 := hlogs
  rw [hlogs, History.about_append, hcalled, List.append_assoc, List.cons_append] at hslot
  exact hslot.called before _ rfl

/-- The callback of a one-shot that was started twice and stopped in between. -/
theorem callbacks_running_oneShot : ∃ os s,
    StepMachine.run (TickSys.observed 64) (TickSys.init 1)
        [.readOld, .lock, .call 0 (.create 7 9), .call 0 .store, .call 0 (.set 0 .single 100),
          .call 0 (.start 0), .call 0 (.stop 0), .call 0 (.start 0), .wake, .reread, .advance 100000,
          .passStart, .handle] = some (os, s) ∧
      History.about 0 (os.flatMap Prod.snd) =
        [.reserved, .configured .single 100, .started, .stopped, .started, .called] ∧
      TickAct.Running [.reserved, .configured .single 100, .started, .stopped, .started] := by
  obtain ⟨os, s, hrun, habout⟩ : ∃ os s,
      StepMachine.run (TickSys.observed 64) (TickSys.init 1)
          [.readOld, .lock, .call 0 (.create 7 9), .call 0 .store, .call 0 (.set 0 .single 100),
            .call 0 (.start 0), .call 0 (.stop 0), .call 0 (.start 0), .wake, .reread, .advance 100000,
            .passStart, .handle] = some (os, s) ∧
        History.about 0 (os.flatMap Prod.snd) =
          [.reserved, .configured .single 100, .started, .stopped, .started, .called] := ⟨_, _, rfl, rfl⟩
  exact ⟨os, s, hrun, habout, callbacks_running 64 1 _ os s hrun 0 _ [] habout⟩

end SmIpc.Os
