import SmIpc.Lib.Machine
import SmIpc.Lib.ThreadPool
import SmIpc.Os.Ticker

/-! # The tick task and the threads that use the tickers

`tick_task`, which waits on `gfTickCallbackSem` and then makes a pass over the table with
`kal_handle_time_timeouts`, and any number of threads calling the `sk_tick_*` functions. A section of
a call is one step and needs `gfTickTableSem`, which the task holds during a pass; the task handles one
ticker a step. The clock goes forward between the steps, by any amount.

A wait on `gfTickCallbackSem` can be interrupted, and so can the wait for the table at the start of a
pass; the waits for the table inside the calls are taken not to be, and `gettimeofday` not to fail. A
callback is seen as an event; one that calls `sk_tick_*` itself would wait for the table for ever.

* `TickSys.step` is one step; `TickActs` lists what each can do, and `TickSys.step_acts` says that it
  does.
* `TickAccount` keeps, for each ticker, when it was last started or called back, and how far the time
  the passes took off it differs from the time that went by. -/

namespace SmIpc.Os

/-! ## What a ticker was charged -/

/-- What happened to a ticker since it was last started or called back. -/
structure TickAccount where
  /-- The clock at that time. -/
  since : ℕ
  /-- A pass has charged it an elapsed time measured from a reading older than that. -/
  stale : Bool
  /-- The microseconds the passes since charged it over what went by from their readings on. -/
  gain : ℤ
  deriving DecidableEq, Repr

namespace TickAccount

/-- The account of a ticker that is started, or called back, when the clock stands at `clock`. -/
def start (clock : ℕ) : TickAccount := ⟨clock, false, 0⟩

/-- What the elapsed time of a pass at `pass`, measured from `old`, is over the time that went by, in
microseconds. -/
def rounding (old pass uElapsedTime : ℕ) : ℤ := 1000 * uElapsedTime - (pass - old)

/-- The account after a pass at `pass` that measured the elapsed time from `old`. -/
def charged (a : TickAccount) (old pass uElapsedTime : ℕ) : TickAccount :=
  if a.since ≤ old then { a with gain := a.gain + rounding old pass uElapsedTime }
  else { a with stale := a.stale || uElapsedTime ≠ 0 }

end TickAccount

/-! ## States and steps -/

/-- Where the task stands. -/
inductive TaskPc where
  /-- At the top of its loop. -/
  | top
  /-- `OldUTCTime` read, before the lock. -/
  | locking
  /-- In a wait on `gfTickCallbackSem`, begun when the clock stood at `begun`. -/
  | waiting (call : SemWait) (begun : ℕ)
  /-- Back from the lock. -/
  | woken (status : SkStatus)
  /-- About to call `kal_handle_time_timeouts`. -/
  | ready
  /-- In the loop of `kal_handle_time_timeouts` before ticker `uTickTblIdx`, holding the table; the
  elapsed time was computed when the clock stood at `pass`. -/
  | handling (uTickTblIdx uElapsedTime uNextShortestTimeout pass : ℕ)

/-- Whether the task holds `gfTickTableSem`. -/
def TaskPc.holdsTable : TaskPc → Bool
  | handling .. => true
  | _ => false

/-- The tick subsystem. -/
structure TickSys where
  /-- `KALTickers`. -/
  tickers : KalTickers
  /-- The threads that use them. -/
  threads : List TickPc
  /-- The count of `gfTickCallbackSem`. -/
  callbackSem : ℕ
  /-- The task. -/
  pc : TaskPc
  /-- The clock at the task's `OldUTCTime`. -/
  oldUTCTime : ℕ
  /-- The task's `uTimeout`. -/
  uTimeout : ℕ
  /-- The clock, in microseconds. -/
  clock : ℕ
  /-- The account of each ticker. -/
  account : ℕ → TickAccount

/-- A step. -/
inductive TickStep where
  /-- A thread goes on with a section. -/
  | call (tid : ℕ) (call : TickCall)
  /-- The task reads `OldUTCTime`. -/
  | readOld
  /-- The task calls `sk_sem_lock_timeout` on `gfTickCallbackSem`. -/
  | lock
  /-- The wait takes the semaphore. -/
  | wake
  /-- The wait fails: it is interrupted, or its deadline has passed. -/
  | interrupt
  /-- The task looks at `uTimeout`, and reads `OldUTCTime` again if it was infinite. -/
  | reread
  /-- The task locks the table and computes the elapsed time. -/
  | passStart
  /-- The task's wait for the table is interrupted: `kal_handle_time_timeouts` returns `SK_FAILED`. -/
  | passFail
  /-- The task handles the next ticker of the table. -/
  | handle
  /-- The task unlocks the table. -/
  | passEnd
  /-- The clock goes forward. -/
  | advance (microseconds : ℕ)

namespace TickSys

/-- The state after `init_os_tick_info`, with `n` threads outside every call. -/
def init (n : ℕ) : TickSys :=
  ⟨.init, List.replicate n .idle, 0, .top, 0, skTimeoutInfinity, 0, fun _ => .start 0⟩

/-- The accounts after a section, which may have started a ticker. -/
def startAccount (s : TickSys) : Option ℕ → ℕ → TickAccount
  | some i => Function.update s.account i (.start s.clock)
  | none => s.account

/-- The state after thread `tid` went through a section. -/
def afterSection (s : TickSys) (tid : ℕ) (r : SectionEnd) : TickSys :=
  { s with
    tickers := r.tickers
    threads := s.threads.set tid r.pc
    callbackSem := s.callbackSem + if r.started.isSome then 1 else 0
    account := s.startAccount r.started }

/-- The account of ticker `i` after its round. -/
def handledAccount (s : TickSys) (i uElapsedTime pass : ℕ) : TickAccount :=
  if (s.tickers i).IsDue uElapsedTime then .start s.clock
  else if (s.tickers i).IsStarted then (s.account i).charged s.oldUTCTime pass uElapsedTime
  else s.account i

/-- The round of ticker `i` in the loop of `kal_handle_time_timeouts`. -/
def handleTicker (s : TickSys) (i uElapsedTime uNextShortestTimeout pass : ℕ) :
    TickEvent × TickSys :=
  -- the callback sees the ticker as it was; `uTimeRemaining` is reset after it
  let k := s.tickers i
  let k' := k.handled uElapsedTime
  (if k.IsDue uElapsedTime then
      .called i k.pfnCallback k.pUserData (s.account i).since k.uTimeout s.clock
    else .silent,
    { s with
      tickers := Function.update s.tickers i k'
      pc := .handling (i + 1) uElapsedTime (k'.nextShortest uNextShortestTimeout) pass
      account := Function.update s.account i (s.handledAccount i uElapsedTime pass) })

/-- One step; `none` when it cannot be taken. -/
def step (w : ℕ) : StepMachine TickSys TickStep TickEvent
  | s, .call tid call =>
      if s.pc.holdsTable then none
      else
        -- the section has the table to itself
        match s.threads[tid]? with
        | none => none
        | some pc => (call.section s.tickers pc).map fun r => (r.event, s.afterSection tid r)
  | s, .readOld =>
      match s.pc with
      | .top => some (.silent, { s with oldUTCTime := s.clock, pc := .locking })
      | _ => none
  | s, .lock =>
      match s.pc with
      | .locking =>
          let call := skSemLockTimeout w (gettimeofday s.clock) s.uTimeout
          some (.silent, { s with pc := .waiting call s.clock })
      | _ => none
  | s, .wake =>
      match s.pc with
      | .waiting _ _ =>
          if 0 < s.callbackSem then
            some (.silent, { s with callbackSem := s.callbackSem - 1, pc := .woken (semLockStatus 0) })
          else none
      | _ => none
  | s, .interrupt =>
      match s.pc with
      | .waiting _ _ => some (.silent, { s with pc := .woken (semLockStatus (-1)) })
      | _ => none
  | s, .reread =>
      match s.pc with
      | .woken status =>
          some (.silent,
            { s with
              oldUTCTime := if s.uTimeout = skTimeoutInfinity then s.clock else s.oldUTCTime
              pc := if status = .success ∨ status = .errorTimeout then .ready else .top })
      | _ => none
  | s, .passStart =>
      match s.pc with
      | .ready =>
          -- the table is locked from here to `passEnd`
          let elapsed := internalElapsedTime w (gettimeofday s.oldUTCTime) (gettimeofday s.clock)
          some (.silent, { s with pc := .handling 0 elapsed skTimeoutInfinity s.clock })
      | _ => none
  | s, .passFail =>
      match s.pc with
      | .ready => some (.silent, { s with uTimeout := SkStatus.failed.toU32, pc := .top })
      | _ => none
  | s, .handle =>
      match s.pc with
      | .handling i elapsed shortest pass =>
          if i < maxTicksNum then some (s.handleTicker i elapsed shortest pass) else none
      | _ => none
  | s, .passEnd =>
      match s.pc with
      | .handling i _ shortest _ =>
          if i < maxTicksNum then none else some (.silent, { s with uTimeout := shortest, pc := .top })
      | _ => none
  | s, .advance microseconds => some (.silent, { s with clock := s.clock + microseconds })

end TickSys

/-! ## What a step can do -/

/-- What a step can do, with what is known when it does. -/
inductive TickActs (w : ℕ) (s : TickSys) : TickStep → TickEvent → TickSys → Prop where
  /-- A section. -/
  | call {tid : ℕ} {call : TickCall} {pc : TickPc} {r : SectionEnd} (hfree : s.pc.holdsTable = false)
      (hsection : call.section s.tickers pc = some r) :
      TickActs w s (.call tid call) r.event (s.afterSection tid r)
  /-- The reading of `OldUTCTime`. -/
  | readOld (hpc : s.pc = .top) :
      TickActs w s .readOld .silent { s with oldUTCTime := s.clock, pc := .locking }
  /-- The lock. -/
  | lock (hpc : s.pc = .locking) :
      TickActs w s .lock .silent { s with pc := .waiting .semWait s.clock }
  /-- The end of the wait with the semaphore. -/
  | wake {call : SemWait} {begun : ℕ} (hpc : s.pc = .waiting call begun) (hsem : 0 < s.callbackSem) :
      TickActs w s .wake .silent
        { s with callbackSem := s.callbackSem - 1, pc := .woken .success }
  /-- The end of the wait without it. -/
  | interrupt {call : SemWait} {begun : ℕ} (hpc : s.pc = .waiting call begun) :
      TickActs w s .interrupt .silent { s with pc := .woken .errorTimeout }
  /-- The look at `uTimeout`. -/
  | reread {status : SkStatus} {pc : TaskPc} (hpc : s.pc = .woken status)
      (hnext : pc = if status = .success ∨ status = .errorTimeout then .ready else .top) :
      TickActs w s .reread .silent
        { s with
          oldUTCTime := if s.uTimeout = skTimeoutInfinity then s.clock else s.oldUTCTime, pc := pc }
  /-- The start of a pass. -/
  | passStart {elapsed : ℕ} (hpc : s.pc = .ready) :
      TickActs w s .passStart .silent
        { s with pc := .handling 0 elapsed skTimeoutInfinity s.clock }
  /-- The failure of a pass. -/
  | passFail (hpc : s.pc = .ready) :
      TickActs w s .passFail .silent { s with uTimeout := SkStatus.failed.toU32, pc := .top }
  /-- A ticker of the pass. -/
  | handle {i elapsed shortest pass : ℕ} (hpc : s.pc = .handling i elapsed shortest pass)
      (hi : i < maxTicksNum) :
      TickActs w s .handle (s.handleTicker i elapsed shortest pass).1
        (s.handleTicker i elapsed shortest pass).2
  /-- The end of a pass. -/
  | passEnd {i elapsed shortest pass : ℕ} (hpc : s.pc = .handling i elapsed shortest pass)
      (hi : maxTicksNum ≤ i) :
      TickActs w s .passEnd .silent { s with uTimeout := shortest, pc := .top }
  /-- Time. -/
  | advance (microseconds : ℕ) :
      TickActs w s (.advance microseconds) .silent { s with clock := s.clock + microseconds }

namespace TickSys

variable {w : ℕ} {s t : TickSys} {i : TickStep} {o : TickEvent}

/-- **Every step is one of those listed.** -/
theorem step_acts (h : step w s i = some (o, t)) : TickActs w s i o t := by
  cases i with
  | call tid call =>
    simp only [step] at h
    split at h
    · cases h
    · rename_i hfree
      split at h
      · cases h
      · obtain ⟨r, hsection, heq⟩ := Option.map_eq_some_iff.mp h
        cases heq
        exact .call (Bool.eq_false_iff.mpr hfree) hsection
  | readOld =>
    simp only [step] at h
    split at h
    · cases h
      exact .readOld ‹_›
    · cases h
  | lock =>
    simp only [step, skSemLockTimeout_eq] at h
    split at h
    · cases h
      exact .lock ‹_›
    · cases h
  | wake =>
    simp only [step] at h
    split at h
    · split at h
      · cases h
        exact .wake ‹_› ‹_›
      · cases h
    · cases h
  | interrupt =>
    simp only [step] at h
    split at h
    · cases h
      exact .interrupt ‹_›
    · cases h
  | reread =>
    simp only [step] at h
    split at h
    · cases h
      exact .reread ‹_› rfl
    · cases h
  | passStart =>
    simp only [step] at h
    split at h
    · cases h
      exact .passStart ‹_›
    · cases h
  | passFail =>
    simp only [step] at h
    split at h
    · cases h
      exact .passFail ‹_›
    · cases h
  | handle =>
    simp only [step] at h
    split at h
    · split at h
      · cases h
        exact .handle ‹_› ‹_›
      · cases h
    · cases h
  | passEnd =>
    simp only [step] at h
    split at h
    · split at h
      · cases h
      · cases h
        exact .passEnd ‹_› (Nat.not_lt.mp ‹_›)
    · cases h
  | advance microseconds =>
    cases h
    exact .advance microseconds

/-- A section that starts a ticker opens its account. -/
theorem startAccount_self (s : TickSys) (i : ℕ) : s.startAccount (some i) i = .start s.clock := by
  rw [startAccount, Function.update_self]

/-- A section leaves the accounts of the tickers it does not start. -/
theorem startAccount_of_ne {started : Option ℕ} {i : ℕ} (h : started ≠ some i) :
    s.startAccount started i = s.account i := by
  cases started with
  | none => rfl
  | some j => exact Function.update_of_ne (fun hij : i = j => h (by rw [hij])) _ _

end TickSys

end SmIpc.Os
