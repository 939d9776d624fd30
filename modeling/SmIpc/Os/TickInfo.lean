import SmIpc.Os.TickHistory

/-! # What `sk_tick_get_info` reports

`sk_tick_get_info` stores the internal state of the ticker where the caller expects an
`sk_tick_status_t`, and the two enumerations number their values differently.

* `InfoTrue` — what is reported is the history of the ticker: whether it exists, whether it runs, and
  the type and period of its latest `sk_tick_set`.
* `tickInfo_false` — the type and the period are right and the status never is
  (`tickInfo_set_not_exist`). -/

namespace SmIpc.Os

open History (about)

/-- `sk_tick_status_t`. -/
inductive TickStatus where
  /-- `SK_TICK_STOP_STATUS`. -/
  | stop
  /-- `SK_TICK_RUN_STATUS`. -/
  | run
  /-- `SK_TICK_NOT_EXIST`. -/
  | notExist
  deriving DecidableEq, Repr

/-- The value of the enumerator. -/
def TickStatus.toNat : TickStatus → ℕ
  | stop => 0
  | run => 1
  | notExist => 2

/-- The value of the enumerator of `tickerState_t`. -/
def TickerState.toNat : TickerState → ℕ
  | free => 0
  | created => 1
  | set => 2
  | started => 3

/-- What `sk_tick_get_info` stores through its three pointers. -/
structure TickInfo where
  /-- `*p_tick_type`. -/
  tickType : UInt8
  /-- `*p_tick_time_ms`. -/
  tickTimeMs : ℕ
  /-- `*p_tick_status`. -/
  tickStatus : ℕ
  deriving DecidableEq, Repr

/-- `sk_tick_get_info`; `anyNull` says that one of the three pointers is NULL. -/
def skTickGetInfo (tickers : KalTickers) (tickId : ℕ) (anyNull : Bool) : SkStatus × Option TickInfo :=
  if anyNull then (.errorBadParameter, none)
  else if tickId < maxTicksNum then
    -- the state is stored as it is
    (.success, some ⟨(tickers tickId).bOneShot, (tickers tickId).uTimeout,
      (tickers tickId).tickerState.toNat⟩)
  else (.errorBadParameter, none)

/-- **What should be reported** of a ticker with this history: that it does not exist, that it runs or
that it is stopped, each exactly when that is so; and, if it was set, its latest type and period. -/
structure InfoTrue (log : List TickAct) (info : TickInfo) : Prop where
  /-- Not existing. -/
  notExist : info.tickStatus = TickStatus.notExist.toNat ↔ ¬ TickAct.Exists log
  /-- Running. -/
  run : info.tickStatus = TickStatus.run.toNat ↔ TickAct.Exists log ∧ TickAct.Running log
  /-- Stopped. -/
  stop : info.tickStatus = TickStatus.stop.toNat ↔ TickAct.Exists log ∧ ¬ TickAct.Running log
  /-- The type and the period. -/
  config : ∀ ty ms, TickAct.LastSet ty ms log → info.tickType = ty.toU8 ∧ info.tickTimeMs = ms

/-- **The status reported is never the true one**, and the type and the period always are: after every
run, for every id of the table. A free slot is reported as stopped, a created one as running, a set one as
not existing, and a started one with a value that is none of the three. -/
theorem tickInfo_false (n : ℕ) (steps : List TableStep) (logs : List (List (ℕ × TickAct)))
    (s : TickTable)
    (hrun : StepMachine.run TickTable.step (TickTable.init n) steps = some (logs, s))
    (tickId : ℕ) (hid : tickId < maxTicksNum) :
    ∃ info, skTickGetInfo s.tickers tickId false = (.success, some info) ∧
      ¬ InfoTrue (about tickId logs.flatten) info ∧
      ∀ ty ms, TickAct.LastSet ty ms (about tickId logs.flatten) →
        info.tickType = ty.toU8 ∧ info.tickTimeMs = ms := by
  have hslot := (TickTable.run_good hrun).1 tickId
  refine ⟨_, by rw [skTickGetInfo, if_neg Bool.false_ne_true, if_pos hid], ?_, hslot.lastSet⟩
  intro htrue
  cases hstate : (s.tickers tickId).tickerState with
  | free =>
    -- 0 is `SK_TICK_STOP_STATUS`
    have hexists := (htrue.stop.mp (by rw [hstate]; rfl)).1
    exact hslot.exists_iff.mpr hexists hstate
  | created =>
    -- 1 is `SK_TICK_RUN_STATUS`
    exact hslot.notRunning (.inr hstate) (htrue.run.mp (by rw [hstate]; rfl)).2
  | set =>
    -- 2 is `SK_TICK_NOT_EXIST`
    refine htrue.notExist.mp (by rw [hstate]; rfl) (hslot.exists_iff.mp ?_)
    rw [hstate]
    exact TickerState.noConfusion
  | started =>
    -- 3 is nothing
    have hexists : TickAct.Exists (about tickId logs.flatten) := by
      refine hslot.exists_iff.mp ?_
      rw [hstate]
      exact TickerState.noConfusion
    have hstatus := htrue.run.mpr ⟨hexists, hslot.running hstate⟩
    rw [hstate] at hstatus
    have heq : TickerState.started.toNat = TickStatus.run.toNat := hstatus
    exact absurd heq (by decide)

/-- The report for a ticker that is created, set and started is false. -/
theorem tickInfo_false_started :
    ∃ info, skTickGetInfo (Function.update KalTickers.init 0 ⟨.started, 0, 100, 100, 7, 9⟩) 0 false =
        (.success, some info) ∧
      ¬ InfoTrue [.reserved, .configured .perio 100, .started] info := by
  obtain ⟨info, hinfo, hfalse, -⟩ := tickInfo_false 1
    [.call 0 (.create 7 9), .call 0 .store, .call 0 (.set 0 .perio 100), .call 0 (.start 0)] _ _ rfl
    0 (by decide)
  exact ⟨info, hinfo, hfalse⟩

/-- **A ticker that is set is reported as not existing**: a ticker is created and set to 100 ms. -/
theorem tickInfo_set_not_exist :
    ∃ logs s, StepMachine.run TickTable.step (TickTable.init 1)
        [.call 0 (.create 7 9), .call 0 .store, .call 0 (.set 0 .perio 100)] = some (logs, s) ∧
      skTickGetInfo s.tickers 0 false = (.success, some ⟨0, 100, TickStatus.notExist.toNat⟩) ∧
      ¬ InfoTrue (about 0 logs.flatten) ⟨0, 100, TickStatus.notExist.toNat⟩ := by
  refine ⟨_, _, rfl, rfl, ?_⟩
  intro htrue
  refine htrue.notExist.mp rfl ?_
  show TickAct.Exists ([.reserved] ++ [.configured .perio 100])
  have hreserved : TickAct.Exists ([] ++ [.reserved]) := TickAct.exists_snoc.mpr (.inl rfl)
  exact TickAct.exists_snoc.mpr (.inr ⟨hreserved, by decide⟩)

end SmIpc.Os
