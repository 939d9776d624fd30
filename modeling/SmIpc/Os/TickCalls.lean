import SmIpc.Lib.Linearizable
import SmIpc.Lib.Machine
import SmIpc.Os.Ticker

/-! # Whole calls on the tickers, and their sections

`sk_tick_create`, `sk_tick_destroy`, `sk_tick_set`, `sk_tick_start` and `sk_tick_stop` made whole, one
after the other, and by any number of threads, section by section. `sk_tick_set` of a running ticker
gives the table up twice: it stops the ticker, writes it, and starts it again whatever has happened to it
in between. `sk_tick_create` gives it up between reserving a slot and storing the callback.

* `TickOp.exec` is a whole call.
* `TickApi.step` is one section of a thread. Beside the program there is a record of what the calls made
  so far say (`running`, `reservedBy`); no section looks at it.
* `TickApi.Sound` is the condition on a section: the `sk_tick_start` inside `sk_tick_set` finds no
  ticker that the calls have stopped, and `sk_tick_create` does not store its callback over that of
  a later reservation.
* `TickerElement.asCalled` is a ticker as the calls have it, and `Agrees` what the table has to do with
  it; each section is one change of one ticker (`skTickStart_eq` and so on), and the same change of it as
  the calls have it (`Agrees.startNow_asCalled` and so on). -/

namespace SmIpc.Os

open Linearizable (CallEvent)

/-! ## Whole calls -/

/-- A call. -/
inductive TickOp where
  /-- `sk_tick_create`. -/
  | create (tickPfn param : ℕ)
  /-- `sk_tick_destroy`. -/
  | destroy (tickId : ℕ)
  /-- `sk_tick_start`. -/
  | start (tickId : ℕ)
  /-- `sk_tick_stop`. -/
  | stop (tickId : ℕ)
  /-- `sk_tick_set`. -/
  | set (tickId : ℕ) (tickType : TickType) (tickTimeMs : ℕ)
  deriving DecidableEq, Repr

/-- What a call returns. -/
inductive TickResult where
  /-- The status. -/
  | status (status : SkStatus)
  /-- `SK_SUCCESS` of `sk_tick_create`, with the id it stored. -/
  | created (tickId : ℕ)
  deriving DecidableEq, Repr

/-- `sk_tick_create` without a break. -/
def skTickCreate (tickers : KalTickers) (tickPfn param : ℕ) : TickResult × KalTickers :=
  match tickFindFreeTableAndLock tickers with
  | (some i, tickers') => (.created i, skTickCreateStore tickers' i tickPfn param)
  | (none, tickers') => (.status .failed, tickers')

/-- `sk_tick_set` without a break. -/
def skTickSet (tickers : KalTickers) (tickId : ℕ) (tickType : TickType) (tickTimeMs : ℕ) :
    SkStatus × KalTickers :=
  if tickId < maxTicksNum then
    if (tickers tickId).IsStarted then
      let r := skTickSetWrite (skTickStop tickers tickId).2 tickId tickType tickTimeMs
      (r.1, (skTickStart r.2 tickId).2.2)
    else skTickSetWrite tickers tickId tickType tickTimeMs
  else (.errorBadParameter, tickers)

/-- A whole call. -/
def TickOp.exec (tickers : KalTickers) : TickOp → TickResult × KalTickers
  | .create tickPfn param => skTickCreate tickers tickPfn param
  | .destroy tickId =>
      let r := skTickDestroy tickers tickId
      (.status r.1, r.2)
  | .start tickId =>
      let r := skTickStart tickers tickId
      (.status r.1, r.2.2)
  | .stop tickId =>
      let r := skTickStop tickers tickId
      (.status r.1, r.2)
  | .set tickId tickType tickTimeMs =>
      let r := skTickSet tickers tickId tickType tickTimeMs
      (.status r.1, r.2)

/-! ## Threads -/

/-- The call a first section belongs to. -/
def TickCall.op : TickCall → Option TickOp
  | .create tickPfn param => some (.create tickPfn param)
  | .destroy tickId => some (.destroy tickId)
  | .start tickId => some (.start tickId)
  | .stop tickId => some (.stop tickId)
  | .set tickId tickType tickTimeMs => some (.set tickId tickType tickTimeMs)
  | _ => none

/-- What a last section returns. -/
def TickEvent.result : TickEvent → Option TickResult
  | .returned status => some (.status status)
  | .created tickId => some (.created tickId)
  | _ => none

/-- The table, the threads, and what the calls made so far say. -/
structure TickApi where
  /-- `KALTickers`. -/
  tickers : KalTickers
  /-- The threads. -/
  threads : List TickPc
  /-- A `sk_tick_start` succeeded for the ticker, and there was no `sk_tick_stop` or `sk_tick_destroy`
  for it since. -/
  running : ℕ → Bool
  /-- The thread that last reserved the slot. -/
  reservedBy : ℕ → ℕ

namespace TickApi

/-- The state after `init_os_tick_info`, with `n` threads outside every call. -/
def init (n : ℕ) : TickApi := ⟨.init, List.replicate n .idle, fun _ => false, fun _ => 0⟩

/-- `running` after a section. -/
def runningAfter (s : TickApi) : TickCall → ℕ → Bool
  | .start tickId =>
      if (skTickStart s.tickers tickId).1 = .success then Function.update s.running tickId true
      else s.running
  | .stop tickId =>
      if (skTickStop s.tickers tickId).1 = .success then Function.update s.running tickId false
      else s.running
  | .destroy tickId =>
      if (skTickDestroy s.tickers tickId).1 = .success then Function.update s.running tickId false
      else s.running
  | _ => s.running

/-- `reservedBy` after a section. -/
def reservedAfter (s : TickApi) (tid : ℕ) : TickCall → ℕ → ℕ
  | .create _ _ =>
      match (tickFindFreeTableAndLock s.tickers).1 with
      | some i => Function.update s.reservedBy i tid
      | none => s.reservedBy
  | _ => s.reservedBy

/-- The events of a section: the call is made, the call returns. -/
def events (tid : ℕ) (call : TickCall) (r : SectionEnd) : List (CallEvent TickOp TickResult) :=
  (call.op.map fun op => CallEvent.invoke tid op).toList ++
    (r.event.result.map fun result => CallEvent.respond tid result).toList

/-- One section of a thread; `none` when it cannot be entered. -/
def step : StepMachine TickApi (ℕ × TickCall) (List (CallEvent TickOp TickResult))
  | s, (tid, call) =>
      match s.threads[tid]? with
      | none => none
      | some pc =>
          (call.section s.tickers pc).map fun r =>
            (events tid call r,
              { tickers := r.tickers
                threads := s.threads.set tid r.pc
                running := s.runningAfter call
                reservedBy := s.reservedAfter tid call })

/-- **The condition on a section.** `sk_tick_set` restarts a ticker only if `sk_tick_start` has
succeeded for it with no `sk_tick_stop` or `sk_tick_destroy` since; and `sk_tick_create` stores its
callback in its slot only if it has the latest reservation of the slot, or the latest has still to store
its own. -/
def Sound (s : TickApi) : ℕ × TickCall → Prop
  | (tid, .setStart) =>
      ∀ tickId status, s.threads[tid]? = some (.restarting tickId status) →
        (s.tickers tickId).tickerState = .set ∨ (s.tickers tickId).tickerState = .started →
        s.running tickId = true
  | (tid, .store) =>
      ∀ i tickPfn param, s.threads[tid]? = some (.creating i tickPfn param) →
        s.reservedBy i = tid ∨ ∃ f p, s.threads[s.reservedBy i]? = some (.creating i f p)
  | _ => True

end TickApi

/-! ## One ticker -/

namespace TickerElement

/-- The ticker after `sk_tick_destroy`. -/
def released (k : TickerElement) : TickerElement := { k with tickerState := .free }

/-- The ticker after `sk_tick_start`. -/
def startNow (k : TickerElement) : TickerElement :=
  if k.tickerState = .free ∨ k.tickerState = .created then k
  else { k with uTimeRemaining := k.uTimeout, tickerState := .started }

/-- `sk_tick_start` leaves no ticker set. -/
theorem startNow_ne_set (k : TickerElement) : k.startNow.tickerState ≠ .set := by
  intro hset
  rw [startNow] at hset
  split at hset
  · rename_i hk
    simp [hset] at hk
  · cases hset

/-- The ticker after `sk_tick_stop`. -/
def stopNow (k : TickerElement) : TickerElement :=
  if k.tickerState = .started then { k with tickerState := .set, uTimeRemaining := k.uTimeout } else k

/-- The ticker after a write of `sk_tick_set`. -/
def written (k : TickerElement) (tickType : TickType) (tickTimeMs : ℕ) : TickerElement :=
  if k.tickerState = .free then k
  else
    { k with
      uTimeout := tickTimeMs, uTimeRemaining := tickTimeMs, bOneShot := tickType.toU8,
      tickerState := .set }

/-- The ticker after `sk_tick_set`. -/
def setNow (k : TickerElement) (tickType : TickType) (tickTimeMs : ℕ) : TickerElement :=
  if k.tickerState = .started then ((k.stopNow).written tickType tickTimeMs).startNow
  else k.written tickType tickTimeMs

/-- The ticker as the calls have it: it is started if they say that it runs, and has the callback that
is on its way. -/
def asCalled (k : TickerElement) (running : Bool) (callback : Option (ℕ × ℕ)) : TickerElement :=
  { k with
    tickerState := if running then .started else k.tickerState
    pfnCallback := (callback.map Prod.fst).getD k.pfnCallback
    pUserData := (callback.map Prod.snd).getD k.pUserData }

/-- What the table and the calls have to do with each other at one ticker. -/
structure Agrees (k : TickerElement) (running : Bool) : Prop where
  /-- A ticker that runs is set or started. -/
  set_or_started : running = true → k.tickerState = .set ∨ k.tickerState = .started
  /-- A ticker that is started runs. -/
  started : k.tickerState = .started → running = true
  /-- A ticker that is set or started has its whole period to go. -/
  full : k.tickerState = .set ∨ k.tickerState = .started → k.uTimeRemaining = k.uTimeout

variable {k : TickerElement} {running : Bool} {callback : Option (ℕ × ℕ)}

/-- A free ticker does not run. -/
theorem Agrees.eq_false_of_free (h : k.Agrees running) (hfree : k.tickerState = .free) :
    running = false := by
  cases running with
  | false => rfl
  | true => rcases h.set_or_started rfl with hs | hs <;> simp [hs] at hfree

/-- A ticker is free as the calls have it exactly if it is. -/
theorem Agrees.free_iff (h : k.Agrees running) :
    (k.asCalled running callback).tickerState = .free ↔ k.tickerState = .free := by
  cases running with
  | false => rfl
  | true => rcases h.set_or_started rfl with hs | hs <;> simp [asCalled, hs]

/-- A ticker is created as the calls have it exactly if it is. -/
theorem Agrees.created_iff (h : k.Agrees running) :
    (k.asCalled running callback).tickerState = .created ↔ k.tickerState = .created := by
  cases running with
  | false => rfl
  | true => rcases h.set_or_started rfl with hs | hs <;> simp [asCalled, hs]

theorem Agrees.released_asCalled : (k.asCalled running callback).released =
    k.released.asCalled false callback := rfl

theorem Agrees.startNow_asCalled (h : k.Agrees running) :
    (k.asCalled running callback).startNow =
      k.startNow.asCalled
        (if k.tickerState = .free ∨ k.tickerState = .created then running else true) callback := by
  by_cases hk : k.tickerState = .free ∨ k.tickerState = .created
  · rw [if_pos hk, startNow, if_pos (by rwa [h.free_iff, h.created_iff]), startNow, if_pos hk]
  · rw [if_neg hk, startNow, if_neg (by rwa [h.free_iff, h.created_iff]), startNow, if_neg hk]
    rfl

theorem Agrees.stopNow_asCalled (h : k.Agrees running) :
    (k.asCalled running callback).stopNow = k.stopNow.asCalled false callback := by
  cases running with
  | false =>
    have hnot : k.tickerState ≠ .started := fun hs => Bool.false_ne_true (h.started hs)
    rw [stopNow, if_neg (show (k.asCalled false callback).tickerState ≠ .started from hnot), stopNow,
      if_neg hnot]
  | true =>
    rw [stopNow, if_pos (show (k.asCalled true callback).tickerState = .started from rfl), stopNow]
    rcases h.set_or_started rfl with hs | hs
    · -- the ticker was stopped and not yet started again by `sk_tick_set`
      rw [if_neg (by simp [hs])]
      simp [asCalled, hs, h.full (.inl hs)]
    · rw [if_pos hs]
      rfl

theorem Agrees.setNow_asCalled (h : k.Agrees running) (tickType : TickType) (tickTimeMs : ℕ) :
    (k.asCalled running callback).setNow tickType tickTimeMs =
      (k.written tickType tickTimeMs).asCalled running callback := by
  cases running with
  | false =>
    have hnot : k.tickerState ≠ .started := fun hs => Bool.false_ne_true (h.started hs)
    rw [setNow, if_neg (show (k.asCalled false callback).tickerState ≠ .started from hnot), written,
      written]
    split
    · rw [if_pos (show k.tickerState = .free from ‹_›)]
    · rw [if_neg (show k.tickerState ≠ .free from ‹_›)]
      rfl
  | true =>
    have hused : k.tickerState ≠ .free := by
      rcases h.set_or_started rfl with hs | hs <;> simp [hs]
    rw [setNow, if_pos (show (k.asCalled true callback).tickerState = .started from rfl)]
    simp [stopNow, written, startNow, asCalled, hused]

theorem Agrees.released : (k.released).Agrees false := by
  constructor <;> simp [TickerElement.released]

/-- The `sk_tick_stop` inside `sk_tick_set` changes nothing as the calls have it. -/
theorem Agrees.asCalled_stopNow (h : k.Agrees running) :
    k.stopNow.asCalled running callback = k.asCalled running callback := by
  rw [TickerElement.stopNow]
  split
  · rename_i hs
    rw [h.started hs]
    simp [asCalled, h.full (.inr hs)]
  · rfl

/-- Neither does the `sk_tick_start` inside it, if the ticker runs. -/
theorem Agrees.asCalled_startNow (h : k.Agrees running)
    (hrun : k.tickerState = .set ∨ k.tickerState = .started → running = true) :
    k.startNow.asCalled running callback = k.asCalled running callback := by
  rw [TickerElement.startNow]
  split
  · rfl
  · rename_i hs
    have hset : k.tickerState = .set ∨ k.tickerState = .started := by
      cases hstate : k.tickerState <;> simp_all
    rw [hrun hset]
    simp [asCalled, h.full hset]

theorem Agrees.stopNow (h : k.Agrees running) : k.stopNow.Agrees false := by
  rw [TickerElement.stopNow]
  split
  · constructor <;> simp
  · exact ⟨by simp, fun hs => absurd hs ‹_›, h.full⟩

/-- The `sk_tick_stop` inside `sk_tick_set` is no call. -/
theorem Agrees.stopNow_inside (h : k.Agrees running) : k.stopNow.Agrees running := by
  rw [TickerElement.stopNow]
  split
  · constructor <;> simp
  · exact h

theorem Agrees.written (h : k.Agrees running) (tickType : TickType) (tickTimeMs : ℕ) :
    (k.written tickType tickTimeMs).Agrees running := by
  rw [TickerElement.written]
  split
  · exact h
  · constructor <;> simp

theorem Agrees.startNow (h : k.Agrees running) :
    k.startNow.Agrees
      (if k.tickerState = .free ∨ k.tickerState = .created then running else true) := by
  rw [TickerElement.startNow]
  split
  · exact h
  · constructor <;> simp

end TickerElement

/-! ## The sections as changes of one ticker -/

variable {tickers : KalTickers} {tickId : ℕ}

theorem skTickDestroy_eq (hid : tickId < maxTicksNum) :
    skTickDestroy tickers tickId =
      (if (tickers tickId).tickerState = .free then .errorBadParameter else .success,
        Function.update tickers tickId (tickers tickId).released) := by
  rw [skTickDestroy, if_pos hid]
  split
  · rename_i hfree
    have hsame : (tickers tickId).released = tickers tickId := by
      rw [TickerElement.released, ← hfree]
    rw [hsame, Function.update_eq_self]
  · rfl

theorem skTickStart_eq (hid : tickId < maxTicksNum) :
    skTickStart tickers tickId =
      (if (tickers tickId).tickerState = .free ∨ (tickers tickId).tickerState = .created then
          .errorBadParameter else .success,
        ! decide ((tickers tickId).tickerState = .free ∨ (tickers tickId).tickerState = .created),
        Function.update tickers tickId (tickers tickId).startNow) := by
  rw [skTickStart, if_pos hid]
  by_cases hfree : (tickers tickId).tickerState = .free
  · simp [hfree, TickerElement.startNow]
  · by_cases hcreated : (tickers tickId).tickerState = .created
    · simp [hcreated, TickerElement.startNow]
    · simp [hfree, hcreated, TickerElement.startNow]

theorem skTickStop_eq (hid : tickId < maxTicksNum) :
    skTickStop tickers tickId =
      (.success, Function.update tickers tickId (tickers tickId).stopNow) := by
  rw [skTickStop, if_pos hid, TickerElement.stopNow]
  split
  · rfl
  · rw [Function.update_eq_self]

theorem skTickSetWrite_eq (tickType : TickType) (tickTimeMs : ℕ) :
    skTickSetWrite tickers tickId tickType tickTimeMs =
      (if (tickers tickId).tickerState = .free then .errorBadParameter else .success,
        Function.update tickers tickId ((tickers tickId).written tickType tickTimeMs)) := by
  rw [skTickSetWrite, TickerElement.written]
  split
  · rw [Function.update_eq_self]
  · rfl

theorem snd_skTickSetWrite (tickType : TickType) (tickTimeMs : ℕ) :
    (skTickSetWrite tickers tickId tickType tickTimeMs).2 =
      Function.update tickers tickId ((tickers tickId).written tickType tickTimeMs) := by
  rw [skTickSetWrite_eq]

theorem skTickSet_eq (hid : tickId < maxTicksNum) (tickType : TickType) (tickTimeMs : ℕ) :
    skTickSet tickers tickId tickType tickTimeMs =
      (if (tickers tickId).tickerState = .free then .errorBadParameter else .success,
        Function.update tickers tickId ((tickers tickId).setNow tickType tickTimeMs)) := by
  rw [skTickSet, if_pos hid, TickerElement.setNow]
  by_cases hstarted : (tickers tickId).tickerState = .started
  · have hstop : (tickers tickId).stopNow.tickerState ≠ .free := by
      simp [TickerElement.stopNow, hstarted]
    rw [if_pos hstarted, if_pos (show (tickers tickId).IsStarted from hstarted), skTickStop_eq hid]
    simp only [skTickSetWrite_eq, skTickStart_eq hid, Function.update_self, Function.update_idem]
    rw [if_neg hstop, if_neg (by simp [hstarted])]
  · rw [if_neg hstarted, if_neg (show ¬ (tickers tickId).IsStarted from hstarted),
      skTickSetWrite_eq]

/-- The first free slot depends only on which slots are free. -/
theorem freeTickerLoop_congr {tickers' : KalTickers}
    (h : ∀ i, (tickers' i).tickerState = .free ↔ (tickers i).tickerState = .free) (n i : ℕ) :
    freeTickerLoop tickers' n i = freeTickerLoop tickers n i := by
  induction n generalizing i with
  | zero => rfl
  | succ n ih =>
    rw [freeTickerLoop, freeTickerLoop, ih]
    exact if_congr (h i) rfl rfl

end SmIpc.Os
