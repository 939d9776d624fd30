import Mathlib.Logic.Function.Basic
import SmIpc.Os.Clock

/-! # The ticker table of `skyapi_time.c`

`KALTickers` and what each function does with it between locking and unlocking `gfTickTableSem`:
the sections of `sk_tick_create`, `sk_tick_destroy`, `sk_tick_set`, `sk_tick_start`, `sk_tick_stop`,
and what one round of the loop of `kal_handle_time_timeouts` does with a ticker.

* `TickCall.section` puts the sections together: what a thread at a given point of its call does next.
* `section_started` — a ticker that is started after a section was started before it with the same
  times, unless the section is one of `sk_tick_start` for it. -/

namespace SmIpc.Os

/-- `MAX_TICKS_NUM`. -/
def maxTicksNum : ℕ := 25

/-- `tickerState_t`. -/
inductive TickerState where
  /-- `TICKER_FREE`. -/
  | free
  /-- `TICKER_CREATED`. -/
  | created
  /-- `TICKER_SET`. -/
  | set
  /-- `TICKER_STARTED`. -/
  | started
  deriving DecidableEq, Repr

/-- `sk_tick_type_t`. -/
inductive TickType where
  /-- `SK_TICK_TYPE_PERIO`. -/
  | perio
  /-- `SK_TICK_TYPE_SINGLE`. -/
  | single
  deriving DecidableEq, Repr

/-- The value of the enumerator, as `bOneShot` stores it. -/
def TickType.toU8 : TickType → UInt8
  | perio => 0
  | single => 1

/-- `tickerElement_t`. -/
structure TickerElement where
  /-- Where the ticker stands. -/
  tickerState : TickerState
  /-- Set if the ticker stops after one callback. -/
  bOneShot : UInt8
  /-- The period in milliseconds. -/
  uTimeout : ℕ
  /-- The milliseconds to go. -/
  uTimeRemaining : ℕ
  /-- The address of the callback. -/
  pfnCallback : ℕ
  /-- What the callback is passed. -/
  pUserData : ℕ
  deriving DecidableEq, Repr

/-- The ticker is started. -/
def TickerElement.IsStarted (k : TickerElement) : Prop := k.tickerState = .started

instance (k : TickerElement) : Decidable k.IsStarted := inferInstanceAs (Decidable (_ = _))

/-- `KALTickers`, by index. -/
abbrev KalTickers := ℕ → TickerElement

/-- `KALTickers` after `init_os_tick_info`. -/
def KalTickers.init : KalTickers := fun _ => ⟨.free, 0, 0, 0, 0, 0⟩

/-! ## The sections of the calls -/

/-- The loop of `tick_find_free_table_and_lock`, with `n` slots to go from slot `i`: the first free
one. -/
def freeTickerLoop (tickers : KalTickers) : ℕ → ℕ → Option ℕ
  | 0, _ => none
  | n + 1, i =>
      if (tickers i).tickerState = .free then some i else freeTickerLoop tickers n (i + 1)

/-- `tick_find_free_table_and_lock`: the slot it reserves, or none with `SK_FAILED`. -/
def tickFindFreeTableAndLock (tickers : KalTickers) : Option ℕ × KalTickers :=
  match freeTickerLoop tickers maxTicksNum 0 with
  | some i => (some i, Function.update tickers i { tickers i with tickerState := .created })
  | none => (none, tickers)

/-- The slot `tick_find_free_table_and_lock` finds is free and in the table. -/
theorem freeTickerLoop_spec {tickers : KalTickers} {n i j : ℕ}
    (h : freeTickerLoop tickers n i = some j) :
    (tickers j).tickerState = .free ∧ j < i + n := by
  induction n generalizing i with
  | zero => cases h
  | succ n ih =>
    rw [freeTickerLoop] at h
    split at h
    · obtain rfl := Option.some.inj h
      exact ⟨‹_›, by omega⟩
    · obtain ⟨hfree, hlt⟩ := ih h
      exact ⟨hfree, by omega⟩

/-- The last section of `sk_tick_create`, for the slot it reserved. -/
def skTickCreateStore (tickers : KalTickers) (i tickPfn param : ℕ) : KalTickers :=
  Function.update tickers i { tickers i with pfnCallback := tickPfn, pUserData := param }

/-- `sk_tick_destroy`. -/
def skTickDestroy (tickers : KalTickers) (tickId : ℕ) : SkStatus × KalTickers :=
  if tickId < maxTicksNum then
    if (tickers tickId).tickerState = .free then (.errorBadParameter, tickers)
    else (.success, Function.update tickers tickId { tickers tickId with tickerState := .free })
  else (.errorBadParameter, tickers)

/-- `sk_tick_start`: its status, whether it posts `gfTickCallbackSem`, and the table. -/
def skTickStart (tickers : KalTickers) (tickId : ℕ) : SkStatus × Bool × KalTickers :=
  if tickId < maxTicksNum then
    if (tickers tickId).tickerState = .free then (.errorBadParameter, false, tickers)
    else if (tickers tickId).tickerState = .created then (.errorBadParameter, false, tickers)
    else
      (.success, true, Function.update tickers tickId
        { tickers tickId with
          uTimeRemaining := (tickers tickId).uTimeout, tickerState := .started })
  else (.errorBadParameter, false, tickers)

/-- `sk_tick_stop`. -/
def skTickStop (tickers : KalTickers) (tickId : ℕ) : SkStatus × KalTickers :=
  if tickId < maxTicksNum then
    if (tickers tickId).tickerState = .started then
      (.success, Function.update tickers tickId
        { tickers tickId with
          tickerState := .set, uTimeRemaining := (tickers tickId).uTimeout })
    else (.success, tickers)
  else (.errorBadParameter, tickers)

/-- The section of `sk_tick_set` that writes, for an id it has checked. -/
def skTickSetWrite (tickers : KalTickers) (tickId : ℕ) (tickType : TickType) (tickTimeMs : ℕ) :
    SkStatus × KalTickers :=
  if (tickers tickId).tickerState = .free then (.errorBadParameter, tickers)
  else
    (.success, Function.update tickers tickId
      { tickers tickId with
        uTimeout := tickTimeMs, uTimeRemaining := tickTimeMs, bOneShot := tickType.toU8,
        tickerState := .set })

/-- Where a thread stands in a call of several sections. -/
inductive TickPc where
  /-- Outside every call. -/
  | idle
  /-- In `sk_tick_create`, with slot `i` reserved; the section of `tick_store_name` in between writes
  only the name. -/
  | creating (i tickPfn param : ℕ)
  /-- In `sk_tick_set`, which found the ticker started and is about to call `sk_tick_stop`. -/
  | stopping (tickId : ℕ) (tickType : TickType) (tickTimeMs : ℕ)
  /-- In `sk_tick_set`, back from `sk_tick_stop`. -/
  | setting (tickId : ℕ) (tickType : TickType) (tickTimeMs : ℕ)
  /-- In `sk_tick_set`, about to call `sk_tick_start`; `status` is what it will return. -/
  | restarting (tickId : ℕ) (status : SkStatus)
  deriving DecidableEq, Repr

/-- A call, or the next section of the call a thread is in. -/
inductive TickCall where
  /-- `sk_tick_create`, up to the reservation of a slot. -/
  | create (tickPfn param : ℕ)
  /-- The last section of `sk_tick_create`. -/
  | store
  /-- `sk_tick_destroy`. -/
  | destroy (tickId : ℕ)
  /-- `sk_tick_start`. -/
  | start (tickId : ℕ)
  /-- `sk_tick_stop`. -/
  | stop (tickId : ℕ)
  /-- `sk_tick_set`, up to its return or the unlock before `sk_tick_stop`. -/
  | set (tickId : ℕ) (tickType : TickType) (tickTimeMs : ℕ)
  /-- The `sk_tick_stop` inside `sk_tick_set`. -/
  | setStop
  /-- The section of `sk_tick_set` after it. -/
  | setWrite
  /-- The `sk_tick_start` inside `sk_tick_set`. -/
  | setStart
  deriving DecidableEq, Repr

/-- What a call lets be seen, and what a callback does: the callback of ticker `id` is given the
reading at which the ticker was last started or called back, its period, and the current reading. -/
inductive TickEvent where
  /-- A call returned. -/
  | returned (status : SkStatus)
  /-- `sk_tick_create` returned `SK_SUCCESS` and stored this id. -/
  | created (tickId : ℕ)
  /-- `pfnCallback` was called. -/
  | called (tickId pfnCallback pUserData since uTimeout time : ℕ)
  /-- Nothing. -/
  | silent
  deriving DecidableEq, Repr

/-- What a section leads to. -/
structure SectionEnd where
  /-- What is seen. -/
  event : TickEvent
  /-- Where the thread stands. -/
  pc : TickPc
  /-- The table. -/
  tickers : KalTickers
  /-- The ticker `sk_tick_start` set running; `gfTickCallbackSem` was posted for it. -/
  started : Option ℕ

/-- A section of `sk_tick_start` that leads to `pc` with the event. -/
def startSection (tickers : KalTickers) (tickId : ℕ) (event : SkStatus → TickEvent) : SectionEnd :=
  let r := skTickStart tickers tickId
  ⟨event r.1, .idle, r.2.2, if r.2.1 then some tickId else none⟩

/-- The next section of a thread; `none` when the thread is elsewhere. -/
def TickCall.section (tickers : KalTickers) : TickPc → TickCall → Option SectionEnd
  | .idle, .create tickPfn param =>
      match tickFindFreeTableAndLock tickers with
      | (some i, tickers') => some ⟨.silent, .creating i tickPfn param, tickers', none⟩
      | (none, tickers') => some ⟨.returned .failed, .idle, tickers', none⟩
  | .creating i tickPfn param, .store =>
      some ⟨.created i, .idle, skTickCreateStore tickers i tickPfn param, none⟩
  | .idle, .destroy tickId =>
      let r := skTickDestroy tickers tickId
      some ⟨.returned r.1, .idle, r.2, none⟩
  | .idle, .start tickId => some (startSection tickers tickId .returned)
  | .idle, .stop tickId =>
      let r := skTickStop tickers tickId
      some ⟨.returned r.1, .idle, r.2, none⟩
  | .idle, .set tickId tickType tickTimeMs =>
      if tickId < maxTicksNum then
        -- `bRestart`: the table is unlocked before `sk_tick_stop` is called
        if (tickers tickId).IsStarted then
          some ⟨.silent, .stopping tickId tickType tickTimeMs, tickers, none⟩
        else
          let r := skTickSetWrite tickers tickId tickType tickTimeMs
          some ⟨.returned r.1, .idle, r.2, none⟩
      else some ⟨.returned .errorBadParameter, .idle, tickers, none⟩
  | .stopping tickId tickType tickTimeMs, .setStop =>
      some ⟨.silent, .setting tickId tickType tickTimeMs, (skTickStop tickers tickId).2, none⟩
  | .setting tickId tickType tickTimeMs, .setWrite =>
      -- whatever state the ticker is in by now
      let r := skTickSetWrite tickers tickId tickType tickTimeMs
      some ⟨.silent, .restarting tickId r.1, r.2, none⟩
  | .restarting tickId status, .setStart =>
      some (startSection tickers tickId fun _ => .returned status)
  | _, _ => none

/-! ## What a section leaves of a ticker -/

/-- **What a section can do to a ticker**: if it is started afterwards, then `started` names it and it
has its whole period to go, or it was started before, with the same times. -/
def StartedFrom (old : TickerElement) (starts : Prop) (new : TickerElement) : Prop :=
  new.IsStarted → starts ∧ new.uTimeRemaining = new.uTimeout ∨
    ¬ starts ∧ old.IsStarted ∧ new.uTimeout = old.uTimeout ∧ new.uTimeRemaining = old.uTimeRemaining

variable {tickers : KalTickers}

/-- A section that does not touch a ticker. -/
theorem StartedFrom.refl (k : TickerElement) {starts : Prop} (h : ¬ starts) :
    StartedFrom k starts k :=
  fun hs => .inr ⟨h, hs, rfl, rfl⟩

/-- A section that writes one ticker, which is not started afterwards. -/
theorem startedFrom_update {k : TickerElement} (hk : ¬ k.IsStarted) (j i : ℕ) :
    StartedFrom (tickers i) (none = some i) (Function.update tickers j k i) := by
  by_cases hij : i = j
  · subst hij
    rw [Function.update_self]
    exact fun hs => absurd hs hk
  · rw [Function.update_of_ne hij]
    exact .refl _ (by simp)

theorem startedFrom_create (i : ℕ) :
    StartedFrom (tickers i) (none = some i) ((tickFindFreeTableAndLock tickers).2 i) := by
  rw [tickFindFreeTableAndLock]
  split
  · exact startedFrom_update (by simp [TickerElement.IsStarted]) _ i
  · exact .refl _ (by simp)

theorem startedFrom_store (j tickPfn param i : ℕ) :
    StartedFrom (tickers i) (none = some i) (skTickCreateStore tickers j tickPfn param i) := by
  rw [skTickCreateStore]
  by_cases hij : i = j
  · subst hij
    rw [Function.update_self]
    exact fun hs => .inr ⟨by simp, hs, rfl, rfl⟩
  · rw [Function.update_of_ne hij]
    exact .refl _ (by simp)

theorem startedFrom_destroy (tickId i : ℕ) :
    StartedFrom (tickers i) (none = some i) ((skTickDestroy tickers tickId).2 i) := by
  rw [skTickDestroy]
  split
  · split
    · exact .refl _ (by simp)
    · exact startedFrom_update (by simp [TickerElement.IsStarted]) tickId i
  · exact .refl _ (by simp)

theorem startedFrom_stop (tickId i : ℕ) :
    StartedFrom (tickers i) (none = some i) ((skTickStop tickers tickId).2 i) := by
  rw [skTickStop]
  split
  · split
    · exact startedFrom_update (by simp [TickerElement.IsStarted]) tickId i
    · exact .refl _ (by simp)
  · exact .refl _ (by simp)

theorem startedFrom_write (tickId : ℕ) (tickType : TickType) (tickTimeMs i : ℕ) :
    StartedFrom (tickers i) (none = some i)
      ((skTickSetWrite tickers tickId tickType tickTimeMs).2 i) := by
  rw [skTickSetWrite]
  split
  · exact .refl _ (by simp)
  · exact startedFrom_update (by simp [TickerElement.IsStarted]) tickId i

theorem startedFrom_start (tickId i : ℕ) (event : SkStatus → TickEvent) :
    StartedFrom (tickers i) ((startSection tickers tickId event).started = some i)
      ((startSection tickers tickId event).tickers i) := by
  rw [startSection, skTickStart]
  split
  · split
    · exact .refl _ (by simp)
    · split
      · exact .refl _ (by simp)
      · by_cases hij : i = tickId
        · subst hij
          exact fun _ => .inl ⟨rfl, by simp⟩
        · simp only [Function.update_of_ne hij]
          exact .refl _ (by simpa using fun h => hij h.symm)
  · exact .refl _ (by simp)

/-- **A ticker that is started after a section** was started before it with the same times, unless
the section is one of `sk_tick_start` for it. -/
theorem section_started {pc : TickPc} {call : TickCall} {r : SectionEnd}
    (h : call.section tickers pc = some r) (i : ℕ) :
    StartedFrom (tickers i) (r.started = some i) (r.tickers i) := by
  unfold TickCall.section at h
  split at h
  · split at h <;> rename_i heq <;> cases h
    all_goals
      have hfind : StartedFrom (tickers i) (none = some i) ((tickFindFreeTableAndLock tickers).2 i) :=
        startedFrom_create i
      rw [heq] at hfind
      exact hfind
  · cases h
    exact startedFrom_store _ _ _ i
  · cases h
    exact startedFrom_destroy _ i
  · cases h
    exact startedFrom_start _ i _
  · cases h
    exact startedFrom_stop _ i
  · split at h
    · split at h
      · cases h
        exact .refl _ (by simp)
      · cases h
        exact startedFrom_write _ _ _ i
    · cases h
      exact .refl _ (by simp)
  · cases h
    exact startedFrom_stop _ i
  · cases h
    exact startedFrom_write _ _ _ i
  · cases h
    exact startedFrom_start _ i _
  · cases h

/-- A section calls nothing back. -/
theorem section_event {pc : TickPc} {call : TickCall} {r : SectionEnd}
    (h : call.section tickers pc = some r)
    (tickId pfnCallback pUserData since uTimeout time : ℕ) :
    r.event ≠ .called tickId pfnCallback pUserData since uTimeout time := by
  unfold TickCall.section at h
  split at h
  · split at h <;> cases h <;> simp
  · cases h
    simp
  · cases h
    simp
  · cases h
    simp [startSection]
  · cases h
    simp
  · split at h
    · split at h <;> cases h <;> simp
    · cases h
      simp
  · cases h
    simp
  · cases h
    simp
  · cases h
    simp [startSection]
  · cases h

/-! ## One ticker in a pass -/

namespace TickerElement

/-- The ticker is started and its time has run out. -/
def IsDue (k : TickerElement) (uElapsedTime : ℕ) : Prop :=
  k.IsStarted ∧ k.uTimeRemaining ≤ uElapsedTime

instance (k : TickerElement) (uElapsedTime : ℕ) : Decidable (k.IsDue uElapsedTime) :=
  inferInstanceAs (Decidable (_ ∧ _))

/-- The ticker after its round in the loop of `kal_handle_time_timeouts`. -/
def handled (k : TickerElement) (uElapsedTime : ℕ) : TickerElement :=
  if k.IsStarted then
    if k.uTimeRemaining ≤ uElapsedTime then
      { k with
        tickerState := if k.bOneShot ≠ 0 then .set else k.tickerState
        uTimeRemaining := k.uTimeout }
    else { k with uTimeRemaining := k.uTimeRemaining - uElapsedTime }
  else k

/-- `uNextShortestTimeout` after the round, from the ticker as the round leaves it. -/
def nextShortest (k : TickerElement) (uNextShortestTimeout : ℕ) : ℕ :=
  if k.IsStarted ∧ k.uTimeRemaining < uNextShortestTimeout then k.uTimeRemaining
  else uNextShortestTimeout

/-- The shortest time-out is at most what a started ticker has to go, and no more than it was. -/
theorem nextShortest_le (k : TickerElement) (m : ℕ) :
    k.nextShortest m ≤ m ∧ (k.IsStarted → k.nextShortest m ≤ k.uTimeRemaining) := by
  rw [nextShortest]
  split
  · exact ⟨by omega, fun _ => Nat.le_refl _⟩
  · rename_i h
    exact ⟨Nat.le_refl _, fun hs => Nat.not_lt.mp fun hlt => h ⟨hs, hlt⟩⟩

end TickerElement

end SmIpc.Os
