import SmIpc.Lib.History
import SmIpc.Lib.Machine
import SmIpc.Lib.ThreadPool
import SmIpc.Os.Ticker

/-! # The ticker table under its calls and passes

Any number of threads calling the `sk_tick_*` functions, with any ids, and passes of
`kal_handle_time_timeouts` over the table. A section of a call is one step, and so is a pass, which
holds `gfTickTableSem` from its first ticker to its last; a pass can measure any elapsed time. The
callbacks do not call `sk_tick_*`.

* `kalHandleTimeTimeouts` is a whole pass: `handleLoop_ticker` and `about_handleLoop` say what it does
  to each ticker.
* `TickTable.step` is one step. It shows what was done to which ticker, in words of the interface
  (`TickAct`).
* `SlotStep` lists what can be done to one ticker, and `TickTable.step_slot` says that every step does
  one of these to every ticker. -/

namespace SmIpc.Os

/-! ## A whole pass -/

/-- A callback made by a pass. -/
structure Callback where
  /-- The ticker. -/
  tickId : ℕ
  /-- The address of the callback. -/
  pfnCallback : ℕ
  /-- What it is passed. -/
  pUserData : ℕ
  deriving DecidableEq, Repr

/-- The loop of `kal_handle_time_timeouts`, with `n` tickers to go from ticker `uTickTblIdx`: the
callbacks, the shortest time-out and the table. -/
def handleLoop (uElapsedTime : ℕ) : ℕ → ℕ → KalTickers → ℕ → List Callback × ℕ × KalTickers
  | 0, _, tickers, uNextShortestTimeout => ([], uNextShortestTimeout, tickers)
  | n + 1, i, tickers, uNextShortestTimeout =>
      let k := tickers i
      let k' := k.handled uElapsedTime
      let r := handleLoop uElapsedTime n (i + 1) (Function.update tickers i k')
        (k'.nextShortest uNextShortestTimeout)
      (if k.IsDue uElapsedTime then ⟨i, k.pfnCallback, k.pUserData⟩ :: r.1 else r.1, r.2)

/-- `kal_handle_time_timeouts` under the table lock. -/
def kalHandleTimeTimeouts (tickers : KalTickers) (uElapsedTime : ℕ) :
    List Callback × ℕ × KalTickers :=
  handleLoop uElapsedTime maxTicksNum 0 tickers skTimeoutInfinity

/-! ## What is done to a ticker -/

/-- What is done to a ticker, in words of the interface. -/
inductive TickAct where
  /-- `sk_tick_create` reserved it. -/
  | reserved
  /-- `sk_tick_destroy` gave it back. -/
  | released
  /-- `sk_tick_set` gave it a type and a period. -/
  | configured (tickType : TickType) (tickTimeMs : ℕ)
  /-- `sk_tick_start` set it running. -/
  | started
  /-- `sk_tick_stop` was called for it. -/
  | stopped
  /-- A pass called it back. -/
  | called
  deriving DecidableEq, Repr

/-- What a section does, and to which ticker. A call that is refused does nothing. -/
def TickCall.acts (tickers : KalTickers) : TickPc → TickCall → List (ℕ × TickAct)
  | .idle, .create _ _ =>
      match (tickFindFreeTableAndLock tickers).1 with
      | some i => [(i, .reserved)]
      | none => []
  | .idle, .destroy tickId =>
      if (skTickDestroy tickers tickId).1 = .success then [(tickId, .released)] else []
  | .idle, .start tickId =>
      if (skTickStart tickers tickId).1 = .success then [(tickId, .started)] else []
  | .idle, .stop tickId =>
      if (skTickStop tickers tickId).1 = .success then [(tickId, .stopped)] else []
  | .idle, .set tickId tickType tickTimeMs =>
      if tickId < maxTicksNum ∧ ¬ (tickers tickId).IsStarted ∧
          (skTickSetWrite tickers tickId tickType tickTimeMs).1 = .success then
        [(tickId, .configured tickType tickTimeMs)]
      else []
  | .stopping tickId _ _, .setStop =>
      if (skTickStop tickers tickId).1 = .success then [(tickId, .stopped)] else []
  | .setting tickId tickType tickTimeMs, .setWrite =>
      if (skTickSetWrite tickers tickId tickType tickTimeMs).1 = .success then
        [(tickId, .configured tickType tickTimeMs)]
      else []
  | .restarting tickId _, .setStart =>
      if (skTickStart tickers tickId).1 = .success then [(tickId, .started)] else []
  | _, _ => []

/-! ## States and steps -/

/-- The table and the threads that use it. -/
structure TickTable where
  /-- `KALTickers`. -/
  tickers : KalTickers
  /-- The threads. -/
  threads : List TickPc

/-- A step. -/
inductive TableStep where
  /-- A thread goes on with a section. -/
  | call (tid : ℕ) (call : TickCall)
  /-- A pass that measured this elapsed time. -/
  | pass (uElapsedTime : ℕ)
  deriving DecidableEq, Repr

namespace TickTable

/-- The table after `init_os_tick_info`, with `n` threads outside every call. -/
def init (n : ℕ) : TickTable := ⟨.init, List.replicate n .idle⟩

/-- One step, and what it does to which tickers; `none` when it cannot be taken. -/
def step : StepMachine TickTable TableStep (List (ℕ × TickAct))
  | s, .call tid call =>
      match s.threads[tid]? with
      | none => none
      | some pc =>
          (call.section s.tickers pc).map fun r =>
            (call.acts s.tickers pc, ⟨r.tickers, s.threads.set tid r.pc⟩)
  | s, .pass uElapsedTime =>
      let r := kalHandleTimeTimeouts s.tickers uElapsedTime
      some (r.1.map fun c => (c.tickId, .called), { s with tickers := r.2.2 })

end TickTable

/-! ## One ticker -/

/-- **What can be done to one ticker**: the ticker before, what is seen, and the ticker after. -/
inductive SlotStep : TickerElement → Option TickAct → TickerElement → Prop where
  /-- Nothing. -/
  | refl (k : TickerElement) : SlotStep k none k
  /-- The last section of `sk_tick_create`. -/
  | store (k : TickerElement) (tickPfn param : ℕ) :
      SlotStep k none { k with pfnCallback := tickPfn, pUserData := param }
  /-- The first section of `sk_tick_create`. -/
  | reserve {k : TickerElement} (h : k.tickerState = .free) :
      SlotStep k (some .reserved) { k with tickerState := .created }
  /-- `sk_tick_destroy`. -/
  | release {k : TickerElement} (h : k.tickerState ≠ .free) :
      SlotStep k (some .released) { k with tickerState := .free }
  /-- A write of `sk_tick_set`. -/
  | configure {k : TickerElement} (h : k.tickerState ≠ .free) (tickType : TickType)
      (tickTimeMs : ℕ) :
      SlotStep k (some (.configured tickType tickTimeMs))
        { k with
          uTimeout := tickTimeMs, uTimeRemaining := tickTimeMs, bOneShot := tickType.toU8,
          tickerState := .set }
  /-- `sk_tick_start`. -/
  | start {k : TickerElement} (h : k.tickerState = .set ∨ k.tickerState = .started) :
      SlotStep k (some .started) { k with uTimeRemaining := k.uTimeout, tickerState := .started }
  /-- `sk_tick_stop` of a ticker that runs. -/
  | stop {k : TickerElement} (h : k.tickerState = .started) :
      SlotStep k (some .stopped) { k with tickerState := .set, uTimeRemaining := k.uTimeout }
  /-- `sk_tick_stop` of a ticker that does not. -/
  | stopIdle {k : TickerElement} (h : k.tickerState ≠ .started) : SlotStep k (some .stopped) k
  /-- A pass that calls the ticker back. -/
  | call {k : TickerElement} {uElapsedTime : ℕ} (h : k.IsDue uElapsedTime) :
      SlotStep k (some .called) (k.handled uElapsedTime)
  /-- A pass that does not. -/
  | count {k : TickerElement} {uElapsedTime : ℕ} (h : ¬ k.IsDue uElapsedTime) :
      SlotStep k none (k.handled uElapsedTime)

/-- A step does something to one ticker that it may do, and this is what is seen about it. -/
def SlotDoes (j : ℕ) (tickers : KalTickers) (acts : List (ℕ × TickAct)) (tickers' : KalTickers) :
    Prop :=
  ∃ act : Option TickAct,
    History.about j acts = act.toList ∧ SlotStep (tickers j) act (tickers' j)

variable {tickers : KalTickers}

/-- A step that leaves a ticker alone. -/
theorem SlotDoes.refl (j : ℕ) (tickers : KalTickers) : SlotDoes j tickers [] tickers :=
  ⟨none, rfl, .refl _⟩

/-- A step that writes one ticker. -/
theorem slotDoes_update (j : ℕ) {i : ℕ} {act : TickAct} {k : TickerElement}
    (h : SlotStep (tickers i) (some act) k) :
    SlotDoes j tickers [(i, act)] (Function.update tickers i k) := by
  by_cases hij : i = j
  · subst hij
    refine ⟨some act, by simp [History.about], ?_⟩
    rwa [Function.update_self]
  · refine ⟨none, by simp [History.about, hij], ?_⟩
    rw [Function.update_of_ne (Ne.symm hij)]
    exact .refl _

/-- A step of the interface for a ticker it does not write. -/
theorem slotDoes_same (j : ℕ) {i : ℕ} {act : TickAct} (h : SlotStep (tickers i) (some act) (tickers i)) :
    SlotDoes j tickers [(i, act)] tickers := by
  have := slotDoes_update j h
  rwa [Function.update_eq_self] at this

/-! ### The sections -/

theorem slotDoes_create (tickers : KalTickers) (j tickPfn param : ℕ) :
    SlotDoes j tickers (TickCall.acts tickers .idle (.create tickPfn param))
      (tickFindFreeTableAndLock tickers).2 := by
  simp only [TickCall.acts, tickFindFreeTableAndLock]
  cases hfind : freeTickerLoop tickers maxTicksNum 0 with
  | none => exact .refl j tickers
  | some i => exact slotDoes_update j (.reserve (freeTickerLoop_spec hfind).1)

theorem slotDoes_store (j i tickPfn param : ℕ) :
    SlotDoes j tickers [] (skTickCreateStore tickers i tickPfn param) := by
  refine ⟨none, rfl, ?_⟩
  rw [skTickCreateStore]
  by_cases hij : i = j
  · subst hij
    rw [Function.update_self]
    exact .store _ _ _
  · rw [Function.update_of_ne (Ne.symm hij)]
    exact .refl _

theorem slotDoes_destroy (j tickId : ℕ) :
    SlotDoes j tickers
      (if (skTickDestroy tickers tickId).1 = .success then [(tickId, .released)] else [])
      (skTickDestroy tickers tickId).2 := by
  rw [skTickDestroy]
  split
  · split
    · exact .refl j tickers
    · exact slotDoes_update j (.release ‹_›)
  · exact .refl j tickers

theorem slotDoes_start (j tickId : ℕ) :
    SlotDoes j tickers
      (if (skTickStart tickers tickId).1 = .success then [(tickId, .started)] else [])
      (skTickStart tickers tickId).2.2 := by
  rw [skTickStart]
  split
  · split
    · exact .refl j tickers
    · split
      · exact .refl j tickers
      · refine slotDoes_update j (.start ?_)
        cases hstate : (tickers tickId).tickerState <;> simp_all
  · exact .refl j tickers

theorem slotDoes_stop (j tickId : ℕ) :
    SlotDoes j tickers
      (if (skTickStop tickers tickId).1 = .success then [(tickId, .stopped)] else [])
      (skTickStop tickers tickId).2 := by
  rw [skTickStop]
  split
  · split
    · exact slotDoes_update j (.stop ‹_›)
    · exact slotDoes_same j (.stopIdle ‹_›)
  · exact .refl j tickers

theorem slotDoes_write (j tickId : ℕ) (tickType : TickType) (tickTimeMs : ℕ) :
    SlotDoes j tickers
      (if (skTickSetWrite tickers tickId tickType tickTimeMs).1 = .success then
        [(tickId, .configured tickType tickTimeMs)] else [])
      (skTickSetWrite tickers tickId tickType tickTimeMs).2 := by
  rw [skTickSetWrite]
  split
  · exact .refl j tickers
  · exact slotDoes_update j (.configure ‹_› _ _)

/-- **A section does to every ticker one of the things that can be done.** -/
theorem section_slot {pc : TickPc} {call : TickCall} {r : SectionEnd}
    (h : call.section tickers pc = some r) (j : ℕ) :
    SlotDoes j tickers (call.acts tickers pc) r.tickers := by
  unfold TickCall.section at h
  split at h
  · have hcreate := slotDoes_create tickers j ‹ℕ› ‹ℕ›
    split at h <;> rename_i heq <;> cases h <;> rw [heq] at hcreate <;> exact hcreate
  · cases h
    exact slotDoes_store j _ _ _
  · cases h
    exact slotDoes_destroy j _
  · cases h
    exact slotDoes_start j _
  · cases h
    exact slotDoes_stop j _
  · rename_i tickId tickType tickTimeMs
    split at h
    · rename_i hid
      split at h
      · rename_i hstarted
        cases h
        simpa [TickCall.acts, hstarted] using SlotDoes.refl j tickers
      · rename_i hstarted
        cases h
        simpa [TickCall.acts, hid, hstarted] using slotDoes_write j tickId tickType tickTimeMs
    · rename_i hid
      cases h
      simpa [TickCall.acts, hid] using SlotDoes.refl j tickers
  · cases h
    exact slotDoes_stop j _
  · cases h
    exact slotDoes_write j _ _ _
  · cases h
    exact slotDoes_start j _
  · cases h

/-! ### The pass -/

/-- **A pass handles every ticker once.** -/
theorem handleLoop_ticker (uElapsedTime n i shortest j : ℕ) (tickers : KalTickers) :
    (handleLoop uElapsedTime n i tickers shortest).2.2 j =
      if i ≤ j ∧ j < i + n then (tickers j).handled uElapsedTime else tickers j := by
  induction n generalizing i shortest tickers with
  | zero =>
    rw [if_neg (by omega)]
    rfl
  | succ n ih =>
    simp only [handleLoop, ih]
    by_cases hij : j = i
    · subst hij
      rw [if_neg (by omega), if_pos (by omega), Function.update_self]
    · rw [Function.update_of_ne hij]
      exact if_congr (by omega) rfl rfl

/-- **A pass calls back the tickers that are due**, each once. -/
theorem about_handleLoop (uElapsedTime n i shortest j : ℕ) (tickers : KalTickers) :
    History.about j
        ((handleLoop uElapsedTime n i tickers shortest).1.map fun c => (c.tickId, TickAct.called)) =
      if i ≤ j ∧ j < i + n ∧ (tickers j).IsDue uElapsedTime then [.called] else [] := by
  induction n generalizing i shortest tickers with
  | zero =>
    rw [if_neg (by omega)]
    rfl
  | succ n ih =>
    simp only [handleLoop]
    -- what this round adds about ticker `j`, and then the rest of the loop
    have hround : History.about j
        ((if (tickers i).IsDue uElapsedTime then
            (⟨i, (tickers i).pfnCallback, (tickers i).pUserData⟩ : Callback) ::
              (handleLoop uElapsedTime n (i + 1)
                (Function.update tickers i ((tickers i).handled uElapsedTime))
                (((tickers i).handled uElapsedTime).nextShortest shortest)).1
          else
            (handleLoop uElapsedTime n (i + 1)
              (Function.update tickers i ((tickers i).handled uElapsedTime))
              (((tickers i).handled uElapsedTime).nextShortest shortest)).1).map
          fun c => (c.tickId, TickAct.called)) =
        (if i = j ∧ (tickers i).IsDue uElapsedTime then [.called] else []) ++
          History.about j
            ((handleLoop uElapsedTime n (i + 1)
              (Function.update tickers i ((tickers i).handled uElapsedTime))
              (((tickers i).handled uElapsedTime).nextShortest shortest)).1.map
                fun c => (c.tickId, TickAct.called)) := by
      by_cases hdue : (tickers i).IsDue uElapsedTime
      · simp [hdue, History.about_cons]
      · simp [hdue]
    rw [hround, ih]
    by_cases hij : i = j
    · subst hij
      rw [if_neg (show ¬ (i + 1 ≤ i ∧ _) by omega), List.append_nil]
      exact if_congr (by simp) rfl rfl
    · rw [if_neg (fun h => hij h.1), List.nil_append, Function.update_of_ne (Ne.symm hij)]
      refine if_congr ?_ rfl rfl
      constructor
      · rintro ⟨h₁, h₂, h₃⟩
        exact ⟨by omega, by omega, h₃⟩
      · rintro ⟨h₁, h₂, h₃⟩
        exact ⟨by omega, by omega, h₃⟩

theorem slotDoes_pass (j uElapsedTime : ℕ) :
    SlotDoes j tickers
      ((kalHandleTimeTimeouts tickers uElapsedTime).1.map fun c => (c.tickId, .called))
      (kalHandleTimeTimeouts tickers uElapsedTime).2.2 := by
  rw [SlotDoes, kalHandleTimeTimeouts, about_handleLoop, handleLoop_ticker]
  by_cases hj : j < maxTicksNum
  · rw [if_pos (show 0 ≤ j ∧ j < 0 + maxTicksNum by omega)]
    by_cases hdue : (tickers j).IsDue uElapsedTime
    · exact ⟨some .called, if_pos ⟨by omega, by omega, hdue⟩, .call hdue⟩
    · exact ⟨none, if_neg fun h => hdue h.2.2, .count hdue⟩
  · rw [if_neg (show ¬ (0 ≤ j ∧ j < 0 + maxTicksNum) by omega)]
    exact ⟨none, if_neg fun h => hj (by omega), .refl _⟩

/-- **Every step does to every ticker one of the things that can be done.** -/
theorem TickTable.step_slot {s t : TickTable} {i : TableStep} {acts : List (ℕ × TickAct)}
    (h : TickTable.step s i = some (acts, t)) (j : ℕ) : SlotDoes j s.tickers acts t.tickers := by
  cases i with
  | call tid call =>
    simp only [TickTable.step] at h
    split at h
    · cases h
    · obtain ⟨r, hsection, heq⟩ := Option.map_eq_some_iff.mp h
      cases heq
      exact section_slot hsection j
  | pass uElapsedTime =>
    cases h
    exact slotDoes_pass j uElapsedTime

end SmIpc.Os
