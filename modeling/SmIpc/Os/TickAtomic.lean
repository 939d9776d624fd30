import Mathlib.Data.List.Permutation
import SmIpc.Lib.History
import SmIpc.Lib.ThreadPool
import SmIpc.Os.TickCalls

/-! # Are the calls on the tickers atomic?

The sections of the threads against the same calls made whole: is there an order of the calls, one that
respects the calls which do not overlap, that explains the codes they returned and the table?

* `TickApi.asCalled` is the table as the calls have it, with `sk_tick_create` performed when it reserves
  its slot and `sk_tick_set` when it writes; `TickApi.Inv` says that the table is that but for what the
  threads will still see to.
* `TickApi.Inv.step` — a section that meets `TickApi.Sound` keeps the invariant: it performs a call, or
  changes nothing as the calls have it.
* `tickApi_linearizable` — in every run that meets the condition the calls are linearizable, and a ticker
  that was stopped runs again only if it is started again. One that does not can restart a ticker that was
  stopped (`stopped_ticker_restarts`). -/

namespace SmIpc.Os

open Linearizable (CallEvent Call Explained Linearization Status)

/-! ## The invariant -/

namespace TickPc

/-- What the thread is doing, as the calls have it. `sk_tick_create` is performed when it reserves its
slot, and `sk_tick_set` when it writes. -/
def status : TickPc → Status TickOp TickResult
  | idle => .idle
  | creating i _ _ => .performed (.created i)
  | stopping tickId tickType tickTimeMs => .invoked (.set tickId tickType tickTimeMs)
  | setting tickId tickType tickTimeMs => .invoked (.set tickId tickType tickTimeMs)
  | restarting _ status => .performed (.status status)

/-- The callback the thread is about to store in slot `i`. -/
def callbackFor (i : ℕ) : TickPc → Option (ℕ × ℕ)
  | creating j tickPfn param => if j = i then some (tickPfn, param) else none
  | _ => none

/-- The thread is between the `sk_tick_stop` and the `sk_tick_start` inside `sk_tick_set`. -/
def Restarts (i : ℕ) : TickPc → Prop
  | setting tickId _ _ => tickId = i
  | restarting tickId _ => tickId = i
  | _ => False

/-- The id of a `sk_tick_set` was checked. -/
def IdOk : TickPc → Prop
  | stopping tickId _ _ => tickId < maxTicksNum
  | setting tickId _ _ => tickId < maxTicksNum
  | restarting tickId _ => tickId < maxTicksNum
  | _ => True

end TickPc

namespace TickApi

/-- The callback on its way to the slot. -/
def callbackFor (s : TickApi) (i : ℕ) : Option (ℕ × ℕ) :=
  (s.threads[s.reservedBy i]?).bind (TickPc.callbackFor i)

/-- **The table as the calls have it.** -/
def asCalled (s : TickApi) : KalTickers := fun i =>
  (s.tickers i).asCalled (s.running i) (s.callbackFor i)

/-- What the threads are doing. -/
def status (s : TickApi) (tid : ℕ) : Status TickOp TickResult :=
  ((s.threads[tid]?).map TickPc.status).getD .idle

/-- **The invariant**: the events so far are those of calls performed at one point each, on the table as
the calls have it; and the table is that but for tickers and callbacks a thread will still see to. -/
structure Inv (h : List (CallEvent TickOp TickResult)) (s : TickApi) : Prop where
  /-- The calls performed lead to the table as the calls have it. -/
  explained : Explained TickOp.exec KalTickers.init h s.asCalled s.status
  /-- The table and the calls agree at every ticker. -/
  agrees : ∀ i, (s.tickers i).Agrees (s.running i)
  /-- A ticker that runs and is not started will be started by a thread. -/
  restarted : ∀ i, s.running i = true → (s.tickers i).tickerState = .set →
    ∃ (tid : ℕ) (pc : TickPc), s.threads[tid]? = some pc ∧ pc.Restarts i
  /-- The ids in use were checked. -/
  idOk : ∀ pc ∈ s.threads, pc.IdOk

variable {h h' : List (CallEvent TickOp TickResult)} {s : TickApi} {tid : ℕ} {pc pc' : TickPc}

theorem Inv.init (n : ℕ) : Inv [] (init n) := by
  have hidle : ∀ {i : ℕ} {pc : TickPc}, (List.replicate n TickPc.idle)[i]? = some pc → pc = .idle :=
    fun hpc => List.eq_of_mem_replicate (List.mem_of_getElem? hpc)
  have hstatus : (TickApi.init n).status = fun _ => .idle := by
    funext tid
    rw [status]
    cases hpc : (TickApi.init n).threads[tid]? with
    | none => rfl
    | some pc =>
      rw [hidle hpc]
      rfl
  have hcalled : (TickApi.init n).asCalled = KalTickers.init := by
    funext i
    have hnone : (TickApi.init n).callbackFor i = none := by
      rw [callbackFor]
      cases hpc : (TickApi.init n).threads[(TickApi.init n).reservedBy i]? with
      | none => rfl
      | some pc =>
        rw [hidle hpc]
        rfl
    rw [asCalled, hnone]
    rfl
  refine ⟨?_, ?_, ?_, ?_⟩
  · rw [hstatus, hcalled]
    exact .nil
  · intro i
    constructor <;> simp [TickApi.init, KalTickers.init]
  · intro i hrun
    exact absurd hrun Bool.false_ne_true
  · intro pc hpc
    rw [List.eq_of_mem_replicate hpc]
    trivial

/-- What a thread is doing changes with where it stands. -/
theorem status_set (hpc : s.threads[tid]? = some pc) (tickers : KalTickers) (running : ℕ → Bool)
    (reservedBy : ℕ → ℕ) :
    (⟨tickers, s.threads.set tid pc', running, reservedBy⟩ : TickApi).status =
      Function.update s.status tid pc'.status := by
  obtain ⟨hlt, -⟩ := List.getElem?_eq_some_iff.mp hpc
  funext i
  by_cases hi : i = tid
  · subst hi
    simp [status, hlt]
  · rw [Function.update_of_ne hi, status, status, List.getElem?_set_ne (Ne.symm hi)]

/-- The callbacks on their way, when a thread moves that neither comes from reserving the slot nor
goes there. -/
theorem callbackFor_set (hpc : s.threads[tid]? = some pc) (pc' : TickPc) {i : ℕ}
    (tickers : KalTickers) (running : ℕ → Bool) (hold : pc.callbackFor i = none) (hnew : pc'.callbackFor i = none) :
    (⟨tickers, s.threads.set tid pc', running, s.reservedBy⟩ : TickApi).callbackFor i =
      s.callbackFor i := by
  obtain ⟨hlt, hget⟩ := List.getElem?_eq_some_iff.mp hpc
  by_cases hi : s.reservedBy i = tid
  · simp [callbackFor, hi, hlt, hget, hold, hnew]
  · rw [callbackFor, callbackFor, List.getElem?_set_ne (Ne.symm hi)]

/-- A thread between two sections of `sk_tick_set` stays there while another thread moves. -/
theorem restarts_set (hpc : s.threads[tid]? = some pc) {i : ℕ} (hnot : ¬ pc.Restarts i)
    (h : ∃ (tid : ℕ) (pc : TickPc), s.threads[tid]? = some pc ∧ pc.Restarts i) :
    ∃ (tid' : ℕ) (pc'' : TickPc), (s.threads.set tid pc')[tid']? = some pc'' ∧ pc''.Restarts i := by
  obtain ⟨tid', pc'', hpc'', hrestarts⟩ := h
  have hne : tid ≠ tid' := by
    rintro rfl
    obtain rfl := Option.some.inj (hpc.symm.trans hpc'')
    exact hnot hrestarts
  exact ⟨tid', pc'', by rwa [List.getElem?_set_ne hne], hrestarts⟩

/-- **A section that changes one ticker**, of a thread that is not in `sk_tick_create`, keeps the
invariant if it does what the calls say, and does not leave a stopped ticker to nobody. -/
theorem Inv.move (hi : Inv h s) (h' : List (CallEvent TickOp TickResult))
    (hpc : s.threads[tid]? = some pc) (pc' : TickPc) (tickId : ℕ)
    (hold : ∀ i, pc.callbackFor i = none) (hnew : ∀ i, pc'.callbackFor i = none)
    {k : TickerElement} {b : Bool} (hk : k.Agrees b) (hid : pc'.IdOk)
    (hother : ∀ i, pc.Restarts i → i = tickId)
    (hrestart : b = true → k.tickerState = .set → pc'.Restarts tickId ∨
      ¬ pc.Restarts tickId ∧ s.running tickId = true ∧ (s.tickers tickId).tickerState = .set)
    (hexp : Explained TickOp.exec KalTickers.init h'
      (Function.update s.asCalled tickId (k.asCalled b (s.callbackFor tickId)))
      (Function.update s.status tid pc'.status)) :
    Inv h' ⟨Function.update s.tickers tickId k, s.threads.set tid pc',
      Function.update s.running tickId b, s.reservedBy⟩ := by
  obtain ⟨hlt, -⟩ := List.getElem?_eq_some_iff.mp hpc
  refine ⟨?_, ?_, ?_, ?_⟩
  · rw [status_set hpc]
    refine Eq.mp (congrArg (fun t => Explained TickOp.exec KalTickers.init h' t _) ?_) hexp
    funext i
    rw [asCalled, callbackFor_set hpc _ _ _ (hold i) (hnew i)]
    by_cases hij : i = tickId
    · subst hij
      simp only [Function.update_self]
    · simp only [Function.update_of_ne hij]
      rfl
  · intro i
    by_cases hij : i = tickId
    · subst hij
      simpa only [Function.update_self] using hk
    · simpa only [Function.update_of_ne hij] using hi.agrees i
  · intro i hrun hset
    by_cases hij : i = tickId
    · subst hij
      simp only [Function.update_self] at hrun hset
      rcases hrestart hrun hset with hrestarts | ⟨hnot, hrun', hset'⟩
      · exact ⟨tid, pc', by simp [hlt], hrestarts⟩
      · exact restarts_set hpc hnot (hi.restarted i hrun' hset')
    · simp only [Function.update_of_ne hij] at hrun hset
      exact restarts_set hpc (fun hr => hij (hother i hr)) (hi.restarted i hrun hset)
  · exact ThreadPool.forall_mem_set hi.idOk tid hid

/-- A section that changes no ticker. -/
theorem Inv.stay (hi : Inv h s) (hpc : s.threads[tid]? = some pc)
    (hold : ∀ i, pc.callbackFor i = none) (hnew : ∀ i, pc'.callbackFor i = none) (hid : pc'.IdOk)
    (hnot : ∀ i, ¬ pc.Restarts i)
    (hexp : Explained TickOp.exec KalTickers.init h' s.asCalled
      (Function.update s.status tid pc'.status)) :
    Inv h' ⟨s.tickers, s.threads.set tid pc', s.running, s.reservedBy⟩ := by
  have hmove := hi.move h' hpc pc' 0 hold hnew (hi.agrees 0) hid
    (fun i hr => absurd hr (hnot i)) (fun hrun hset => .inr ⟨hnot 0, hrun, hset⟩) ?_
  · simpa only [Function.update_eq_self] using hmove
  · rwa [show (s.tickers 0).asCalled (s.running 0) (s.callbackFor 0) = s.asCalled 0 from rfl,
      Function.update_eq_self]

/-! ## The sections -/

theorem status_idle (hpc : s.threads[tid]? = some .idle) : s.status tid = .idle := by
  rw [status, hpc]
  rfl

/-- A call of one section that changes one ticker. -/
theorem Inv.atomic (hi : Inv h s) (hpc : s.threads[tid]? = some .idle) {tickId : ℕ}
    {k : TickerElement} {b : Bool} (hk : k.Agrees b) {op : TickOp} {result : TickResult}
    (hexec : TickOp.exec s.asCalled op =
      (result, Function.update s.asCalled tickId (k.asCalled b (s.callbackFor tickId))))
    (hrestart : b = true → k.tickerState = .set →
      s.running tickId = true ∧ (s.tickers tickId).tickerState = .set) :
    Inv (h ++ [.invoke tid op, .respond tid result])
      ⟨Function.update s.tickers tickId k, s.threads.set tid .idle,
        Function.update s.running tickId b, s.reservedBy⟩ := by
  refine hi.move _ hpc _ _ (fun _ => rfl) (fun _ => rfl) hk trivial (fun i hr => hr.elim)
    (fun hrun hset => .inr ⟨id, hrestart hrun hset⟩) ?_
  have hatomic := hi.explained.atomic (status_idle hpc) op
  rw [hexec] at hatomic
  rwa [show TickPc.idle.status = s.status tid from (status_idle hpc).symm, Function.update_eq_self]

/-- A call of one section that is refused. -/
theorem Inv.refused (hi : Inv h s) (hpc : s.threads[tid]? = some .idle) {op : TickOp}
    {result : TickResult} (hexec : TickOp.exec s.asCalled op = (result, s.asCalled)) :
    Inv (h ++ [.invoke tid op, .respond tid result])
      ⟨s.tickers, s.threads.set tid .idle, s.running, s.reservedBy⟩ := by
  refine hi.stay hpc (fun _ => rfl) (fun _ => rfl) trivial (fun i hr => hr.elim) ?_
  have hatomic := hi.explained.atomic (status_idle hpc) op
  rw [hexec] at hatomic
  rwa [show TickPc.idle.status = s.status tid from (status_idle hpc).symm, Function.update_eq_self]

theorem Inv.destroy (hi : Inv h s) (hpc : s.threads[tid]? = some .idle) (tickId : ℕ) :
    Inv (h ++ [.invoke tid (.destroy tickId),
        .respond tid (.status (skTickDestroy s.tickers tickId).1)])
      ⟨(skTickDestroy s.tickers tickId).2, s.threads.set tid .idle,
        s.runningAfter (.destroy tickId), s.reservedBy⟩ := by
  have hagrees := hi.agrees tickId
  by_cases hid : tickId < maxTicksNum
  · have hrunning : s.runningAfter (.destroy tickId) = Function.update s.running tickId false := by
      rw [runningAfter, skTickDestroy_eq hid]
      by_cases hfree : (s.tickers tickId).tickerState = .free
      · rw [if_pos hfree, if_neg (by simp), ← hagrees.eq_false_of_free hfree, Function.update_eq_self]
      · rw [if_neg hfree, if_pos rfl]
    rw [hrunning, skTickDestroy_eq hid]
    refine hi.atomic hpc .released ?_ (fun hb => (Bool.false_ne_true hb).elim)
    simp only [TickOp.exec, skTickDestroy_eq hid]
    rw [show s.asCalled tickId = (s.tickers tickId).asCalled (s.running tickId) _ from rfl,
      TickerElement.Agrees.released_asCalled]
    simp only [hagrees.free_iff]
  · have hrunning : s.runningAfter (.destroy tickId) = s.running := by
      simp [runningAfter, skTickDestroy, hid]
    rw [hrunning, skTickDestroy, if_neg hid]
    refine hi.refused hpc ?_
    simp [TickOp.exec, skTickDestroy, hid]

theorem Inv.start (hi : Inv h s) (hpc : s.threads[tid]? = some .idle) (tickId : ℕ) :
    Inv (h ++ [.invoke tid (.start tickId), .respond tid (.status (skTickStart s.tickers tickId).1)])
      ⟨(skTickStart s.tickers tickId).2.2, s.threads.set tid .idle,
        s.runningAfter (.start tickId), s.reservedBy⟩ := by
  have hagrees := hi.agrees tickId
  by_cases hid : tickId < maxTicksNum
  · have hrunning : s.runningAfter (.start tickId) = Function.update s.running tickId
        (if (s.tickers tickId).tickerState = .free ∨ (s.tickers tickId).tickerState = .created then
          s.running tickId else true) := by
      rw [runningAfter, skTickStart_eq hid]
      split
      · rw [if_neg (by simp), Function.update_eq_self]
      · rw [if_pos rfl]
    rw [hrunning, skTickStart_eq hid]
    refine hi.atomic hpc hagrees.startNow ?_ ?_
    · simp only [TickOp.exec, skTickStart_eq hid]
      rw [show s.asCalled tickId = (s.tickers tickId).asCalled (s.running tickId) _ from rfl,
        hagrees.startNow_asCalled]
      simp only [hagrees.free_iff, hagrees.created_iff]
    · exact fun _ hset => absurd hset (TickerElement.startNow_ne_set _)
  · have hrunning : s.runningAfter (.start tickId) = s.running := by
      simp [runningAfter, skTickStart, hid]
    rw [hrunning, skTickStart, if_neg hid]
    refine hi.refused hpc ?_
    simp [TickOp.exec, skTickStart, hid]

theorem Inv.stop (hi : Inv h s) (hpc : s.threads[tid]? = some .idle) (tickId : ℕ) :
    Inv (h ++ [.invoke tid (.stop tickId), .respond tid (.status (skTickStop s.tickers tickId).1)])
      ⟨(skTickStop s.tickers tickId).2, s.threads.set tid .idle,
        s.runningAfter (.stop tickId), s.reservedBy⟩ := by
  have hagrees := hi.agrees tickId
  by_cases hid : tickId < maxTicksNum
  · have hrunning : s.runningAfter (.stop tickId) = Function.update s.running tickId false := by
      rw [runningAfter, skTickStop_eq hid, if_pos rfl]
    rw [hrunning, skTickStop_eq hid]
    refine hi.atomic hpc hagrees.stopNow ?_ (fun hb => (Bool.false_ne_true hb).elim)
    simp only [TickOp.exec, skTickStop_eq hid]
    rw [show s.asCalled tickId = (s.tickers tickId).asCalled (s.running tickId) _ from rfl,
      hagrees.stopNow_asCalled]
  · have hrunning : s.runningAfter (.stop tickId) = s.running := by
      simp [runningAfter, skTickStop, hid]
    rw [hrunning, skTickStop, if_neg hid]
    refine hi.refused hpc ?_
    simp [TickOp.exec, skTickStop, hid]

/-- What `sk_tick_set` does as the calls have it. -/
theorem exec_set (hi : Inv h s) {tickId : ℕ} (hid : tickId < maxTicksNum) (tickType : TickType)
    (tickTimeMs : ℕ) :
    TickOp.exec s.asCalled (.set tickId tickType tickTimeMs) =
      (.status (skTickSetWrite s.tickers tickId tickType tickTimeMs).1,
        Function.update s.asCalled tickId
          (((s.tickers tickId).written tickType tickTimeMs).asCalled (s.running tickId)
            (s.callbackFor tickId))) := by
  have hagrees := hi.agrees tickId
  simp only [TickOp.exec, skTickSet_eq hid, skTickSetWrite_eq]
  rw [show s.asCalled tickId = (s.tickers tickId).asCalled (s.running tickId) _ from rfl,
    hagrees.setNow_asCalled]
  simp only [hagrees.free_iff]

/-- A `sk_tick_set` of a ticker that is not started, in one section. -/
theorem Inv.set (hi : Inv h s) (hpc : s.threads[tid]? = some .idle) {tickId : ℕ}
    (hid : tickId < maxTicksNum) (hstarted : ¬ (s.tickers tickId).IsStarted) (tickType : TickType)
    (tickTimeMs : ℕ) :
    Inv (h ++ [.invoke tid (.set tickId tickType tickTimeMs),
        .respond tid (.status (skTickSetWrite s.tickers tickId tickType tickTimeMs).1)])
      ⟨(skTickSetWrite s.tickers tickId tickType tickTimeMs).2, s.threads.set tid .idle, s.running,
        s.reservedBy⟩ := by
  have hagrees := hi.agrees tickId
  have hatomic := hi.atomic hpc (hagrees.written tickType tickTimeMs)
    (exec_set hi hid tickType tickTimeMs) ?_
  · rw [Function.update_eq_self] at hatomic
    rwa [snd_skTickSetWrite]
  · intro hrun _
    exact ⟨hrun, (hagrees.set_or_started hrun).resolve_right hstarted⟩

/-- The `sk_tick_stop` inside `sk_tick_set` is part of the restart. -/
theorem Inv.setStop (hi : Inv h s) {tickId tickTimeMs : ℕ} {tickType : TickType}
    (hpc : s.threads[tid]? = some (.stopping tickId tickType tickTimeMs)) :
    Inv h ⟨(skTickStop s.tickers tickId).2, s.threads.set tid (.setting tickId tickType tickTimeMs),
      s.running, s.reservedBy⟩ := by
  have hagrees := hi.agrees tickId
  have hid : tickId < maxTicksNum := hi.idOk _ (List.mem_of_getElem? hpc)
  have hstatus : (TickPc.setting tickId tickType tickTimeMs).status = s.status tid := by
    rw [status, hpc]
    rfl
  have hmove := hi.move h hpc (.setting tickId tickType tickTimeMs) tickId (fun _ => rfl)
    (fun _ => rfl) hagrees.stopNow_inside hid (fun i hr => hr.elim) (fun _ _ => .inl rfl) ?_
  · rw [Function.update_eq_self] at hmove
    rwa [skTickStop_eq hid]
  · rw [hstatus, Function.update_eq_self, hagrees.asCalled_stopNow,
      show (s.tickers tickId).asCalled _ (s.callbackFor tickId) = s.asCalled tickId from rfl,
      Function.update_eq_self]
    exact hi.explained

/-- **The write of `sk_tick_set` is where it is performed**, whatever happened to the ticker since it was
looked at. -/
theorem Inv.setWrite (hi : Inv h s) {tickId tickTimeMs : ℕ} {tickType : TickType}
    (hpc : s.threads[tid]? = some (.setting tickId tickType tickTimeMs)) :
    Inv h ⟨(skTickSetWrite s.tickers tickId tickType tickTimeMs).2,
      s.threads.set tid
        (.restarting tickId (skTickSetWrite s.tickers tickId tickType tickTimeMs).1),
      s.running, s.reservedBy⟩ := by
  have hagrees := hi.agrees tickId
  have hid : tickId < maxTicksNum := hi.idOk _ (List.mem_of_getElem? hpc)
  have hstatus : s.status tid = .invoked (.set tickId tickType tickTimeMs) := by
    rw [status, hpc]
    rfl
  have hmove := hi.move h hpc
    (.restarting tickId (skTickSetWrite s.tickers tickId tickType tickTimeMs).1) tickId
    (fun _ => rfl) (fun _ => rfl) (hagrees.written tickType tickTimeMs) hid (fun i hr => hr.symm)
    (fun _ _ => .inl rfl) ?_
  · rw [Function.update_eq_self] at hmove
    rwa [snd_skTickSetWrite]
  · have hperform := hi.explained.perform tid hstatus
    rw [exec_set hi hid] at hperform
    exact hperform

/-- The `sk_tick_start` inside `sk_tick_set` starts a ticker that runs, so nothing happens as the calls
have it. -/
theorem Inv.setStart (hi : Inv h s) {tickId : ℕ} {status : SkStatus}
    (hpc : s.threads[tid]? = some (.restarting tickId status))
    (hrun : (s.tickers tickId).tickerState = .set ∨ (s.tickers tickId).tickerState = .started →
      s.running tickId = true) :
    Inv (h ++ [.respond tid (.status status)])
      ⟨(skTickStart s.tickers tickId).2.2, s.threads.set tid .idle, s.running, s.reservedBy⟩ := by
  have hagrees := hi.agrees tickId
  have hid : tickId < maxTicksNum := hi.idOk _ (List.mem_of_getElem? hpc)
  have hstatus : s.status tid = .performed (.status status) := by
    rw [TickApi.status, hpc]
    rfl
  have hstarted : (s.tickers tickId).startNow.Agrees (s.running tickId) := by
    have hstart := hagrees.startNow
    split at hstart
    · exact hstart
    · rename_i hk
      rwa [hrun (by cases hstate : (s.tickers tickId).tickerState <;> simp_all)]
  have hmove := hi.move (h ++ [.respond tid (.status status)]) hpc .idle tickId (fun _ => rfl)
    (fun _ => rfl) hstarted trivial (fun i hr => hr.symm) ?_ ?_
  · rw [Function.update_eq_self] at hmove
    rwa [skTickStart_eq hid]
  · exact fun _ hset => absurd hset (TickerElement.startNow_ne_set _)
  · rw [hagrees.asCalled_startNow hrun,
      show (s.tickers tickId).asCalled _ (s.callbackFor tickId) = s.asCalled tickId from rfl,
      Function.update_eq_self]
    exact hi.explained.respond tid hstatus

/-- The first free slot is the same as the calls have it. -/
theorem Inv.freeTickerLoop_asCalled (hi : Inv h s) (n i : ℕ) :
    freeTickerLoop s.asCalled n i = freeTickerLoop s.tickers n i :=
  freeTickerLoop_congr (fun j => (hi.agrees j).free_iff) n i

/-- **The reservation of a slot is where `sk_tick_create` is performed**: the callback is on its way. -/
theorem Inv.create (hi : Inv h s) (hpc : s.threads[tid]? = some .idle) {i : ℕ}
    (hfind : freeTickerLoop s.tickers maxTicksNum 0 = some i) (tickPfn param : ℕ) :
    Inv (h ++ [.invoke tid (.create tickPfn param)])
      ⟨Function.update s.tickers i { s.tickers i with tickerState := .created },
        s.threads.set tid (.creating i tickPfn param), s.running,
        Function.update s.reservedBy i tid⟩ := by
  obtain ⟨hlt, hget⟩ := List.getElem?_eq_some_iff.mp hpc
  have hnot : s.running i = false :=
    (hi.agrees i).eq_false_of_free (freeTickerLoop_spec hfind).1
  have hexec : TickOp.exec s.asCalled (.create tickPfn param) =
      (.created i, Function.update s.asCalled i
        { s.asCalled i with
          tickerState := .created, pfnCallback := tickPfn, pUserData := param }) := by
    simp only [TickOp.exec, skTickCreate, tickFindFreeTableAndLock, hi.freeTickerLoop_asCalled, hfind,
      skTickCreateStore, Function.update_self, Function.update_idem]
  refine ⟨?_, ?_, ?_, ?_⟩
  · have hperform := (hi.explained.invoke tid (.create tickPfn param) (status_idle hpc)).perform tid
      (Function.update_self _ _ _)
    rw [hexec, Function.update_idem] at hperform
    rw [status_set hpc]
    refine Eq.mp (congrArg (fun t => Explained TickOp.exec KalTickers.init _ t _) ?_) hperform
    funext j
    by_cases hji : j = i
    · subst hji
      simp [asCalled, TickerElement.asCalled, callbackFor, hlt, hnot, TickPc.callbackFor]
    · -- the thread is on its way to slot `i` only
      have hcallback : (⟨Function.update s.tickers i { s.tickers i with tickerState := .created },
          s.threads.set tid (.creating i tickPfn param), s.running,
          Function.update s.reservedBy i tid⟩ : TickApi).callbackFor j = s.callbackFor j := by
        have hsame := callbackFor_set hpc (.creating i tickPfn param) (i := j) s.tickers
          s.running rfl (if_neg (Ne.symm hji))
        simp only [callbackFor, Function.update_of_ne hji] at hsame ⊢
        exact hsame
      simp only [asCalled, Function.update_of_ne hji, hcallback]
  · intro j
    by_cases hji : j = i
    · subst hji
      constructor <;> simp [hnot]
    · simp only [Function.update_of_ne hji]
      exact hi.agrees j
  · intro j hrun hset
    have hji : j ≠ i := by
      rintro rfl
      exact Bool.false_ne_true (hnot.symm.trans hrun)
    simp only [Function.update_of_ne hji] at hset
    exact restarts_set hpc id (hi.restarted j hrun hset)
  · exact ThreadPool.forall_mem_set hi.idOk tid trivial

/-- The store of the callback is nothing new as the calls have it. -/
theorem Inv.store (hi : Inv h s) {i tickPfn param : ℕ}
    (hpc : s.threads[tid]? = some (.creating i tickPfn param))
    (hlatest : s.reservedBy i = tid ∨ ∃ f p, s.threads[s.reservedBy i]? = some (.creating i f p)) :
    Inv (h ++ [.respond tid (.created i)])
      ⟨skTickCreateStore s.tickers i tickPfn param, s.threads.set tid .idle, s.running,
        s.reservedBy⟩ := by
  obtain ⟨hlt, hget⟩ := List.getElem?_eq_some_iff.mp hpc
  have hstate : ∀ j, ∃ f p, skTickCreateStore s.tickers i tickPfn param j =
      { s.tickers j with pfnCallback := f, pUserData := p } := by
    intro j
    rw [skTickCreateStore]
    by_cases hji : j = i
    · subst hji
      exact ⟨tickPfn, param, Function.update_self _ _ _⟩
    · exact ⟨_, _, Function.update_of_ne hji _ _⟩
  refine ⟨?_, ?_, ?_, ?_⟩
  · have hstatus : s.status tid = .performed (.created i) := by
      rw [status, hpc]
      rfl
    rw [status_set hpc]
    refine Eq.mp (congrArg (fun t => Explained TickOp.exec KalTickers.init _ t _) ?_)
      (hi.explained.respond tid hstatus)
    funext j
    by_cases hji : j = i
    · subst hji
      by_cases hself : s.reservedBy j = tid
      · -- its own callback arrives
        simp [asCalled, TickerElement.asCalled, callbackFor, hself, hlt, hget, TickPc.callbackFor,
          skTickCreateStore]
      · -- the callback of the later reservation is still on its way
        obtain ⟨f, p, hlater⟩ := hlatest.resolve_left hself
        have hlater' : (s.threads.set tid .idle)[s.reservedBy j]? = some (.creating j f p) := by
          rwa [List.getElem?_set_ne (Ne.symm hself)]
        simp [asCalled, TickerElement.asCalled, callbackFor, hlater, hlater', TickPc.callbackFor,
          skTickCreateStore]
    · rw [asCalled, asCalled, callbackFor_set hpc _ _ _ (if_neg (Ne.symm hji)) rfl]
      simp only [skTickCreateStore, Function.update_of_ne hji]
  · intro j
    obtain ⟨f, p, hj⟩ := hstate j
    have hagrees := hi.agrees j
    simp only [hj]
    exact ⟨hagrees.set_or_started, hagrees.started, hagrees.full⟩
  · intro j hrun hset
    obtain ⟨f, p, hj⟩ := hstate j
    simp only [hj] at hset
    exact restarts_set hpc id (hi.restarted j hrun hset)
  · exact ThreadPool.forall_mem_set hi.idOk tid trivial

/-- **Every section that meets the condition keeps the invariant.** -/
theorem Inv.step (hi : Inv h s) {call : TickCall} {t : TickApi}
    {es : List (CallEvent TickOp TickResult)} (hC : s.Sound (tid, call))
    (hs : step s (tid, call) = some (es, t)) : Inv (h ++ es) t := by
  simp only [TickApi.step] at hs
  split at hs
  · cases hs
  · rename_i pc hpc
    obtain ⟨r, hsection, heq⟩ := Option.map_eq_some_iff.mp hs
    cases heq
    unfold TickCall.section at hsection
    split at hsection
    · rename_i tickPfn param
      cases hfind : freeTickerLoop s.tickers maxTicksNum 0 with
      | none =>
        simp only [tickFindFreeTableAndLock, hfind] at hsection
        cases hsection
        simp only [reservedAfter, tickFindFreeTableAndLock, hfind]
        refine hi.refused hpc ?_
        simp only [TickOp.exec, skTickCreate, tickFindFreeTableAndLock, hi.freeTickerLoop_asCalled,
          hfind]
      | some i =>
        simp only [tickFindFreeTableAndLock, hfind] at hsection
        cases hsection
        simp only [reservedAfter, tickFindFreeTableAndLock, hfind]
        exact hi.create hpc hfind tickPfn param
    · cases hsection
      exact hi.store hpc (hC _ _ _ hpc)
    · cases hsection
      exact hi.destroy hpc _
    · cases hsection
      exact hi.start hpc _
    · cases hsection
      exact hi.stop hpc _
    · rename_i tickId tickType tickTimeMs
      split at hsection
      · rename_i hid
        split at hsection
        · cases hsection
          refine hi.stay hpc (fun _ => rfl) (fun _ => rfl) hid (fun _ => id) ?_
          exact hi.explained.invoke tid (.set tickId tickType tickTimeMs) (status_idle hpc)
        · rename_i hstarted
          cases hsection
          exact hi.set hpc hid hstarted tickType tickTimeMs
      · rename_i hid
        cases hsection
        refine hi.refused hpc ?_
        simp [TickOp.exec, skTickSet, hid]
    · cases hsection
      have hstop := hi.setStop hpc
      rwa [show events tid .setStop _ = [] from rfl, List.append_nil]
    · cases hsection
      have hwrite := hi.setWrite hpc
      rwa [show events tid .setWrite _ = [] from rfl, List.append_nil]
    · cases hsection
      exact hi.setStart hpc (hC _ _ hpc)
    · cases hsection

/-- **What makes a ticker run**: `sk_tick_start` was called for it, and `sk_tick_stop` was not since. -/
def Started (steps : List (ℕ × TickCall)) (tickId : ℕ) : Prop :=
  tickId < maxTicksNum ∧
    History.Since (fun i : ℕ × TickCall => i.2 = .start tickId) (fun _ i => i.2 = .stop tickId) steps

/-- A step keeps the calls that make the tickers run. -/
theorem started_step {steps : List (ℕ × TickCall)} {call : TickCall} {t : TickApi}
    {es : List (CallEvent TickOp TickResult)} (hs : step s (tid, call) = some (es, t))
    (hstarted : ∀ tickId, s.running tickId = true → Started steps tickId) (tickId : ℕ)
    (hrun : t.running tickId = true) : Started (steps ++ [(tid, call)]) tickId := by
  have ht : t.running = s.runningAfter call := by
    simp only [TickApi.step] at hs
    split at hs
    · cases hs
    · obtain ⟨r, -, heq⟩ := Option.map_eq_some_iff.mp hs
      cases heq
      rfl
  rw [ht] at hrun
  -- a call that is no `sk_tick_stop` of the ticker, if it ran before
  have hkeep : s.running tickId = true → call ≠ .stop tickId →
      Started (steps ++ [(tid, call)]) tickId :=
    fun hold hne => ⟨(hstarted tickId hold).1, (hstarted tickId hold).2.snoc hne⟩
  cases call with
  | start tickId' =>
    simp only [runningAfter] at hrun
    split at hrun
    · rename_i hok
      by_cases hid : tickId = tickId'
      · subst hid
        refine ⟨?_, History.since_of_last rfl⟩
        by_contra hge
        rw [skTickStart, if_neg hge] at hok
        cases hok
      · rw [Function.update_of_ne hid] at hrun
        exact hkeep hrun (by simp)
    · exact hkeep hrun (by simp)
  | stop tickId' =>
    simp only [runningAfter] at hrun
    by_cases hid : tickId = tickId'
    · subst hid
      split at hrun
      · simp at hrun
      · -- an id outside the table
        rename_i hrefused
        rw [skTickStop_eq (hstarted tickId hrun).1] at hrefused
        exact absurd rfl hrefused
    · have hne : TickCall.stop tickId' ≠ .stop tickId := by simpa using Ne.symm hid
      split at hrun
      · rw [Function.update_of_ne hid] at hrun
        exact hkeep hrun hne
      · exact hkeep hrun hne
  | destroy tickId' =>
    simp only [runningAfter] at hrun
    split at hrun
    · by_cases hid : tickId = tickId'
      · subst hid
        simp at hrun
      · rw [Function.update_of_ne hid] at hrun
        exact hkeep hrun (by simp)
    · exact hkeep hrun (by simp)
  | _ => exact hkeep hrun (by simp)

end TickApi

/-- **What atomic calls on the tickers mean** for a run and its end: if no thread is in a call, there is an
order of the calls that explains the codes they returned and the table; and a ticker that is started is
one for which no `sk_tick_stop` was called, or `sk_tick_start` was called after it. -/
structure TickAtomic (steps : List (ℕ × TickCall)) (h : List (CallEvent TickOp TickResult))
    (s : TickApi) : Prop where
  /-- The calls are linearizable. -/
  linearizable : (∀ pc ∈ s.threads, pc = .idle) →
    ∃ order, Linearization TickOp.exec KalTickers.init h s.tickers order
  /-- A ticker that was stopped runs again only if it is started again. -/
  stopped : ∀ before tid tickId after, steps = before ++ (tid, .stop tickId) :: after →
    (s.tickers tickId).IsStarted → ∃ tid', (tid', .start tickId) ∈ after

/-- **The calls on the tickers are atomic where no restart meets a stop and no callback comes late**: in
every run of any threads whose sections all meet the condition. -/
theorem tickApi_linearizable (n : ℕ) (steps : List (ℕ × TickCall))
    (hs : List (List (CallEvent TickOp TickResult))) (s : TickApi)
    (hcond : StepMachine.Along TickApi.step TickApi.Sound (TickApi.init n) steps)
    (hrun : StepMachine.run TickApi.step (TickApi.init n) steps = some (hs, s)) :
    TickAtomic steps hs.flatten s := by
  have hgood : TickApi.Inv hs.flatten s ∧
      ∀ tickId, s.running tickId = true → TickApi.Started steps tickId := by
    refine StepMachine.run_induction_along TickApi.step TickApi.Sound
      (fun steps hs s => TickApi.Inv hs.flatten s ∧
        ∀ tickId, s.running tickId = true → TickApi.Started steps tickId) ?_ ?_ hcond hrun
    · exact ⟨.init n, fun _ hrun => absurd hrun Bool.false_ne_true⟩
    · rintro steps hs u ⟨tid, call⟩ es t - ⟨hi, hstarted⟩ hC hstep
      rw [List.flatten_append, List.flatten_singleton]
      exact ⟨hi.step hC hstep, TickApi.started_step hstep hstarted⟩
  obtain ⟨hi, hstarted⟩ := hgood
  refine ⟨?_, ?_⟩
  · intro hidle
    have hpc : ∀ {i : ℕ} {pc : TickPc}, s.threads[i]? = some pc → pc = .idle :=
      fun h => hidle _ (List.mem_of_getElem? h)
    -- with no thread in a call, the table is as the calls have it
    have hcalled : s.asCalled = s.tickers := by
      funext i
      have hnone : s.callbackFor i = none := by
        rw [TickApi.callbackFor]
        cases hget : s.threads[s.reservedBy i]? with
        | none => rfl
        | some pc =>
          rw [hpc hget]
          rfl
      rw [TickApi.asCalled, hnone]
      cases hrun : s.running i with
      | false => rfl
      | true =>
        rcases (hi.agrees i).set_or_started hrun with hset | hset
        · obtain ⟨tid, pc, hget, hrestarts⟩ := hi.restarted i hrun hset
          rw [hpc hget] at hrestarts
          exact hrestarts.elim
        · simp [TickerElement.asCalled, ← hset]
    rw [← hcalled]
    refine hi.explained.linearization ?_
    intro tid
    rw [TickApi.status]
    cases hget : s.threads[tid]? with
    | none => rfl
    | some pc =>
      rw [hpc hget]
      rfl
  · rintro before tid tickId after rfl hs
    have hsince := (hstarted tickId ((hi.agrees tickId).started hs)).2
    obtain ⟨⟨tid', call⟩, hmem, rfl⟩ := hsince.mem_after rfl (by simp)
    exact ⟨tid', hmem⟩

/-- Two threads: one sets a running ticker, and the other starts it again before it is written. -/
theorem tickApi_linearizable_restart :
    ∃ s, StepMachine.run TickApi.step (TickApi.init 2)
        [(0, .create 7 9), (0, .store), (0, .set 0 .perio 100), (0, .start 0), (0, .set 0 .perio 200),
          (0, .setStop), (1, .start 0), (0, .setWrite), (0, .setStart)] =
        some ([[.invoke 0 (.create 7 9)], [.respond 0 (.created 0)],
          [.invoke 0 (.set 0 .perio 100), .respond 0 (.status .success)],
          [.invoke 0 (.start 0), .respond 0 (.status .success)], [.invoke 0 (.set 0 .perio 200)], [],
          [.invoke 1 (.start 0), .respond 1 (.status .success)], [],
          [.respond 0 (.status .success)]], s) ∧
      ∃ order, Linearization TickOp.exec KalTickers.init
        [.invoke 0 (.create 7 9), .respond 0 (.created 0),
          .invoke 0 (.set 0 .perio 100), .respond 0 (.status .success),
          .invoke 0 (.start 0), .respond 0 (.status .success), .invoke 0 (.set 0 .perio 200),
          .invoke 1 (.start 0), .respond 1 (.status .success),
          .respond 0 (.status .success)] s.tickers order := by
  refine ⟨_, rfl, ?_⟩
  refine (tickApi_linearizable 2
    [(0, .create 7 9), (0, .store), (0, .set 0 .perio 100), (0, .start 0), (0, .set 0 .perio 200),
      (0, .setStop), (1, .start 0), (0, .setWrite), (0, .setStart)] _ _ ?_ rfl).linearizable ?_
  · refine StepMachine.along_cons trivial rfl (StepMachine.along_cons ?_ rfl ?_)
    · intro i f p h
      cases h
      exact .inl rfl
    iterate 6 refine StepMachine.along_cons trivial rfl ?_
    refine StepMachine.along_cons ?_ rfl trivial
    intro tickId status h
    cases h
    exact fun _ => rfl
  · decide

/-- **A ticker that was stopped restarts.** Thread 0 sets a running ticker to a new period and has found
it started; thread 1 stops it and is told that it did; thread 0 goes on and starts it. There is no order
of the calls that explains this. -/
theorem stopped_ticker_restarts :
    ∃ hs s, StepMachine.run TickApi.step (TickApi.init 2)
        [(0, .create 7 9), (0, .store), (0, .set 0 .perio 100), (0, .start 0), (0, .set 0 .perio 200),
          (1, .stop 0), (0, .setStop), (0, .setWrite), (0, .setStart)] = some (hs, s) ∧
      (∀ pc ∈ s.threads, pc = .idle) ∧ (s.tickers 0).IsStarted ∧
      (¬ ∃ order, Linearization TickOp.exec KalTickers.init hs.flatten s.tickers order) ∧
      ¬ TickAtomic
        [(0, .create 7 9), (0, .store), (0, .set 0 .perio 100), (0, .start 0), (0, .set 0 .perio 200),
          (1, .stop 0), (0, .setStop), (0, .setWrite), (0, .setStart)] hs.flatten s := by
  refine ⟨_, _, rfl, by decide, rfl, ?_, ?_⟩
  · rintro ⟨order, hperm, hreal, hlegal⟩
    -- whichever of the two calls that overlap comes first, the ticker is not started in the end
    have hstopped : ∀ order ∈ (Linearizable.calls
        ([.invoke 0 (.create 7 9), .respond 0 (.created 0),
          .invoke 0 (.set 0 .perio 100), .respond 0 (.status .success),
          .invoke 0 (.start 0), .respond 0 (.status .success), .invoke 0 (.set 0 .perio 200),
          .invoke 1 (.stop 0), .respond 1 (.status .success),
          .respond 0 (.status .success)] : List (CallEvent TickOp TickResult))).permutations',
        (order.Pairwise fun a b => ¬ b.ended < a.begun) →
          ((Linearizable.runCalls TickOp.exec KalTickers.init (order.map Call.op)).2 0).tickerState ≠
            .started := by
      decide +kernel
    refine hstopped order (List.mem_permutations'.mpr hperm) hreal ?_
    rw [hlegal]
    rfl
  · intro hatomic
    obtain ⟨tid, hmem⟩ := hatomic.stopped
      [(0, .create 7 9), (0, .store), (0, .set 0 .perio 100), (0, .start 0), (0, .set 0 .perio 200)]
      1 0 [(0, .setStop), (0, .setWrite), (0, .setStart)] rfl rfl
    simp at hmem

end SmIpc.Os
