import SmIpc.Lib.ThreadPool
import SmIpc.Os.QueueFifo

/-! # Threads sending to and receiving from one queue

Any number of threads calling `sk_queue_send_ex` and `sk_queue_receive_ex` on one queue. A step is a
stretch of code that holds `mq->mutex`: from the call to its return or its condition wait, and from
the return of that wait to the return of the call. A thread released by `pthread_cond_signal`, or
without one, gets the mutex back at some later step.

* `QueueSys.step` is one such step; what it lets be seen is a `QueueEvent`.
* `LogOk` says what the events of a run should be: no message is overwritten before it is received,
  a receive takes the oldest message, and messages are received in the order they were sent.
* The waits are not in a loop, so a thread goes on after its wait whatever it finds. The law holds in
  every run in which a wait that did not time out finds what the thread waited for
  (`queueThreads_logOk`); otherwise it can fail (`queueThreads_stolen_message`). -/

namespace SmIpc.Os

open CircularBuffer (view count slot next)

/-! ## The threads -/

/-- The two condition variables of a queue. -/
inductive CondVar where
  /-- Signalled when a message was stored. -/
  | readCond
  /-- Signalled when a slot was freed. -/
  | writeCond
  deriving DecidableEq, Repr

/-- Where a thread stands. A waiting thread keeps the arguments of its call, whether its wait has a
deadline, and whether it has been released from the wait. -/
inductive QueuePc where
  /-- Outside every call. -/
  | idle
  /-- In the wait of `sk_queue_send_ex`. -/
  | sendWait (msg : ℕ → UInt8) (msgSize : ℕ) (timed awake : Bool)
  /-- In the wait of `sk_queue_receive_ex`. -/
  | receiveWait (msg : ℕ → UInt8) (msgSize : ℕ) (timed awake : Bool)

namespace QueuePc

/-- Whether the thread is outside every call. -/
def isIdle : QueuePc → Bool
  | idle => true
  | _ => false

/-- The condition variable the thread is blocked on. -/
def blockedOn : QueuePc → Option CondVar
  | sendWait _ _ _ false => some .writeCond
  | receiveWait _ _ _ false => some .readCond
  | _ => none

/-- The thread released from its wait; it still has to get the mutex back. -/
def release : QueuePc → QueuePc
  | idle => idle
  | sendWait msg n timed _ => sendWait msg n timed true
  | receiveWait msg n timed _ => receiveWait msg n timed true

/-- A waiting thread asked for no more than a slot holds. -/
def SizeLe (sz : ℕ) : QueuePc → Prop
  | idle => True
  | sendWait _ n _ _ => n ≤ sz
  | receiveWait _ n _ _ => n ≤ sz

theorem SizeLe.release {sz : ℕ} {pc : QueuePc} (h : pc.SizeLe sz) : pc.release.SizeLe sz := by
  cases pc <;> exact h

end QueuePc

/-- `pthread_cond_signal`, if the section makes the call: it releases one of the threads blocked on
the condition variable (`woken` chooses), or none if no thread is. -/
def condSignal (threads : List QueuePc) (cond : CondVar) (signal : Bool) (woken : Option ℕ) :
    Option (List QueuePc) :=
  match signal, woken with
  | false, none => some threads
  | false, some _ => none
  | true, none => if ∀ pc ∈ threads, pc.blockedOn ≠ some cond then some threads else none
  | true, some j =>
      match threads[j]? with
      | none => none
      | some pc => if pc.blockedOn = some cond then some (threads.set j pc.release) else none

/-- The queue and the threads that use it. -/
structure QueueSys where
  /-- The queue. -/
  mq : MsgQ
  /-- The threads. -/
  threads : List QueuePc

/-- The queue with `n` threads outside every call. -/
def QueueSys.init (mq : MsgQ) (n : ℕ) : QueueSys := ⟨mq, List.replicate n .idle⟩

/-- A step of one thread. -/
inductive QueueStep where
  /-- A call of `sk_queue_send_ex`, up to its return or its wait. -/
  | send (tid : ℕ) (msg : Option (ℕ → UInt8)) (msgSize timeoutMs : ℕ) (woken : Option ℕ)
  /-- A call of `sk_queue_receive_ex`, up to its return or its wait. -/
  | receive (tid : ℕ) (msg : Option (ℕ → UInt8)) (msgSize timeoutMs : ℕ) (woken : Option ℕ)
  /-- A waiting thread is released without a signal. -/
  | spurious (tid : ℕ)
  /-- A released thread, or one whose deadline has passed, gets the mutex back and runs to the return
  of its call. -/
  | resume (tid : ℕ) (timedOut : Bool) (woken : Option ℕ)

/-- What a step lets be seen. -/
inductive QueueEvent where
  /-- A send stored these bytes in a slot and returned `SK_SUCCESS`. -/
  | sent (slot : ℕ) (bytes : List UInt8)
  /-- A receive took a slot, delivered these bytes and returned `SK_SUCCESS`. -/
  | received (slot : ℕ) (bytes : List UInt8)
  /-- A call returned an error. -/
  | failed (status : SkStatus)
  /-- A thread began to wait, or was released from its wait. -/
  | silent
  deriving DecidableEq, Repr

namespace QueueSys

/-- The event of a send that ends a stretch. -/
def sendEvent (s : QueueSys) (msg : ℕ → UInt8) (n : ℕ) : CallEnd → QueueEvent
  | .ret .success => .sent s.mq.write (bytesAt msg 0 n)
  | .ret status => .failed status
  | .wait _ => .silent

/-- Where a send that ends a stretch leaves its thread. -/
def sendPc (msg : ℕ → UInt8) (n : ℕ) : CallEnd → QueuePc
  | .ret _ => .idle
  | .wait timed => .sendWait msg n timed false

/-- The event of a receive that ends a stretch; `out` is the caller's memory. -/
def receiveEvent (s : QueueSys) (out : ℕ → UInt8) (n : ℕ) : CallEnd → QueueEvent
  | .ret .success => .received s.mq.read (bytesAt out 0 n)
  | .ret status => .failed status
  | .wait _ => .silent

/-- Where a receive that ends a stretch leaves its thread. -/
def receivePc (msg : ℕ → UInt8) (n : ℕ) : CallEnd → QueuePc
  | .ret _ => .idle
  | .wait timed => .receiveWait msg n timed false

/-- The end of a stretch: thread `tid` moves on and the condition variable is signalled. -/
def finish (s : QueueSys) (mq : MsgQ) (tid : ℕ) (pc : QueuePc) (cond : CondVar) (signal : Bool)
    (woken : Option ℕ) (e : QueueEvent) : Option (QueueEvent × QueueSys) :=
  (condSignal (s.threads.set tid pc) cond signal woken).map fun threads => (e, ⟨mq, threads⟩)

/-- Whether a wait can return: with a time-out if it has a deadline, otherwise once its thread has been
released. -/
def waitReturns (timedOut timed awake : Bool) : Bool := if timedOut then timed else awake

/-- The memory behind a `msg` pointer; a call on NULL touches none. -/
def memory (msg : Option (ℕ → UInt8)) : ℕ → UInt8 := msg.getD fun _ => 0

/-- One step of one thread on the queue with the given id; `none` when the thread is elsewhere. -/
def step (w id : ℕ) : StepMachine QueueSys QueueStep QueueEvent
  | s, .send tid msg n timeoutMs woken =>
      if (s.threads[tid]?.map QueuePc.isIdle) = some true then
        let r := skQueueSendEx w s.mq id msg n timeoutMs
        s.finish r.2 tid (sendPc (memory msg) n r.1.1) .readCond r.1.2 woken
          (s.sendEvent (memory msg) n r.1.1)
      else none
  | s, .receive tid msg n timeoutMs woken =>
      if (s.threads[tid]?.map QueuePc.isIdle) = some true then
        let r := skQueueReceiveEx w s.mq id msg n timeoutMs
        s.finish r.2 tid (receivePc (memory msg) n r.1.1) .writeCond r.1.2.1 woken
          (s.receiveEvent (memory r.1.2.2) n r.1.1)
      else none
  | s, .spurious tid =>
      match s.threads[tid]? with
      | none => none
      | some pc =>
          if pc.blockedOn.isSome then some (.silent, { s with threads := s.threads.set tid pc.release })
          else none
  | s, .resume tid timedOut woken =>
      match s.threads[tid]? with
      | some (.sendWait msg n timed awake) =>
          if waitReturns timedOut timed awake then
            let r := sendResume w s.mq msg n timedOut
            s.finish r.2 tid .idle .readCond r.1.2 woken (s.sendEvent msg n (.ret r.1.1))
          else none
      | some (.receiveWait msg n timed awake) =>
          if waitReturns timedOut timed awake then
            let r := receiveResume w s.mq msg n timedOut
            s.finish r.2 tid .idle .writeCond r.1.2.1 woken (s.receiveEvent r.1.2.2 n (.ret r.1.1))
          else none
      | _ => none

end QueueSys

/-! ## What the events should be -/

/-- The messages whose send returned `SK_SUCCESS`, in order, with their slots. -/
def sent : List QueueEvent → List (ℕ × List UInt8)
  | [] => []
  | .sent slot bytes :: es => (slot, bytes) :: sent es
  | _ :: es => sent es

/-- What the receives that returned `SK_SUCCESS` delivered, in order, with the slots they took. -/
def received : List QueueEvent → List (ℕ × List UInt8)
  | [] => []
  | .received slot bytes :: es => (slot, bytes) :: received es
  | _ :: es => received es

/-- The messages sent and not yet received. -/
def unreceived (es : List QueueEvent) : List (ℕ × List UInt8) := (sent es).drop (received es).length

/-- What a receive delivered is the message, as far as both go, from the slot the message is in. -/
def Delivers (m r : ℕ × List UInt8) : Prop :=
  m.1 = r.1 ∧ r.2.take m.2.length = m.2.take r.2.length

/-- **What an event should be**, after the events before it: a send does not write to the slot of a
message not yet received, and a receive delivers the oldest of these. -/
def EventOk (before : List QueueEvent) : QueueEvent → Prop
  | .sent slot _ => ∀ m ∈ unreceived before, m.1 ≠ slot
  | .received slot bytes => ∃ m, (unreceived before).head? = some m ∧ Delivers m (slot, bytes)
  | _ => True

/-- **What the events of a run should be**: each is as it should be, and the messages received are the
first of the messages sent. -/
structure LogOk (es : List QueueEvent) : Prop where
  /-- Nothing is overwritten, and every successful receive consumes a message. -/
  events : ∀ before e after, es = before ++ e :: after → EventOk before e
  /-- Received is a prefix of sent. -/
  inOrder : List.Forall₂ Delivers ((sent es).take (received es).length) (received es)

theorem sent_append (es fs : List QueueEvent) : sent (es ++ fs) = sent es ++ sent fs := by
  induction es with
  | nil => rfl
  | cons e es ih => cases e <;> simp [sent, ih]

theorem received_append (es fs : List QueueEvent) :
    received (es ++ fs) = received es ++ received fs := by
  induction es with
  | nil => rfl
  | cons e es ih => cases e <;> simp [received, ih]

namespace LogOk

variable {es : List QueueEvent}

theorem nil : LogOk [] := ⟨fun before e after h => by simp at h, List.Forall₂.nil⟩

/-- No more messages are received than sent. -/
theorem length_le (h : LogOk es) : (received es).length ≤ (sent es).length := by
  have := h.inOrder.length_eq
  rw [List.length_take] at this
  omega

/-- **One more event**: if it is as it should be, so is the longer log. -/
theorem snoc (h : LogOk es) {e : QueueEvent} (he : EventOk es e) : LogOk (es ++ [e]) := by
  refine ⟨?_, ?_⟩
  · intro before e' after heq
    rcases List.eq_nil_or_concat after with rfl | ⟨after', x, rfl⟩
    · obtain ⟨rfl, he'⟩ := List.append_inj' heq rfl
      obtain rfl : e = e' := by simpa using he'
      exact he
    · rw [List.concat_eq_append, ← List.cons_append, ← List.append_assoc] at heq
      exact h.events before e' after' (List.append_inj' heq rfl).1
  · rw [sent_append, received_append]
    cases e with
    | sent slot bytes =>
      simp only [sent, received, List.append_nil]
      rw [List.take_append_of_le_length h.length_le]
      exact h.inOrder
    | received slot bytes =>
      obtain ⟨m, hm, hd⟩ := he
      simp only [sent, received, List.append_nil, List.length_append, List.length_singleton]
      rw [unreceived, List.head?_drop] at hm
      rw [List.take_add_one, hm]
      exact List.rel_append h.inOrder (List.Forall₂.cons hd List.Forall₂.nil)
    | failed status => simpa [sent, received] using h.inOrder
    | silent => simpa [sent, received] using h.inOrder

/-- A message that was sent is the newest not yet received. -/
theorem unreceived_sent (h : LogOk es) (slot : ℕ) (bytes : List UInt8) :
    unreceived (es ++ [.sent slot bytes]) = unreceived es ++ [(slot, bytes)] := by
  simp only [unreceived, sent_append, received_append, sent, received, List.append_nil]
  exact List.drop_append_of_le_length h.length_le

/-- A receive leaves all but the oldest. -/
theorem unreceived_received (es : List QueueEvent) (slot : ℕ) (bytes : List UInt8) :
    unreceived (es ++ [.received slot bytes]) = (unreceived es).tail := by
  simp only [unreceived, sent_append, received_append, sent, received, List.append_nil,
    List.length_append, List.length_singleton, List.tail_drop]

end LogOk

/-! ## The queue and its log -/

/-- The queue holds the messages sent and not yet received, each in the slot it was sent to. -/
structure MsgQ.Queued (w cap : ℕ) (es : List QueueEvent) (mq : MsgQ) : Prop where
  /-- The events so far are as they should be. -/
  log : LogOk es
  /-- The queue represents the FIFO of the messages not yet received. -/
  holds : ∃ l : BoundedFifo (List UInt8) cap,
    mq.Holds w l ∧ l.items = (unreceived es).map Prod.snd
  /-- Their slots are those between the cursors. -/
  slots : (unreceived es).map Prod.fst = view id mq.mqMaxmsg mq.read (unreceived es).length

namespace MsgQ.Queued

variable {w cap n : ℕ} {es : List QueueEvent} {mq : MsgQ}

/-- A call that raises the reference count leaves what is queued. -/
theorem acquire (h : mq.Queued w cap es) : (Os.acquire w mq).Queued w cap es := by
  obtain ⟨l, hl, hitems⟩ := h.holds
  exact ⟨h.log, ⟨l, hl.acquire, hitems⟩, h.slots⟩

/-- A call that lowers it leaves what is queued. -/
theorem release (h : mq.Queued w cap es) : (Os.release w mq).Queued w cap es := by
  obtain ⟨l, hl, hitems⟩ := h.holds
  exact ⟨h.log, ⟨l, hl.release, hitems⟩, h.slots⟩

/-- A call that fails leaves what is queued. -/
theorem failed (h : mq.Queued w cap es) (status : SkStatus) :
    mq.Queued w cap (es ++ [.failed status]) := by
  have heq : unreceived (es ++ [.failed status]) = unreceived es := by
    simp [unreceived, sent_append, received_append, sent, received]
  exact ⟨h.log.snoc trivial, heq ▸ h.holds, heq ▸ h.slots⟩

/-- A thread that begins or ends its wait leaves what is queued. -/
theorem silent (h : mq.Queued w cap es) : mq.Queued w cap (es ++ [.silent]) := by
  have heq : unreceived (es ++ [.silent]) = unreceived es := by
    simp [unreceived, sent_append, received_append, sent, received]
  exact ⟨h.log.snoc trivial, heq ▸ h.holds, heq ▸ h.slots⟩

/-- The number of messages not yet received is the distance between the cursors. -/
theorem length_unreceived (h : mq.Queued w cap es) :
    (unreceived es).length = count mq.mqMaxmsg mq.read mq.write := by
  obtain ⟨l, hl, hitems⟩ := h.holds
  rw [← hl.length_eq, hitems, List.length_map]

/-- **A send into a queue that is not full** writes to no slot in use, and queues its message. -/
theorem send (h : mq.Queued w cap es) (hfull : ¬ IsFull w mq) (src : ℕ → UInt8)
    (hn : n ≤ mq.mqMsgsize) :
    (sendStore w mq src n).2.Queued w cap (es ++ [.sent mq.write (bytesAt src 0 n)]) := by
  obtain ⟨l, hl, hitems⟩ := h.holds
  have hroom : l.items.length < cap := not_not.mp fun hc => hfull (hl.isFull_iff.mpr hc)
  have hlen := h.length_unreceived
  have hspare := CircularBuffer.slot_count hl.read_lt hl.write_lt
  -- the slot written is the spare one, behind every slot in use
  have hok : EventOk es (.sent mq.write (bytesAt src 0 n)) := by
    intro m hm
    have hmem : m.1 ∈ view id mq.mqMaxmsg mq.read (unreceived es).length :=
      h.slots ▸ List.mem_map_of_mem hm
    obtain ⟨i, hi, hslot⟩ := CircularBuffer.mem_view.mp hmem
    have hcount := CircularBuffer.count_lt hl.read_lt hl.write_lt
    rw [← hslot, ← hspare]
    exact CircularBuffer.slot_ne (by omega) hcount (by omega)
  refine ⟨h.log.snoc hok, ⟨_, hl.sendStore hroom src hn, ?_⟩, ?_⟩
  · rw [(l.push_of_lt _ hroom).2, h.log.unreceived_sent, hitems, List.map_append]
    rfl
  · rw [h.log.unreceived_sent, List.map_append, h.slots, List.length_append,
      List.length_singleton]
    show _ = view id mq.mqMaxmsg mq.read ((unreceived es).length + 1)
    rw [CircularBuffer.view_succ, hlen, hspare]
    rfl

/-- **A receive from a queue that is not empty** takes the oldest message not yet received. -/
theorem receive (h : mq.Queued w cap es) (hne : mq.read ≠ mq.write) (dst : ℕ → UInt8)
    (hn : n ≤ mq.mqMsgsize) :
    (receiveTake w mq dst n).2.Queued w cap
      (es ++ [.received mq.read (bytesAt (receiveTake w mq dst n).1.2 0 n)]) := by
  obtain ⟨l, hl, hitems⟩ := h.holds
  have hnext : (receiveTake w mq dst n).2.read = next mq.mqMaxmsg mq.read :=
    hl.cursor_eq hl.read_lt
  have hlen := h.length_unreceived
  have hcount := CircularBuffer.count_lt hl.read_lt hl.write_lt
  have hslots := h.slots
  cases hu : unreceived es with
  | nil =>
    rw [hu, List.length_nil] at hlen
    exact absurd ((CircularBuffer.count_eq_zero_iff hl.read_lt).mp hlen.symm) hne
  | cons m ms =>
    rw [hu, List.length_cons] at hlen
    rw [hu, List.map_cons] at hitems
    rw [hu, List.map_cons, List.length_cons,
      CircularBuffer.view_cons id hl.read_lt (by omega)] at hslots
    -- the oldest message is in the slot at the read cursor
    obtain ⟨hm, hms⟩ := List.cons_eq_cons.mp hslots
    obtain ⟨hholds, hbytes⟩ := hl.receiveTake hitems dst hn
    have hok : EventOk es (.received mq.read (bytesAt (receiveTake w mq dst n).1.2 0 n)) := by
      refine ⟨m, by rw [hu, List.head?_cons], hm, ?_⟩
      rw [length_bytesAt]
      exact hbytes
    refine ⟨h.log.snoc hok, ⟨_, hholds, ?_⟩, ?_⟩
    · rw [BoundedFifo.pop_snd_items, hitems, LogOk.unreceived_received, hu]
      rfl
    · rw [LogOk.unreceived_received, hu, hnext]
      exact hms

end MsgQ.Queued

/-! ## Runs -/

namespace QueueSys

variable {w id cap : ℕ} {es : List QueueEvent} {s t : QueueSys}

/-- A signal releases a thread and keeps every call's arguments. -/
theorem sizeLe_condSignal {threads threads' : List QueuePc} {cond : CondVar} {signal : Bool}
    {woken : Option ℕ} {sz : ℕ} (h : ∀ pc ∈ threads, pc.SizeLe sz)
    (hs : condSignal threads cond signal woken = some threads') : ∀ pc ∈ threads', pc.SizeLe sz := by
  unfold condSignal at hs
  split at hs
  · obtain rfl := Option.some.inj hs
    exact h
  · cases hs
  · split at hs
    · obtain rfl := Option.some.inj hs
      exact h
    · cases hs
  · split at hs
    · cases hs
    · rename_i pc hpc
      split at hs
      · obtain rfl := Option.some.inj hs
        exact ThreadPool.forall_mem_set h _ (h pc (ThreadPool.mem_of_get hpc)).release
      · cases hs

/-- **What a run keeps**: the queue holds what was sent and not yet received, and every waiting thread
asked for no more than a slot holds. -/
structure Good (w cap : ℕ) (es : List QueueEvent) (s : QueueSys) : Prop where
  /-- The queue and its log. -/
  queued : s.mq.Queued w cap es
  /-- The arguments of the waiting calls passed the parameter check. -/
  sizes : ∀ pc ∈ s.threads, pc.SizeLe s.mq.mqMsgsize

/-- The end of a stretch keeps the invariant if its effect on the queue does. -/
theorem Good.finish (h : Good w cap es s) {mq : MsgQ} {tid : ℕ} {pc : QueuePc} {cond : CondVar}
    {signal : Bool} {woken : Option ℕ} {e o : QueueEvent}
    (hs : s.finish mq tid pc cond signal woken e = some (o, t)) (hmq : mq.Queued w cap (es ++ [e]))
    (hsz : mq.mqMsgsize = s.mq.mqMsgsize) (hpc : pc.SizeLe s.mq.mqMsgsize) :
    Good w cap (es ++ [o]) t := by
  obtain ⟨threads, hthreads, heq⟩ := Option.map_eq_some_iff.mp hs
  obtain ⟨rfl, rfl⟩ := Prod.mk.inj heq
  refine ⟨hmq, ?_⟩
  rw [hsz]
  exact sizeLe_condSignal (ThreadPool.forall_mem_set h.sizes tid hpc) hthreads

/-- **The condition on a step**: a wait that returns without a time-out finds what its thread waited
for, a queue that is not full or one that is not empty. -/
def WaitMet (w : ℕ) (s : QueueSys) : QueueStep → Prop
  | .resume tid false _ =>
      match s.threads[tid]? with
      | some (.sendWait _ _ _ _) => ¬ IsFull w s.mq
      | some (.receiveWait _ _ _ _) => s.mq.read ≠ s.mq.write
      | _ => True
  | _ => True

/-- A call of `sk_queue_send_ex`, up to its return or its wait. -/
theorem Good.send (h : Good w cap es s) (hid : IsValidId w id) {tid n timeoutMs : ℕ}
    {msg : Option (ℕ → UInt8)} {woken : Option ℕ} {o : QueueEvent}
    (hs : step w id s (.send tid msg n timeoutMs woken) = some (o, t)) :
    Good w cap (es ++ [o]) t := by
  obtain ⟨l, hl, -⟩ := h.queued.holds
  simp only [step] at hs
  split at hs
  · rcases skQueueSendEx_cases hl hid msg n timeoutMs with ⟨-, hr⟩ | ⟨src, rfl, hn, hcase⟩
    · rw [hr] at hs
      exact h.finish hs (h.queued.failed _) rfl trivial
    · rcases hcase with ⟨hroom, signal, hr⟩ | ⟨-, ⟨-, hr⟩ | ⟨-, timed, hr⟩⟩
      · rw [hr] at hs
        -- stored at once
        have hfull : ¬ IsFull w (acquire w s.mq) := fun hf => hl.acquire.isFull_iff.mp hf hroom
        exact h.finish hs (h.queued.acquire.send hfull src hn) rfl trivial
      · rw [hr] at hs
        exact h.finish hs (h.queued.failed _) rfl trivial
      · rw [hr] at hs
        exact h.finish hs h.queued.acquire.silent rfl hn
  · cases hs

/-- A call of `sk_queue_receive_ex`, up to its return or its wait. -/
theorem Good.receive (h : Good w cap es s) (hid : IsValidId w id) {tid n timeoutMs : ℕ}
    {msg : Option (ℕ → UInt8)} {woken : Option ℕ} {o : QueueEvent}
    (hs : step w id s (.receive tid msg n timeoutMs woken) = some (o, t)) :
    Good w cap (es ++ [o]) t := by
  obtain ⟨l, hl, -⟩ := h.queued.holds
  simp only [step] at hs
  split at hs
  · rcases skQueueReceiveEx_cases hl hid msg n timeoutMs with ⟨-, hr⟩ | ⟨dst, rfl, hn, hcase⟩
    · rw [hr] at hs
      exact h.finish hs (h.queued.failed _) rfl trivial
    · rcases hcase with ⟨m, ms, hitems, hr⟩ | ⟨-, ⟨-, hr⟩ | ⟨-, timed, hr⟩⟩
      · rw [hr] at hs
        -- taken at once
        have hne : (acquire w s.mq).read ≠ (acquire w s.mq).write := fun he =>
          List.cons_ne_nil m ms (hitems ▸ hl.acquire.isEmpty_iff.mp he)
        exact h.finish hs (h.queued.acquire.receive hne dst hn) rfl trivial
      · rw [hr] at hs
        exact h.finish hs (h.queued.failed _) rfl trivial
      · rw [hr] at hs
        exact h.finish hs h.queued.acquire.silent rfl hn
  · cases hs

/-- A wait that returns: on a time-out the call fails, otherwise it goes on without looking again, and
the condition says that what it does is right. -/
theorem Good.resume (h : Good w cap es s) {tid : ℕ} {timedOut : Bool} {woken : Option ℕ}
    {o : QueueEvent} (hmet : WaitMet w s (.resume tid timedOut woken))
    (hs : step w id s (.resume tid timedOut woken) = some (o, t)) : Good w cap (es ++ [o]) t := by
  obtain ⟨l, hl, -⟩ := h.queued.holds
  simp only [step] at hs
  split at hs
  · rename_i msg n timed awake hpc
    have hn : n ≤ s.mq.mqMsgsize := h.sizes _ (ThreadPool.mem_of_get hpc)
    split at hs
    · cases timedOut with
      | true => exact h.finish hs (h.queued.release.failed _) rfl trivial
      | false =>
        simp only [WaitMet, hpc] at hmet
        -- the thread stores its message without another look at the queue
        rw [sendResume, if_neg (by simp [hl.magicnum_eq])] at hs
        exact h.finish hs (h.queued.send hmet msg hn) rfl trivial
    · cases hs
  · rename_i msg n timed awake hpc
    have hn : n ≤ s.mq.mqMsgsize := h.sizes _ (ThreadPool.mem_of_get hpc)
    split at hs
    · cases timedOut with
      | true => exact h.finish hs (h.queued.release.failed _) rfl trivial
      | false =>
        simp only [WaitMet, hpc] at hmet
        -- the thread takes a slot without another look at the queue
        rw [receiveResume, if_neg (by simp [hl.magicnum_eq])] at hs
        exact h.finish hs (h.queued.receive hmet msg hn) rfl trivial
    · cases hs
  · cases hs

/-- **One step that meets the condition keeps everything a run keeps.** -/
theorem Good.step (h : Good w cap es s) (hid : IsValidId w id) {i : QueueStep} {o : QueueEvent}
    (hmet : WaitMet w s i) (hs : step w id s i = some (o, t)) : Good w cap (es ++ [o]) t := by
  cases i with
  | send tid msg n timeoutMs woken => exact h.send hid hs
  | receive tid msg n timeoutMs woken => exact h.receive hid hs
  | resume tid timedOut woken => exact h.resume hmet hs
  | spurious tid =>
    simp only [QueueSys.step] at hs
    split at hs
    · cases hs
    · rename_i pc hpc
      split at hs
      · obtain ⟨rfl, rfl⟩ := Prod.mk.inj (Option.some.inj hs)
        refine ⟨h.queued.silent, ?_⟩
        exact ThreadPool.forall_mem_set h.sizes tid (h.sizes pc (ThreadPool.mem_of_get hpc)).release
      · cases hs

end QueueSys

/-- **Threads on one queue.** Take a queue made by `sk_queue_create_ex` for at least one message, with
sizes that do not wrap, and any number of threads. In every run whose waits, when they return
without a time-out, find what their thread waited for, no message is overwritten before it is
received, every successful receive consumes the oldest message not yet received, and what is
received is a prefix of what is sent. -/
theorem queueThreads_logOk {w sizeofMsgQ id maxMsgCount msgSize : ℕ} {malloc : ℕ → Option ℕ}
    {pNull : Bool} {mq₀ : MsgQ} (hcap : 1 ≤ maxMsgCount) (htwice : 2 * (maxMsgCount + 1) ≤ 2 ^ w)
    (hsize : sizeofMsgQ + (maxMsgCount + 1) * msgSize < 2 ^ w)
    (hcreate : skQueueCreateEx w sizeofMsgQ malloc pNull maxMsgCount msgSize =
      (.success, some (id, mq₀)))
    (hid : IsValidId w id) (n : ℕ) (steps : List QueueStep) (es : List QueueEvent) (s : QueueSys)
    (hmet : StepMachine.Along (QueueSys.step w id) (QueueSys.WaitMet w) (QueueSys.init mq₀ n) steps)
    (hrun : StepMachine.run (QueueSys.step w id) (QueueSys.init mq₀ n) steps = some (es, s)) :
    LogOk es := by
  obtain ⟨h₀, -⟩ := holds_skQueueCreateEx hcap htwice hsize hcreate
  have hgood : QueueSys.Good w maxMsgCount es s := by
    refine StepMachine.run_induction_along (QueueSys.step w id) (QueueSys.WaitMet w)
      (fun _ es s => QueueSys.Good w maxMsgCount es s) ?_ ?_ hmet hrun
    · refine ⟨⟨LogOk.nil, ⟨_, h₀, rfl⟩, rfl⟩, ?_⟩
      intro pc hpc
      rw [List.eq_of_mem_replicate hpc]
      trivial
    · exact fun _ _ _ _ _ _ _ h hC hs => h.step hid hC hs
  exact hgood.queued.log

/-- The queue `sk_queue_create_ex` makes for one message of one byte. -/
def oneByteQueue : MsgQ := ⟨mqMagicnum, 2, 1, 0, 0, 0, fun _ => 0⟩

/-- The law at that queue: a receive waits, a send stores a message and releases it, and it takes that
message. -/
theorem queueThreads_logOk_wait : LogOk [.silent, .sent 0 [7], .received 0 [7]] := by
  obtain ⟨es, s, hrun, rfl⟩ : ∃ es s,
      StepMachine.run (QueueSys.step 32 64) (QueueSys.init oneByteQueue 2)
          [.receive 0 (some fun _ => 0) 1 skTimeoutInfinity none,
            .send 1 (some fun _ => 7) 1 skTimeoutImmediate (some 0), .resume 0 false none] =
          some (es, s) ∧
        es = [.silent, .sent 0 [7], .received 0 [7]] := ⟨_, _, rfl, rfl⟩
  refine @queueThreads_logOk 32 200 64 1 1 (fun _ => some 64) false oneByteQueue (by decide)
    (by decide) (by decide) rfl (by decide) 2 _ _ s ?_ hrun
  refine StepMachine.along_cons trivial rfl (StepMachine.along_cons trivial rfl
    (StepMachine.along_cons ?_ rfl trivial))
  show (0 : ℕ) ≠ 1
  decide

/-- **A wait that is not repeated.** On that queue a receive waits; a send releases it, but another
receive takes the message first. The released thread goes on, and returns `SK_SUCCESS` with the
contents of a slot no message is in. -/
theorem queueThreads_stolen_message :
    skQueueCreateEx 32 200 (fun _ => some 64) false 1 1 = (.success, some (64, oneByteQueue)) ∧
      ∃ es s, StepMachine.run (QueueSys.step 32 64) (QueueSys.init oneByteQueue 3)
          [.receive 0 (some fun _ => 0) 1 skTimeoutInfinity none,
            .send 1 (some fun _ => 7) 1 skTimeoutImmediate (some 0),
            .receive 2 (some fun _ => 0) 1 skTimeoutImmediate none, .resume 0 false none] =
          some (es, s) ∧
        es = [.silent, .sent 0 [7], .received 0 [7], .received 1 [0]] ∧ ¬ LogOk es := by
  refine ⟨rfl, _, _, rfl, rfl, ?_⟩
  intro h
  -- the second receive would have to take a message, and none is left
  obtain ⟨m, hm, -⟩ := h.events [.silent, .sent 0 [7], .received 0 [7]] (.received 1 [0]) [] rfl
  simp [unreceived, sent, received] at hm

end SmIpc.Os
