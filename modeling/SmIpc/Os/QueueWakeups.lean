import SmIpc.Os.QueueThreads

/-! # No wake-up is missed

Whether a thread can stay blocked in the wait of `sk_queue_send_ex` or `sk_queue_receive_ex` although there
is what it waits for. A stretch that stores a message always signals `read_cond`, one that takes a message
always signals `write_cond`, and a signal is lost only when no thread is blocked. So while a thread is
blocked, there are at most as many messages, or free slots, as threads already released from the same wait
(`Wakeups`): each of these is about to use one.

The law holds in the runs of `queueThreads_logOk` in which no thread that was released returns from its wait
with a time-out (`queueThreads_no_missed_wakeup`); such a thread takes its signal with it, and a message can
then lie in the queue while a receive stays blocked (`queueThreads_lost_signal`). -/

namespace SmIpc.Os

/-- The other condition variable. -/
def CondVar.other : CondVar → CondVar
  | .readCond => .writeCond
  | .writeCond => .readCond

/-- The condition variable a thread has been released from; it still has to get the mutex back. -/
def QueuePc.releasedFrom : QueuePc → Option CondVar
  | .sendWait _ _ _ true => some .writeCond
  | .receiveWait _ _ _ true => some .readCond
  | _ => none

/-- The number of threads blocked on a condition variable. -/
def blocked (c : CondVar) (threads : List QueuePc) : ℕ :=
  threads.countP fun pc => pc.blockedOn = some c

/-- The number of threads released from it. -/
def released (c : CondVar) (threads : List QueuePc) : ℕ :=
  threads.countP fun pc => pc.releasedFrom = some c

/-- What the threads wait for on a condition variable: the queued messages, or the free slots. -/
def available (cap queued : ℕ) : CondVar → ℕ
  | .readCond => queued
  | .writeCond => cap - queued

/-- **No wake-up was missed.** -/
def Wakeups (cap queued : ℕ) (threads : List QueuePc) : Prop :=
  ∀ c, 0 < blocked c threads → available cap queued c ≤ released c threads

namespace QueuePc

variable {pc : QueuePc} {c : CondVar}

@[simp] theorem blockedOn_idle : idle.blockedOn = none := rfl

@[simp] theorem releasedFrom_idle : idle.releasedFrom = none := rfl

/-- A thread that is released was blocked. -/
theorem releasedFrom_release (h : pc.blockedOn = some c) :
    pc.release.releasedFrom = some c ∧ pc.release.blockedOn = none := by
  revert h
  fun_cases blockedOn pc
  all_goals
    intro h
    cases h
  · exact ⟨rfl, rfl⟩
  · exact ⟨rfl, rfl⟩

/-- A thread is not both. -/
theorem blockedOn_of_releasedFrom (h : pc.releasedFrom = some c) : pc.blockedOn = none := by
  revert h
  fun_cases releasedFrom pc
  all_goals
    intro h
    cases h
  · rfl
  · rfl

theorem releasedFrom_of_blockedOn (h : pc.blockedOn = some c) : pc.releasedFrom = none := by
  cases hrel : pc.releasedFrom with
  | none => rfl
  | some d => cases h.symm.trans (blockedOn_of_releasedFrom hrel)

end QueuePc

theorem CondVar.eq_or_eq_other (c d : CondVar) : d = c ∨ d = c.other := by
  cases c <;> cases d <;> simp [CondVar.other]

theorem CondVar.other_ne (c : CondVar) : c.other ≠ c := by
  cases c <;> simp [CondVar.other]

section Pool

variable {threads threads' : List QueuePc} {tid : ℕ} {pc : QueuePc} {c : CondVar}

/-- The counts after one thread has moved. -/
theorem blocked_set (h : threads[tid]? = some pc) (pc' : QueuePc) (d : CondVar) :
    blocked d (threads.set tid pc') + (if pc.blockedOn = some d then 1 else 0) =
      blocked d threads + if pc'.blockedOn = some d then 1 else 0 := by
  simpa [blocked] using ThreadPool.countP_set (fun pc : QueuePc => pc.blockedOn = some d) h pc'

theorem released_set (h : threads[tid]? = some pc) (pc' : QueuePc) (d : CondVar) :
    released d (threads.set tid pc') + (if pc.releasedFrom = some d then 1 else 0) =
      released d threads + if pc'.releasedFrom = some d then 1 else 0 := by
  simpa [released] using ThreadPool.countP_set (fun pc : QueuePc => pc.releasedFrom = some d) h pc'

/-- **One thread is released**: it is counted on the other side. -/
theorem release_counts (h : threads[tid]? = some pc) (hpc : pc.blockedOn = some c) (d : CondVar) :
    blocked d (threads.set tid pc.release) + (if d = c then 1 else 0) = blocked d threads ∧
      released d (threads.set tid pc.release) = released d threads + if d = c then 1 else 0 := by
  obtain ⟨hrel, hnone⟩ := QueuePc.releasedFrom_release hpc
  have hbefore := QueuePc.releasedFrom_of_blockedOn hpc
  have hb := blocked_set h pc.release d
  have hr := released_set h pc.release d
  rw [hpc, hnone] at hb
  rw [hrel, hbefore] at hr
  by_cases hd : d = c
  · subst hd
    simp only [if_true, reduceCtorEq, if_false] at hb hr ⊢
    omega
  · have hne : ¬ some c = some d := fun he => hd (Option.some.inj he).symm
    simp only [if_neg hd, if_neg hne, reduceCtorEq, if_false] at hb hr ⊢
    omega

/-- **A signal** releases a thread if one is blocked, and changes nothing otherwise. -/
theorem condSignal_counts {woken : Option ℕ} (hs : condSignal threads c true woken = some threads') :
    (blocked c threads = 0 ∧ threads' = threads) ∨
      ∀ d, blocked d threads' + (if d = c then 1 else 0) = blocked d threads ∧
        released d threads' = released d threads + if d = c then 1 else 0 := by
  cases woken with
  | none =>
    simp only [condSignal, Option.ite_none_right_eq_some, Option.some.injEq] at hs
    refine .inl ⟨List.countP_eq_zero.mpr fun pc hpc => ?_, hs.2.symm⟩
    simpa using hs.1 pc hpc
  | some j =>
    simp only [condSignal] at hs
    split at hs
    · cases hs
    · rename_i pc hpc
      split at hs
      · cases hs
        exact .inr (release_counts hpc ‹_›)
      · cases hs

/-- Some thread can always be chosen for a signal. -/
theorem exists_condSignal (threads : List QueuePc) (c : CondVar) (signal : Bool) :
    ∃ woken, (condSignal threads c signal woken).isSome := by
  cases signal with
  | false => exact ⟨none, rfl⟩
  | true =>
    by_cases hnone : ∀ pc ∈ threads, pc.blockedOn ≠ some c
    · exact ⟨none, by rw [condSignal, if_pos hnone]; rfl⟩
    · push Not at hnone
      obtain ⟨pc, hpc, hblocked⟩ := hnone
      obtain ⟨j, hj⟩ := List.mem_iff_getElem?.mp hpc
      exact ⟨some j, by simp [condSignal, hj, hblocked]⟩

end Pool

namespace Wakeups

variable {cap queued queued' tid : ℕ} {threads threads' : List QueuePc} {pc : QueuePc} {c : CondVar}

/-- A thread that is not blocked on what there is begins to wait. -/
theorem block (h : Wakeups cap queued threads) (hpc : threads[tid]? = some .idle) {pc' : QueuePc}
    (hblocked : pc'.blockedOn = some c) (hnone : available cap queued c = 0) :
    Wakeups cap queued (threads.set tid pc') := by
  intro d hd
  have hb := blocked_set hpc pc' d
  have hr := released_set hpc pc' d
  rcases c.eq_or_eq_other d with rfl | rfl
  · rw [hnone]
    exact Nat.zero_le _
  · have hne : ¬ pc'.blockedOn = some c.other := fun he =>
      c.other_ne (Option.some.inj (he.symm.trans hblocked))
    simp only [if_neg hne, QueuePc.releasedFrom_of_blockedOn hblocked, QueuePc.blockedOn_idle,
      QueuePc.releasedFrom_idle, reduceCtorEq, if_false] at hb hr
    have := h c.other (by omega)
    omega

/-- A thread that was not released leaves its wait, or was in none. -/
theorem leave (h : Wakeups cap queued threads) (hpc : threads[tid]? = some pc)
    (hnot : pc.releasedFrom = none) : Wakeups cap queued (threads.set tid .idle) := by
  intro d hd
  have hb := blocked_set hpc .idle d
  have hr := released_set hpc .idle d
  simp only [hnot, QueuePc.blockedOn_idle, QueuePc.releasedFrom_idle, reduceCtorEq, if_false] at hb hr
  have := h d (by omega)
  omega

/-- A thread is released without a signal. -/
theorem spurious (h : Wakeups cap queued threads) (hpc : threads[tid]? = some pc)
    (hblocked : pc.blockedOn = some c) : Wakeups cap queued (threads.set tid pc.release) := by
  intro d hd
  obtain ⟨hb, hr⟩ := release_counts hpc hblocked d
  have := h d (by omega)
  omega

/-- **A thread takes one of what there is, and makes one of the other**, for which it signals: it is one
that did not wait, or one that was released. -/
theorem use (h : Wakeups cap queued threads) (hpc : threads[tid]? = some pc)
    (hwas : pc = .idle ∨ pc.releasedFrom = some c)
    (hless : available cap queued' c + 1 = available cap queued c)
    (hmore : available cap queued' c.other = available cap queued c.other + 1) {woken : Option ℕ}
    (hs : condSignal (threads.set tid .idle) c.other true woken = some threads') :
    Wakeups cap queued' threads' := by
  have hnot : pc.blockedOn = none := by
    rcases hwas with rfl | hrel
    · rfl
    · exact QueuePc.blockedOn_of_releasedFrom hrel
  have hb := blocked_set hpc .idle
  have hr := released_set hpc .idle
  simp only [hnot, QueuePc.blockedOn_idle, QueuePc.releasedFrom_idle, reduceCtorEq, if_false] at hb hr
  -- the thread counts for `c` if it was released
  have hown : released c (threads.set tid .idle) + 1 = released c threads ∨
      released c (threads.set tid .idle) = released c threads := by
    have := hr c
    split at this <;> omega
  have hother : released c.other (threads.set tid .idle) = released c.other threads := by
    have hne : ¬ pc.releasedFrom = some c.other := by
      rcases hwas with rfl | hrel
      · simp [QueuePc.releasedFrom]
      · rw [hrel]
        exact fun he => c.other_ne (Option.some.inj he).symm
    have := hr c.other
    rw [if_neg hne] at this
    omega
  have hbc := hb c
  have hbo := hb c.other
  have hc := h c
  have ho := h c.other
  have hne : ¬ c = c.other := fun he => c.other_ne he.symm
  rcases condSignal_counts hs with ⟨hzero, rfl⟩ | hcounts
  · intro d hd
    rcases c.eq_or_eq_other d with rfl | rfl <;> omega
  · obtain ⟨hb₁, hr₁⟩ := hcounts c
    obtain ⟨hb₂, hr₂⟩ := hcounts c.other
    rw [if_neg hne] at hb₁ hr₁
    rw [if_pos rfl] at hb₂ hr₂
    intro d hd
    rcases c.eq_or_eq_other d with rfl | rfl <;> omega

end Wakeups

/-! ## The calls -/

section Signals

variable {w cap : ℕ} {mq : MsgQ} {l : BoundedFifo (List UInt8) cap}

/-- A stretch that stores a message signals `read_cond`. -/
theorem signal_sendStore (h : mq.Holds w l) (hroom : l.items.length < cap) (src : ℕ → UInt8) {n : ℕ}
    (hn : n ≤ mq.mqMsgsize) : (sendStore w mq src n).1 = true := by
  have hholds := h.sendStore hroom src hn
  have hne : (sendStore w mq src n).2.write ≠ mq.read := fun heq => by
    have hempty := hholds.isEmpty_iff.mp heq.symm
    rw [(l.push_of_lt _ hroom).2] at hempty
    simp at hempty
  exact decide_eq_true hne

/-- A stretch that takes a message signals `write_cond`. -/
theorem signal_receiveTake (h : mq.Holds w l) {m : List UInt8} {ms : List (List UInt8)}
    (hl : l.items = m :: ms) (dst : ℕ → UInt8) {n : ℕ} (hn : n ≤ mq.mqMsgsize) :
    (receiveTake w mq dst n).1.1 = true := by
  have hholds := (h.receiveTake hl dst hn).1
  have hlen := l.length_le
  rw [hl, List.length_cons] at hlen
  have hfree : ¬ IsFull w (receiveTake w mq dst n).2 := fun hfull => by
    have := hholds.isFull_iff.mp hfull
    rw [BoundedFifo.pop_snd_items, hl, List.tail_cons] at this
    omega
  exact decide_eq_true hfree

end Signals

namespace QueueSys

variable {w id cap : ℕ} {es : List QueueEvent} {s t : QueueSys} {tid : ℕ} {o : QueueEvent}

/-- The number of messages queued after an event. -/
theorem queued_snoc (h : LogOk es) (o : QueueEvent) :
    (unreceived (es ++ [o])).length =
      match o with
      | .sent _ _ => (unreceived es).length + 1
      | .received _ _ => (unreceived es).length - 1
      | _ => (unreceived es).length := by
  cases o with
  | sent slot bytes => rw [h.unreceived_sent, List.length_append, List.length_singleton]
  | received slot bytes => rw [LogOk.unreceived_received, List.length_tail]
  | failed status => simp [unreceived, sent_append, received_append, sent, received]
  | silent => simp [unreceived, sent_append, received_append, sent, received]

/-- **The condition on a step**: a thread that was released does not time out. -/
def NoLateTimeout (s : QueueSys) : QueueStep → Prop
  | .resume tid true _ => ∀ pc, s.threads[tid]? = some pc → pc.releasedFrom = none
  | _ => True

/-- What is known of the end of a stretch. -/
theorem finish_cases {mq : MsgQ} {pc : QueuePc} {cond : CondVar} {signal : Bool} {woken : Option ℕ}
    {e : QueueEvent} (hs : s.finish mq tid pc cond signal woken e = some (o, t)) :
    o = e ∧ condSignal (s.threads.set tid pc) cond signal woken = some t.threads := by
  obtain ⟨threads, hthreads, heq⟩ := Option.map_eq_some_iff.mp hs
  obtain ⟨rfl, rfl⟩ := Prod.mk.inj heq
  exact ⟨rfl, hthreads⟩

/-- A stretch that does not signal. -/
theorem finish_silent {mq : MsgQ} {pc : QueuePc} {cond : CondVar} {woken : Option ℕ} {e : QueueEvent}
    (hs : s.finish mq tid pc cond false woken e = some (o, t)) :
    o = e ∧ t.threads = s.threads.set tid pc := by
  obtain ⟨rfl, hsignal⟩ := finish_cases hs
  cases woken with
  | none => exact ⟨rfl, (Option.some.inj hsignal).symm⟩
  | some j => cases hsignal

/-- **A send that stores its message**, at its call or after its wait. -/
theorem wakeups_sent (h : Good w cap es s) (hwake : Wakeups cap (unreceived es).length s.threads)
    {pc : QueuePc} (hpc : s.threads[tid]? = some pc)
    (hwas : pc = .idle ∨ pc.releasedFrom = some .writeCond) (hroom : (unreceived es).length < cap)
    {mq : MsgQ} {slot : ℕ} {bytes : List UInt8} {woken : Option ℕ}
    (hs : s.finish mq tid .idle .readCond true woken (.sent slot bytes) = some (o, t)) :
    Wakeups cap (unreceived (es ++ [o])).length t.threads := by
  obtain ⟨rfl, hsignal⟩ := finish_cases hs
  rw [queued_snoc h.queued.log]
  refine hwake.use hpc hwas ?_ ?_ hsignal
  · show cap - ((unreceived es).length + 1) + 1 = cap - (unreceived es).length
    omega
  · rfl

/-- **A receive that takes a message**, at its call or after its wait. -/
theorem wakeups_received (h : Good w cap es s) (hwake : Wakeups cap (unreceived es).length s.threads)
    {pc : QueuePc} (hpc : s.threads[tid]? = some pc)
    (hwas : pc = .idle ∨ pc.releasedFrom = some .readCond) (hsome : 0 < (unreceived es).length)
    {mq : MsgQ} {slot : ℕ} {bytes : List UInt8} {woken : Option ℕ}
    (hs : s.finish mq tid .idle .writeCond true woken (.received slot bytes) = some (o, t)) :
    Wakeups cap (unreceived (es ++ [o])).length t.threads := by
  obtain ⟨l, hl, hitems⟩ := h.queued.holds
  have hle : (unreceived es).length ≤ cap := by
    rw [← List.length_map (f := Prod.snd), ← hitems]
    exact l.length_le
  obtain ⟨rfl, hsignal⟩ := finish_cases hs
  rw [queued_snoc h.queued.log]
  refine hwake.use hpc hwas ?_ ?_ hsignal
  · show (unreceived es).length - 1 + 1 = (unreceived es).length
    omega
  · show cap - ((unreceived es).length - 1) = cap - (unreceived es).length + 1
    omega

/-- **A stretch that ends its call without storing or taking**, and did not take a signal with it. -/
theorem wakeups_failed (h : Good w cap es s) (hwake : Wakeups cap (unreceived es).length s.threads)
    {pc : QueuePc} (hpc : s.threads[tid]? = some pc) (hnot : pc.releasedFrom = none) {mq : MsgQ}
    {cond : CondVar} {status : SkStatus} {woken : Option ℕ}
    (hs : s.finish mq tid .idle cond false woken (.failed status) = some (o, t)) :
    Wakeups cap (unreceived (es ++ [o])).length t.threads := by
  obtain ⟨rfl, ht⟩ := finish_silent hs
  rw [queued_snoc h.queued.log, ht]
  exact hwake.leave hpc hnot

/-- **A stretch that ends in a wait.** -/
theorem wakeups_wait (h : Good w cap es s) (hwake : Wakeups cap (unreceived es).length s.threads)
    (hpc : s.threads[tid]? = some .idle) {pc : QueuePc} {c cond : CondVar}
    (hblocked : pc.blockedOn = some c) (hnone : available cap (unreceived es).length c = 0) {mq : MsgQ}
    {woken : Option ℕ} (hs : s.finish mq tid pc cond false woken .silent = some (o, t)) :
    Wakeups cap (unreceived (es ++ [o])).length t.threads := by
  obtain ⟨rfl, ht⟩ := finish_silent hs
  rw [queued_snoc h.queued.log, ht]
  exact hwake.block hpc hblocked hnone

theorem idle_of_isIdle (h : (s.threads[tid]?.map QueuePc.isIdle) = some true) :
    s.threads[tid]? = some .idle := by
  obtain ⟨pc, hpc, hidle⟩ := Option.map_eq_some_iff.mp h
  cases pc with
  | idle => exact hpc
  | _ => cases hidle

/-- A call of `sk_queue_send_ex`, up to its return or its wait. -/
theorem wakeups_send (h : Good w cap es s) (hwake : Wakeups cap (unreceived es).length s.threads)
    (hid : IsValidId w id) {n timeoutMs : ℕ} {msg : Option (ℕ → UInt8)} {woken : Option ℕ}
    (hs : step w id s (.send tid msg n timeoutMs woken) = some (o, t)) :
    Wakeups cap (unreceived (es ++ [o])).length t.threads := by
  obtain ⟨l, hl, hitems⟩ := h.queued.holds
  have hlen : l.items.length = (unreceived es).length := by rw [hitems, List.length_map]
  simp only [step] at hs
  split at hs
  · rename_i hidle
    have hpc := idle_of_isIdle hidle
    rcases skQueueSendEx_cases hl hid msg n timeoutMs with ⟨-, hr⟩ | ⟨src, rfl, hn, hcase⟩
    · rw [hr] at hs
      exact wakeups_failed h hwake hpc rfl hs
    · rcases hcase with ⟨hroom, signal, hr⟩ | ⟨hfull, ⟨-, hr⟩ | ⟨-, timed, hr⟩⟩
      · have hsignal : signal = true := by
          have heq : skQueueSendEx w s.mq id (some src) n timeoutMs =
              ((.ret .success, (sendStore w (acquire w s.mq) src n).1),
                (sendStore w (acquire w s.mq) src n).2) := by
            rw [skQueueSendEx, if_neg (fun hb => (hl.badParameter_iff hid n).mp hb hn)]
            exact if_neg fun hf => hl.acquire.isFull_iff.mp hf hroom
          rw [hr, signal_sendStore hl.acquire hroom src hn] at heq
          cases heq
          rfl
        rw [hr, hsignal] at hs
        exact wakeups_sent h hwake hpc (.inl rfl) (hlen ▸ hroom) hs
      · rw [hr] at hs
        exact wakeups_failed h hwake hpc rfl hs
      · rw [hr] at hs
        refine wakeups_wait h hwake hpc (c := .writeCond) rfl ?_ hs
        show cap - (unreceived es).length = 0
        omega
  · cases hs

/-- A call of `sk_queue_receive_ex`, up to its return or its wait. -/
theorem wakeups_receive (h : Good w cap es s) (hwake : Wakeups cap (unreceived es).length s.threads)
    (hid : IsValidId w id) {n timeoutMs : ℕ} {msg : Option (ℕ → UInt8)} {woken : Option ℕ}
    (hs : step w id s (.receive tid msg n timeoutMs woken) = some (o, t)) :
    Wakeups cap (unreceived (es ++ [o])).length t.threads := by
  obtain ⟨l, hl, hitems⟩ := h.queued.holds
  have hlen : l.items.length = (unreceived es).length := by rw [hitems, List.length_map]
  simp only [step] at hs
  split at hs
  · rename_i hidle
    have hpc := idle_of_isIdle hidle
    rcases skQueueReceiveEx_cases hl hid msg n timeoutMs with ⟨-, hr⟩ | ⟨dst, rfl, hn, hcase⟩
    · rw [hr] at hs
      exact wakeups_failed h hwake hpc rfl hs
    · rcases hcase with ⟨m, ms, hsome, hr⟩ | ⟨hnone, ⟨-, hr⟩ | ⟨-, timed, hr⟩⟩
      · rw [hr, signal_receiveTake hl.acquire hsome dst hn] at hs
        refine wakeups_received h hwake hpc (.inl rfl) ?_ hs
        rw [← hlen, hsome]
        exact Nat.succ_pos _
      · rw [hr] at hs
        exact wakeups_failed h hwake hpc rfl hs
      · rw [hr] at hs
        refine wakeups_wait h hwake hpc (c := .readCond) rfl ?_ hs
        show (unreceived es).length = 0
        rw [← hlen, hnone]
        rfl
  · cases hs

/-- A wait that returns. -/
theorem wakeups_resume (h : Good w cap es s) (hwake : Wakeups cap (unreceived es).length s.threads)
    {timedOut : Bool} {woken : Option ℕ} (hmet : WaitMet w s (.resume tid timedOut woken))
    (hlate : s.NoLateTimeout (.resume tid timedOut woken))
    (hs : step w id s (.resume tid timedOut woken) = some (o, t)) :
    Wakeups cap (unreceived (es ++ [o])).length t.threads := by
  obtain ⟨l, hl, hitems⟩ := h.queued.holds
  have hlen : l.items.length = (unreceived es).length := by rw [hitems, List.length_map]
  simp only [step] at hs
  split at hs
  · rename_i msg n timed awake hpc
    have hn : n ≤ s.mq.mqMsgsize := h.sizes _ (ThreadPool.mem_of_get hpc)
    split at hs
    · rename_i hreturns
      cases timedOut with
      | true => exact wakeups_failed h hwake hpc (hlate _ hpc) hs
      | false =>
        -- without a time-out the thread was released
        obtain rfl : awake = true := hreturns
        simp only [WaitMet, hpc] at hmet
        have hroom : l.items.length < cap := not_not.mp fun hc => hmet (hl.isFull_iff.mpr hc)
        rw [sendResume, if_neg (by simp [hl.magicnum_eq])] at hs
        change s.finish _ _ _ _ (sendStore w s.mq msg n).1 _ _ = _ at hs
        rw [signal_sendStore hl hroom msg hn] at hs
        exact wakeups_sent h hwake hpc (.inr rfl) (hlen ▸ hroom) hs
    · cases hs
  · rename_i msg n timed awake hpc
    have hn : n ≤ s.mq.mqMsgsize := h.sizes _ (ThreadPool.mem_of_get hpc)
    split at hs
    · rename_i hreturns
      cases timedOut with
      | true => exact wakeups_failed h hwake hpc (hlate _ hpc) hs
      | false =>
        obtain rfl : awake = true := hreturns
        simp only [WaitMet, hpc] at hmet
        have hne : l.items ≠ [] := fun hnil => hmet (hl.isEmpty_iff.mpr hnil)
        obtain ⟨m, ms, hsome⟩ := List.exists_cons_of_ne_nil hne
        rw [receiveResume, if_neg (by simp [hl.magicnum_eq])] at hs
        change s.finish _ _ _ _ (receiveTake w s.mq msg n).1.1 _ _ = _ at hs
        rw [signal_receiveTake hl hsome msg hn] at hs
        refine wakeups_received h hwake hpc (.inr rfl) ?_ hs
        rw [← hlen, hsome]
        exact Nat.succ_pos _
    · cases hs
  · cases hs

/-- **One step that meets the conditions misses no wake-up.** -/
theorem wakeups_step (h : Good w cap es s) (hwake : Wakeups cap (unreceived es).length s.threads)
    (hid : IsValidId w id) {i : QueueStep} (hmet : WaitMet w s i) (hlate : s.NoLateTimeout i)
    (hs : step w id s i = some (o, t)) : Wakeups cap (unreceived (es ++ [o])).length t.threads := by
  cases i with
  | send tid msg n timeoutMs woken => exact wakeups_send h hwake hid hs
  | receive tid msg n timeoutMs woken => exact wakeups_receive h hwake hid hs
  | resume tid timedOut woken => exact wakeups_resume h hwake hmet hlate hs
  | spurious tid =>
    simp only [step] at hs
    split at hs
    · cases hs
    · rename_i pc hpc
      split at hs
      · rename_i hsome
        obtain ⟨c, hc⟩ := Option.isSome_iff_exists.mp hsome
        obtain ⟨rfl, rfl⟩ := Prod.mk.inj (Option.some.inj hs)
        rw [queued_snoc h.queued.log]
        exact hwake.spurious hpc hc
      · cases hs

/-- A thread that was released can go on. -/
theorem resume_isSome {pc : QueuePc} {c : CondVar} (hpc : s.threads[tid]? = some pc)
    (hrel : pc.releasedFrom = some c) :
    ∃ woken, (step w id s (.resume tid false woken)).isSome := by
  cases pc with
  | idle => cases hrel
  | sendWait msg n timed awake =>
    obtain rfl : awake = true := by
      cases awake with
      | true => rfl
      | false => cases hrel
    obtain ⟨woken, hwoken⟩ := exists_condSignal (s.threads.set tid .idle) .readCond
      (sendResume w s.mq msg n false).1.2
    exact ⟨woken, by simpa [step, hpc, waitReturns, finish] using hwoken⟩
  | receiveWait msg n timed awake =>
    obtain rfl : awake = true := by
      cases awake with
      | true => rfl
      | false => cases hrel
    obtain ⟨woken, hwoken⟩ := exists_condSignal (s.threads.set tid .idle) .writeCond
      (receiveResume w s.mq msg n false).1.2.1
    exact ⟨woken, by simpa [step, hpc, waitReturns, finish] using hwoken⟩

/-- Where no released thread can go on, there is none. -/
theorem released_eq_zero (hstuck : ∀ tid woken, step w id s (.resume tid false woken) = none)
    (c : CondVar) : released c s.threads = 0 := by
  apply List.countP_eq_zero.mpr
  intro pc hpc hrel
  obtain ⟨tid, htid⟩ := List.mem_iff_getElem?.mp hpc
  have hresume : ∃ woken, (step w id s (.resume tid false woken)).isSome :=
    resume_isSome htid (of_decide_eq_true hrel)
  obtain ⟨woken, hsome⟩ := hresume
  rw [hstuck tid woken] at hsome
  cases hsome

end QueueSys

/-- **No wake-up is missed.** Take a queue made by `sk_queue_create_ex` for at least one message, with sizes
that do not wrap, and any number of threads. In every run whose waits, when they return without a time-out,
find what their thread waited for, and in which no thread that was released times out, the blocked receives
leave no more messages in the queue than threads released from that wait, and the blocked sends no more free
slots. So once no released thread is left to go on, a receive is blocked only on an empty queue and a send
only on a full one. -/
theorem queueThreads_no_missed_wakeup {w sizeofMsgQ id maxMsgCount msgSize : ℕ} {malloc : ℕ → Option ℕ}
    {pNull : Bool} {mq₀ : MsgQ} (hcap : 1 ≤ maxMsgCount) (htwice : 2 * (maxMsgCount + 1) ≤ 2 ^ w)
    (hsize : sizeofMsgQ + (maxMsgCount + 1) * msgSize < 2 ^ w)
    (hcreate : skQueueCreateEx w sizeofMsgQ malloc pNull maxMsgCount msgSize =
      (.success, some (id, mq₀)))
    (hid : IsValidId w id) (n : ℕ) (steps : List QueueStep) (es : List QueueEvent) (s : QueueSys)
    (hmet : StepMachine.Along (QueueSys.step w id) (fun s i => QueueSys.WaitMet w s i ∧ s.NoLateTimeout i)
      (QueueSys.init mq₀ n) steps)
    (hrun : StepMachine.run (QueueSys.step w id) (QueueSys.init mq₀ n) steps = some (es, s)) :
    Wakeups maxMsgCount (unreceived es).length s.threads ∧
      ((∀ tid woken, QueueSys.step w id s (.resume tid false woken) = none) →
        (0 < blocked .readCond s.threads → unreceived es = []) ∧
          (0 < blocked .writeCond s.threads → (unreceived es).length = maxMsgCount)) := by
  obtain ⟨h₀, -⟩ := holds_skQueueCreateEx hcap htwice hsize hcreate
  have hall : QueueSys.Good w maxMsgCount es s ∧
      Wakeups maxMsgCount (unreceived es).length s.threads := by
    refine StepMachine.run_induction_along (QueueSys.step w id)
      (fun s i => QueueSys.WaitMet w s i ∧ s.NoLateTimeout i)
      (fun _ es s => QueueSys.Good w maxMsgCount es s ∧
        Wakeups maxMsgCount (unreceived es).length s.threads) ⟨⟨⟨LogOk.nil, ⟨_, h₀, rfl⟩, rfl⟩, ?_⟩, ?_⟩
      ?_ hmet hrun
    · intro pc hpc
      rw [List.eq_of_mem_replicate hpc]
      trivial
    · intro c hblocked
      obtain ⟨pc, hpc, hc⟩ := List.countP_pos_iff.mp hblocked
      rw [List.eq_of_mem_replicate hpc] at hc
      cases of_decide_eq_true hc
    · rintro is es u i o t - ⟨hgood, hwake⟩ ⟨hi, hlate⟩ hs
      exact ⟨hgood.step hid hi hs, QueueSys.wakeups_step hgood hwake hid hi hlate hs⟩
  obtain ⟨hgood, hwake⟩ := hall
  refine ⟨hwake, fun hstuck => ⟨fun hblocked => ?_, fun hblocked => ?_⟩⟩
  · have hle := hwake .readCond hblocked
    rw [QueueSys.released_eq_zero hstuck] at hle
    exact List.length_eq_zero_iff.mp (Nat.le_zero.mp hle)
  · have hle : maxMsgCount - (unreceived es).length ≤ _ := hwake .writeCond hblocked
    rw [QueueSys.released_eq_zero hstuck] at hle
    obtain ⟨l, -, hitems⟩ := hgood.queued.holds
    have hmax := l.length_le
    rw [hitems, List.length_map] at hmax
    omega

/-- The law on a queue of one message of one byte: two receives wait, and a send releases one of them. The
other stays blocked, with one message in the queue and one thread about to take it. -/
theorem queueThreads_no_missed_wakeup_released : ∃ es s,
    StepMachine.run (QueueSys.step 32 64) (QueueSys.init oneByteQueue 3)
        [.receive 0 (some fun _ => 0) 1 skTimeoutInfinity none,
          .receive 1 (some fun _ => 0) 1 skTimeoutInfinity none,
          .send 2 (some fun _ => 7) 1 skTimeoutImmediate (some 0)] = some (es, s) ∧
      unreceived es = [(0, [7])] ∧ blocked .readCond s.threads = 1 ∧ released .readCond s.threads = 1 ∧
      Wakeups 1 (unreceived es).length s.threads := by
  obtain ⟨es, s, hrun, hqueued, hblocked, hreleased⟩ : ∃ es s,
      StepMachine.run (QueueSys.step 32 64) (QueueSys.init oneByteQueue 3)
          [.receive 0 (some fun _ => 0) 1 skTimeoutInfinity none,
            .receive 1 (some fun _ => 0) 1 skTimeoutInfinity none,
            .send 2 (some fun _ => 7) 1 skTimeoutImmediate (some 0)] = some (es, s) ∧
        unreceived es = [(0, [7])] ∧ blocked .readCond s.threads = 1 ∧
        released .readCond s.threads = 1 := ⟨_, _, rfl, rfl, rfl, rfl⟩
  refine ⟨es, s, hrun, hqueued, hblocked, hreleased, ?_⟩
  refine (@queueThreads_no_missed_wakeup 32 200 64 1 1 (fun _ => some 64) false oneByteQueue (by decide)
    (by decide) (by decide) rfl (by decide) 3 _ _ s ?_ hrun).1
  refine StepMachine.along_cons ⟨trivial, trivial⟩ rfl ?_
  exact StepMachine.along_cons ⟨trivial, trivial⟩ rfl
    (StepMachine.along_cons ⟨trivial, trivial⟩ rfl trivial)

/-- **A signal that is lost.** On that queue two receives wait, one of them with a deadline; a send releases
that one, and it times out. The message stays in the queue, the other receive stays blocked, and no thread
is left to go on. -/
theorem queueThreads_lost_signal : ∃ es s,
    StepMachine.run (QueueSys.step 32 64) (QueueSys.init oneByteQueue 3)
        [.receive 0 (some fun _ => 0) 1 10 none, .receive 1 (some fun _ => 0) 1 skTimeoutInfinity none,
          .send 2 (some fun _ => 7) 1 skTimeoutImmediate (some 0), .resume 0 true none] = some (es, s) ∧
      unreceived es = [(0, [7])] ∧ blocked .readCond s.threads = 1 ∧ released .readCond s.threads = 0 ∧
      ¬ Wakeups 1 (unreceived es).length s.threads := by
  refine ⟨_, _, rfl, rfl, rfl, rfl, ?_⟩
  intro h
  exact absurd (h .readCond (by decide)) (by decide)

end SmIpc.Os
