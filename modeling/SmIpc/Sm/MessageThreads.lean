import SmIpc.Lib.ThreadPool
import SmIpc.Sm.MessageFifo

/-! # Threads pushing and popping messages

Any number of threads calling `push_message`, `send_message` and `pop_message`, interleaved at the
points where the code can be preempted: `lock_system` and `unlock_system` of `send_message`,
`wait_event` of `pop_message`, and each section guarded by `message_queue.access`.

The invariant `MsgSys.Inv` ties the two critical sections together: `sem_event` holds one token for
every queued message, less one for every pop that has taken its token and not yet run its section.
So no pop ever meets an empty ring, and messages are handed out in the order they were pushed
(`semEvent_matches_queue`). -/

namespace SmIpc.Sm

/-- Where a thread stands in its call. -/
inductive MsgPc where
  /-- Outside every call. -/
  | idle
  /-- In `send_message`: holds `sem_system`, about to push. -/
  | sendLocked (m : Message)
  /-- In `send_message`: has pushed, about to release `sem_system`. -/
  | sendPushed
  /-- In `pop_message`: past `wait_event`, its section not yet run. -/
  | popWaited
  deriving DecidableEq, Repr

/-- The ring, the value of `sem_system` and the threads. -/
structure MsgSys where
  /-- The message ring with `sem_event`. -/
  q : Msgq
  /-- The value of `sem_system`. -/
  semSystem : ℕ
  /-- The threads. -/
  threads : List MsgPc

/-- The state `init_msgq` and `init_global` leave, with `n` threads outside every call. -/
def MsgSys.init (nqueue : ℕ) (mem : ℤ → Message) (n : ℕ) : MsgSys where
  q := initMsgq nqueue mem
  semSystem := 1
  threads := List.replicate n .idle

/-- An atomic step of one thread. -/
inductive MsgStep where
  /-- A whole `push_message` call. -/
  | pushMessage (tid : ℕ) (m : Message)
  /-- `lock_system` of a `send_message` call. -/
  | lockSystem (tid : ℕ) (m : Message)
  /-- The `push_message` of a `send_message` call. -/
  | sendPush (tid : ℕ)
  /-- `unlock_system` of a `send_message` call. -/
  | unlockSystem (tid : ℕ)
  /-- `wait_event` of a `pop_message` call. -/
  | waitEvent (tid : ℕ)
  /-- The section of a `pop_message` call. -/
  | popSection (tid : ℕ)
  deriving DecidableEq, Repr

/-- What a step lets be seen: a push with its return value, or a pop with its result. -/
inductive MsgEvent where
  /-- `push_message` returned `value` for the message. -/
  | pushed (value : ℤ) (m : Message)
  /-- `pop_message` returned `value`, with a message if it found one. -/
  | popped (value : ℤ) (m : Option Message)
  deriving DecidableEq, Repr

namespace MsgSys

/-- The `push_message` call for a message, on the ring. -/
def push (s : MsgSys) (m : Message) : ℤ × Msgq :=
  pushMessage s.q m.hsm m.message m.param1 m.param2

/-- One step of one thread; `none` when the thread is elsewhere, or blocks. -/
def step : StepMachine MsgSys MsgStep (Option MsgEvent)
  | s, .pushMessage tid m =>
      if s.threads[tid]? = some .idle then
        some (some (.pushed (s.push m).1 m), { s with q := (s.push m).2 })
      else none
  | s, .lockSystem tid m =>
      if s.threads[tid]? = some .idle ∧ 0 < s.semSystem then
        some (none, { s with
          semSystem := s.semSystem - 1
          threads := s.threads.set tid (.sendLocked m) })
      else none
  | s, .sendPush tid =>
      match s.threads[tid]? with
      -- the thread keeps `sem_system` until its next step
      | some (.sendLocked m) =>
          some (some (.pushed (s.push m).1 m), { s with
            q := (s.push m).2
            threads := s.threads.set tid .sendPushed })
      | _ => none
  | s, .unlockSystem tid =>
      if s.threads[tid]? = some .sendPushed then
        some (none, { s with
          semSystem := s.semSystem + 1
          threads := s.threads.set tid .idle })
      else none
  | s, .waitEvent tid =>
      if s.threads[tid]? = some .idle then
        (Sm.waitEvent s.q).map fun q =>
          (none, { s with q := q, threads := s.threads.set tid .popWaited })
      else none
  | s, .popSection tid =>
      if s.threads[tid]? = some .popWaited then
        let r := Sm.popSection s.q
        some (some (.popped r.1.1 r.1.2), { s with
          q := r.2
          threads := s.threads.set tid .idle })
      else none

/-- The number of `pop_message` calls past `wait_event` whose section has not run. -/
def popsInFlight (s : MsgSys) : ℕ := s.threads.count .popWaited

/-- The queue history of a run: the messages whose push returned 1, and those pops handed out. -/
def fifoEvents : List (Option MsgEvent) → List (BoundedFifo.Event Message)
  | [] => []
  | some (.pushed value m) :: es =>
      if value = 1 then .enq m :: fifoEvents es else fifoEvents es
  | some (.popped _ (some m)) :: es => .deq m :: fifoEvents es
  | some (.popped _ none) :: es => fifoEvents es
  | none :: es => fifoEvents es

theorem fifoEvents_append (es fs : List (Option MsgEvent)) :
    fifoEvents (es ++ fs) = fifoEvents es ++ fifoEvents fs := by
  induction es using fifoEvents.induct with
  | case1 => rfl
  | case2 es m ih => simp [fifoEvents, ih]
  | case3 es v m hv ih => simp [fifoEvents, hv, ih]
  | case4 es v m ih => simp [fifoEvents, ih]
  | case5 es v ih => simp [fifoEvents, ih]
  | case6 es ih => simp [fifoEvents, ih]

/-- **The invariant.** The ring is valid, and the tokens of `sem_event` together with the pops in
flight are as many as the queued messages. -/
structure Inv (s : MsgSys) : Prop where
  /-- The ring's representation invariant. -/
  valid : s.q.Valid
  /-- One token, or one pop in flight, for each queued message. -/
  tokens : s.q.semEvent + s.popsInFlight = s.q.contents.length

variable {s : MsgSys}

theorem Inv.init {nqueue : ℕ} (hsize : nqueue ≤ 32766) (mem : ℤ → Message) (n : ℕ) :
    (MsgSys.init nqueue mem n).Inv := by
  refine ⟨Msgq.Valid.initMsgq (by omega) (by omega) mem, ?_⟩
  have hidle : (List.replicate n MsgPc.idle).count .popWaited = 0 :=
    List.count_eq_zero.mpr fun h => by simp at h
  have hnil : (MsgSys.init nqueue mem n).q.contents = [] := Msgq.contents_initMsgq _ _
  rw [hnil]
  show 0 + (List.replicate n MsgPc.idle).count .popWaited = 0
  rw [hidle]

/-- A push either returns 1, appends its message and adds a token, or returns 0 and changes
nothing. -/
theorem push_cases (h : s.q.Valid) (m : Message) :
    (s.push m).2.Valid ∧
      ((s.push m).1 = 1 ∧ (s.push m).2.contents = s.q.contents ++ [m] ∧
          (s.push m).2.semEvent = s.q.semEvent + 1 ∨
        (s.push m).1 = 0 ∧ (s.push m).2 = s.q) := by
  obtain ⟨hsm, message, param1, param2⟩ := m
  unfold push
  by_cases hne : hsm = skInvalidHsm
  · subst hne
    rw [Msgq.pushMessage_invalid]
    exact ⟨h, Or.inr ⟨rfl, rfl⟩⟩
  · -- `push_message` is refused exactly by a full ring
    obtain ⟨hok, hfull⟩ := Msgq.pushMessage_spec h hne message param1 param2
    by_cases hroom : s.q.contents.length + 1 < s.q.size
    · obtain ⟨q', hq', hv, hc, -, he⟩ := hok hroom
      rw [hq']
      exact ⟨hv, Or.inl ⟨rfl, hc, he⟩⟩
    · rw [hfull hroom]
      exact ⟨h, Or.inr ⟨rfl, rfl⟩⟩

/-- A thread that moves between states other than `popWaited` leaves the pops in flight. -/
theorem popsInFlight_set {tid : ℕ} {a b : MsgPc} (h : s.threads[tid]? = some a)
    (ha : a ≠ .popWaited) (hb : b ≠ .popWaited) :
    (s.threads.set tid b).count .popWaited = s.popsInFlight := by
  have := ThreadPool.count_set h b .popWaited
  simp only [if_neg ha, if_neg hb] at this
  exact this

/-- Moving threads, or `sem_system`, without changing the pops in flight keeps the invariant. -/
theorem Inv.move (h : s.Inv) (k : ℕ) {threads : List MsgPc}
    (hthreads : threads.count .popWaited = s.popsInFlight) :
    Inv { s with semSystem := k, threads := threads } := by
  refine ⟨h.valid, ?_⟩
  show s.q.semEvent + threads.count .popWaited = s.q.contents.length
  rw [hthreads, h.tokens]

/-- What a run keeps: the invariant, the queue history, and that no pop has failed. -/
structure Good (os : List (Option MsgEvent)) (s : MsgSys) : Prop where
  /-- The invariant. -/
  inv : s.Inv
  /-- The events are a history of a FIFO queue that leaves the ring's contents. -/
  trace : BoundedFifo.Trace (fifoEvents os) s.q.contents
  /-- Every pop returned 1 and a message. -/
  popped_one : ∀ v m, some (.popped v m) ∈ os → v = 1 ∧ m.isSome

/-- A step that shows nothing keeps the history if it keeps the contents. -/
theorem Good.silent {os : List (Option MsgEvent)} {t : MsgSys} (h : Good os s) (hinv : t.Inv)
    (hc : t.q.contents = s.q.contents) : Good (os ++ [none]) t := by
  refine ⟨hinv, ?_, fun v m hm => h.popped_one v m (by simpa using hm)⟩
  rw [fifoEvents_append, hc]
  simpa [fifoEvents] using h.trace

/-- **A push keeps the invariant and the history**, whatever it returns and whatever else its thread
does, as long as it is not popping. -/
theorem Good.push {os : List (Option MsgEvent)} (h : Good os s) (m : Message) {threads : List MsgPc}
    (hthreads : threads.count .popWaited = s.popsInFlight) :
    Good (os ++ [some (.pushed (s.push m).1 m)])
      { s with q := (s.push m).2, threads := threads } := by
  obtain ⟨hv, hcase⟩ := push_cases h.inv.valid m
  have htok := h.inv.tokens
  have hpop : ∀ v m', some (MsgEvent.popped v m') ∈ os ++ [some (.pushed (s.push m).1 m)] →
      v = 1 ∧ m'.isSome := fun v m' hm => h.popped_one v m' (by simpa using hm)
  rcases hcase with ⟨h₁, hc, he⟩ | ⟨h₀, hq⟩
  · refine ⟨⟨hv, ?_⟩, ?_, hpop⟩
    · show (s.push m).2.semEvent + threads.count .popWaited = (s.push m).2.contents.length
      rw [hthreads, hc, he, List.length_append, List.length_singleton]
      omega
    · rw [fifoEvents_append, hc, h₁]
      exact BoundedFifo.Trace.enq m h.trace
  · refine ⟨⟨hv, ?_⟩, ?_, hpop⟩
    · show (s.push m).2.semEvent + threads.count .popWaited = (s.push m).2.contents.length
      rw [hthreads, hq, htok]
    · rw [fifoEvents_append, hq, h₀]
      simpa [fifoEvents] using h.trace

/-- **A pop in flight meets a non-empty ring**, so its section returns 1 and the oldest message. -/
theorem Good.pop {os : List (Option MsgEvent)} (h : Good os s) {tid : ℕ}
    (hpc : s.threads[tid]? = some .popWaited) :
    Good (os ++ [some (.popped (Sm.popSection s.q).1.1 (Sm.popSection s.q).1.2)])
      { s with q := (Sm.popSection s.q).2, threads := s.threads.set tid .idle } := by
  obtain ⟨hcons, -⟩ := Msgq.popSection_spec h.inv.valid
  have hcount := ThreadPool.count_set hpc MsgPc.idle .popWaited
  simp only [if_true, reduceCtorEq, if_false] at hcount
  have htok := h.inv.tokens
  rw [popsInFlight] at htok
  cases hl : s.q.contents with
  -- an empty ring would leave no pop in flight
  | nil => rw [hl, List.length_nil] at htok; omega
  | cons m l =>
    obtain ⟨q', hq', hv, hc, -, he⟩ := hcons m l hl
    rw [hq']
    rw [hl, List.length_cons] at htok
    refine ⟨⟨hv, ?_⟩, ?_, ?_⟩
    · simp only [popsInFlight, hc, he]
      omega
    · rw [fifoEvents_append, hc]
      exact BoundedFifo.Trace.deq (hl ▸ h.trace)
    · intro v m' hm
      rw [List.mem_append, List.mem_singleton] at hm
      rcases hm with hm | hm
      · exact h.popped_one v m' hm
      · obtain ⟨rfl, rfl⟩ := MsgEvent.popped.inj (Option.some.inj hm)
        exact ⟨rfl, rfl⟩

/-- **One step keeps everything a run keeps.** -/
theorem Good.step {os : List (Option MsgEvent)} (h : Good os s) {i : MsgStep}
    {o : Option MsgEvent} {t : MsgSys} (hs : step s i = some (o, t)) : Good (os ++ [o]) t := by
  have htok := h.inv.tokens
  cases i with
  | pushMessage tid m =>
    simp only [MsgSys.step] at hs
    split at hs
    · obtain ⟨rfl, rfl⟩ := Prod.mk.inj (Option.some.inj hs)
      exact h.push m rfl
    · cases hs
  | lockSystem tid m =>
    simp only [MsgSys.step] at hs
    split at hs
    · rename_i hpc
      obtain ⟨rfl, rfl⟩ := Prod.mk.inj (Option.some.inj hs)
      exact h.silent (h.inv.move _ (popsInFlight_set hpc.1 (by simp) (by simp))) rfl
    · cases hs
  | sendPush tid =>
    simp only [MsgSys.step] at hs
    split at hs
    · rename_i m hpc
      obtain ⟨rfl, rfl⟩ := Prod.mk.inj (Option.some.inj hs)
      exact h.push m (popsInFlight_set hpc (by simp) (by simp))
    · cases hs
  | unlockSystem tid =>
    simp only [MsgSys.step] at hs
    split at hs
    · rename_i hpc
      obtain ⟨rfl, rfl⟩ := Prod.mk.inj (Option.some.inj hs)
      exact h.silent (h.inv.move _ (popsInFlight_set hpc (by simp) (by simp))) rfl
    · cases hs
  | waitEvent tid =>
    simp only [MsgSys.step] at hs
    split at hs
    · rename_i hpc
      obtain ⟨q, hq, hqs⟩ := Option.map_eq_some_iff.mp hs
      obtain ⟨rfl, rfl⟩ := Prod.mk.inj hqs
      rw [Sm.waitEvent] at hq
      split at hq
      · cases hq
      · rename_i hpos
        obtain rfl := Option.some.inj hq
        -- the token taken from `sem_event` becomes a pop in flight
        have hcount := ThreadPool.count_set hpc MsgPc.popWaited .popWaited
        simp only [if_true, reduceCtorEq, if_false] at hcount
        refine h.silent ⟨h.inv.valid.semEvent _, ?_⟩ rfl
        rw [popsInFlight] at htok
        simp only [popsInFlight, Msgq.contents_semEvent]
        omega
    · cases hs
  | popSection tid =>
    simp only [MsgSys.step] at hs
    split at hs
    · rename_i hpc
      obtain ⟨rfl, rfl⟩ := Prod.mk.inj (Option.some.inj hs)
      exact h.pop hpc
    · cases hs

end MsgSys

/-- **`sem_event` counts the queued messages, over every interleaving.** In every reachable state its
value and the pops past `wait_event` add up to `get_nmessage`; a pop in flight meets a non-empty
ring; every pop that returned returned 1 and a message; and the messages whose push returned 1 are, in
order, the messages handed out, one by each of these pops, followed by the ones still queued. -/
theorem semEvent_matches_queue (nqueue : ℕ) (hsize : nqueue ≤ 32766) (mem : ℤ → Message) (n : ℕ)
    (steps : List MsgStep) (os : List (Option MsgEvent)) (s : MsgSys)
    (hrun : StepMachine.run MsgSys.step (MsgSys.init nqueue mem n) steps = some (os, s)) :
    ((s.q.semEvent + s.popsInFlight : ℕ) : ℤ) = getNmessage s.q ∧
      (0 < s.popsInFlight → s.q.head ≠ s.q.tail) ∧
      (∀ v m, some (MsgEvent.popped v m) ∈ os → v = 1 ∧ m.isSome) ∧
      BoundedFifo.enqs (MsgSys.fifoEvents os) =
        BoundedFifo.deqs (MsgSys.fifoEvents os) ++ s.q.contents := by
  have hgood : MsgSys.Good os s :=
    StepMachine.run_induction MsgSys.step (fun _ os s => MsgSys.Good os s)
      ⟨MsgSys.Inv.init hsize mem n, by
        rw [show (MsgSys.init nqueue mem n).q.contents = [] from Msgq.contents_initMsgq _ _]
        exact BoundedFifo.Trace.nil, by simp⟩
      (fun _ _ _ _ _ _ _ h hs => h.step hs) hrun
  refine ⟨?_, ?_, hgood.popped_one, hgood.trace.conservation⟩
  · rw [Msgq.getNmessage_eq hgood.inv.valid, hgood.inv.tokens]
  · intro hpos heq
    -- equal cursors mean an empty ring, which the pop in flight contradicts
    have hlen : (s.q.contents.length : ℤ) = 0 := by
      rw [← Msgq.getNmessage_eq hgood.inv.valid, getNmessage, if_pos heq]
    have := hgood.inv.tokens
    omega

/-- Two threads: one pushes, the other waits for the event and pops, and is handed the message. -/
theorem semEvent_matches_queue_push_pop : ∃ os s,
    StepMachine.run MsgSys.step (MsgSys.init 1 (fun _ => ⟨0, 0, 0, 0⟩) 2)
        [.pushMessage 0 ⟨7, smmTick, 1, 2⟩, .waitEvent 1, .popSection 1] = some (os, s) ∧
      some (.popped 1 (some ⟨7, smmTick, 1, 2⟩)) ∈ os ∧
      (∀ v m, some (MsgEvent.popped v m) ∈ os → v = 1 ∧ m.isSome) ∧
      BoundedFifo.enqs (MsgSys.fifoEvents os) =
        BoundedFifo.deqs (MsgSys.fifoEvents os) ++ s.q.contents := by
  obtain ⟨os, s, hrun, hpopped⟩ : ∃ os s,
      StepMachine.run MsgSys.step (MsgSys.init 1 (fun _ => ⟨0, 0, 0, 0⟩) 2)
          [.pushMessage 0 ⟨7, smmTick, 1, 2⟩, .waitEvent 1, .popSection 1] = some (os, s) ∧
        os = [some (.pushed 1 ⟨7, smmTick, 1, 2⟩), none, some (.popped 1 (some ⟨7, smmTick, 1, 2⟩))] :=
    ⟨_, _, rfl, rfl⟩
  obtain ⟨-, -, hone, hconserved⟩ :=
    semEvent_matches_queue 1 (by decide) (fun _ => ⟨0, 0, 0, 0⟩) 2 _ os s hrun
  refine ⟨os, s, hrun, ?_, hone, hconserved⟩
  rw [hpopped]
  simp

end SmIpc.Sm
