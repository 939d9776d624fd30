import SmIpc.Lib.Machine
import SmIpc.Lib.ThreadPool
import SmIpc.Os.Queue

/-! # Destroying a queue

Any number of threads calling `sk_queue_send_ex` and `sk_queue_receive_ex`, and one
`sk_queue_destroy_ex`, on one queue. A call tests `magicnum` without the mutex, takes the mutex and
raises `refcnt`, runs its section, lowers `refcnt` and releases the mutex; `sk_queue_destroy_ex` clears
`magicnum`, reads `refcnt` until it is 0, and frees the queue, all without the mutex.

* `refcnt` counts the calls between raising and lowering it, modulo `2^w` (`QueueLife.Inv`).
* A call that has passed its test and not yet raised `refcnt`, or has lowered it and not yet released
  the mutex, is not counted. The queue is freed with no call in it exactly when there is none such
  where `refcnt` is read as 0 (`queue_freed_unused`).
* POSIX lets a condition wait return without a signal, so a wait may end at any time; signals and
  broadcasts allow no further runs. -/

namespace SmIpc.Os

/-! ## The sections under the mutex -/

/-- `sk_queue_send_ex` from its `refcnt++` on, up to its `refcnt--` or its condition wait. -/
def sendLocked (w : ℕ) (mq : MsgQ) (msg : ℕ → UInt8) (msgSize timeoutMs : ℕ) : CallEnd × MsgQ :=
  if IsFull w mq then
    if timeoutMs = skTimeoutInfinity then (.wait false, mq)
    else if timeoutMs = skTimeoutImmediate then
      let r := sendResume w mq msg msgSize true
      (.ret r.1.1, r.2)
    else (.wait true, mq)
  else (.ret .success, (sendStore w mq msg msgSize).2)

/-- `sk_queue_receive_ex` from its `refcnt++` on, up to its `refcnt--` or its condition wait. -/
def receiveLocked (w : ℕ) (mq : MsgQ) (msg : ℕ → UInt8) (msgSize timeoutMs : ℕ) : CallEnd × MsgQ :=
  if mq.read = mq.write then
    if timeoutMs = skTimeoutInfinity then (.wait false, mq)
    else if timeoutMs = skTimeoutImmediate then
      let r := receiveResume w mq msg msgSize true
      (.ret r.1.1, r.2)
    else (.wait true, mq)
  else (.ret .success, (receiveTake w mq msg msgSize).2)

/-- A call, with its arguments. -/
inductive LifeCall where
  /-- `sk_queue_send_ex`. -/
  | send (msg : Option (ℕ → UInt8)) (msgSize timeoutMs : ℕ)
  /-- `sk_queue_receive_ex`. -/
  | receive (msg : Option (ℕ → UInt8)) (msgSize timeoutMs : ℕ)

namespace LifeCall

/-- The tests both functions make before they take the mutex. -/
def Passes (w : ℕ) (mq : MsgQ) (queueId : ℕ) : LifeCall → Prop
  | send msg msgSize _ | receive msg msgSize _ =>
      IsValidId w queueId ∧ msg.isSome ∧ mq.magicnum = mqMagicnum ∧ msgSize ≤ mq.mqMsgsize

instance (w : ℕ) (mq : MsgQ) (queueId : ℕ) (c : LifeCall) : Decidable (c.Passes w mq queueId) := by
  cases c <;> exact inferInstanceAs (Decidable (_ ∧ _))

/-- The section from `refcnt++` on. -/
def run (w : ℕ) (mq : MsgQ) : LifeCall → CallEnd × MsgQ
  | send msg msgSize timeoutMs => sendLocked w mq (msg.getD fun _ => 0) msgSize timeoutMs
  | receive msg msgSize timeoutMs => receiveLocked w mq (msg.getD fun _ => 0) msgSize timeoutMs

/-- The section from the return of the condition wait on. -/
def resume (w : ℕ) (mq : MsgQ) (timedOut : Bool) : LifeCall → SkStatus × MsgQ
  | send msg msgSize _ =>
      let r := sendResume w mq (msg.getD fun _ => 0) msgSize timedOut
      (r.1.1, r.2)
  | receive msg msgSize _ =>
      let r := receiveResume w mq (msg.getD fun _ => 0) msgSize timedOut
      (r.1.1, r.2)

/-- The tests, as the functions write them. -/
theorem passes_iff {w queueId msgSize : ℕ} {mq : MsgQ} :
    (IsValidId w queueId ∧ mq.magicnum = mqMagicnum ∧ msgSize ≤ mq.mqMsgsize) ↔
      ¬ (¬ IsValidId w queueId ∨ mq.magicnum ≠ mqMagicnum ∨ msgSize > mq.mqMsgsize) := by
  simp only [not_or, not_not, gt_iff_lt, Nat.not_lt, ne_eq]

/-- **A whole send** is its tests, `refcnt++` and its section. -/
theorem skQueueSendEx_eq (w : ℕ) (mq : MsgQ) (queueId : ℕ) (msg : Option (ℕ → UInt8))
    (msgSize timeoutMs : ℕ) :
    ((skQueueSendEx w mq queueId msg msgSize timeoutMs).1.1,
        (skQueueSendEx w mq queueId msg msgSize timeoutMs).2) =
      if (send msg msgSize timeoutMs).Passes w mq queueId then
        (send msg msgSize timeoutMs).run w (acquire w mq)
      else (.ret .errorBadParameter, mq) := by
  cases msg with
  | none => simp [skQueueSendEx, Passes]
  | some msg =>
    simp only [skQueueSendEx, Passes, Option.isSome_some, true_and, passes_iff, ite_not, run,
      sendLocked, Option.getD_some]
    split_ifs <;> rfl

/-- **A whole receive** is its tests, `refcnt++` and its section. -/
theorem skQueueReceiveEx_eq (w : ℕ) (mq : MsgQ) (queueId : ℕ) (msg : Option (ℕ → UInt8))
    (msgSize timeoutMs : ℕ) :
    ((skQueueReceiveEx w mq queueId msg msgSize timeoutMs).1.1,
        (skQueueReceiveEx w mq queueId msg msgSize timeoutMs).2) =
      if (receive msg msgSize timeoutMs).Passes w mq queueId then
        (receive msg msgSize timeoutMs).run w (acquire w mq)
      else (.ret .errorBadParameter, mq) := by
  cases msg with
  | none => simp [skQueueReceiveEx, Passes]
  | some msg =>
    simp only [skQueueReceiveEx, Passes, Option.isSome_some, true_and, passes_iff, ite_not, run,
      receiveLocked, Option.getD_some]
    split_ifs <;> rfl

/-- A section that ends the call has lowered `refcnt`, and one that waits has not. -/
theorem refcnt_run (w : ℕ) (mq : MsgQ) (c : LifeCall) :
    (∀ status, (c.run w mq).1 = .ret status →
      (c.run w mq).2.refcnt = u32 w (mq.refcnt - 1) ∧ (c.run w mq).2.magicnum = mq.magicnum) ∧
    ∀ timed, (c.run w mq).1 = .wait timed → (c.run w mq).2 = mq := by
  cases c with
  | send msg msgSize timeoutMs =>
    simp only [run, sendLocked]
    split_ifs <;> simp [sendResume, sendStore, release]
  | receive msg msgSize timeoutMs =>
    simp only [run, receiveLocked]
    split_ifs <;> simp [receiveResume, receiveTake, release]

/-- The section after a wait lowers `refcnt`. -/
theorem refcnt_resume (w : ℕ) (mq : MsgQ) (timedOut : Bool) (c : LifeCall) :
    (c.resume w mq timedOut).2.refcnt = u32 w (mq.refcnt - 1) ∧
      (c.resume w mq timedOut).2.magicnum = mq.magicnum := by
  cases c with
  | send msg msgSize timeoutMs =>
    simp only [resume, sendResume]
    split_ifs <;> simp [sendStore, release]
  | receive msg msgSize timeoutMs =>
    simp only [resume, receiveResume]
    split_ifs <;> simp [receiveTake, release]

end LifeCall

/-! ## The machine -/

/-- Where a thread stands. -/
inductive CallPc where
  /-- Outside every call. -/
  | idle
  /-- Past the tests, about to take the mutex and raise `refcnt`. -/
  | tested (c : LifeCall)
  /-- Has the mutex and has raised `refcnt`; its section is to run. -/
  | inside (c : LifeCall)
  /-- In the condition wait. -/
  | waiting (c : LifeCall) (timed : Bool)
  /-- Back from the wait with the mutex; the rest of its section is to run. -/
  | woken (c : LifeCall) (timedOut : Bool)
  /-- Has lowered `refcnt`, about to release the mutex and return. -/
  | leaving (status : SkStatus)

namespace CallPc

/-- The call is counted in `refcnt`. -/
def counted : CallPc → Bool
  | inside _ | waiting _ _ | woken _ _ => true
  | _ => false

/-- The call is in progress and not counted in `refcnt`: it has not raised it yet, or lowered it
already. -/
def InGap : CallPc → Prop
  | tested _ | leaving _ => True
  | _ => False

/-- A call that is neither counted nor in a gap is none. -/
theorem eq_idle {pc : CallPc} (hcounted : pc.counted = false) (hgap : ¬ pc.InGap) : pc = idle := by
  cases pc with
  | idle => rfl
  | tested c => exact absurd trivial hgap
  | leaving status => exact absurd trivial hgap
  | inside c => cases hcounted
  | waiting c timed => cases hcounted
  | woken c timedOut => cases hcounted

end CallPc

/-- Where `sk_queue_destroy_ex` stands. -/
inductive DestroyPc where
  /-- Not called yet. -/
  | start
  /-- Past the first tests. -/
  | tested
  /-- Has cleared `magicnum` and reads `refcnt`. -/
  | polling
  /-- Has read `refcnt` as 0, about to free the queue. -/
  | freeing
  /-- The queue is freed. -/
  | freed
  /-- Has returned without freeing the queue. -/
  | returned
  deriving DecidableEq, Repr

/-- A queue, the threads that use it and the call that destroys it. -/
structure QueueLife where
  /-- The queue. -/
  mq : MsgQ
  /-- `mq->mutex` is taken. -/
  locked : Bool
  /-- The threads. -/
  threads : List CallPc
  /-- `sk_queue_destroy_ex`. -/
  destroyer : DestroyPc

/-- A queue with `n` threads outside every call. -/
def QueueLife.init (mq : MsgQ) (n : ℕ) : QueueLife := ⟨mq, false, List.replicate n .idle, .start⟩

/-- A step of a call, or of `sk_queue_destroy_ex`. -/
inductive LifeStep where
  /-- A call makes its tests. -/
  | call (tid : ℕ) (c : LifeCall)
  /-- It takes the mutex and raises `refcnt`. -/
  | lock (tid : ℕ)
  /-- It runs its section, up to its `refcnt--` or its wait. -/
  | run (tid : ℕ)
  /-- Its wait returns. -/
  | wake (tid : ℕ) (timedOut : Bool)
  /-- It runs the rest of its section, up to its `refcnt--`. -/
  | resume (tid : ℕ)
  /-- It releases the mutex and returns. -/
  | unlock (tid : ℕ)
  /-- `sk_queue_destroy_ex` makes its first tests. -/
  | destroyTest
  /-- It clears `magicnum`. -/
  | clear
  /-- It reads `refcnt`. -/
  | poll
  /-- It frees the queue. -/
  | free

namespace QueueLife

/-- Replace the state of a thread. -/
def move (s : QueueLife) (tid : ℕ) (pc : CallPc) : QueueLife :=
  { s with threads := s.threads.set tid pc }

/-- A step on a queue that is not freed, with the status of a call that returns. -/
def act (w id : ℕ) (s : QueueLife) : LifeStep → Option (Option SkStatus × QueueLife)
  | .call tid c =>
      match s.threads[tid]? with
      | some .idle =>
          if c.Passes w s.mq id then some (none, s.move tid (.tested c))
          else some (some .errorBadParameter, s)
      | _ => none
  | .lock tid =>
      match s.threads[tid]? with
      | some (.tested c) =>
          if s.locked then none
          else some (none, { s.move tid (.inside c) with mq := acquire w s.mq, locked := true })
      | _ => none
  | .run tid =>
      match s.threads[tid]? with
      | some (.inside c) =>
          match (c.run w s.mq).1 with
          | .ret status =>
              some (none, { s.move tid (.leaving status) with mq := (c.run w s.mq).2 })
          -- the wait releases the mutex
          | .wait timed =>
              some (none,
                { s.move tid (.waiting c timed) with mq := (c.run w s.mq).2, locked := false })
      | _ => none
  | .wake tid timedOut =>
      match s.threads[tid]? with
      | some (.waiting c timed) =>
          if s.locked ∨ (timedOut ∧ ¬ timed) then none
          else some (none, { s.move tid (.woken c timedOut) with locked := true })
      | _ => none
  | .resume tid =>
      match s.threads[tid]? with
      | some (.woken c timedOut) =>
          let r := c.resume w s.mq timedOut
          some (none, { s.move tid (.leaving r.1) with mq := r.2 })
      | _ => none
  | .unlock tid =>
      match s.threads[tid]? with
      | some (.leaving status) => some (some status, { s.move tid .idle with locked := false })
      | _ => none
  | .destroyTest =>
      if s.destroyer = .start then
        if IsValidId w id ∧ s.mq.magicnum = mqMagicnum then some (none, { s with destroyer := .tested })
        else some (some .errorBadParameter, { s with destroyer := .returned })
      else none
  | .clear =>
      if s.destroyer = .tested then
        if s.mq.magicnum ≠ 0 then
          some (none, { s with mq := { s.mq with magicnum := 0 }, destroyer := .polling })
        else some (some .success, { s with destroyer := .returned })
      else none
  | .poll =>
      if s.destroyer = .polling then
        if s.mq.refcnt = 0 then some (none, { s with destroyer := .freeing })
        -- the two broadcasts, and another round
        else some (none, s)
      else none
  | .free =>
      if s.destroyer = .freeing then some (some .success, { s with destroyer := .freed }) else none

/-- One step; what is done to a queue that is freed is not followed. -/
def step (w id : ℕ) : StepMachine QueueLife LifeStep (Option SkStatus) := fun s i =>
  if s.destroyer = .freed then none else s.act w id i

/-- The number of calls between their `refcnt++` and their `refcnt--`. -/
def counted (s : QueueLife) : ℕ := s.threads.countP CallPc.counted

/-- **Where the queue can be freed, no call is in progress.** -/
def FreeSafe (w id : ℕ) (s : QueueLife) : Prop :=
  (step w id s .free).isSome → ∀ pc ∈ s.threads, pc = .idle

/-- The condition on a step: where `refcnt` is read as 0, no call is between its tests and its
`refcnt++`, none between its `refcnt--` and its unlock, and `refcnt` has not wrapped around. -/
def NoGap (w : ℕ) (s : QueueLife) : LifeStep → Prop
  | .poll =>
      s.destroyer = .polling → s.mq.refcnt = 0 → (∀ pc ∈ s.threads, ¬ pc.InGap) ∧ s.counted < 2 ^ w
  | _ => True

/-- **The invariant.** -/
structure Inv (w : ℕ) (s : QueueLife) : Prop where
  /-- `refcnt` counts the calls between raising and lowering it. -/
  refcnt : s.mq.refcnt = u32 w s.counted
  /-- A call of `sk_queue_destroy_ex` that reads `refcnt` has cleared `magicnum`. -/
  cleared : s.destroyer = .polling ∨ s.destroyer = .freeing → s.mq.magicnum = 0

variable {w id : ℕ} {s t : QueueLife}

theorem freeSafe_iff : s.FreeSafe w id ↔ (s.destroyer = .freeing → ∀ pc ∈ s.threads, pc = .idle) := by
  refine imp_congr_left ?_
  rw [step, act]
  split_ifs with hfreed hfreeing
  · simp [hfreed]
  · simp [hfreeing]
  · simp [hfreeing]

/-- How much a call adds to `refcnt`. -/
def weight (pc : CallPc) : ℤ := if pc.counted then 1 else 0

/-- **What a thread does in one step**: it moves, `magicnum` stays, and `refcnt` follows its move. -/
structure Moves (w : ℕ) (s : QueueLife) (a b : CallPc) (mq : MsgQ) : Prop where
  /-- A call that begins has found `magicnum` set. -/
  magic_of_idle : a = .idle → s.mq.magicnum = mqMagicnum
  /-- `magicnum` stays. -/
  magicnum : mq.magicnum = s.mq.magicnum
  /-- `refcnt` gains what the call counts for now, and loses what it counted for. -/
  refcnt : ∀ n : ℤ, s.mq.refcnt = u32 w n → mq.refcnt = u32 w (n + weight b - weight a)

/-- A thread that moves without a change of the queue. -/
theorem Moves.same {a b : CallPc} (hidle : a = .idle → s.mq.magicnum = mqMagicnum)
    (hweight : weight b = weight a) : Moves w s a b s.mq := by
  refine ⟨hidle, rfl, ?_⟩
  intro n hn
  rw [hn, hweight, Int.add_sub_cancel]

/-- **Inversion of a step**: a thread moves, nothing happens, or `sk_queue_destroy_ex` moves. -/
theorem step_cases {i : LifeStep} {o : Option SkStatus} (hs : step w id s i = some (o, t)) :
    (∃ tid a b mq locked, s.threads[tid]? = some a ∧ Moves w s a b mq ∧
        t = ⟨mq, locked, s.threads.set tid b, s.destroyer⟩ ∧ i ≠ .poll) ∨
      (t = s ∧ (i = .poll → s.mq.refcnt ≠ 0)) ∨
      (∃ d, t = { s with destroyer := d } ∧ i ≠ .poll ∧ d ≠ .polling ∧ d ≠ .freeing) ∨
      (t = { s with mq := { s.mq with magicnum := 0 }, destroyer := .polling } ∧ i = .clear) ∨
      (s.destroyer = .polling ∧ s.mq.refcnt = 0 ∧ t = { s with destroyer := .freeing } ∧
        i = .poll) := by
  rw [step] at hs
  split at hs
  · cases hs
  · cases i with
    | call tid c =>
      simp only [act] at hs
      split at hs
      · rename_i hpc
        split at hs
        · rename_i hpass
          obtain ⟨-, rfl⟩ := Prod.mk.inj (Option.some.inj hs)
          have hmagic : s.mq.magicnum = mqMagicnum := by
            cases c with
            | send msg msgSize timeoutMs => exact hpass.2.2.1
            | receive msg msgSize timeoutMs => exact hpass.2.2.1
          exact .inl ⟨tid, _, .tested c, _, _, hpc, Moves.same (fun _ => hmagic) rfl, rfl, by simp⟩
        · obtain ⟨-, rfl⟩ := Prod.mk.inj (Option.some.inj hs)
          exact .inr (.inl ⟨rfl, by simp⟩)
      · cases hs
    | lock tid =>
      simp only [act] at hs
      split at hs
      · rename_i c hpc
        split at hs
        · cases hs
        · obtain ⟨-, rfl⟩ := Prod.mk.inj (Option.some.inj hs)
          refine .inl ⟨tid, _, .inside c, acquire w s.mq, _, hpc, ⟨by simp, rfl, ?_⟩, rfl, by simp⟩
          intro n hn
          rw [acquire, hn, u32_add]
          simp [weight, CallPc.counted]
      · cases hs
    | run tid =>
      simp only [act] at hs
      split at hs
      · rename_i c hpc
        obtain ⟨hret, hwait⟩ := LifeCall.refcnt_run w s.mq c
        split at hs
        · rename_i status hend
          obtain ⟨-, rfl⟩ := Prod.mk.inj (Option.some.inj hs)
          obtain ⟨hrefcnt, hmagic⟩ := hret status hend
          refine .inl ⟨tid, _, .leaving status, _, _, hpc, ⟨by simp, hmagic, ?_⟩, rfl, by simp⟩
          intro n hn
          rw [hrefcnt, hn, u32_sub]
          simp [weight, CallPc.counted]
        · rename_i timed hend
          obtain ⟨-, rfl⟩ := Prod.mk.inj (Option.some.inj hs)
          refine .inl ⟨tid, _, .waiting c timed, _, _, hpc, ?_, rfl, by simp⟩
          rw [hwait timed hend]
          exact Moves.same (by simp) rfl
      · cases hs
    | wake tid timedOut =>
      simp only [act] at hs
      split at hs
      · rename_i c timed hpc
        split at hs
        · cases hs
        · obtain ⟨-, rfl⟩ := Prod.mk.inj (Option.some.inj hs)
          exact .inl ⟨tid, _, .woken c timedOut, _, _, hpc, Moves.same (by simp) rfl, rfl, by simp⟩
      · cases hs
    | resume tid =>
      simp only [act] at hs
      split at hs
      · rename_i c timedOut hpc
        obtain ⟨-, rfl⟩ := Prod.mk.inj (Option.some.inj hs)
        obtain ⟨hrefcnt, hmagic⟩ := LifeCall.refcnt_resume w s.mq timedOut c
        refine .inl ⟨tid, _, .leaving _, _, _, hpc, ⟨by simp, hmagic, ?_⟩, rfl, by simp⟩
        intro n hn
        rw [hrefcnt, hn, u32_sub]
        simp [weight, CallPc.counted]
      · cases hs
    | unlock tid =>
      simp only [act] at hs
      split at hs
      · rename_i status hpc
        obtain ⟨-, rfl⟩ := Prod.mk.inj (Option.some.inj hs)
        exact .inl ⟨tid, _, .idle, _, _, hpc, Moves.same (by simp) rfl, rfl, by simp⟩
      · cases hs
    | destroyTest =>
      simp only [act] at hs
      split_ifs at hs <;> obtain ⟨-, rfl⟩ := Prod.mk.inj (Option.some.inj hs) <;>
        exact .inr (.inr (.inl ⟨_, rfl, by simp, by simp, by simp⟩))
    | clear =>
      simp only [act] at hs
      split_ifs at hs <;> obtain ⟨-, rfl⟩ := Prod.mk.inj (Option.some.inj hs)
      · exact .inr (.inr (.inr (.inl ⟨rfl, rfl⟩)))
      · exact .inr (.inr (.inl ⟨_, rfl, by simp, by simp, by simp⟩))
    | poll =>
      simp only [act] at hs
      split_ifs at hs with hpolling hzero <;>
        obtain ⟨-, rfl⟩ := Prod.mk.inj (Option.some.inj hs)
      · exact .inr (.inr (.inr (.inr ⟨hpolling, hzero, rfl, rfl⟩)))
      · exact .inr (.inl ⟨rfl, fun _ => hzero⟩)
    | free =>
      simp only [act] at hs
      split_ifs at hs
      obtain ⟨-, rfl⟩ := Prod.mk.inj (Option.some.inj hs)
      exact .inr (.inr (.inl ⟨_, rfl, by simp, by simp, by simp⟩))

/-- A step other than the read of `refcnt` meets the condition, and the read of another value too. -/
theorem noGap_of_ne {i : LifeStep} (h : i = .poll → s.mq.refcnt ≠ 0) : s.NoGap w i := by
  cases i with
  | poll => exact fun _ hzero => absurd hzero (h rfl)
  | _ => trivial

/-- **Where `refcnt` is read as 0**, no call is in progress exactly if none is in a gap and `refcnt` has
not wrapped around. -/
theorem Inv.forall_idle_iff (h : s.Inv w) (hzero : s.mq.refcnt = 0) :
    (∀ pc ∈ s.threads, pc = .idle) ↔ (∀ pc ∈ s.threads, ¬ pc.InGap) ∧ s.counted < 2 ^ w := by
  constructor
  · intro hidle
    have hcounted : s.counted = 0 := by
      refine List.countP_eq_zero.mpr ?_
      intro pc hpc
      rw [hidle pc hpc]
      exact Bool.false_ne_true
    refine ⟨?_, ?_⟩
    · intro pc hpc
      rw [hidle pc hpc]
      exact id
    · rw [hcounted]
      exact Nat.two_pow_pos w
  · rintro ⟨hgap, hlt⟩ pc hpc
    have hcounted : s.counted = 0 := by
      rw [← u32_of_lt (w := w) rfl hlt, ← h.refcnt, hzero]
    refine CallPc.eq_idle ?_ (hgap pc hpc)
    exact Bool.eq_false_iff.mpr (List.countP_eq_zero.mp hcounted pc hpc)

/-- **One step keeps the invariant**, and a queue that is not freed under a call stays so exactly if the
step meets the condition. -/
theorem Inv.step (h : s.Inv w) (hsafe : s.FreeSafe w id) {i : LifeStep} {o : Option SkStatus}
    (hs : QueueLife.step w id s i = some (o, t)) :
    t.Inv w ∧ (t.FreeSafe w id ↔ s.NoGap w i) := by
  rw [freeSafe_iff] at hsafe ⊢
  rcases step_cases hs with ⟨tid, a, b, mq, locked, hpc, hmove, rfl, hi⟩ | ⟨rfl, hi⟩ |
    ⟨d, rfl, hi, hpolling, hfreeing⟩ | ⟨rfl, rfl⟩ | ⟨hpolling, hzero, rfl, rfl⟩
  · have hcount := ThreadPool.countP_set CallPc.counted hpc b
    refine ⟨⟨?_, ?_⟩, ?_⟩
    · show mq.refcnt = u32 w ((s.threads.set tid b).countP CallPc.counted : ℕ)
      rw [hmove.refcnt s.counted h.refcnt]
      congr 1
      simp only [counted, weight]
      split_ifs at hcount ⊢ <;> omega
    · intro hd
      exact hmove.magicnum.trans (h.cleared hd)
    · refine iff_of_true ?_ (noGap_of_ne fun heq => absurd heq hi)
      intro hfreeing
      -- a queue about to be freed is out of use, and no call gets past its tests
      have hidle := hsafe hfreeing a (List.mem_of_getElem? hpc)
      have hmagic := h.cleared (.inr hfreeing)
      rw [hmove.magic_of_idle hidle] at hmagic
      exact absurd hmagic (by decide)
  · exact ⟨h, iff_of_true hsafe (noGap_of_ne hi)⟩
  · refine ⟨⟨h.refcnt, ?_⟩, iff_of_true ?_ (noGap_of_ne fun heq => absurd heq hi)⟩
    · rintro (hd | hd)
      · exact absurd hd hpolling
      · exact absurd hd hfreeing
    · intro hd
      exact absurd hd hfreeing
  · refine ⟨⟨h.refcnt, fun _ => rfl⟩, iff_of_true ?_ trivial⟩
    intro hd
    cases hd
  · refine ⟨⟨h.refcnt, fun _ => h.cleared (.inl hpolling)⟩, ?_⟩
    have hidle := h.forall_idle_iff hzero
    constructor
    · intro hfree _ _
      exact hidle.mp (hfree rfl)
    · intro hgap _
      exact hidle.mpr (hgap hpolling hzero)

end QueueLife

/-- **When a queue is freed under a call.** Take a queue made by `sk_queue_create_ex`, any number of
threads that call `sk_queue_send_ex` and `sk_queue_receive_ex` on it, and one
`sk_queue_destroy_ex`. In every state a run goes through, the queue can be freed only if no call that
passed its tests is in progress, if and only if, wherever `sk_queue_destroy_ex` reads `refcnt` as 0,
no call is between its tests and its `refcnt++`, none between its `refcnt--` and its unlock, and
fewer than `2^w` calls are counted. -/
theorem queue_freed_unused {w sizeofMsgQ id maxMsgCount msgSize : ℕ} {malloc : ℕ → Option ℕ}
    {pNull : Bool} {mq₀ : MsgQ}
    (hcreate : skQueueCreateEx w sizeofMsgQ malloc pNull maxMsgCount msgSize =
      (.success, some (id, mq₀)))
    (n : ℕ) (steps : List LifeStep) (os : List (Option SkStatus)) (s : QueueLife)
    (hrun : StepMachine.run (QueueLife.step w id) (QueueLife.init mq₀ n) steps = some (os, s)) :
    StepMachine.Throughout (QueueLife.step w id) (QueueLife.FreeSafe w id) (QueueLife.init mq₀ n)
        steps ↔
      StepMachine.Along (QueueLife.step w id) (QueueLife.NoGap w) (QueueLife.init mq₀ n) steps := by
  have hrefcnt : mq₀.refcnt = 0 := by
    rw [skQueueCreateEx] at hcreate
    split at hcreate
    · cases hcreate
    · split at hcreate
      · cases hcreate
      · simp only [Prod.mk.injEq, Option.some.injEq, true_and] at hcreate
        rw [← hcreate.2]
  have hstart : (QueueLife.init mq₀ n).Inv w := by
    have hcounted : (QueueLife.init mq₀ n).counted = 0 := by
      refine List.countP_eq_zero.mpr ?_
      intro pc hpc
      rw [List.eq_of_mem_replicate hpc]
      exact Bool.false_ne_true
    refine ⟨?_, ?_⟩
    · rw [hcounted]
      exact hrefcnt.trans (u32_of_lt rfl (Nat.two_pow_pos w)).symm
    · rintro (hd | hd) <;> cases hd
  refine StepMachine.throughout_iff_along_of (QueueLife.step w id) (QueueLife.NoGap w)
    (fun s => s.Inv w ∧ s.FreeSafe w id) (QueueLife.FreeSafe w id) ⟨hstart, ?_⟩ (fun _ h => h.2) ?_
    hrun
  · rw [QueueLife.freeSafe_iff]
    intro hd
    cases hd
  · rintro u i o t ⟨hinv, hsafe⟩ hs
    obtain ⟨hinv', hiff⟩ := hinv.step hsafe hs
    exact ⟨fun hi => ⟨hinv', hiff.mpr hi⟩, fun hi hfree => hi (hiff.mp hfree)⟩

/-- The law at a queue for one message of one byte: a send runs to its end, and the queue is destroyed. -/
theorem queue_freed_unused_send :
    StepMachine.Throughout (QueueLife.step 32 64) (QueueLife.FreeSafe 32 64)
      (QueueLife.init ⟨mqMagicnum, 2, 1, 0, 0, 0, fun _ => 0⟩ 1)
      [.call 0 (.send (some fun _ => 7) 1 skTimeoutInfinity), .lock 0, .run 0, .unlock 0,
        .destroyTest, .clear, .poll, .free] := by
  refine (@queue_freed_unused 32 200 64 1 1 (fun _ => some 64) false
    ⟨mqMagicnum, 2, 1, 0, 0, 0, fun _ => 0⟩ rfl 1 _ _ _ rfl).mpr ?_
  iterate 6 refine StepMachine.along_cons trivial rfl ?_
  refine StepMachine.along_cons ?_ rfl (StepMachine.along_cons trivial rfl trivial)
  intro _ _
  refine ⟨?_, by decide⟩
  intro pc hpc
  obtain rfl : pc = .idle := List.mem_singleton.mp hpc
  exact id

/-- **A queue freed under a call.** A send has passed its tests and not yet taken the mutex:
`sk_queue_destroy_ex` clears `magicnum`, reads `refcnt` as 0 and frees the queue, and the send goes on to
lock a mutex that is no longer there. -/
theorem queue_freed_under_send :
    ∃ os s t c, StepMachine.run (QueueLife.step 32 64)
        (QueueLife.init ⟨mqMagicnum, 2, 1, 0, 0, 0, fun _ => 0⟩ 1)
        [.call 0 (.send (some fun _ => 7) 1 skTimeoutInfinity), .destroyTest, .clear, .poll] =
        some (os, s) ∧
      QueueLife.step 32 64 s .free = some (some .success, t) ∧ s.threads[0]? = some (.tested c) ∧
      ¬ s.FreeSafe 32 64 := by
  refine ⟨_, _, _, _, rfl, rfl, rfl, ?_⟩
  intro hsafe
  have hidle := hsafe rfl (.tested _) List.mem_cons_self
  cases hidle

end SmIpc.Os
