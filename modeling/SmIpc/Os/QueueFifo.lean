import SmIpc.Lib.Machine
import SmIpc.Lib.CircularBuffer
import SmIpc.Lib.BoundedFifo
import SmIpc.Lib.ReusedSlots
import SmIpc.Os.Queue
import Mathlib.Data.List.Forall2
import Mathlib.Tactic.Linarith

/-! # A message queue is a bounded FIFO of byte strings

`MsgQ.Holds w mq l` relates a queue to the bounded FIFO `l` of the messages in it: the cursors
delimit as many slots as there are messages, and each slot starts with its message (what follows in
the slot is left from earlier messages). The two sections that move a cursor are pushes and pops of
that FIFO (`Holds.sendStore`, `Holds.receiveTake`), and the two tests tell when it is full or empty
(`Holds.isFull_iff`, `Holds.isEmpty_iff`).

Over these, a call with an immediate time-out (`QueueCall.exec`) meets the specification
`QueueCall.Meets`, and so does every finite sequence of such calls (`queue_refines_fifo`). -/

namespace SmIpc.Os

open CircularBuffer (view count slot next)

namespace MsgQ

/-- The bytes of slot `j`. -/
def slotBytes (mq : MsgQ) (j : ℕ) : List UInt8 :=
  bytesAt mq.msgbuffer (j * mq.mqMsgsize) mq.mqMsgsize

/-- The queue holds exactly the messages `l`, oldest first, and its sizes do not wrap in `U32`. -/
structure Holds (w : ℕ) {cap : ℕ} (mq : MsgQ) (l : BoundedFifo (List UInt8) cap) : Prop where
  /-- The queue is alive. -/
  magicnum_eq : mq.magicnum = mqMagicnum
  /-- One slot more than the capacity. -/
  mqMaxmsg_eq : mq.mqMaxmsg = cap + 1
  /-- The queue is to hold at least one message. -/
  cap_pos : 1 ≤ cap
  /-- The sum in the full test does not wrap. -/
  twice_le : 2 * (cap + 1) ≤ 2 ^ w
  /-- The size of the slots does not wrap. -/
  size_lt : (cap + 1) * mq.mqMsgsize < 2 ^ w
  /-- The read cursor is inside the ring. -/
  read_lt : mq.read < mq.mqMaxmsg
  /-- The write cursor is inside the ring. -/
  write_lt : mq.write < mq.mqMaxmsg
  /-- The reference count is back where a call found it. -/
  refcnt_lt : mq.refcnt < 2 ^ w
  /-- The cursors delimit one slot for each message. -/
  length_eq : l.items.length = count mq.mqMaxmsg mq.read mq.write
  /-- Each slot starts with its message. -/
  slots : List.Forall₂ (· <+: ·) l.items (view mq.slotBytes mq.mqMaxmsg mq.read l.items.length)

variable {w cap : ℕ} {mq : MsgQ} {l : BoundedFifo (List UInt8) cap}

/-- **The full test** holds exactly when `cap` messages are queued. -/
theorem Holds.isFull_iff (h : mq.Holds w l) : IsFull w mq ↔ ¬ l.items.length < cap := by
  have hr := h.read_lt
  have hw := h.write_lt
  have hm := h.mqMaxmsg_eq
  have hc := h.cap_pos
  have ht := h.twice_le
  rw [h.length_eq, IsFull, u32_of_lt (n := mq.read + mq.mqMaxmsg - mq.write) (by omega) (by omega)]
  unfold count
  -- the sum is below twice the ring's size, so the remainder takes at most one subtraction
  rcases Nat.lt_or_ge (mq.read + mq.mqMaxmsg - mq.write) mq.mqMaxmsg with hlt | hge
  · rw [Nat.mod_eq_of_lt hlt]
    split <;> omega
  · rw [Nat.mod_eq_sub_mod hge, Nat.mod_eq_of_lt (by omega)]
    split <;> omega

/-- **The empty test** holds exactly when no message is queued. -/
theorem Holds.isEmpty_iff (h : mq.Holds w l) : mq.read = mq.write ↔ l.items = [] := by
  rw [← List.length_eq_zero_iff, h.length_eq, CircularBuffer.count_eq_zero_iff h.read_lt]

/-- The offset of a slot is computed without wrapping. -/
theorem Holds.offset_eq (h : mq.Holds w l) {j : ℕ} (hj : j < mq.mqMaxmsg) :
    u32 w (j * mq.mqMsgsize) = j * mq.mqMsgsize := by
  refine u32_of_lt (by push_cast; rfl) (lt_of_le_of_lt ?_ h.size_lt)
  exact Nat.mul_le_mul_right _ (by have := h.mqMaxmsg_eq; omega)

/-- A cursor that is advanced and wrapped is the next slot. -/
theorem Holds.cursor_eq (h : mq.Holds w l) {j : ℕ} (hj : j < mq.mqMaxmsg) :
    (if u32 w (j + 1) = mq.mqMaxmsg then 0 else u32 w (j + 1)) = next mq.mqMaxmsg j := by
  have := h.mqMaxmsg_eq
  have := h.twice_le
  rw [u32_of_lt (n := j + 1) (by push_cast; rfl) (by omega)]
  rfl

/-- The reference count a call raised and lowered again is what it was. -/
theorem refcnt_restored {n : ℕ} (hn : n < 2 ^ w) : u32 w (u32 w (n + 1) - 1) = n := by
  rw [u32_sub, Int.add_sub_cancel]
  exact u32_of_lt rfl hn

/-- Two slots do not overlap. -/
theorem slots_disjoint {i j sz n : ℕ} (hij : i ≠ j) (hn : n ≤ sz) :
    i * sz + sz ≤ j * sz ∨ j * sz + n ≤ i * sz := by
  rcases Nat.lt_or_gt_of_ne hij with h | h
  · left
    calc i * sz + sz = (i + 1) * sz := (Nat.succ_mul i sz).symm
      _ ≤ j * sz := Nat.mul_le_mul_right _ h
  · right
    calc j * sz + n ≤ j * sz + sz := by omega
      _ = (j + 1) * sz := (Nat.succ_mul j sz).symm
      _ ≤ i * sz := Nat.mul_le_mul_right _ h

/-- Raising the reference count and lowering it again gives the queue back. -/
theorem release_acquire (h : mq.refcnt < 2 ^ w) : release w (acquire w mq) = mq := by
  simp only [release, acquire, refcnt_restored h]

/-- The reference count is not part of the queue's contents. -/
theorem Holds.withRefcnt (h : mq.Holds w l) {n : ℕ} (hn : n < 2 ^ w) :
    Holds w { mq with refcnt := n } l :=
  { h with refcnt_lt := hn }

/-- A call that raises the reference count leaves the contents. -/
theorem Holds.acquire (h : mq.Holds w l) : (Os.acquire w mq).Holds w l :=
  h.withRefcnt (u32_lt w (mq.refcnt + 1))

/-- A call that lowers it leaves the contents. -/
theorem Holds.release (h : mq.Holds w l) : (Os.release w mq).Holds w l :=
  h.withRefcnt (u32_lt w (mq.refcnt - 1))

/-- Storing a message moves the write cursor to the next slot. -/
theorem Holds.write_sendStore (h : mq.Holds w l) (msg : ℕ → UInt8) (n : ℕ) :
    (Os.sendStore w mq msg n).2.write = next mq.mqMaxmsg mq.write :=
  h.cursor_eq h.write_lt

/-- **Storing a message** writes it over the beginning of the slot at the write cursor, and changes no
other slot. -/
theorem Holds.slotBytes_sendStore (h : mq.Holds w l) (msg : ℕ → UInt8) {n : ℕ}
    (hn : n ≤ mq.mqMsgsize) (j : ℕ) :
    (Os.sendStore w mq msg n).2.slotBytes j =
      if j = mq.write then ReusedSlots.overwrite (mq.slotBytes j) (bytesAt msg 0 n)
      else mq.slotBytes j := by
  show bytesAt (memcpy mq.msgbuffer (u32 w (mq.write * mq.mqMsgsize)) msg n) (j * mq.mqMsgsize)
    mq.mqMsgsize = _
  rw [h.offset_eq h.write_lt]
  split
  · rename_i hj
    rw [hj, bytesAt_memcpy _ _ hn, ReusedSlots.overwrite, length_bytesAt, slotBytes]
  · rename_i hj
    rw [bytesAt_memcpy_of_disjoint _ _ (slots_disjoint hj hn), slotBytes]

/-- **Storing a message in a queue that is not full appends it.** -/
theorem Holds.sendStore (h : mq.Holds w l) (hroom : l.items.length < cap) (msg : ℕ → UInt8)
    {n : ℕ} (hn : n ≤ mq.mqMsgsize) :
    (Os.sendStore w mq msg n).2.Holds w (l.push (bytesAt msg 0 n)).2 := by
  have hmax := h.mqMaxmsg_eq
  have hpush := (l.push_of_lt (bytesAt msg 0 n) hroom).2
  have hcount : count mq.mqMaxmsg mq.read mq.write + 1 < mq.mqMaxmsg := by
    rw [← h.length_eq]; omega
  have hwrite := h.write_sendStore msg n
  have hslots := h.slotBytes_sendStore msg hn
  set mq' := (Os.sendStore w mq msg n).2 with hmq'
  -- only the spare slot changes, and it then starts with the message
  have hother : ∀ j, j ≠ mq.write → mq'.slotBytes j = mq.slotBytes j := by
    intro j hj
    rw [hslots, if_neg hj]
  have hnew : bytesAt msg 0 n <+: mq'.slotBytes mq.write := by
    rw [hslots, if_pos rfl]
    exact List.prefix_append _ _
  have hlen : (l.push (bytesAt msg 0 n)).2.items.length =
      count mq.mqMaxmsg mq.read mq'.write := by
    rw [hpush, hwrite, List.length_append, List.length_singleton, h.length_eq,
      CircularBuffer.count_next_tail h.read_lt h.write_lt hcount]
  refine ⟨h.magicnum_eq, hmax, h.cap_pos, h.twice_le, h.size_lt, h.read_lt, ?_, u32_lt _ _, hlen, ?_⟩
  · rw [hwrite]
    exact CircularBuffer.next_lt h.write_lt
  · show List.Forall₂ (· <+: ·) (l.push (bytesAt msg 0 n)).2.items
      (view mq'.slotBytes mq.mqMaxmsg mq.read _)
    rw [hpush, List.length_append, List.length_singleton, CircularBuffer.view_succ, h.length_eq,
      CircularBuffer.slot_count h.read_lt h.write_lt]
    refine List.rel_append ?_ (List.Forall₂.cons hnew List.Forall₂.nil)
    have hold : view mq'.slotBytes mq.mqMaxmsg mq.read (count mq.mqMaxmsg mq.read mq.write) =
        view mq.slotBytes mq.mqMaxmsg mq.read (count mq.mqMaxmsg mq.read mq.write) := by
      refine CircularBuffer.view_congr fun i hi => hother _ ?_
      rw [← CircularBuffer.slot_count h.read_lt h.write_lt]
      exact CircularBuffer.slot_ne (by omega) (by omega) (by omega)
    rw [hold, ← h.length_eq]
    exact h.slots

/-- Taking a slot moves the read cursor to the next one. -/
theorem Holds.read_receiveTake (h : mq.Holds w l) (msg : ℕ → UInt8) (n : ℕ) :
    (Os.receiveTake w mq msg n).2.read = next mq.mqMaxmsg mq.read :=
  h.cursor_eq h.read_lt

/-- **What is delivered** are the first bytes of the slot at the read cursor, whatever is in it. -/
theorem Holds.delivered_eq (h : mq.Holds w l) (msg : ℕ → UInt8) {n : ℕ} (hn : n ≤ mq.mqMsgsize) :
    bytesAt (Os.receiveTake w mq msg n).1.2 0 n = (mq.slotBytes mq.read).take n := by
  rw [slotBytes, take_bytesAt _ _ hn]
  show bytesAt (memcpy msg 0 (fun k => mq.msgbuffer (u32 w (mq.read * mq.mqMsgsize) + k)) n) 0 n = _
  rw [bytesAt_memcpy_self, h.offset_eq h.read_lt]
  simp only [bytesAt, Nat.zero_add]

/-- **Taking the oldest slot of a queue that is not empty removes the oldest message**, and what is
delivered agrees with that message as far as both go. -/
theorem Holds.receiveTake (h : mq.Holds w l) {m : List UInt8} {ms : List (List UInt8)}
    (hl : l.items = m :: ms) (msg : ℕ → UInt8) {n : ℕ} (hn : n ≤ mq.mqMsgsize) :
    (Os.receiveTake w mq msg n).2.Holds w l.pop.2 ∧
      (bytesAt (Os.receiveTake w mq msg n).1.2 0 n).take m.length = m.take n := by
  have hne : mq.read ≠ mq.write := fun he => by simp [h.isEmpty_iff.mp he] at hl
  set mq' := (Os.receiveTake w mq msg n).2 with hmq'
  have hread : mq'.read = next mq.mqMaxmsg mq.read := h.read_receiveTake msg n
  -- the slots in use split at the read cursor as the messages split at the oldest
  have hview := CircularBuffer.view_pop mq.slotBytes h.read_lt h.write_lt hne
  have hslots := h.slots
  rw [h.length_eq, hview, hl] at hslots
  obtain ⟨hm, hms⟩ := List.forall₂_cons.mp hslots
  have hlen := CircularBuffer.count_next_head h.read_lt h.write_lt hne
  have hitems : l.pop.2.items = ms := by rw [BoundedFifo.pop_snd_items, hl, List.tail_cons]
  have hlen' : ms.length = count mq.mqMaxmsg (next mq.mqMaxmsg mq.read) mq.write := by
    have := h.length_eq
    rw [hl, List.length_cons] at this
    omega
  refine ⟨⟨h.magicnum_eq, h.mqMaxmsg_eq, h.cap_pos, h.twice_le, h.size_lt, ?_, h.write_lt,
    u32_lt _ _, ?_, ?_⟩, ?_⟩
  · rw [hread]
    exact CircularBuffer.next_lt h.read_lt
  · rw [hitems, hread]
    exact hlen'
  · show List.Forall₂ (· <+: ·) l.pop.2.items (view mq.slotBytes mq.mqMaxmsg mq'.read _)
    rw [hitems, hread, hlen']
    exact hms
  · -- the copy takes the first bytes of the slot, and the message is a prefix of the slot
    obtain ⟨rest, hrest⟩ := hm
    rw [h.delivered_eq msg hn, ← hrest, List.take_take, Nat.min_comm, ← List.take_take, List.take_left]

end MsgQ

section Cases

variable {w cap id : ℕ} {mq : MsgQ} {l : BoundedFifo (List UInt8) cap}

/-- On a live queue the parameter check rejects exactly the sizes above the slot size. -/
theorem MsgQ.Holds.badParameter_iff (h : mq.Holds w l) (hid : IsValidId w id) (n : ℕ) :
    (¬ IsValidId w id ∨ mq.magicnum ≠ mqMagicnum ∨ n > mq.mqMsgsize) ↔ ¬ n ≤ mq.mqMsgsize := by
  simp [hid, h.magicnum_eq]

/-- **What `sk_queue_send_ex` can do up to its return or its wait**: refuse a bad parameter; store
the message when fewer than `cap` are queued; otherwise give up at once or wait, by its time-out. -/
theorem skQueueSendEx_cases (h : mq.Holds w l) (hid : IsValidId w id) (msg : Option (ℕ → UInt8))
    (n timeoutMs : ℕ) :
    (msg = none ∨ ¬ n ≤ mq.mqMsgsize) ∧
        skQueueSendEx w mq id msg n timeoutMs = ((.ret .errorBadParameter, false), mq) ∨
      ∃ src, msg = some src ∧ n ≤ mq.mqMsgsize ∧
        (l.items.length < cap ∧ (∃ signal, skQueueSendEx w mq id msg n timeoutMs =
            ((.ret .success, signal), (sendStore w (acquire w mq) src n).2)) ∨
          ¬ l.items.length < cap ∧
            (timeoutMs = skTimeoutImmediate ∧
                skQueueSendEx w mq id msg n timeoutMs = ((.ret .errorTimeout, false), mq) ∨
              timeoutMs ≠ skTimeoutImmediate ∧ ∃ timed,
                skQueueSendEx w mq id msg n timeoutMs = ((.wait timed, false), acquire w mq))) := by
  cases msg with
  | none => exact Or.inl ⟨Or.inl rfl, rfl⟩
  | some src =>
    simp only [skQueueSendEx]
    by_cases hn : n ≤ mq.mqMsgsize
    · right
      refine ⟨src, rfl, hn, ?_⟩
      rw [if_neg (fun hb => (h.badParameter_iff hid n).mp hb hn)]
      by_cases hroom : l.items.length < cap
      · left
        refine ⟨hroom, (sendStore w (acquire w mq) src n).1, ?_⟩
        rw [if_neg (fun hf => h.acquire.isFull_iff.mp hf hroom)]
      · right
        refine ⟨hroom, ?_⟩
        rw [if_pos (h.acquire.isFull_iff.mpr hroom)]
        by_cases himm : timeoutMs = skTimeoutImmediate
        · left
          subst himm
          rw [if_neg (by decide), if_pos rfl, sendResume, if_pos (Or.inl rfl),
            MsgQ.release_acquire h.refcnt_lt]
          exact ⟨rfl, rfl⟩
        · right
          refine ⟨himm, ?_⟩
          by_cases hinf : timeoutMs = skTimeoutInfinity
          · exact ⟨false, by rw [if_pos hinf]⟩
          · exact ⟨true, by rw [if_neg hinf, if_neg himm]⟩
    · left
      exact ⟨Or.inr hn, if_pos ((h.badParameter_iff hid n).mpr hn)⟩

/-- **What `sk_queue_receive_ex` can do up to its return or its wait**: refuse a bad parameter; take
the oldest slot when a message is queued; otherwise give up at once or wait, by its time-out. -/
theorem skQueueReceiveEx_cases (h : mq.Holds w l) (hid : IsValidId w id)
    (msg : Option (ℕ → UInt8)) (n timeoutMs : ℕ) :
    (msg = none ∨ ¬ n ≤ mq.mqMsgsize) ∧
        skQueueReceiveEx w mq id msg n timeoutMs = ((.ret .errorBadParameter, false, msg), mq) ∨
      ∃ dst, msg = some dst ∧ n ≤ mq.mqMsgsize ∧
        ((∃ m ms, l.items = m :: ms ∧ skQueueReceiveEx w mq id msg n timeoutMs =
            ((.ret .success, (receiveTake w (acquire w mq) dst n).1.1,
              some (receiveTake w (acquire w mq) dst n).1.2),
              (receiveTake w (acquire w mq) dst n).2)) ∨
          l.items = [] ∧
            (timeoutMs = skTimeoutImmediate ∧ skQueueReceiveEx w mq id msg n timeoutMs =
                ((.ret .errorTimeout, false, msg), mq) ∨
              timeoutMs ≠ skTimeoutImmediate ∧ ∃ timed,
                skQueueReceiveEx w mq id msg n timeoutMs =
                  ((.wait timed, false, msg), acquire w mq))) := by
  cases msg with
  | none => exact Or.inl ⟨Or.inl rfl, rfl⟩
  | some dst =>
    simp only [skQueueReceiveEx]
    by_cases hn : n ≤ mq.mqMsgsize
    · right
      refine ⟨dst, rfl, hn, ?_⟩
      rw [if_neg (fun hb => (h.badParameter_iff hid n).mp hb hn)]
      cases hl : l.items with
      | cons m ms =>
        left
        refine ⟨m, ms, rfl, ?_⟩
        rw [if_neg (fun he => List.cons_ne_nil m ms (hl ▸ h.acquire.isEmpty_iff.mp he))]
      | nil =>
        right
        refine ⟨rfl, ?_⟩
        rw [if_pos (h.acquire.isEmpty_iff.mpr hl)]
        by_cases himm : timeoutMs = skTimeoutImmediate
        · left
          subst himm
          rw [if_neg (by decide), if_pos rfl, receiveResume, if_pos (Or.inl rfl),
            MsgQ.release_acquire h.refcnt_lt]
          exact ⟨rfl, rfl⟩
        · right
          refine ⟨himm, ?_⟩
          by_cases hinf : timeoutMs = skTimeoutInfinity
          · exact ⟨false, by rw [if_pos hinf]⟩
          · exact ⟨true, by rw [if_neg hinf, if_neg himm]⟩
    · left
      exact ⟨Or.inr hn, if_pos ((h.badParameter_iff hid n).mpr hn)⟩

end Cases

/-! ## Calls with an immediate time-out -/

/-- A call on a queue with `SK_TIMEOUT_IMMEDIATE`. -/
inductive QueueCall where
  /-- `sk_queue_send_ex(id, msg, msg_size, SK_TIMEOUT_IMMEDIATE)`. -/
  | sendEx (msg : Option (ℕ → UInt8)) (msgSize : ℕ)
  /-- `sk_queue_receive_ex(id, msg, msg_size, SK_TIMEOUT_IMMEDIATE)`. -/
  | receiveEx (msg : Option (ℕ → UInt8)) (msgSize : ℕ)
  /-- `sk_queue_send(id, msg, SK_TIMEOUT_IMMEDIATE)`. -/
  | send (msg : Option (ℕ → UInt8))
  /-- `sk_queue_receive(id, msg, SK_TIMEOUT_IMMEDIATE)`. -/
  | receive (msg : Option (ℕ → UInt8))

/-- What a call hands back: its status and, for a receive, the caller's memory afterwards. -/
structure QueueResult where
  /-- The status returned. -/
  status : SkStatus
  /-- The memory behind the `msg` pointer of a receive. -/
  msg : Option (ℕ → UInt8)

/-- The result of a send that returned; `none` if it would wait. -/
def sendResult : (CallEnd × Bool) × MsgQ → Option (QueueResult × MsgQ)
  | ((.ret status, _), mq) => some (⟨status, none⟩, mq)
  | ((.wait _, _), _) => none

/-- The result of a receive that returned; `none` if it would wait. -/
def receiveResult : (CallEnd × Bool × Option (ℕ → UInt8)) × MsgQ → Option (QueueResult × MsgQ)
  | ((.ret status, _, msg), mq) => some (⟨status, msg⟩, mq)
  | ((.wait _, _, _), _) => none

/-- A whole call, as the code executes it on the queue with the given id. -/
def QueueCall.exec (w id : ℕ) : StepMachine MsgQ QueueCall QueueResult
  | mq, .sendEx msg n => sendResult (skQueueSendEx w mq id msg n skTimeoutImmediate)
  | mq, .receiveEx msg n => receiveResult (skQueueReceiveEx w mq id msg n skTimeoutImmediate)
  | mq, .send msg => sendResult (skQueueSend w mq id msg skTimeoutImmediate)
  | mq, .receive msg => receiveResult (skQueueReceive w mq id msg skTimeoutImmediate)

section Spec

variable {cap : ℕ}

/-- **What a send means**: a bad parameter changes nothing; otherwise it succeeds exactly when fewer
than `cap` messages are queued, and then appends its bytes. -/
def SendMeets (sz : ℕ) (l : BoundedFifo (List UInt8) cap) (msg : Option (ℕ → UInt8)) (n : ℕ)
    (r : QueueResult) (l' : BoundedFifo (List UInt8) cap) : Prop :=
  match msg with
  | none => r.status = .errorBadParameter ∧ l' = l
  | some src =>
      if n ≤ sz then
        r.status = (if l.items.length < cap then .success else .errorTimeout) ∧
          l' = (l.push (bytesAt src 0 n)).2
      else r.status = .errorBadParameter ∧ l' = l

/-- **What a receive means**: a bad parameter changes nothing; otherwise it succeeds exactly when a
message is queued, removes the oldest, and its bytes agree with that message as far as both go. -/
def ReceiveMeets (sz : ℕ) (l : BoundedFifo (List UInt8) cap) (msg : Option (ℕ → UInt8)) (n : ℕ)
    (r : QueueResult) (l' : BoundedFifo (List UInt8) cap) : Prop :=
  match msg with
  | none => r.status = .errorBadParameter ∧ l' = l
  | some _ =>
      if n ≤ sz then
        match l.items with
        | [] => r.status = .errorTimeout ∧ l' = l
        | m :: _ => r.status = .success ∧ l' = l.pop.2 ∧
            ∃ out, r.msg = some out ∧ (bytesAt out 0 n).take m.length = m.take n
      else r.status = .errorBadParameter ∧ l' = l

/-- What a call means on a bounded FIFO of byte strings, for slots of `sz` bytes. -/
def QueueCall.Meets (w sz : ℕ) (l : BoundedFifo (List UInt8) cap) (c : QueueCall)
    (r : QueueResult) (l' : BoundedFifo (List UInt8) cap) : Prop :=
  match c with
  | .sendEx msg n => SendMeets sz l msg n r l'
  | .receiveEx msg n => ReceiveMeets sz l msg n r l'
  | .send msg => SendMeets sz l msg (sizeofSkQueueMsg w) r l'
  | .receive msg => ReceiveMeets sz l msg (sizeofSkQueueMsg w) r l'

end Spec

section Calls

variable {w cap id : ℕ} {mq : MsgQ} {l : BoundedFifo (List UInt8) cap}

/-- What is asked of one call: it returns, meets its specification, keeps the representation, and
changes nothing unless it succeeds. -/
def CallOk (w : ℕ) (mq : MsgQ) (res : Option (QueueResult × MsgQ))
    (Meets : QueueResult → BoundedFifo (List UInt8) cap → Prop) : Prop :=
  ∃ r mq' l', res = some (r, mq') ∧ Meets r l' ∧ mq'.Holds w l' ∧
    mq'.mqMsgsize = mq.mqMsgsize ∧ (r.status ≠ .success → mq' = mq)

/-- An immediate send returns and meets its specification. -/
theorem sendEx_ok (h : mq.Holds w l) (hid : IsValidId w id) (msg : Option (ℕ → UInt8)) (n : ℕ) :
    CallOk w mq (sendResult (skQueueSendEx w mq id msg n skTimeoutImmediate))
      (fun r l' => SendMeets mq.mqMsgsize l msg n r l') := by
  rcases skQueueSendEx_cases h hid msg n skTimeoutImmediate with ⟨hbad, hr⟩ | ⟨src, rfl, hn, hcase⟩
  · rw [hr]
    refine ⟨⟨.errorBadParameter, none⟩, mq, l, rfl, ?_, h, rfl, fun _ => rfl⟩
    rcases hbad with rfl | hn
    · exact ⟨rfl, rfl⟩
    · cases msg with
      | none => exact ⟨rfl, rfl⟩
      | some src => simp only [SendMeets, if_neg hn, and_self]
  · rcases hcase with ⟨hroom, signal, hr⟩ | ⟨hfull, ⟨-, hr⟩ | ⟨hne, -⟩⟩
    · rw [hr]
      refine ⟨⟨.success, none⟩, _, _, rfl, ?_, h.acquire.sendStore hroom src hn, rfl,
        fun hs => absurd rfl hs⟩
      simp only [SendMeets, if_pos hn, if_pos hroom, and_self]
    · rw [hr]
      refine ⟨⟨.errorTimeout, none⟩, mq, l, rfl, ?_, h, rfl, fun _ => rfl⟩
      simp only [SendMeets, if_pos hn, if_neg hfull, l.push_of_full _ hfull, and_self]
    · exact absurd rfl hne

/-- An immediate receive returns and meets its specification. -/
theorem receiveEx_ok (h : mq.Holds w l) (hid : IsValidId w id) (msg : Option (ℕ → UInt8))
    (n : ℕ) :
    CallOk w mq (receiveResult (skQueueReceiveEx w mq id msg n skTimeoutImmediate))
      (fun r l' => ReceiveMeets mq.mqMsgsize l msg n r l') := by
  rcases skQueueReceiveEx_cases h hid msg n skTimeoutImmediate with
    ⟨hbad, hr⟩ | ⟨dst, rfl, hn, hcase⟩
  · rw [hr]
    refine ⟨⟨.errorBadParameter, msg⟩, mq, l, rfl, ?_, h, rfl, fun _ => rfl⟩
    rcases hbad with rfl | hn
    · exact ⟨rfl, rfl⟩
    · cases msg with
      | none => exact ⟨rfl, rfl⟩
      | some dst => simp only [ReceiveMeets, if_neg hn, and_self]
  · rcases hcase with ⟨m, ms, hl, hr⟩ | ⟨hl, ⟨-, hr⟩ | ⟨hne, -⟩⟩
    · -- the section runs with the reference count raised
      obtain ⟨hholds, hbytes⟩ := h.acquire.receiveTake hl dst hn
      rw [hr]
      refine ⟨⟨.success, _⟩, _, _, rfl, ?_, hholds, rfl, fun hs => absurd rfl hs⟩
      simp only [ReceiveMeets, if_pos hn, hl]
      exact ⟨trivial, trivial, _, rfl, hbytes⟩
    · rw [hr]
      refine ⟨⟨.errorTimeout, some dst⟩, mq, l, rfl, ?_, h, rfl, fun _ => rfl⟩
      simp only [ReceiveMeets, if_pos hn, hl, and_self]
    · exact absurd rfl hne

/-- Every call with an immediate time-out returns and meets its specification. -/
theorem QueueCall.exec_ok (h : mq.Holds w l) (hid : IsValidId w id) (c : QueueCall) :
    CallOk w mq (QueueCall.exec w id mq c) (QueueCall.Meets w mq.mqMsgsize l c) := by
  cases c with
  | sendEx msg n => exact sendEx_ok h hid msg n
  | receiveEx msg n => exact receiveEx_ok h hid msg n
  | send msg => exact sendEx_ok h hid msg _
  | receive msg => exact receiveEx_ok h hid msg _

/-- **A finite sequence of immediate calls returns and is a run of the FIFO.** -/
theorem QueueCall.run_ok (h : mq.Holds w l) (hid : IsValidId w id) (calls : List QueueCall) :
    ∃ rs mq' l', StepMachine.run (QueueCall.exec w id) mq calls = some (rs, mq') ∧
      StepMachine.RelRun (QueueCall.Meets w mq.mqMsgsize) l calls rs l' ∧ mq'.Holds w l' := by
  obtain ⟨rs, mq', l', hrun, hrel, h', -⟩ := StepMachine.run_realizes (QueueCall.exec w id)
    (QueueCall.Meets w mq.mqMsgsize) (fun mq' l' => mq'.Holds w l' ∧ mq'.mqMsgsize = mq.mqMsgsize)
    (fun mq₁ l₁ c h₁ => by
      -- a call keeps the slot size, by which the next ones are judged
      obtain ⟨r, mq₂, l₂, hexec, hmeets, h₂, hsz, -⟩ := QueueCall.exec_ok h₁.1 hid c
      rw [h₁.2] at hmeets hsz
      exact ⟨r, mq₂, l₂, hexec, hmeets, h₂, hsz⟩) ⟨h, rfl⟩ calls
  exact ⟨rs, mq', l', hrun, hrel, h'⟩

end Calls

/-! ## A created queue -/

/-- A queue that was just created is empty, and its slots are zero. -/
theorem skQueueCreateEx_created {w sizeofMsgQ id maxMsgCount msgSize : ℕ} {malloc : ℕ → Option ℕ}
    {pNull : Bool} {mq : MsgQ}
    (hcreate : skQueueCreateEx w sizeofMsgQ malloc pNull maxMsgCount msgSize =
      (.success, some (id, mq))) :
    mq.read = 0 ∧ mq.write = 0 ∧ mq.msgbuffer = fun _ => 0 := by
  unfold skQueueCreateEx at hcreate
  cases pNull with
  | true => cases hcreate
  | false =>
    simp only [Bool.false_eq_true, if_false] at hcreate
    split at hcreate <;> cases hcreate
    exact ⟨rfl, rfl, rfl⟩

/-- A queue that was just created holds no message, and the sizes are those asked for. -/
theorem holds_skQueueCreateEx {w sizeofMsgQ id maxMsgCount msgSize : ℕ} {malloc : ℕ → Option ℕ}
    {pNull : Bool} {mq : MsgQ} (hcap : 1 ≤ maxMsgCount) (htwice : 2 * (maxMsgCount + 1) ≤ 2 ^ w)
    (hsize : sizeofMsgQ + (maxMsgCount + 1) * msgSize < 2 ^ w)
    (hcreate : skQueueCreateEx w sizeofMsgQ malloc pNull maxMsgCount msgSize =
      (.success, some (id, mq))) :
    mq.Holds w (BoundedFifo.empty (List UInt8) maxMsgCount) ∧ mq.mqMsgsize = msgSize := by
  have hmax : u32 w (maxMsgCount + 1) = maxMsgCount + 1 :=
    u32_of_lt (by push_cast; rfl) (by omega)
  -- the sizes do not wrap, so the ring has the slot that is kept free
  unfold skQueueCreateEx at hcreate
  cases pNull with
  | true => simp at hcreate
  | false =>
    simp only [hmax, Bool.false_eq_true, if_false] at hcreate
    split at hcreate
    · simp at hcreate
    · obtain ⟨-, rfl⟩ : _ ∧ _ = mq := by simpa using hcreate
      refine ⟨⟨rfl, rfl, hcap, htwice, by dsimp only; omega, ?_, ?_, ?_, ?_, List.Forall₂.nil⟩, rfl⟩
      · exact Nat.succ_pos _
      · exact Nat.succ_pos _
      · exact Nat.two_pow_pos w
      · exact (CircularBuffer.count_self _ _).symm

/-- **A message queue refines a bounded FIFO.** Take a queue made by `sk_queue_create_ex` for at
least one message, with sizes that do not wrap. Every finite sequence of immediate calls on it
returns, with results that meet `QueueCall.Meets` on a FIFO of exactly `maxMsgCount` messages that
starts empty; the cursors stay inside the ring; and a further call that returns
`SK_ERROR_TIMEOUT` or `SK_ERROR_BAD_PARAMETER` leaves the whole queue as it found it. -/
theorem queue_refines_fifo {w sizeofMsgQ id maxMsgCount msgSize : ℕ} {malloc : ℕ → Option ℕ}
    {pNull : Bool} {mq₀ : MsgQ} (hcap : 1 ≤ maxMsgCount) (htwice : 2 * (maxMsgCount + 1) < 2 ^ w)
    (hsize : sizeofMsgQ + (maxMsgCount + 1) * msgSize < 2 ^ w)
    (hcreate : skQueueCreateEx w sizeofMsgQ malloc pNull maxMsgCount msgSize =
      (.success, some (id, mq₀)))
    (hid : IsValidId w id) (calls : List QueueCall) :
    ∃ rs mq, StepMachine.run (QueueCall.exec w id) mq₀ calls = some (rs, mq) ∧
      (∃ l, StepMachine.RelRun (QueueCall.Meets w msgSize)
        (BoundedFifo.empty (List UInt8) maxMsgCount) calls rs l) ∧
      mq.read < mq.mqMaxmsg ∧ mq.write < mq.mqMaxmsg ∧
      ∀ c, ∃ r mq', QueueCall.exec w id mq c = some (r, mq') ∧
        (r.status = .errorTimeout ∨ r.status = .errorBadParameter → mq' = mq) := by
  obtain ⟨h₀, hsz⟩ := holds_skQueueCreateEx hcap (le_of_lt htwice) hsize hcreate
  obtain ⟨rs, mq, l, hrun, hrel, h⟩ := QueueCall.run_ok h₀ hid calls
  rw [hsz] at hrel
  refine ⟨rs, mq, hrun, ⟨l, hrel⟩, h.read_lt, h.write_lt, ?_⟩
  intro c
  obtain ⟨r, mq', -, hexec, -, -, -, hkeep⟩ := QueueCall.exec_ok h hid c
  refine ⟨r, mq', hexec, fun herr => hkeep ?_⟩
  intro hs
  -- the status was one of the two errors, so it was not success
  rcases herr with he | he <;> simp [hs] at he

/-- The law at a queue of one message of two bytes: a send, a send that finds the queue full, a
receive of one byte and a receive that finds it empty. -/
theorem queue_refines_fifo_two_bytes :
    let mq₀ : MsgQ := ⟨mqMagicnum, 2, 2, 0, 0, 0, fun _ => 0⟩
    let src : ℕ → UInt8 := fun k => if k = 0 then 7 else 9
    let calls : List QueueCall := [.sendEx (some src) 2, .sendEx (some src) 1,
      .receiveEx (some fun _ => 0) 1, .receiveEx (some fun _ => 0) 2]
    ∃ rs mq, StepMachine.run (QueueCall.exec 32 64) mq₀ calls = some (rs, mq) ∧
      (∃ l, StepMachine.RelRun (QueueCall.Meets 32 2) (BoundedFifo.empty (List UInt8) 1) calls rs l) ∧
      mq.read < mq.mqMaxmsg ∧ mq.write < mq.mqMaxmsg ∧
      ∀ c, ∃ r mq', QueueCall.exec 32 64 mq c = some (r, mq') ∧
        (r.status = .errorTimeout ∨ r.status = .errorBadParameter → mq' = mq) := by
  intro mq₀ src calls
  exact @queue_refines_fifo 32 200 64 1 2 (fun _ => some 64) false mq₀ (by decide) (by decide)
    (by decide) rfl (by decide) calls

end SmIpc.Os
