import SmIpc.Os.QueueFifo

/-! # The bytes a receive delivers

`sk_queue_send_ex` copies the sender's `msg_size` bytes over the beginning of a slot and stores no length;
`sk_queue_receive_ex` copies its own `msg_size` bytes out. The slots are the `ReusedSlots` of the
messages sent so far, and a receive that asks for more than the message delivers what earlier messages
left in the slot.

* `QueueLog` is what a history of calls amounts to: the messages sent and how many of them were
  received. `MsgQ.Tracks` says that a queue is what its log makes of it, byte by byte.
* `receive_own_bytes_iff` — of two histories with the same oldest message, a receive delivers the same
  bytes and none of an earlier message exactly when it asks for no more bytes than the message has, or
  no earlier message in its slot was longer. -/

namespace SmIpc.Os

open CircularBuffer (count next)
open ReusedSlots (overwrite lastAt users)

/-! ## Histories -/

/-- The messages sent to a queue, and how many of them were received. -/
structure QueueLog where
  /-- The messages whose send returned `SK_SUCCESS`, in order. -/
  sent : List (List UInt8)
  /-- The number of receives that returned `SK_SUCCESS`. -/
  received : ℕ
  deriving DecidableEq, Repr

namespace QueueLog

/-- Nothing sent, nothing received. -/
def empty : QueueLog := ⟨[], 0⟩

/-- A send of `n` bytes has returned. -/
def recordSend (log : QueueLog) (msg : Option (ℕ → UInt8)) (n : ℕ) (status : SkStatus) : QueueLog :=
  match msg, status with
  | some src, .success => { log with sent := log.sent ++ [bytesAt src 0 n] }
  | _, _ => log

/-- A receive has returned. -/
def recordReceive (log : QueueLog) (status : SkStatus) : QueueLog :=
  if status = .success then { log with received := log.received + 1 } else log

/-- A call has returned. -/
def record (w : ℕ) (log : QueueLog) (c : QueueCall) (r : QueueResult) : QueueLog :=
  match c with
  | .sendEx msg n => log.recordSend msg n r.status
  | .send msg => log.recordSend msg (sizeofSkQueueMsg w) r.status
  | .receiveEx _ _ | .receive _ => log.recordReceive r.status

/-- The message now oldest in the queue. -/
def oldest (log : QueueLog) : Option (List UInt8) := log.sent[log.received]?

/-- The messages that were in the slot of the oldest message before it, in a ring of `n` slots. All of
them have been received. -/
def earlier (n : ℕ) (log : QueueLog) : List (List UInt8) :=
  users n (log.sent.take log.received) (log.received % n)

/-- The byte at offset `b` of the slot of the oldest message `m`: of the message as far as it goes, then of
the last earlier message that reaches `b`, or 0 from the creation of the queue. -/
def slotByte (n : ℕ) (log : QueueLog) (m : List UInt8) (b : ℕ) : Option UInt8 :=
  if b < m.length then m[b]?
  else
    match lastAt (log.earlier n) b with
    | some old => old[b]?
    | none => some 0

/-- The first `r` bytes of the slot of the oldest message `m` contain one of an earlier message. -/
def HasOld (n : ℕ) (log : QueueLog) (m : List UInt8) (r : ℕ) : Prop :=
  ∃ b, m.length ≤ b ∧ b < r ∧ (lastAt (log.earlier n) b).isSome

/-- **Old bytes are found exactly** behind a message that is shorter than what is asked for and than an
earlier message in its slot. -/
theorem hasOld_iff {n : ℕ} {log : QueueLog} {m : List UInt8} {r : ℕ} :
    log.HasOld n m r ↔ m.length < r ∧ ∃ old ∈ log.earlier n, m.length < old.length := by
  constructor
  · rintro ⟨b, hmb, hbr, hold⟩
    refine ⟨by omega, ?_⟩
    by_contra hnone
    -- no earlier message reaches behind the message, so none reaches `b`
    have hall : ∀ old ∈ log.earlier n, old.length ≤ b := by
      intro old hmem
      have : ¬ m.length < old.length := fun h => hnone ⟨old, hmem, h⟩
      omega
    rw [ReusedSlots.lastAt_eq_none_iff.mpr hall] at hold
    exact Bool.noConfusion hold
  · rintro ⟨hr, old, hmem, hlong⟩
    refine ⟨m.length, Nat.le_refl _, hr, ?_⟩
    rw [Option.isSome_iff_ne_none]
    intro hnone
    have := ReusedSlots.lastAt_eq_none_iff.mp hnone old hmem
    omega

/-- Without old bytes a slot holds the message and zeros. -/
theorem slotByte_of_not_hasOld {n : ℕ} {log : QueueLog} {m : List UInt8} {r b : ℕ}
    (h : ¬ log.HasOld n m r) (hb : b < r) :
    log.slotByte n m b = if b < m.length then m[b]? else some 0 := by
  rw [slotByte]
  split
  · rfl
  · rename_i hlong
    have hnone : lastAt (log.earlier n) b = none := by
      by_contra hsome
      exact h ⟨b, by omega, hb, Option.isSome_iff_ne_none.mpr hsome⟩
    rw [hnone]

end QueueLog

/-- What a history of calls, with their results, amounts to. -/
def queueLog (w : ℕ) (calls : List QueueCall) (results : List QueueResult) : QueueLog :=
  (calls.zip results).foldl (fun log cr => log.record w cr.1 cr.2) QueueLog.empty

/-! ## A queue and its log -/

namespace MsgQ

/-- **A queue is what its log makes of it.** -/
structure Tracks (w cap : ℕ) (mq : MsgQ) (log : QueueLog) : Prop where
  /-- The messages sent and not received are queued. -/
  holds : ∃ l : BoundedFifo (List UInt8) cap, mq.Holds w l ∧ l.items = log.sent.drop log.received
  /-- No more messages were received than sent. -/
  received_le : log.received ≤ log.sent.length
  /-- The read cursor is at the slot of the oldest message. -/
  read_eq : mq.read = log.received % mq.mqMaxmsg
  /-- The write cursor is at the slot of the next message. -/
  write_eq : mq.write = log.sent.length % mq.mqMaxmsg
  /-- Each slot holds what its users have left in it. -/
  slots : ∀ j < mq.mqMaxmsg, mq.slotBytes j =
    (users mq.mqMaxmsg log.sent j).foldl overwrite (List.replicate mq.mqMsgsize 0)

variable {w cap : ℕ} {mq : MsgQ} {log : QueueLog}

/-- The reference count is not part of what the log says. -/
theorem Tracks.acquire (h : mq.Tracks w cap log) : (Os.acquire w mq).Tracks w cap log := by
  obtain ⟨l, hl, hitems⟩ := h.holds
  exact ⟨⟨l, hl.acquire, hitems⟩, h.received_le, h.read_eq, h.write_eq, h.slots⟩

/-- **Storing a message** is logged as sent. -/
theorem Tracks.sendStore (h : mq.Tracks w cap log) {l : BoundedFifo (List UInt8) cap}
    (hl : mq.Holds w l) (hitems : l.items = log.sent.drop log.received)
    (hroom : l.items.length < cap) (src : ℕ → UInt8) {n : ℕ} (hn : n ≤ mq.mqMsgsize) :
    (Os.sendStore w mq src n).2.Tracks w cap { log with sent := log.sent ++ [bytesAt src 0 n] } := by
  have hpos : 0 < mq.mqMaxmsg := Nat.lt_of_le_of_lt (Nat.zero_le _) hl.read_lt
  refine ⟨⟨_, hl.sendStore hroom src hn, ?_⟩, ?_, h.read_eq, ?_, ?_⟩
  · rw [(l.push_of_lt _ hroom).2, hitems, List.drop_append_of_le_length h.received_le]
  · rw [List.length_append]
    exact Nat.le_add_right_of_le h.received_le
  · rw [hl.write_sendStore, h.write_eq, CircularBuffer.next_mod hpos, List.length_append,
      List.length_singleton]
    rfl
  · intro j hj
    show _ = (users mq.mqMaxmsg (log.sent ++ [bytesAt src 0 n]) j).foldl overwrite
      (List.replicate mq.mqMsgsize 0)
    rw [hl.slotBytes_sendStore src hn, ReusedSlots.users_snoc, h.slots j hj, h.write_eq]
    by_cases hslot : log.sent.length % mq.mqMaxmsg = j
    · rw [if_pos hslot.symm, if_pos hslot, List.foldl_append, List.foldl_cons, List.foldl_nil]
    · rw [if_neg (Ne.symm hslot), if_neg hslot, List.append_nil]

/-- **Taking a message** is logged as received. -/
theorem Tracks.receiveTake (h : mq.Tracks w cap log) {l : BoundedFifo (List UInt8) cap}
    (hl : mq.Holds w l) (hitems : l.items = log.sent.drop log.received) {m : List UInt8}
    {ms : List (List UInt8)} (hcons : l.items = m :: ms) (dst : ℕ → UInt8) {n : ℕ}
    (hn : n ≤ mq.mqMsgsize) :
    (Os.receiveTake w mq dst n).2.Tracks w cap { log with received := log.received + 1 } := by
  have hpos : 0 < mq.mqMaxmsg := Nat.lt_of_le_of_lt (Nat.zero_le _) hl.read_lt
  refine ⟨⟨_, (hl.receiveTake hcons dst hn).1, ?_⟩, ?_, ?_, h.write_eq, h.slots⟩
  · rw [BoundedFifo.pop_snd_items, hitems, List.tail_drop]
  · have hlen := congrArg List.length hitems
    rw [hcons, List.length_cons, List.length_drop] at hlen
    show log.received + 1 ≤ log.sent.length
    omega
  · rw [hl.read_receiveTake, h.read_eq, CircularBuffer.next_mod hpos]
    rfl

/-- A new queue has sent and received nothing. -/
theorem Tracks.init {l : BoundedFifo (List UInt8) cap} (hl : mq.Holds w l) (hitems : l.items = [])
    (hread : mq.read = 0) (hwrite : mq.write = 0) (hmem : mq.msgbuffer = fun _ => 0) :
    mq.Tracks w cap QueueLog.empty := by
  have hpos : 0 < mq.mqMaxmsg := Nat.lt_of_le_of_lt (Nat.zero_le _) hl.read_lt
  refine ⟨⟨l, hl, hitems⟩, Nat.le_refl 0, ?_, ?_, ?_⟩
  · rw [hread, QueueLog.empty, Nat.zero_mod]
  · rw [hwrite, QueueLog.empty, List.length_nil, Nat.zero_mod]
  · intro j _
    rw [slotBytes, hmem, bytesAt, List.map_const', List.length_range]
    rfl

/-- **The slot of the oldest message** holds it over what the earlier users of the slot have left. -/
theorem Tracks.oldest_slot (h : mq.Tracks w cap log) {m : List UInt8} (hm : log.oldest = some m) :
    mq.slotBytes mq.read =
      overwrite ((log.earlier mq.mqMaxmsg).foldl overwrite (List.replicate mq.mqMsgsize 0)) m := by
  obtain ⟨l, hl, hitems⟩ := h.holds
  obtain ⟨hlt, hget⟩ := List.getElem?_eq_some_iff.mp hm
  -- the messages behind the oldest are fewer than the slots
  have hfew : (log.sent.drop (log.received + 1)).length < mq.mqMaxmsg := by
    have hlen := congrArg List.length hitems
    have hcap := l.length_le
    rw [List.length_drop] at hlen ⊢
    rw [hl.mqMaxmsg_eq]
    omega
  have hsplit : log.sent =
      log.sent.take log.received ++ m :: log.sent.drop (log.received + 1) := by
    rw [← hget, ← List.drop_eq_getElem_cons hlt, List.take_append_drop]
  have htake : (log.sent.take log.received).length = log.received := List.length_take_of_le hlt.le
  have husers := ReusedSlots.users_before (log.sent.take log.received) m hfew
  rw [← hsplit, htake] at husers
  rw [h.slots _ hl.read_lt, h.read_eq, husers, List.foldl_append, List.foldl_cons, List.foldl_nil,
    QueueLog.earlier]

/-- **What a receive delivers**, byte by byte. -/
theorem Tracks.delivered (h : mq.Tracks w cap log) {m : List UInt8} (hm : log.oldest = some m)
    (dst : ℕ → UInt8) {r : ℕ} (hr : r ≤ mq.mqMsgsize) {b : ℕ} (hb : b < r) :
    some ((Os.receiveTake w (Os.acquire w mq) dst r).1.2 b) = log.slotByte mq.mqMaxmsg m b := by
  obtain ⟨l, hl, -⟩ := h.holds
  have hbytes := congrArg (·[b]?) (hl.acquire.delivered_eq dst hr)
  simp only [getElem?_bytesAt, List.getElem?_take, if_pos hb, Nat.zero_add] at hbytes
  rw [hbytes]
  show (mq.slotBytes mq.read)[b]? = _
  rw [h.oldest_slot hm, ReusedSlots.getElem?_overwrite, QueueLog.slotByte]
  split
  · rfl
  · rw [ReusedSlots.getElem?_foldl_overwrite]
    cases lastAt (log.earlier mq.mqMaxmsg) b with
    | some old => rfl
    | none => exact List.getElem?_replicate_of_lt (by omega)

end MsgQ

/-! ## Calls and runs -/

section Calls

variable {w cap id : ℕ} {mq mq' : MsgQ} {log : QueueLog} {r : QueueResult}

/-- An immediate send keeps the log true. -/
theorem sendEx_tracks (h : mq.Tracks w cap log) (hid : IsValidId w id) (msg : Option (ℕ → UInt8))
    (n : ℕ) (hexec : sendResult (skQueueSendEx w mq id msg n skTimeoutImmediate) = some (r, mq')) :
    mq'.Tracks w cap (log.recordSend msg n r.status) ∧ mq'.mqMsgsize = mq.mqMsgsize := by
  obtain ⟨l, hl, hitems⟩ := h.holds
  rcases skQueueSendEx_cases hl hid msg n skTimeoutImmediate with ⟨-, hr⟩ | ⟨src, rfl, hn, hcase⟩
  · rw [hr] at hexec
    cases hexec
    refine ⟨?_, rfl⟩
    cases msg <;> exact h
  · rcases hcase with ⟨hroom, signal, hr⟩ | ⟨-, ⟨-, hr⟩ | ⟨hne, -⟩⟩
    · rw [hr] at hexec
      cases hexec
      exact ⟨h.acquire.sendStore hl.acquire hitems hroom src hn, rfl⟩
    · rw [hr] at hexec
      cases hexec
      exact ⟨h, rfl⟩
    · exact absurd rfl hne

/-- An immediate receive keeps the log true. -/
theorem receiveEx_tracks (h : mq.Tracks w cap log) (hid : IsValidId w id)
    (msg : Option (ℕ → UInt8)) (n : ℕ)
    (hexec : receiveResult (skQueueReceiveEx w mq id msg n skTimeoutImmediate) = some (r, mq')) :
    mq'.Tracks w cap (log.recordReceive r.status) ∧ mq'.mqMsgsize = mq.mqMsgsize := by
  obtain ⟨l, hl, hitems⟩ := h.holds
  rcases skQueueReceiveEx_cases hl hid msg n skTimeoutImmediate with
    ⟨-, hr⟩ | ⟨dst, rfl, hn, hcase⟩
  · rw [hr] at hexec
    cases hexec
    exact ⟨h, rfl⟩
  · rcases hcase with ⟨m, ms, hcons, hr⟩ | ⟨-, ⟨-, hr⟩ | ⟨hne, -⟩⟩
    · rw [hr] at hexec
      cases hexec
      exact ⟨h.acquire.receiveTake hl.acquire hitems hcons dst hn, rfl⟩
    · rw [hr] at hexec
      cases hexec
      exact ⟨h, rfl⟩
    · exact absurd rfl hne

/-- **Every call keeps the log true.** -/
theorem QueueCall.exec_tracks (h : mq.Tracks w cap log) (hid : IsValidId w id) (c : QueueCall)
    (hexec : QueueCall.exec w id mq c = some (r, mq')) :
    mq'.Tracks w cap (log.record w c r) ∧ mq'.mqMsgsize = mq.mqMsgsize := by
  cases c with
  | sendEx msg n => exact sendEx_tracks h hid msg n hexec
  | receiveEx msg n => exact receiveEx_tracks h hid msg n hexec
  | send msg => exact sendEx_tracks h hid msg _ hexec
  | receive msg => exact receiveEx_tracks h hid msg _ hexec

/-- A receive of a queue with an oldest message takes it. -/
theorem receiveEx_oldest (h : mq.Tracks w cap log) (hid : IsValidId w id) {m : List UInt8}
    (hm : log.oldest = some m) (dst : ℕ → UInt8) {n : ℕ} (hn : n ≤ mq.mqMsgsize) :
    QueueCall.exec w id mq (.receiveEx (some dst) n) =
      some (⟨.success, some (receiveTake w (acquire w mq) dst n).1.2⟩,
        (receiveTake w (acquire w mq) dst n).2) := by
  obtain ⟨l, hl, hitems⟩ := h.holds
  obtain ⟨hlt, hget⟩ := List.getElem?_eq_some_iff.mp hm
  have hne : l.items ≠ [] := by
    rw [hitems]
    exact fun hnil => absurd (List.drop_eq_nil_iff.mp hnil) (by omega)
  rw [QueueCall.exec, skQueueReceiveEx]
  simp only
  rw [if_neg (fun hbad => (hl.badParameter_iff hid n).mp hbad hn),
    if_neg (fun he => hne (hl.acquire.isEmpty_iff.mp he))]
  rfl

end Calls

/-- A history of immediate calls on a created queue. -/
structure QueueHistory (w sizeofMsgQ maxMsgCount msgSize : ℕ) where
  /-- The memory the queue was given. -/
  malloc : ℕ → Option ℕ
  /-- Its id. -/
  id : ℕ
  /-- The queue as it was created. -/
  created : MsgQ
  /-- It was created for `maxMsgCount` messages of `msgSize` bytes. -/
  create_eq : skQueueCreateEx w sizeofMsgQ malloc false maxMsgCount msgSize =
    (.success, some (id, created))
  /-- An address is a valid id. -/
  valid : IsValidId w id
  /-- The calls. -/
  calls : List QueueCall
  /-- Their results. -/
  results : List QueueResult
  /-- The queue afterwards. -/
  mq : MsgQ
  /-- The calls have led to it. -/
  run_eq : StepMachine.run (QueueCall.exec w id) created calls = some (results, mq)

namespace QueueHistory

variable {w sizeofMsgQ maxMsgCount msgSize : ℕ}

/-- What the history amounts to. -/
def log (H : QueueHistory w sizeofMsgQ maxMsgCount msgSize) : QueueLog := queueLog w H.calls H.results

/-- A receive of `r` bytes after the history. -/
def receive (H : QueueHistory w sizeofMsgQ maxMsgCount msgSize) (dst : ℕ → UInt8) (r : ℕ) :
    Option (QueueResult × MsgQ) :=
  QueueCall.exec w H.id H.mq (.receiveEx (some dst) r)

/-- **After every history a queue is what the log makes of it.** -/
theorem tracks (H : QueueHistory w sizeofMsgQ maxMsgCount msgSize) (hcap : 1 ≤ maxMsgCount)
    (htwice : 2 * (maxMsgCount + 1) ≤ 2 ^ w)
    (hsize : sizeofMsgQ + (maxMsgCount + 1) * msgSize < 2 ^ w) :
    H.mq.Tracks w maxMsgCount H.log ∧ H.mq.mqMsgsize = msgSize := by
  obtain ⟨hholds, hsz⟩ := holds_skQueueCreateEx hcap htwice hsize H.create_eq
  obtain ⟨hread, hwrite, hmem⟩ := skQueueCreateEx_created H.create_eq
  refine StepMachine.run_induction_ghost (QueueCall.exec w H.id) (fun _ _ => True)
    (QueueLog.record w) (fun log mq => mq.Tracks w maxMsgCount log ∧ mq.mqMsgsize = msgSize) ?_
    ⟨MsgQ.Tracks.init hholds rfl hread hwrite hmem, hsz⟩
    (StepMachine.along_of_forall _ (fun _ _ => trivial) _ _) H.run_eq
  rintro log mq c r mq' ⟨h, hmqsz⟩ - hexec
  obtain ⟨h', hsame⟩ := QueueCall.exec_tracks h H.valid c hexec
  exact ⟨h', hsame.trans hmqsz⟩

end QueueHistory

/-- **What a receive delivers depends on its message alone exactly when** it asks for no more bytes than
the message has, or no earlier message in its slot was longer. Take two histories of immediate calls on
queues created alike, with sizes that do not wrap, that have left the same oldest message, and a receive
of the same size after each: it succeeds, and delivers the bytes `QueueLog.slotByte` tells. They are the
same in both and none of them is of an earlier message if and only if the condition holds. -/
theorem receive_own_bytes_iff {w sizeofMsgQ maxMsgCount msgSize : ℕ} (hcap : 1 ≤ maxMsgCount)
    (htwice : 2 * (maxMsgCount + 1) ≤ 2 ^ w)
    (hsize : sizeofMsgQ + (maxMsgCount + 1) * msgSize < 2 ^ w)
    (H H' : QueueHistory w sizeofMsgQ maxMsgCount msgSize) {m : List UInt8}
    (hm : H.log.oldest = some m) (hm' : H'.log.oldest = some m) (dst dst' : ℕ → UInt8) {r : ℕ}
    (hr : r ≤ msgSize) :
    ∃ out out' mq mq', H.receive dst r = some (⟨.success, some out⟩, mq) ∧
      H'.receive dst' r = some (⟨.success, some out'⟩, mq') ∧
      (∀ b < r, some (out b) = H.log.slotByte (maxMsgCount + 1) m b ∧
        some (out' b) = H'.log.slotByte (maxMsgCount + 1) m b) ∧
      ((∀ b < r, out b = out' b) ∧ ¬ H.log.HasOld (maxMsgCount + 1) m r ∧
          ¬ H'.log.HasOld (maxMsgCount + 1) m r ↔
        r ≤ m.length ∨ (∀ old ∈ H.log.earlier (maxMsgCount + 1), old.length ≤ m.length) ∧
          ∀ old ∈ H'.log.earlier (maxMsgCount + 1), old.length ≤ m.length) := by
  obtain ⟨h, hsz⟩ := H.tracks hcap htwice hsize
  obtain ⟨h', hsz'⟩ := H'.tracks hcap htwice hsize
  obtain ⟨l, hl, -⟩ := h.holds
  obtain ⟨l', hl', -⟩ := h'.holds
  have hbytes : ∀ b < r, _ := fun b hb => h.delivered hm dst (by omega) hb
  have hbytes' : ∀ b < r, _ := fun b hb => h'.delivered hm' dst' (by omega) hb
  rw [hl.mqMaxmsg_eq] at hbytes
  rw [hl'.mqMaxmsg_eq] at hbytes'
  refine ⟨_, _, _, _, receiveEx_oldest h H.valid hm dst (by omega),
    receiveEx_oldest h' H'.valid hm' dst' (by omega), fun b hb => ⟨hbytes b hb, hbytes' b hb⟩, ?_⟩
  rw [QueueLog.hasOld_iff, QueueLog.hasOld_iff]
  constructor
  · rintro ⟨-, hnone, hnone'⟩
    by_cases hshort : r ≤ m.length
    · exact .inl hshort
    · refine .inr ⟨fun old hold => ?_, fun old hold => ?_⟩
      · exact Nat.le_of_not_lt fun hlong => hnone ⟨by omega, old, hold, hlong⟩
      · exact Nat.le_of_not_lt fun hlong => hnone' ⟨by omega, old, hold, hlong⟩
  · intro hcond
    have hno : ∀ log : QueueLog, (r ≤ m.length ∨
        ∀ old ∈ log.earlier (maxMsgCount + 1), old.length ≤ m.length) →
        ¬ (m.length < r ∧ ∃ old ∈ log.earlier (maxMsgCount + 1), m.length < old.length) := by
      rintro log (hshort | hall) ⟨hlt, old, hold, hlong⟩
      · omega
      · have := hall old hold
        omega
    have hnone := hno H.log (hcond.imp_right And.left)
    have hnone' := hno H'.log (hcond.imp_right And.right)
    refine ⟨fun b hb => ?_, hnone, hnone'⟩
    apply Option.some.inj
    rw [hbytes b hb, hbytes' b hb, QueueLog.slotByte_of_not_hasOld (QueueLog.hasOld_iff.not.mpr hnone) hb,
      QueueLog.slotByte_of_not_hasOld (QueueLog.hasOld_iff.not.mpr hnone') hb]

/-- Two histories that have left the message `[1, 2]`, with another message before it in one of them: a
receive of two bytes. -/
theorem receive_own_bytes_iff_whole :
    ∃ H H' : QueueHistory 32 200 1 2, H.calls ≠ [] ∧ H.calls.length < H'.calls.length ∧
      ∃ out out' mq mq', H.receive (fun _ => 0) 2 = some (⟨.success, some out⟩, mq) ∧
        H'.receive (fun _ => 0) 2 = some (⟨.success, some out'⟩, mq') ∧ ∀ b < 2, out b = out' b := by
  let src : ℕ → UInt8 := fun k => if k = 0 then 1 else 2
  let H : QueueHistory 32 200 1 2 :=
    ⟨fun _ => some 64, 64, _, rfl, by decide, [.sendEx (some src) 2], _, _, rfl⟩
  let H' : QueueHistory 32 200 1 2 :=
    ⟨fun _ => some 64, 64, _, rfl, by decide, [.sendEx (some fun _ => 5) 1,
      .receiveEx (some fun _ => 0) 1, .sendEx (some src) 2], _, _, rfl⟩
  obtain ⟨out, out', mq, mq', hout, hout', -, hiff⟩ :=
    receive_own_bytes_iff (by decide) (by decide) (by decide) H H' (m := [1, 2]) rfl rfl
      (fun _ => 0) (fun _ => 0) (Nat.le_refl 2)
  exact ⟨H, H', List.cons_ne_nil _ _, by decide, out, out', mq, mq', hout, hout',
    (hiff.mpr (.inl (Nat.le_refl 2))).1⟩

/-- **Bytes of a message already received are delivered again.** On a queue of one message of two bytes a
message of two bytes is sent and received, then one of one byte, and then the message `[3]` is sent. A
receive of two bytes delivers the second byte of the first message with it. -/
theorem receive_leftover_bytes :
    ∃ H H' : QueueHistory 32 200 1 2, H.log = ⟨[[1, 7], [2], [3]], 2⟩ ∧
      H'.log = ⟨[[1, 8], [2], [3]], 2⟩ ∧ H.log.oldest = some [3] ∧ H'.log.oldest = some [3] ∧
      ∃ out out' mq mq', H.receive (fun _ => 0) 2 = some (⟨.success, some out⟩, mq) ∧
        H'.receive (fun _ => 0) 2 = some (⟨.success, some out'⟩, mq') ∧
        out 0 = 3 ∧ out 1 = 7 ∧ out' 0 = 3 ∧ out' 1 = 8 := by
  let calls : UInt8 → List QueueCall := fun x =>
    [.sendEx (some fun k => if k = 0 then 1 else x) 2, .receiveEx (some fun _ => 0) 2,
      .sendEx (some fun _ => 2) 1, .receiveEx (some fun _ => 0) 1, .sendEx (some fun _ => 3) 1]
  exact ⟨⟨fun _ => some 64, 64, _, rfl, by decide, calls 7, _, _, rfl⟩,
    ⟨fun _ => some 64, 64, _, rfl, by decide, calls 8, _, _, rfl⟩, by decide, by decide, by decide,
    by decide, _, _, _, _, rfl, rfl, by decide, by decide, by decide, by decide⟩

end SmIpc.Os
