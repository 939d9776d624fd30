import SmIpc.Os.QueueDestroy
import SmIpc.Lib.CircularBuffer
import Mathlib.Tactic.Linarith

/-! # The sizes of a created queue

`sk_queue_create_ex` takes a number of messages and a message size, checks neither, and computes from
them, in `U32`, the modulus of the ring and the size of the block it asks `malloc` for.

* `queueBlockSize` is the size of that block; `skQueueCreateEx_success` says what a successful call has
  asked for and written.
* `MsgQ.SizesSound` is what `sk_queue_send_ex` and `sk_queue_receive_ex` rely on: a modulus of at least 2,
  a sum of the full test that does not wrap, and a block that reaches to the end of the last slot.
* `sizesSound_iff` gives the sizes for which it holds, and `MsgQ.SizesSound.staysIn_foldl` says that then
  no sequence of sends and receives writes past the block. -/

namespace SmIpc.Os

open CircularBuffer (next next_lt)

/-! ## What is allocated -/

/-- The number of bytes `sk_queue_create_ex` asks `sk_mem_malloc` for, computed in `U32`. -/
def queueBlockSize (w sizeofMsgQ maxMsgCount msgSize : ℕ) : ℕ :=
  u32 w (sizeofMsgQ + u32 w (u32 w (maxMsgCount + 1) * msgSize))

/-- **A successful creation** has been given a block of `queueBlockSize` bytes, and has written an empty
queue to it. -/
theorem skQueueCreateEx_success {w sizeofMsgQ maxMsgCount msgSize id : ℕ} {malloc : ℕ → Option ℕ}
    {isNull : Bool} {mq : MsgQ}
    (h : skQueueCreateEx w sizeofMsgQ malloc isNull maxMsgCount msgSize =
      (.success, some (id, mq))) :
    malloc (queueBlockSize w sizeofMsgQ maxMsgCount msgSize) = some id ∧
      mq.mqMaxmsg = u32 w (maxMsgCount + 1) ∧ mq.mqMsgsize = msgSize ∧
      mq.read = 0 ∧ mq.write = 0 := by
  unfold skQueueCreateEx at h
  dsimp only at h
  split at h
  · cases h
  · split at h
    · cases h
    · rename_i addr hmalloc
      obtain ⟨-, h⟩ := Prod.mk.inj h
      obtain ⟨rfl, rfl⟩ := Prod.mk.inj (Option.some.inj h)
      refine ⟨?_, rfl, rfl, rfl, rfl⟩
      unfold skMemMalloc at hmalloc
      split at hmalloc
      · cases hmalloc
      · exact hmalloc

/-! ## What the queue's functions rely on -/

/-- The sizes of a queue in a block of `blockSize` bytes are the ones send and receive rely on. -/
structure MsgQ.SizesSound (w sizeofMsgQ blockSize : ℕ) (mq : MsgQ) : Prop where
  /-- The modulus is neither 0, nor 1, where a queue of one message looks empty. -/
  two_le : 2 ≤ mq.mqMaxmsg
  /-- The sum in the full test does not wrap, wherever the cursors are. -/
  sum_eq : ∀ read write, read < mq.mqMaxmsg → write < mq.mqMaxmsg →
    (u32 w (read + mq.mqMaxmsg - write) : ℤ) = read + mq.mqMaxmsg - write
  /-- The block holds the header and all the slots. -/
  block_le : sizeofMsgQ + mq.mqMaxmsg * mq.mqMsgsize ≤ blockSize
  /-- A copy to or from a slot, at the offset send and receive compute, stays in the block. -/
  slot_le : ∀ slot size, slot < mq.mqMaxmsg → size ≤ mq.mqMsgsize →
    sizeofMsgQ + u32 w (slot * mq.mqMsgsize) + size ≤ blockSize

/-- The copies of a slot stay in a block that holds all the slots: an offset that wraps is smaller. -/
theorem slot_le_of_block_le {w sizeofMsgQ blockSize maxmsg msgsize slot size : ℕ}
    (h : sizeofMsgQ + maxmsg * msgsize ≤ blockSize) (hslot : slot < maxmsg)
    (hsize : size ≤ msgsize) :
    sizeofMsgQ + u32 w (slot * msgsize) + size ≤ blockSize := by
  have hoff : u32 w (slot * msgsize) ≤ slot * msgsize := by
    exact_mod_cast u32_le w (x := slot * msgsize) (by positivity)
  have hnext : slot * msgsize + msgsize ≤ maxmsg * msgsize := by
    calc slot * msgsize + msgsize = (slot + 1) * msgsize := (Nat.succ_mul slot msgsize).symm
      _ ≤ maxmsg * msgsize := Nat.mul_le_mul_right _ hslot
  omega

/-- The sum of the full test wraps for some cursors exactly when twice the modulus does. -/
theorem sum_eq_iff {w maxmsg : ℕ} (hpos : 0 < maxmsg) :
    (∀ read write, read < maxmsg → write < maxmsg →
      (u32 w (read + maxmsg - write) : ℤ) = read + maxmsg - write) ↔ 2 * maxmsg ≤ 2 ^ w := by
  constructor
  · intro h
    -- the largest sum is the one of the last slot read and the first slot written
    have hlast := h (maxmsg - 1) 0 (by omega) hpos
    have hlt := u32_lt w ((maxmsg - 1 : ℕ) + maxmsg - (0 : ℕ))
    omega
  · intro h read write hread hwrite
    rw [u32_of_lt (n := read + maxmsg - write) (by omega) (by omega)]
    omega

/-! ## The sizes for which it holds -/

/-- **The sizes of a created queue are sound exactly when** it is to hold at least one message, twice
its number of slots fits a `U32`, and so does the size of its block. -/
theorem sizesSound_iff {w sizeofMsgQ maxMsgCount msgSize id : ℕ} {malloc : ℕ → Option ℕ}
    {isNull : Bool} {mq : MsgQ} (hcount : maxMsgCount < 2 ^ w)
    (h : skQueueCreateEx w sizeofMsgQ malloc isNull maxMsgCount msgSize =
      (.success, some (id, mq))) :
    mq.SizesSound w sizeofMsgQ (queueBlockSize w sizeofMsgQ maxMsgCount msgSize) ↔
      1 ≤ maxMsgCount ∧ 2 * (maxMsgCount + 1) ≤ 2 ^ w ∧
        sizeofMsgQ + (maxMsgCount + 1) * msgSize < 2 ^ w := by
  obtain ⟨-, hmax, rfl, -, -⟩ := skQueueCreateEx_success h
  constructor
  · rintro ⟨htwo, hsum, hblock, -⟩
    have hdouble := (sum_eq_iff (by omega)).mp hsum
    -- the number of slots is not 0, so it has not wrapped
    have hslots : u32 w (maxMsgCount + 1) = maxMsgCount + 1 := by
      refine u32_of_lt (by push_cast; rfl) (lt_of_le_of_ne hcount ?_)
      intro heq
      have hzero : u32 w (maxMsgCount + 1) = 0 := by
        have hcast : ((maxMsgCount : ℤ) + 1) = 2 ^ w := by exact_mod_cast heq
        rw [u32, hcast, Int.emod_self, Int.toNat_zero]
      omega
    rw [hmax, hslots] at htwo hdouble hblock
    refine ⟨by omega, hdouble, lt_of_le_of_lt hblock ?_⟩
    exact u32_lt w _
  · rintro ⟨hone, hdouble, hlt⟩
    have hslots : u32 w (maxMsgCount + 1) = maxMsgCount + 1 :=
      u32_of_lt (by push_cast; rfl) (by omega)
    have hprod : u32 w (((maxMsgCount + 1 : ℕ) : ℤ) * mq.mqMsgsize) =
        (maxMsgCount + 1) * mq.mqMsgsize := u32_of_lt (by push_cast; rfl) (by omega)
    have hblock : queueBlockSize w sizeofMsgQ maxMsgCount mq.mqMsgsize =
        sizeofMsgQ + (maxMsgCount + 1) * mq.mqMsgsize := by
      rw [queueBlockSize, hslots, hprod]
      exact u32_of_lt (by push_cast; rfl) hlt
    rw [← hslots, ← hmax] at hdouble hblock
    exact
      { two_le := by omega
        sum_eq := (sum_eq_iff (by omega)).mpr hdouble
        block_le := hblock.ge
        slot_le := fun slot size => slot_le_of_block_le hblock.ge }

/-- A queue for 3 messages of 8 bytes, at address 4096, with 64-bit integers and a header of 168
bytes. -/
theorem sizesSound_iff_three_messages :
    ∃ mq, skQueueCreateEx 64 168 (fun _ => some 4096) false 3 8 = (.success, some (4096, mq)) ∧
      mq.SizesSound 64 168 (queueBlockSize 64 168 3 8) := by
  have hcreate : ∃ mq, skQueueCreateEx 64 168 (fun _ => some 4096) false 3 8 =
      (.success, some (4096, mq)) := ⟨_, rfl⟩
  obtain ⟨mq, h⟩ := hcreate
  exact ⟨mq, h, (sizesSound_iff (by norm_num) h).mpr (by norm_num)⟩

/-- **Sizes that are not sound, all accepted**: a queue for no message, whose modulus is 1; a queue for
the largest number of messages, whose modulus is 0; and 65536 slots of 65536 bytes in a block with
room for none, with 32-bit integers. -/
theorem create_accepts_unsound_sizes :
    (∃ mq, skQueueCreateEx 32 100 (fun _ => some 4096) false 0 8 = (.success, some (4096, mq)) ∧
      mq.mqMaxmsg = 1 ∧ ¬ mq.SizesSound 32 100 (queueBlockSize 32 100 0 8)) ∧
    (∃ mq, skQueueCreateEx 32 100 (fun _ => some 4096) false 0xffffffff 8 =
        (.success, some (4096, mq)) ∧
      mq.mqMaxmsg = 0 ∧ ¬ mq.SizesSound 32 100 (queueBlockSize 32 100 0xffffffff 8)) ∧
    ∃ mq, skQueueCreateEx 32 100 (fun _ => some 4096) false 0xffff 0x10000 =
        (.success, some (4096, mq)) ∧
      queueBlockSize 32 100 0xffff 0x10000 = 100 ∧
      ¬ mq.SizesSound 32 100 (queueBlockSize 32 100 0xffff 0x10000) := by
  refine ⟨⟨_, rfl, by decide, ?_⟩, ⟨_, rfl, by decide, ?_⟩, _, rfl, by decide, ?_⟩
  · exact fun h => absurd h.two_le (by decide)
  · exact fun h => absurd h.two_le (by decide)
  · exact fun h => absurd h.block_le (by decide)

/-! ## No section leaves the block -/

/-- Both cursors are slots of the ring. -/
structure MsgQ.InRing (mq : MsgQ) : Prop where
  /-- The read cursor is a slot. -/
  read_lt : mq.read < mq.mqMaxmsg
  /-- The write cursor is a slot. -/
  write_lt : mq.write < mq.mqMaxmsg

/-- A section of a send or a receive under the mutex, with the call it belongs to. -/
inductive QueueSection where
  /-- From `refcnt++` to the end of the call or its condition wait. -/
  | call (c : LifeCall)
  /-- From the return of the condition wait to the end of the call. -/
  | resume (c : LifeCall) (timedOut : Bool)

namespace QueueSection

/-- The number of bytes the section's call copies. -/
def msgSize : QueueSection → ℕ
  | call (.send _ n _) | call (.receive _ n _) => n
  | resume (.send _ n _) _ | resume (.receive _ n _) _ => n

/-- The queue after the section. -/
def exec (w : ℕ) (mq : MsgQ) : QueueSection → MsgQ
  | call c => (c.run w (acquire w mq)).2
  | resume c timedOut => (c.resume w mq timedOut).2

end QueueSection

/-- What a section does to the ring, in a block of `blockSize` bytes: the sizes stay, the cursors stay
slots, and no byte past the block is written. -/
structure MsgQ.StaysIn (sizeofMsgQ blockSize : ℕ) (mq mq' : MsgQ) : Prop where
  /-- The modulus stays. -/
  maxmsg_eq : mq'.mqMaxmsg = mq.mqMaxmsg
  /-- The size of a slot stays. -/
  msgsize_eq : mq'.mqMsgsize = mq.mqMsgsize
  /-- The cursors are slots. -/
  inRing : mq'.InRing
  /-- The memory past the block is untouched. -/
  past_eq : ∀ k, blockSize ≤ sizeofMsgQ + k → mq'.msgbuffer k = mq.msgbuffer k

section

variable {w sizeofMsgQ blockSize : ℕ} {mq mq' mq'' : MsgQ}

/-- A section that moves neither cursor and copies nothing stays in. -/
theorem MsgQ.InRing.staysIn_withRefcnt (h : mq.InRing) (n : ℕ) :
    MsgQ.StaysIn sizeofMsgQ blockSize mq { mq with refcnt := n } :=
  ⟨rfl, rfl, ⟨h.read_lt, h.write_lt⟩, fun _ _ => rfl⟩

/-- Two sections in a row. -/
theorem MsgQ.StaysIn.trans (h₁ : MsgQ.StaysIn sizeofMsgQ blockSize mq mq')
    (h₂ : MsgQ.StaysIn sizeofMsgQ blockSize mq' mq'') :
    MsgQ.StaysIn sizeofMsgQ blockSize mq mq'' where
  maxmsg_eq := h₂.maxmsg_eq.trans h₁.maxmsg_eq
  msgsize_eq := h₂.msgsize_eq.trans h₁.msgsize_eq
  inRing := h₂.inRing
  past_eq := fun k hk => (h₂.past_eq k hk).trans (h₁.past_eq k hk)

/-- The sizes of the queue after a section are as sound as before. -/
theorem MsgQ.SizesSound.of_staysIn (h : mq.SizesSound w sizeofMsgQ blockSize)
    (hs : MsgQ.StaysIn sizeofMsgQ blockSize mq mq') : mq'.SizesSound w sizeofMsgQ blockSize := by
  obtain ⟨hmax, hsize, -, -⟩ := hs
  constructor
  · exact hmax ▸ h.two_le
  · exact hmax ▸ h.sum_eq
  · exact hmax ▸ hsize ▸ h.block_le
  · exact hmax ▸ hsize ▸ h.slot_le

/-- A cursor that is advanced is a slot again. -/
theorem MsgQ.SizesSound.cursor_lt (h : mq.SizesSound w sizeofMsgQ blockSize) {slot : ℕ}
    (hslot : slot < mq.mqMaxmsg) :
    (if u32 w (slot + 1) = mq.mqMaxmsg then 0 else u32 w (slot + 1)) < mq.mqMaxmsg := by
  have htwo := h.two_le
  have hdouble := (sum_eq_iff (by omega)).mp h.sum_eq
  rw [u32_of_lt (n := slot + 1) (by push_cast; rfl) (by omega)]
  exact next_lt hslot

/-- Storing a message stays in the block. -/
theorem MsgQ.SizesSound.staysIn_sendStore (h : mq.SizesSound w sizeofMsgQ blockSize)
    (hr : mq.InRing) (msg : ℕ → UInt8) {n : ℕ} (hn : n ≤ mq.mqMsgsize) :
    MsgQ.StaysIn sizeofMsgQ blockSize mq (sendStore w mq msg n).2 where
  maxmsg_eq := rfl
  msgsize_eq := rfl
  inRing := ⟨hr.read_lt, h.cursor_lt hr.write_lt⟩
  past_eq := by
    intro k hk
    have hslot := h.slot_le mq.write n hr.write_lt hn
    show memcpy mq.msgbuffer (u32 w (mq.write * mq.mqMsgsize)) msg n k = mq.msgbuffer k
    rw [memcpy, if_neg (by omega)]

/-- Taking a message stays in the block. -/
theorem MsgQ.SizesSound.staysIn_receiveTake (h : mq.SizesSound w sizeofMsgQ blockSize)
    (hr : mq.InRing) (msg : ℕ → UInt8) (n : ℕ) :
    MsgQ.StaysIn sizeofMsgQ blockSize mq (receiveTake w mq msg n).2 where
  maxmsg_eq := rfl
  msgsize_eq := rfl
  inRing := ⟨h.cursor_lt hr.read_lt, hr.write_lt⟩
  past_eq := fun _ _ => rfl

/-- The section after a wait stays in the block. -/
theorem MsgQ.SizesSound.staysIn_resume (h : mq.SizesSound w sizeofMsgQ blockSize) (hr : mq.InRing)
    (c : LifeCall) (timedOut : Bool) (hn : (QueueSection.resume c timedOut).msgSize ≤ mq.mqMsgsize) :
    MsgQ.StaysIn sizeofMsgQ blockSize mq (c.resume w mq timedOut).2 := by
  cases c with
  | send msg n timeoutMs =>
    simp only [LifeCall.resume, sendResume]
    split
    · exact hr.staysIn_withRefcnt _
    · exact h.staysIn_sendStore hr _ hn
  | receive msg n timeoutMs =>
    simp only [LifeCall.resume, receiveResume]
    split
    · exact hr.staysIn_withRefcnt _
    · exact h.staysIn_receiveTake hr (msg.getD fun _ => 0) n

/-- The section up to the wait stays in the block. -/
theorem MsgQ.SizesSound.staysIn_run (h : mq.SizesSound w sizeofMsgQ blockSize) (hr : mq.InRing)
    (c : LifeCall) (hn : (QueueSection.call c).msgSize ≤ mq.mqMsgsize) :
    MsgQ.StaysIn sizeofMsgQ blockSize mq (c.run w mq).2 := by
  cases c with
  | send msg n timeoutMs =>
    simp only [LifeCall.run, sendLocked]
    split_ifs
    · exact hr.staysIn_withRefcnt _
    · exact h.staysIn_resume hr (.send msg n timeoutMs) true hn
    · exact hr.staysIn_withRefcnt _
    · exact h.staysIn_sendStore hr _ hn
  | receive msg n timeoutMs =>
    simp only [LifeCall.run, receiveLocked]
    split_ifs
    · exact hr.staysIn_withRefcnt _
    · exact h.staysIn_resume hr (.receive msg n timeoutMs) true hn
    · exact hr.staysIn_withRefcnt _
    · exact h.staysIn_receiveTake hr (msg.getD fun _ => 0) n

/-- **A section stays in the block.** -/
theorem MsgQ.SizesSound.staysIn_exec (h : mq.SizesSound w sizeofMsgQ blockSize) (hr : mq.InRing)
    (s : QueueSection) (hn : s.msgSize ≤ mq.mqMsgsize) :
    MsgQ.StaysIn sizeofMsgQ blockSize mq (s.exec w mq) := by
  cases s with
  | call c =>
    have hacq : MsgQ.StaysIn sizeofMsgQ blockSize mq (acquire w mq) := hr.staysIn_withRefcnt _
    exact hacq.trans ((h.of_staysIn hacq).staysIn_run hacq.inRing c hn)
  | resume c timedOut => exact h.staysIn_resume hr c timedOut hn

/-- **No sequence of sections leaves the block**: where the sizes of the queue are sound, sends and
receives of messages no longer than a slot, in any order and by any threads, write no byte past the
block and keep the cursors in the ring. -/
theorem MsgQ.SizesSound.staysIn_foldl (h : mq.SizesSound w sizeofMsgQ blockSize) (hr : mq.InRing)
    (sections : List QueueSection) (hn : ∀ s ∈ sections, s.msgSize ≤ mq.mqMsgsize) :
    MsgQ.StaysIn sizeofMsgQ blockSize mq (sections.foldl (QueueSection.exec w) mq) := by
  induction sections generalizing mq with
  | nil => exact hr.staysIn_withRefcnt mq.refcnt
  | cons s sections ih =>
    have hs := h.staysIn_exec hr s (hn s List.mem_cons_self)
    refine hs.trans (ih (h.of_staysIn hs) hs.inRing ?_)
    intro s' hs'
    rw [hs.msgsize_eq]
    exact hn s' (List.mem_cons_of_mem s hs')

end

end SmIpc.Os
