import SmIpc.Lib.CircularBuffer
import Mathlib.Data.Int.Notation
import Mathlib.Tactic.SplitIfs

/-! # The message ring of `smmsg.c`

The data of `smmsg.h` and the functions of `smmsg.c`, each section between locking and unlocking
`message_queue.access` being one function. The ring is the C array: the memory behind the `queue`
pointer is a function of the (signed) index, so that what lies outside the array is not hidden, and
what `init_msgq` leaves uninitialised is arbitrary. `sem_event`, which `push_message` posts and
`pop_message` waits for, is carried along as its count.

* `s16` cursors are integers with `toS16` at every store, `queue_size` one with `toS32`; `u32` fields are `UInt32`.
* `Msgq.Valid` is the representation invariant and `Msgq.contents` the list of queued messages. -/

namespace SmIpc.Sm

/-- `HSM`: a window handle, a `u32`. -/
abbrev Hsm := UInt32

/-- `SK_INVALID_HSM`. -/
def skInvalidHsm : Hsm := 0

/-- `SMM_INVALIDMSG`. -/
def smmInvalidmsg : UInt32 := 0

/-- `SMM_CREATE`. -/
def smmCreate : UInt32 := 1

/-- `SMM_CLOSE`. -/
def smmClose : UInt32 := 2

/-- `SMM_TICK`. -/
def smmTick : UInt32 := 0x20000002

/-- `MESSAGE`. -/
structure Message where
  /-- The window the message is for. -/
  hsm : Hsm
  /-- The message number. -/
  message : UInt32
  /-- The first parameter. -/
  param1 : UInt32
  /-- The second parameter. -/
  param2 : UInt32
  deriving DecidableEq, Repr

/-- A store into an `s16`: the value modulo `2^16`, in `[-2^15, 2^15)`. -/
def toS16 (x : ℤ) : ℤ := (x + 32768) % 65536 - 32768

theorem toS16_of_lt {x : ℤ} (h₀ : -32768 ≤ x) (h₁ : x < 32768) : toS16 x = x := by
  unfold toS16; omega

/-- A store into an `s32`: the value modulo `2^32`, in `[-2^31, 2^31)`. -/
def toS32 (x : ℤ) : ℤ := (x + 2147483648) % 4294967296 - 2147483648

theorem toS32_of_lt {x : ℤ} (h₀ : -2147483648 ≤ x) (h₁ : x < 2147483648) : toS32 x = x := by
  unfold toS32; omega

/-- `message_queue` together with `queue_size` and the count of `sem_event`. -/
structure Msgq where
  /-- The read cursor, an `s16`. -/
  head : ℤ
  /-- The write cursor, an `s16`. -/
  tail : ℤ
  /-- `queue_size`, an `s32`. -/
  queueSize : ℤ
  /-- The memory behind the `queue` pointer, by index. -/
  queue : ℤ → Message
  /-- The value of `sem_event`. -/
  semEvent : ℕ

/-- `init_msgq` with the memory `malloc` returns, after `init_global` has created `sem_event` with
count 0. -/
def initMsgq (nqueue : ℤ) (mem : ℤ → Message) : Msgq where
  head := 0
  tail := 0
  queueSize := toS32 (nqueue + 1)
  queue := mem
  semEvent := 0

/-- A cursor after `cursor++; if(cursor == queue_size) cursor = 0;`. -/
def advanceCursor (queueSize cursor : ℤ) : ℤ :=
  let cursor := toS16 (cursor + 1)
  if cursor = queueSize then 0 else cursor

/-- `push_message`: refuses the null handle before it takes the lock; the full test is on the signed
difference of the cursors; `signal_event` comes before the cursor moves. -/
def pushMessage (q : Msgq) (hsm : Hsm) (message param1 param2 : UInt32) : ℤ × Msgq :=
  if hsm = skInvalidHsm then (0, q)
  else
    let diff := q.head - q.tail
    if diff ≠ 1 ∧ diff ≠ -(q.queueSize - 1) then
      (1, { q with
        queue := Function.update q.queue q.tail ⟨hsm, message, param1, param2⟩
        semEvent := q.semEvent + 1
        tail := advanceCursor q.queueSize q.tail })
    else (0, q)

/-- `wait_event`: blocks (`none`) while `sem_event` is 0. -/
def waitEvent (q : Msgq) : Option Msgq :=
  if q.semEvent = 0 then none else some { q with semEvent := q.semEvent - 1 }

/-- The section of `pop_message` under `access`, after `wait_event` has returned: the return value,
and the message written through the four pointers if one was. -/
def popSection (q : Msgq) : (ℤ × Option Message) × Msgq :=
  if q.head ≠ q.tail then
    ((1, some (q.queue q.head)), { q with head := advanceCursor q.queueSize q.head })
  -- an empty ring: the token is given back with `signal_event`
  else ((0, none), { q with semEvent := q.semEvent + 1 })

/-- `pop_message`: `none` when the call blocks in `wait_event`. -/
def popMessage (q : Msgq) : Option ((ℤ × Option Message) × Msgq) :=
  (waitEvent q).map popSection

/-- The search loop of `is_message` and `is_message_param`, from index `i`, with the fuel given
(`none` when it runs out). -/
def searchLoop (hit : Message → Bool) (q : Msgq) : ℕ → ℤ → Option ℤ
  | 0, _ => none
  | fuel + 1, i =>
      if i = q.tail then some 0
      else if hit (q.queue i) then some 1
      else searchLoop hit q fuel (if i + 1 = q.queueSize then 0 else i + 1)

/-- `is_message`: the null handle is refused before the lock is taken. -/
def isMessage (q : Msgq) (hsm : Hsm) : Option ℤ :=
  if hsm = skInvalidHsm then some 0
  else searchLoop (fun m => m.hsm = hsm) q q.queueSize.toNat q.head

/-- `is_message_param`. -/
def isMessageParam (q : Msgq) (hsm : Hsm) (message param1 param2 : UInt32) : Option ℤ :=
  searchLoop (fun m => m = ⟨hsm, message, param1, param2⟩) q q.queueSize.toNat q.head

/-- `get_nmessage`. -/
def getNmessage (q : Msgq) : ℤ :=
  if q.head = q.tail then 0
  else if q.head < q.tail then q.tail - q.head
  else (q.queueSize - q.head) + q.tail

/-- The loop `for(i = 0; i < queue_size; i++)` of the three erasers, with `n` slots to go from slot
`i`: every slot that `hit` picks is replaced through `blank`. -/
def sweepLoop (hit : Message → Bool) (blank : Message → Message) :
    ℕ → ℤ → (ℤ → Message) → ℤ → Message
  | 0, _, mem => mem
  | n + 1, i, mem =>
      sweepLoop hit blank n (i + 1)
        (if hit (mem i) then Function.update mem i (blank (mem i)) else mem)

/-- The three erasers sweep the whole physical array, live slots and dead ones. -/
def sweep (hit : Message → Bool) (blank : Message → Message) (q : Msgq) : Msgq :=
  { q with queue := sweepLoop hit blank q.queueSize.toNat 0 q.queue }

/-- What `erase_message` and `erase_message_type` leave in a slot. -/
def blankAll (_ : Message) : Message := ⟨0, smmInvalidmsg, 0, 0⟩

/-- What `invalidate_message` leaves in a slot: the handle stays. -/
def blankKeepHsm (m : Message) : Message := ⟨m.hsm, smmInvalidmsg, 0, 0⟩

/-- `invalidate_message`. -/
def invalidateMessage (q : Msgq) (message : UInt32) : Msgq :=
  sweep (fun m => m.message = message) blankKeepHsm q

/-- `erase_message`. -/
def eraseMessage (q : Msgq) (hsm : Hsm) : Msgq :=
  sweep (fun m => m.hsm = hsm) blankAll q

/-- `erase_message_type`. -/
def eraseMessageType (q : Msgq) (hsm : Hsm) (message : UInt32) : Msgq :=
  sweep (fun m => m.hsm = hsm && m.message = message) blankAll q

/-! ## The queued messages -/

namespace Msgq

/-- The number of slots. -/
def size (q : Msgq) : ℕ := q.queueSize.toNat

/-- The messages between the cursors, oldest first. -/
def contents (q : Msgq) : List Message :=
  CircularBuffer.view (fun i => q.queue i) q.size q.head.toNat
    (CircularBuffer.count q.size q.head.toNat q.tail.toNat)

/-- The representation invariant: the array has a slot and its indices fit the `s16` cursors, which
are inside it. -/
structure Valid (q : Msgq) : Prop where
  /-- There is at least the spare slot. -/
  size_pos : 1 ≤ q.queueSize
  /-- Every index, and the index one past the end, fits an `s16`. -/
  size_le : q.queueSize ≤ 32767
  /-- The read cursor is not negative. -/
  head_nonneg : 0 ≤ q.head
  /-- The read cursor is inside the array. -/
  head_lt : q.head < q.queueSize
  /-- The write cursor is not negative. -/
  tail_nonneg : 0 ≤ q.tail
  /-- The write cursor is inside the array. -/
  tail_lt : q.tail < q.queueSize

variable {q : Msgq}

theorem Valid.head_toNat_lt (h : q.Valid) : q.head.toNat < q.size := by
  have := h.head_nonneg; have := h.head_lt; unfold size; omega

theorem Valid.tail_toNat_lt (h : q.Valid) : q.tail.toNat < q.size := by
  have := h.tail_nonneg; have := h.tail_lt; unfold size; omega

/-- A new ring has one slot more than it is to hold. -/
theorem queueSize_initMsgq {nqueue : ℤ} (h₀ : 0 ≤ nqueue) (h₁ : nqueue < 2147483647)
    (mem : ℤ → Message) : (initMsgq nqueue mem).queueSize = nqueue + 1 :=
  toS32_of_lt (by omega) (by omega)

theorem Valid.initMsgq {nqueue : ℤ} (h₀ : 0 ≤ nqueue) (h₁ : nqueue ≤ 32766)
    (mem : ℤ → Message) : (initMsgq nqueue mem).Valid := by
  have hsize := queueSize_initMsgq h₀ (by omega) mem
  constructor
  case size_pos | size_le => rw [hsize]; omega
  case head_nonneg | tail_nonneg => exact Int.le_refl 0
  case head_lt | tail_lt => rw [hsize]; simp only [Sm.initMsgq]; omega

@[simp] theorem contents_initMsgq (nqueue : ℤ) (mem : ℤ → Message) :
    (initMsgq nqueue mem).contents = [] := by
  simp [contents, initMsgq]

/-- The count of `sem_event` is not part of the ring. -/
@[simp] theorem contents_semEvent (q : Msgq) (k : ℕ) :
    ({ q with semEvent := k } : Msgq).contents = q.contents := rfl

theorem Valid.semEvent (h : q.Valid) (k : ℕ) : ({ q with semEvent := k } : Msgq).Valid :=
  ⟨h.size_pos, h.size_le, h.head_nonneg, h.head_lt, h.tail_nonneg, h.tail_lt⟩

/-- **`get_nmessage` counts the queued messages**, in each of its three cases. -/
theorem getNmessage_eq (h : q.Valid) : getNmessage q = q.contents.length := by
  obtain ⟨_, _, hh, hh', ht, ht'⟩ := h
  rw [contents, CircularBuffer.length_view]
  unfold getNmessage CircularBuffer.count size
  split_ifs <;> omega

end Msgq

end SmIpc.Sm
