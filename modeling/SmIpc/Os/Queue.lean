import SmIpc.Os.Base

/-! # The message queues of `skyapi_que.c`

`MsgQ` of `priv_mac.h` and the functions that create a queue, send to it and receive from it, each
split where the code gives up `mq->mutex`: at the condition wait.

* `skQueueSendEx` and `skQueueReceiveEx` run from the call to its return, or to the wait it blocks
  in; `sendResume` and `receiveResume` run from the return of that wait to the return of the call.
* A section also says whether it signals the other side's condition variable.
* `skQueueSend` and `skQueueReceive` are the fixed-size forms. -/

namespace SmIpc.Os

/-- `MQ_MAGICNUM`. -/
def mqMagicnum : ℕ := 0x98765432

/-- `MsgQ`: its fields of type `U32`, and the bytes of `msgbuffer`. -/
structure MsgQ where
  /-- `MQ_MAGICNUM` while the queue is alive. -/
  magicnum : ℕ
  /-- The number of slots, one more than the messages the queue is to hold. -/
  mqMaxmsg : ℕ
  /-- The size of a slot in bytes. -/
  mqMsgsize : ℕ
  /-- The number of calls between their lock and their unlock. -/
  refcnt : ℕ
  /-- The slot of the oldest message. -/
  read : ℕ
  /-- The slot of the next message. -/
  write : ℕ
  /-- The memory from `msgbuffer` on. -/
  msgbuffer : ℕ → UInt8

/-- `IS_VALID_ID`. -/
def IsValidId (w : ℕ) (id : ℕ) : Prop := id ≠ 0 ∧ id ≠ skInvalidId w

instance (w id : ℕ) : Decidable (IsValidId w id) := inferInstanceAs (Decidable (_ ∧ _))

/-- `sk_mem_malloc` over the C library's `malloc`: a request for 0 bytes is refused. -/
def skMemMalloc (malloc : ℕ → Option ℕ) (size : ℕ) : Option ℕ :=
  if size = 0 then none else malloc size

/-- `sk_queue_create_ex`: the status and, on success, the id written to `p_queue_id` with the queue
it points to. All sizes are computed in `U32`. -/
def skQueueCreateEx (w sizeofMsgQ : ℕ) (malloc : ℕ → Option ℕ) (pQueueIdIsNull : Bool)
    (maxMsgCount msgSize : ℕ) : SkStatus × Option (ℕ × MsgQ) :=
  let maxQuemsgCount := u32 w (maxMsgCount + 1)
  if pQueueIdIsNull then (.errorBadParameter, none)
  else
    match skMemMalloc malloc (u32 w (sizeofMsgQ + u32 w (maxQuemsgCount * msgSize))) with
    | none => (.errorNoMemory, none)
    | some mq =>
        (.success, some (mq,
          { magicnum := mqMagicnum
            mqMaxmsg := maxQuemsgCount
            mqMsgsize := msgSize
            refcnt := 0
            read := 0
            write := 0
            msgbuffer := fun _ => 0 }))

/-- How a stretch of a call ends: the call returns, or it blocks in a condition wait (with or without
a deadline). -/
inductive CallEnd where
  /-- The call returns this status. -/
  | ret (status : SkStatus)
  /-- The call waits; `timed` tells `pthread_cond_timedwait` from `pthread_cond_wait`. -/
  | wait (timed : Bool)
  deriving DecidableEq, Repr

/-- The full test, `(read + mq_maxmsg - write) % mq_maxmsg == 1` in `U32`. -/
def IsFull (w : ℕ) (mq : MsgQ) : Prop :=
  u32 w (mq.read + mq.mqMaxmsg - mq.write) % mq.mqMaxmsg = 1

instance (w : ℕ) (mq : MsgQ) : Decidable (IsFull w mq) := inferInstanceAs (Decidable (_ = _))

/-- `refcnt++`. -/
def acquire (w : ℕ) (mq : MsgQ) : MsgQ := { mq with refcnt := u32 w (mq.refcnt + 1) }

/-- `refcnt--`. -/
def release (w : ℕ) (mq : MsgQ) : MsgQ := { mq with refcnt := u32 w (mq.refcnt - 1) }

/-- The end of `sk_queue_send_ex`: store the message, advance `write`, and say whether `read_cond` is
signalled. -/
def sendStore (w : ℕ) (mq : MsgQ) (msg : ℕ → UInt8) (msgSize : ℕ) : Bool × MsgQ :=
  let write := u32 w (mq.write + 1)
  let write := if write = mq.mqMaxmsg then 0 else write
  (write ≠ mq.read, release w { mq with
    msgbuffer := memcpy mq.msgbuffer (u32 w (mq.write * mq.mqMsgsize)) msg msgSize
    write := write })

/-- `sk_queue_send_ex` from the return of its condition wait on; `timedOut` is
`ret == ETIMEDOUT`. -/
def sendResume (w : ℕ) (mq : MsgQ) (msg : ℕ → UInt8) (msgSize : ℕ) (timedOut : Bool) :
    (SkStatus × Bool) × MsgQ :=
  if timedOut ∨ mq.magicnum ≠ mqMagicnum then ((.errorTimeout, false), release w mq)
  else
    let r := sendStore w mq msg msgSize
    ((.success, r.1), r.2)

/-- `sk_queue_send_ex` up to its return or its condition wait. `msg` is the memory the pointer points
to, or `none` for NULL. An immediate time-out does not wait: `ret` is set to `ETIMEDOUT`. -/
def skQueueSendEx (w : ℕ) (mq : MsgQ) (queueId : ℕ) (msg : Option (ℕ → UInt8))
    (msgSize timeoutMs : ℕ) : (CallEnd × Bool) × MsgQ :=
  match msg with
  | none => ((.ret .errorBadParameter, false), mq)
  | some msg =>
      if ¬ IsValidId w queueId ∨ mq.magicnum ≠ mqMagicnum ∨ msgSize > mq.mqMsgsize then
        ((.ret .errorBadParameter, false), mq)
      else
        let mq := acquire w mq
        -- the test is made once, and the wait below is not in a loop
        if IsFull w mq then
          if timeoutMs = skTimeoutInfinity then ((.wait false, false), mq)
          else if timeoutMs = skTimeoutImmediate then
            let r := sendResume w mq msg msgSize true
            ((.ret r.1.1, r.1.2), r.2)
          else ((.wait true, false), mq)
        else
          let r := sendStore w mq msg msgSize
          ((.ret .success, r.1), r.2)

/-- The end of `sk_queue_receive_ex`: copy the oldest slot out to `msg`, advance `read`, and say
whether `write_cond` is signalled. -/
def receiveTake (w : ℕ) (mq : MsgQ) (msg : ℕ → UInt8) (msgSize : ℕ) :
    (Bool × (ℕ → UInt8)) × MsgQ :=
  let off := u32 w (mq.read * mq.mqMsgsize)
  let read := u32 w (mq.read + 1)
  let read := if read = mq.mqMaxmsg then 0 else read
  let mq' := { mq with read := read }
  ((¬ IsFull w mq', memcpy msg 0 (fun k => mq.msgbuffer (off + k)) msgSize), release w mq')

/-- `sk_queue_receive_ex` from the return of its condition wait on: the status, the signal, and the
caller's memory afterwards. -/
def receiveResume (w : ℕ) (mq : MsgQ) (msg : ℕ → UInt8) (msgSize : ℕ) (timedOut : Bool) :
    (SkStatus × Bool × (ℕ → UInt8)) × MsgQ :=
  if timedOut ∨ mq.magicnum ≠ mqMagicnum then ((.errorTimeout, false, msg), release w mq)
  else
    let r := receiveTake w mq msg msgSize
    ((.success, r.1), r.2)

/-- `sk_queue_receive_ex` up to its return or its condition wait. -/
def skQueueReceiveEx (w : ℕ) (mq : MsgQ) (queueId : ℕ) (msg : Option (ℕ → UInt8))
    (msgSize timeoutMs : ℕ) : (CallEnd × Bool × Option (ℕ → UInt8)) × MsgQ :=
  match msg with
  | none => ((.ret .errorBadParameter, false, none), mq)
  | some msg =>
      if ¬ IsValidId w queueId ∨ mq.magicnum ≠ mqMagicnum ∨ msgSize > mq.mqMsgsize then
        ((.ret .errorBadParameter, false, some msg), mq)
      else
        let mq := acquire w mq
        -- the test is made once, and the wait below is not in a loop
        if mq.read = mq.write then
          if timeoutMs = skTimeoutInfinity then ((.wait false, false, some msg), mq)
          else if timeoutMs = skTimeoutImmediate then
            let r := receiveResume w mq msg msgSize true
            ((.ret r.1.1, r.1.2.1, some r.1.2.2), r.2)
          else ((.wait true, false, some msg), mq)
        else
          let r := receiveTake w mq msg msgSize
          ((.ret .success, r.1.1, some r.1.2), r.2)

/-- `sizeof(sk_queue_msg_t)`: an array of `SK_QUEUE_MSG_SIZE` values of type `U32`. -/
def sizeofSkQueueMsg (w : ℕ) : ℕ := 4 * (w / 8)

/-- `sk_queue_send`. -/
def skQueueSend (w : ℕ) (mq : MsgQ) (queueId : ℕ) (msg : Option (ℕ → UInt8)) (timeoutMs : ℕ) :
    (CallEnd × Bool) × MsgQ :=
  skQueueSendEx w mq queueId msg (sizeofSkQueueMsg w) timeoutMs

/-- `sk_queue_receive`. -/
def skQueueReceive (w : ℕ) (mq : MsgQ) (queueId : ℕ) (msg : Option (ℕ → UInt8)) (timeoutMs : ℕ) :
    (CallEnd × Bool × Option (ℕ → UInt8)) × MsgQ :=
  skQueueReceiveEx w mq queueId msg (sizeofSkQueueMsg w) timeoutMs

end SmIpc.Os
