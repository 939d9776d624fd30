import SmIpc.Lib.Machine
import SmIpc.Lib.Semaphores
import SmIpc.Sm.MessageFifo
import SmIpc.Sm.Tick
import SmIpc.Sm.Window

/-! # Threads and their semaphores

The scheduler, `sm_ticker` and any number of other threads, each with what is left of the calls it is
in. A function is the list of its instructions, and a call puts that list before what its caller has
left to do, so that every place where a thread can be preempted is between two instructions.

* **`Instr`** — `sk_sem_lock` and `sk_sem_unlock`, `wait_event`, and the code between them.
* **`guarded`**, `pushMessage.code`, … — the functions.
* **`Shared.exec`** — an instruction that touches no semaphore but `sem_event`.
* **`Locks.step`** — a step of a thread; **`Locks.stepOrFail`** — with `sem_wait` calls that are
  interrupted: no caller looks at what `sk_sem_lock` returns.

Outside these functions a thread, a client or one in a window procedure, runs code of its own, which may
make any `Call`. What is left out is `sm_is_smallwin` in such code: here only the scheduler and
`express_message` call it, as one instruction. `WindowWalks` has its walk, by any thread. -/

namespace SmIpc.Sm

/-- The semaphores that guard sections. -/
inductive Sem where
  /-- `sem_tick_id`. -/
  | tickId
  /-- `sem_system`. -/
  | system
  /-- `message_queue.access`. -/
  | access
  deriving DecidableEq, Repr

/-- The order in which they are nested. -/
def Sem.rank : Sem → ℕ
  | .tickId => 0
  | .system => 1
  | .access => 2

/-- A section of `smmsg.c` under `message_queue.access`. -/
inductive RingOp where
  /-- `push_message`. -/
  | push (m : Message)
  /-- `pop_message`. -/
  | pop
  /-- `is_message`. -/
  | isMessage (hsm : Hsm)
  /-- `is_message_param`. -/
  | isMessageParam (hsm : Hsm) (message param1 param2 : UInt32)
  /-- `invalidate_message`. -/
  | invalidateMessage (message : UInt32)
  /-- `erase_message`. -/
  | eraseMessage (hsm : Hsm)
  /-- `erase_message_type`. -/
  | eraseMessageType (hsm : Hsm) (message : UInt32)
  deriving DecidableEq, Repr

/-- What the section does; `none` is a search that does not end. -/
def RingOp.exec (q : Msgq) : RingOp → Option (MsgResult × Msgq)
  | .push m =>
      let r := Sm.pushMessage q m.hsm m.message m.param1 m.param2
      some (⟨r.1, none⟩, r.2)
  | .pop =>
      let r := popSection q
      some (⟨r.1.1, r.1.2⟩, r.2)
  | .isMessage hsm => (Sm.isMessage q hsm).map fun v => (⟨v, none⟩, q)
  | .isMessageParam hsm message param1 param2 =>
      (Sm.isMessageParam q hsm message param1 param2).map fun v => (⟨v, none⟩, q)
  | .invalidateMessage message => some (⟨0, none⟩, Sm.invalidateMessage q message)
  | .eraseMessage hsm => some (⟨0, none⟩, Sm.eraseMessage q hsm)
  | .eraseMessageType hsm message => some (⟨0, none⟩, Sm.eraseMessageType q hsm message)

/-- A stretch of a thread's code that runs in one step. -/
inductive Instr where
  /-- `sk_sem_lock`. -/
  | semWait (s : Sem)
  /-- `sk_sem_unlock`. -/
  | semPost (s : Sem)
  /-- `wait_event`. -/
  | waitEvent
  /-- A section of the ring. -/
  | ring (op : RingOp)
  /-- Code of the thread's own, or a window procedure. -/
  | user
  /-- `sm_is_smallwin` for the window of a message, and `run_sm` if it finds it. -/
  | isSmallwin (m : Message)
  /-- `run_sm`, from its read of `sm_proc`. -/
  | runSm (m : Message)
  /-- `sm_create_smallwin` between `lock_system` and `push_message`. -/
  | createWin (smProc : SmProc)
  /-- `sm_destroy_smallwin` between `lock_system` and `unlock_system`. -/
  | unlinkWin (hsm : Hsm)
  /-- The loop of `smallwin_scheduler`. -/
  | scheduler
  /-- The test of what `pop_message` returned, in `smallwin_scheduler`. -/
  | popped
  /-- The loop of `sm_ticker`. -/
  | ticker
  /-- The head of the loop over the slots in `sm_ticker`, for slot `i`. -/
  | slot (i : ℕ)
  /-- The test of what `is_message_param` returned, for slot `i`. -/
  | asked (i : ℕ)
  /-- The end of a slot that was due: `count = 0; count++`. -/
  | restart (i : ℕ)
  /-- The loop of `sm_set_xtick`. -/
  | setXtick (hsm : Hsm) (n100msec param2 : UInt32) (sysflag : Int32)
  /-- The `if` of `sm_destroy_tick`. -/
  | destroyTick (htick : ℤ)
  deriving DecidableEq, Repr

/-! ## The functions -/

/-- A section of the ring with its `sk_sem_lock(access)` and `sk_sem_unlock(access)`. -/
def guarded (op : RingOp) : List Instr := [.semWait .access, .ring op, .semPost .access]

/-- `push_message`. -/
def pushMessage.code (m : Message) : List Instr :=
  if m.hsm = skInvalidHsm then [] else guarded (.push m)

/-- `send_message`. -/
def sendMessage.code (m : Message) : List Instr :=
  .semWait .system :: pushMessage.code m ++ [.semPost .system]

/-- `pop_message`. -/
def popMessage.code : List Instr := .waitEvent :: guarded .pop

/-- `is_message`. -/
def isMessage.code (hsm : Hsm) : List Instr :=
  if hsm = skInvalidHsm then [] else guarded (.isMessage hsm)

/-- `is_message_param`. -/
def isMessageParam.code (hsm : Hsm) (message param1 param2 : UInt32) : List Instr :=
  guarded (.isMessageParam hsm message param1 param2)

/-- `invalidate_message`. -/
def invalidateMessage.code (message : UInt32) : List Instr := guarded (.invalidateMessage message)

/-- `erase_message`. -/
def eraseMessage.code (hsm : Hsm) : List Instr := guarded (.eraseMessage hsm)

/-- `erase_message_type`. -/
def eraseMessageType.code (hsm : Hsm) (message : UInt32) : List Instr :=
  guarded (.eraseMessageType hsm message)

/-- `sm_create_smallwin`. -/
def smCreateSmallwin.code (smProc : SmProc) : List Instr :=
  [.semWait .system, .createWin smProc, .semPost .system]

/-- `sm_destroy_smallwin`. -/
def smDestroySmallwin.code (hsm : Hsm) : List Instr :=
  if hsm = skInvalidHsm then [] else [.semWait .system, .unlinkWin hsm, .semPost .system]

/-- `default_sm`. -/
def defaultSm.code (m : Message) : List Instr :=
  if m.message = smmClose then smDestroySmallwin.code m.hsm ++ eraseMessage.code m.hsm else []

/-- `express_message`. -/
def expressMessage.code (m : Message) : List Instr :=
  if m.hsm = 0 then [] else [.isSmallwin m]

/-- `sm_set_xtick`. -/
def smSetXtick.code (hsm : Hsm) (n100msec param2 : UInt32) (sysflag : Int32) : List Instr :=
  [.semWait .tickId, .setXtick hsm n100msec param2 sysflag, .semPost .tickId]

/-- `sm_create_tick`. -/
def smCreateTick.code (hsm : Hsm) (ms : UInt32) : List Instr := smSetXtick.code hsm ms 0 0

/-- `sm_create_systick`. -/
def smCreateSystick.code (hsm : Hsm) (n100msec : UInt32) : List Instr :=
  smSetXtick.code hsm n100msec 0 1

/-- `sm_destroy_tick`, with the second `sk_sem_lock` at its end. -/
def smDestroyTick.code (htick : ℤ) : List Instr :=
  [.semWait .tickId, .destroyTick htick, .semWait .tickId]

/-- One round of the loop of `smallwin_scheduler`. -/
def smallwinScheduler.code : List Instr := popMessage.code ++ [.popped, .scheduler]

/-- One round of the loop of `sm_ticker`. -/
def smTicker.code : List Instr := [.semWait .tickId, .slot 0, .semPost .tickId, .ticker]

/-- A call. -/
inductive Call where
  /-- `push_message`. -/
  | pushMessage (m : Message)
  /-- `send_message`. -/
  | sendMessage (m : Message)
  /-- `pop_message`. -/
  | popMessage
  /-- `is_message`. -/
  | isMessage (hsm : Hsm)
  /-- `is_message_param`. -/
  | isMessageParam (hsm : Hsm) (message param1 param2 : UInt32)
  /-- `invalidate_message`. -/
  | invalidateMessage (message : UInt32)
  /-- `erase_message`. -/
  | eraseMessage (hsm : Hsm)
  /-- `erase_message_type`. -/
  | eraseMessageType (hsm : Hsm) (message : UInt32)
  /-- `sm_create_smallwin`. -/
  | smCreateSmallwin (smProc : SmProc)
  /-- `express_message`. -/
  | expressMessage (m : Message)
  /-- `sm_set_xtick`. -/
  | smSetXtick (hsm : Hsm) (n100msec param2 : UInt32) (sysflag : Int32)
  /-- `sm_create_tick`. -/
  | smCreateTick (hsm : Hsm) (ms : UInt32)
  /-- `sm_create_systick`. -/
  | smCreateSystick (hsm : Hsm) (n100msec : UInt32)
  /-- `sm_destroy_tick`. -/
  | smDestroyTick (htick : ℤ)
  deriving DecidableEq, Repr

/-- The code of a call. -/
def Call.code : Call → List Instr
  | .pushMessage m => Sm.pushMessage.code m
  | .sendMessage m => Sm.sendMessage.code m
  | .popMessage => Sm.popMessage.code
  | .isMessage hsm => Sm.isMessage.code hsm
  | .isMessageParam hsm message param1 param2 => Sm.isMessageParam.code hsm message param1 param2
  | .invalidateMessage message => Sm.invalidateMessage.code message
  | .eraseMessage hsm => Sm.eraseMessage.code hsm
  | .eraseMessageType hsm message => Sm.eraseMessageType.code hsm message
  | .smCreateSmallwin smProc => Sm.smCreateSmallwin.code smProc
  | .expressMessage m => Sm.expressMessage.code m
  | .smSetXtick hsm n100msec param2 sysflag => Sm.smSetXtick.code hsm n100msec param2 sysflag
  | .smCreateTick hsm ms => Sm.smCreateTick.code hsm ms
  | .smCreateSystick hsm n100msec => Sm.smCreateSystick.code hsm n100msec
  | .smDestroyTick htick => Sm.smDestroyTick.code htick

/-! ## The machine -/

/-- A thread. -/
structure Worker where
  /-- What is left of the calls it is in, innermost first. -/
  code : List Instr
  /-- The semaphores whose `sk_sem_lock` has returned and whose `sk_sem_unlock` has not yet been
  called, last first. -/
  held : List Sem
  /-- What the last section of the ring returned. -/
  result : MsgResult
  deriving DecidableEq, Repr

/-- A thread at the start of some code. -/
def Worker.start (code : List Instr) : Worker := ⟨code, [], ⟨0, none⟩⟩

/-- The semaphore a thread is about to take. -/
def Worker.waits (t : Worker) : Option Sem :=
  match t.code with
  | .semWait s :: _ => some s
  | _ => none

/-- The memory the threads share. -/
structure Shared where
  /-- `message_queue`, with the value of `sem_event`. -/
  q : Msgq
  /-- `smallwin_list`: the handles and procedures of its windows. -/
  windows : List (Hsm × SmProc)
  /-- `tick_list`. -/
  ticks : TickList

/-- What the environment decides in a step. -/
structure Answer where
  /-- What `malloc` returns. -/
  malloc : Option Hsm
  /-- The list that is left by writes through the links of a node that was freed. -/
  garbled : List (Hsm × SmProc)
  deriving DecidableEq, Repr

/-- The state: the shared memory, the values of the semaphores and the threads. -/
structure Locks where
  /-- The shared memory. -/
  shared : Shared
  /-- The values of the semaphores. -/
  value : Sem → ℕ
  /-- The scheduler, `sm_ticker` and the others. -/
  threads : List Worker

/-- The state `run_smallwin` leaves, with the uninitialised memory of a ring for `nqueue` messages and
`n` other threads. -/
def Locks.init (nqueue : ℕ) (mem : ℤ → Message) (n : ℕ) : Locks where
  shared := ⟨initMsgq nqueue mem, [], TickList.init⟩
  value := fun _ => 1
  threads := .start [.scheduler] :: .start [.ticker] :: List.replicate n (.start [.user])

namespace Shared

/-- `smp_common(hsm)->sm_proc`, if the window is in the list. -/
def smProcAt (sh : Shared) (hsm : Hsm) : Option SmProc :=
  (sh.windows.find? fun w => w.1 = hsm).map Prod.snd

/-- An instruction that takes and releases no semaphore of `Sem`: the memory it leaves, what it leaves
in `result`, and the code it puts in its place. `none` when it cannot be taken. -/
def exec (sh : Shared) (r : MsgResult) (answer : Answer) :
    Instr → Option (Shared × MsgResult × List Instr)
  | .semWait _ | .semPost _ | .user => none
  | .waitEvent => (Sm.waitEvent sh.q).map fun q => ({ sh with q := q }, r, [])
  | .ring op => (op.exec sh.q).map fun x => ({ sh with q := x.2 }, x.1, [])
  | .isSmallwin m => some (sh, r, if (sh.smProcAt m.hsm).isSome then [.runSm m] else [])
  | .runSm m =>
      if m.hsm = skInvalidHsm then some (sh, r, [])
      else if sh.smProcAt m.hsm = some none then some (sh, r, defaultSm.code m)
      -- a procedure, or whatever the memory of a freed node says
      else some (sh, r, .user :: defaultSm.code m)
  | .createWin smProc =>
      match answer.malloc with
      | none => some (sh, r, [])
      | some a =>
          -- `malloc` gives no address that is in use
          if a = skInvalidHsm ∨ (sh.smProcAt a).isSome then none
          else some ({ sh with windows := sh.windows ++ [(a, smProc)] }, r,
            pushMessage.code ⟨a, smmCreate, 0, 0⟩)
  | .unlinkWin hsm =>
      if (sh.smProcAt hsm).isSome then
        some ({ sh with windows := sh.windows.filter fun w => w.1 ≠ hsm }, r, [])
      else some ({ sh with windows := answer.garbled }, r, [])
  | .scheduler => some (sh, r, smallwinScheduler.code)
  | .popped =>
      match r.message with
      | none => some (sh, r, [])
      | some m =>
          some (sh, r, if r.value ≠ 0 ∧ m.hsm ≠ skInvalidHsm then [.isSmallwin m] else [])
  | .ticker => some (sh, r, smTicker.code)
  | .slot i =>
      if i < smallwinNticks then
        if (sh.ticks i).hsm = 0 then some (sh, r, [.slot (i + 1)])
        else if (sh.ticks i).IsDue then
          some (sh, r, isMessageParam.code (sh.ticks i).hsm smmTick (UInt32.ofNat (i + 1))
            (sh.ticks i).count ++ [.asked i])
        else
          some ({ sh with ticks := Function.update sh.ticks i (sh.ticks i).counted }, r,
            [.slot (i + 1)])
      else some (sh, r, [])
  | .asked i =>
      some (sh, r, (if r.value = 0 then sendMessage.code ((sh.ticks i).message i) else []) ++
        [.restart i])
  | .restart i =>
      some ({ sh with ticks := Function.update sh.ticks i (sh.ticks i).restarted }, r,
        [.slot (i + 1)])
  | .setXtick hsm n100msec param2 sysflag =>
      some ({ sh with ticks := (smSetXtick sh.ticks hsm n100msec param2 sysflag).2 }, r, [])
  | .destroyTick htick => some ({ sh with ticks := smDestroyTick sh.ticks htick }, r, [])

end Shared

/-- A step of a thread. -/
inductive LockStep where
  /-- The thread runs its next instruction. -/
  | go (tid : ℕ) (answer : Answer)
  /-- Code of the thread's own, or a window procedure, makes a call. -/
  | call (tid : ℕ) (c : Call)
  /-- A window procedure returns, or a client thread ends. -/
  | leave (tid : ℕ)
  deriving DecidableEq, Repr

/-- The thread that takes a step. -/
def LockStep.tid : LockStep → ℕ
  | .go tid _ | .call tid _ | .leave tid => tid

namespace Locks

/-- `sem_wait` has taken the semaphore, and thread `tid` goes on with `k`. -/
def lock (s : Locks) (tid : ℕ) (t : Worker) (x : Sem) (k : List Instr) : Locks :=
  { s with
    value := Function.update s.value x (s.value x - 1)
    threads := s.threads.set tid { t with code := k, held := x :: t.held } }

/-- `sem_post`, after which thread `tid` goes on with `k`. -/
def unlock (s : Locks) (tid : ℕ) (t : Worker) (x : Sem) (k : List Instr) : Locks :=
  { s with
    value := Function.update s.value x (s.value x + 1)
    threads := s.threads.set tid { t with code := k, held := t.held.erase x } }

/-- One step of one thread; `none` when it cannot be taken. -/
def step : StepMachine Locks LockStep Unit
  | s, .go tid answer =>
      match s.threads[tid]? with
      | none => none
      | some t =>
          match t.code with
          | [] => none
          | .semWait x :: k => if 0 < s.value x then some ((), s.lock tid t x k) else none
          | .semPost x :: k => some ((), s.unlock tid t x k)
          | i :: k =>
              (s.shared.exec t.result answer i).map fun e =>
                ((), { s with
                  shared := e.1
                  threads := s.threads.set tid { t with code := e.2.2 ++ k, result := e.2.1 } })
  | s, .call tid c =>
      match s.threads[tid]? with
      | none => none
      | some t =>
          match t.code with
          | .user :: _ =>
              some ((), { s with threads := s.threads.set tid { t with code := c.code ++ t.code } })
          | _ => none
  | s, .leave tid =>
      match s.threads[tid]? with
      | none => none
      | some t =>
          match t.code with
          | .user :: k => some ((), { s with threads := s.threads.set tid { t with code := k } })
          | _ => none

/-- A blocked `sem_wait` of the thread is interrupted: `sk_sem_lock` returns `SK_FAILED` and its caller
goes on without the semaphore. -/
def interrupt (s : Locks) (tid : ℕ) : Option (Unit × Locks) :=
  match s.threads[tid]? with
  | none => none
  | some t =>
      match t.code with
      | .semWait x :: k =>
          if s.value x = 0 then
            some ((), { s with threads := s.threads.set tid { t with code := k, held := x :: t.held } })
          else none
      | .waitEvent :: k =>
          if s.shared.q.semEvent = 0 then
            some ((), { s with threads := s.threads.set tid { t with code := k } })
          else none
      | _ => none

/-- A step of one thread, or the interruption of a blocked `sem_wait`. -/
def stepOrFail : StepMachine Locks (LockStep ⊕ ℕ) Unit
  | s, .inl i => step s i
  | s, .inr tid => s.interrupt tid

end Locks

end SmIpc.Sm
