import SmIpc.Lib.Machine
import SmIpc.Sm.Tick
import SmIpc.Sm.MessageFifo
import SmIpc.Sm.Window

/-! # The small-window system

`smallwin_scheduler`, `sm_ticker` and any number of other threads over the shared state of
`smscheduler.c`, `smmsg.c` and `smtick.c`. Thread 0 is the scheduler. A window procedure is arbitrary
code: while an activation is in its procedure, its thread can make every call that is a step here. Only the
scheduler pops messages, tests a handle with `sm_is_smallwin` besides `express_message`, and erases messages,
in `default_sm`: there are no such steps of other threads, nor `invalidate_message` and `erase_message_type`.
`is_message` and `is_message_param` change nothing and are no steps.

* `smallwin_list` is the list of its windows, oldest first; `malloc` answers with any address that is
  not in it. Handles are addresses.
* A step is a stretch of code no other thread can be seen to enter: `sm_is_smallwin`, the read of
  `sm_proc`, the return of the procedure, `sm_destroy_smallwin`, `erase_message`, one section of the
  message ring, and so on. `sem_system` is the thread that holds it across steps, which only
  `sm_create_smallwin` does.
* Beside the state of the program there is a record of when things happened, in steps since the
  start: when a window was linked, when a queued message was posted and where it came from, and when
  a tick slot was set. No step looks at it.
* A step that reads or frees a node that is not in the list is shown, and is the last one. -/

namespace SmIpc.Sm

/-- `SMALLWIN_NMSGQ`. -/
def smallwinNmsgq : ℕ := 1000

/-- A window in `smallwin_list`. -/
structure Win where
  /-- The address of its node. -/
  hsm : Hsm
  /-- When it was linked. -/
  born : ℕ
  /-- The window procedure. -/
  smProc : SmProc
  deriving DecidableEq, Repr

/-- Where a message comes from. -/
inductive Origin where
  /-- A `push_message` or `send_message` call. -/
  | sender
  /-- `sm_ticker`, for a tick slot set at this time. -/
  | tick (registered : ℕ)
  /-- `sm_create_smallwin`, for the window linked at this time. -/
  | creation (born : ℕ)
  deriving DecidableEq, Repr

/-- When a queued message was posted, and by whom. -/
structure Post where
  /-- When it was posted. -/
  time : ℕ
  /-- Where it comes from. -/
  origin : Origin
  deriving DecidableEq, Repr

/-- Where an activation of `run_sm` stands. -/
inductive RunPc where
  /-- The window was found; `sm_proc` is not yet read. -/
  | tested
  /-- In the window procedure. -/
  | inProc
  /-- In `default_sm` with `SMM_CLOSE`, before `sm_destroy_smallwin`. -/
  | returned
  /-- In `default_sm`, before `erase_message`. -/
  | destroyed
  deriving DecidableEq, Repr

/-- An entry of a thread's call stack. -/
inductive Frame where
  /-- An activation of `run_sm` with a message, for the window linked at `born`. -/
  | running (m : Message) (born : ℕ) (pc : RunPc)
  /-- Blocked for ever, in the second `sk_sem_lock` of `sm_destroy_tick`. -/
  | blocked
  deriving DecidableEq, Repr

/-- A message the scheduler has popped and not yet handed to a procedure. -/
structure Hand where
  /-- The message. -/
  m : Message
  /-- When and by whom it was posted. -/
  post : Post
  /-- When the window it is for was linked, once `sm_is_smallwin` has found it. -/
  tested : Option ℕ
  deriving DecidableEq, Repr

/-- Where `sm_ticker` stands. -/
inductive TickerPc where
  /-- In `sk_task_delay`. -/
  | delay
  /-- About to look at slot `i`; holds `sem_tick_id`. -/
  | looking (i : ℕ)
  /-- About to send for slot `i`; holds `sem_tick_id`. -/
  | sending (i : ℕ)
  deriving DecidableEq, Repr

/-- The state of the system. -/
structure Sys where
  /-- `smallwin_list`. -/
  windows : List Win
  /-- `message_queue`. -/
  q : Msgq
  /-- When and by whom the queued messages were posted, oldest first. -/
  posts : List Post
  /-- `tick_list`. -/
  ticks : TickList
  /-- When each tick slot was last set. -/
  registered : ℕ → ℕ
  /-- The thread that holds `sem_system` in `sm_create_smallwin`, and its new window. -/
  creating : Option (ℕ × Win)
  /-- The value of `sem_tick_id`. -/
  semTick : ℕ
  /-- `sm_ticker`. -/
  ticker : TickerPc
  /-- The message the scheduler has in hand. -/
  hand : Option Hand
  /-- The call stacks of the threads, innermost call first. -/
  threads : ℕ → List Frame
  /-- The number of steps taken. -/
  now : ℕ
  /-- A node that is not in the list was read or freed. -/
  undefined : Bool

/-- The state `run_smallwin` leaves, with the uninitialised memory of the ring. -/
def Sys.init (mem : ℤ → Message) : Sys where
  windows := []
  q := initMsgq smallwinNmsgq mem
  posts := []
  ticks := TickList.init
  registered := fun _ => 0
  creating := none
  semTick := 1
  ticker := .delay
  hand := none
  threads := fun _ => []
  now := 0
  undefined := false

/-- A step of the system. -/
inductive SysStep where
  /-- `pop_message` of the scheduler. -/
  | pop
  /-- `sm_is_smallwin` of the scheduler, for the message in hand. -/
  | test
  /-- `run_sm` of the scheduler reads `sm_proc`. -/
  | enterHand
  /-- `express_message`, up to the return of `sm_is_smallwin`. -/
  | express (tid : ℕ) (m : Message)
  /-- `run_sm` of `express_message` reads `sm_proc`. -/
  | enter (tid : ℕ)
  /-- A window procedure returns. -/
  | leave (tid : ℕ)
  /-- `sm_destroy_smallwin` of `default_sm`. -/
  | destroy (tid : ℕ)
  /-- `erase_message` of `default_sm`. -/
  | erase (tid : ℕ)
  /-- `sm_create_smallwin` up to its `push_message`, with the answer of `malloc`. -/
  | createLink (tid : ℕ) (malloc : Option Hsm) (smProc : SmProc)
  /-- The rest of `sm_create_smallwin`. -/
  | createPush (tid : ℕ)
  /-- `push_message`. -/
  | push (tid : ℕ) (m : Message)
  /-- `send_message`. -/
  | send (tid : ℕ) (m : Message)
  /-- `sm_set_xtick`. -/
  | setXtick (tid : ℕ) (hsm : Hsm) (n100msec param2 : UInt32) (sysflag : Int32)
  /-- `sm_destroy_tick`, up to its second `sk_sem_lock`. -/
  | destroyTick (tid : ℕ) (htick : ℤ)
  /-- `sm_ticker` takes `sem_tick_id`. -/
  | tickStart
  /-- `sm_ticker` looks at a slot. -/
  | tickLook
  /-- `send_message` of `sm_ticker`. -/
  | tickSend
  /-- `sm_ticker` releases `sem_tick_id`. -/
  | tickEnd
  deriving DecidableEq, Repr

/-- What a step lets be seen. -/
inductive SysEvent where
  /-- Nothing. -/
  | silent
  /-- `sm_create_smallwin` returned the handle of this window. -/
  | created (w : Win)
  /-- The scheduler popped a message. -/
  | popped (m : Message) (post : Post)
  /-- `run_sm` read `sm_proc`, for the window that was linked at `born` when it was tested: the message,
  its post if it was queued, and the window at its handle. -/
  | entered (m : Message) (queued : Option Post) (born : ℕ) (win : Option Win)
  /-- `default_sm` called `sm_destroy_smallwin`, for the window linked at `born` when it was tested: the
  handle and the window at it. -/
  | destroyed (hsm : Hsm) (born : ℕ) (win : Option Win)
  deriving DecidableEq, Repr

namespace Sys

/-- The window at an address. -/
def windowAt (s : Sys) (hsm : Hsm) : Option Win := s.windows.find? fun w => w.hsm = hsm

/-- The thread can make a call: it is not the scheduler outside an activation, and its innermost call is
a window procedure. -/
def CanCall (s : Sys) (tid : ℕ) : Prop :=
  s.creating.map Prod.fst ≠ some tid ∧
    match s.threads tid with
    | [] => tid ≠ 0
    | .running _ _ .inProc :: _ => True
    | _ => False

instance (s : Sys) (tid : ℕ) : Decidable (s.CanCall tid) := by
  unfold CanCall
  split <;> infer_instance

/-- Replace a thread's call stack. -/
def setStack (s : Sys) (tid : ℕ) (stack : List Frame) : Sys :=
  { s with threads := Function.update s.threads tid stack }

/-- `push_message`, recording the post if it is accepted. -/
def post (s : Sys) (m : Message) (origin : Origin) : Sys :=
  let r := pushMessage s.q m.hsm m.message m.param1 m.param2
  { s with
    q := r.2
    posts := if r.1 = 1 then s.posts ++ [⟨s.now, origin⟩] else s.posts }

/-- What is left of an activation when its procedure has returned: `default_sm` does something for
`SMM_CLOSE` only. -/
def afterProc (m : Message) (born : ℕ) : List Frame :=
  if m.message = smmClose then [.running m born .returned] else []

/-- What is left of an activation when it has read `sm_proc` of the window at its handle. -/
def afterRead (m : Message) (born : ℕ) : Option Win → List Frame
  | none => []
  | some w => if w.smProc.isSome then [.running m born .inProc] else afterProc m born

/-- The `SMM_CREATE` of a window. -/
def createMsg (w : Win) : Message := ⟨w.hsm, smmCreate, 0, 0⟩

/-- One step, without the clock; `none` when it cannot be taken. -/
def act (s : Sys) : SysStep → Option (SysEvent × Sys)
  | .pop =>
      if s.hand = none ∧ s.threads 0 = [] then
        -- no message in hand and no activation running: the scheduler is at its `pop_message`
        match popMessage s.q with
        | none => none
        | some ((_, none), q) => some (.silent, { s with q := q })
        | some ((_, some m), q) =>
            -- the scheduler goes back to its loop for the null handle
            let p := s.posts.headD ⟨0, .sender⟩
            some (.popped m p, { s with
              q := q
              posts := s.posts.tail
              hand := if m.hsm = skInvalidHsm then none else some ⟨m, p, none⟩ })
      else none
  | .test =>
      match s.hand with
      | some ⟨m, p, none⟩ =>
          some (.silent, { s with hand := (s.windowAt m.hsm).map fun w => ⟨m, p, some w.born⟩ })
      | _ => none
  | .enterHand =>
      match s.hand with
      -- `run_sm` reads `sm_proc` of the node without another test
      | some ⟨m, p, some born⟩ =>
          some (.entered m (some p) born (s.windowAt m.hsm),
            { s.setStack 0 (afterRead m born (s.windowAt m.hsm)) with
              hand := none
              undefined := (s.windowAt m.hsm).isNone })
      | _ => none
  | .express tid m =>
      if s.CanCall tid then
        match s.windowAt m.hsm with
        -- `sm_is_smallwin` fails and `express_message` returns
        | none => some (.silent, s)
        | some w => some (.silent, s.setStack tid (.running m w.born .tested :: s.threads tid))
      else none
  | .enter tid =>
      match s.threads tid with
      | .running m born .tested :: rest =>
          some (.entered m none born (s.windowAt m.hsm),
            { s.setStack tid (afterRead m born (s.windowAt m.hsm) ++ rest) with
              undefined := (s.windowAt m.hsm).isNone })
      | _ => none
  | .leave tid =>
      match s.threads tid with
      | .running m born .inProc :: rest =>
          if s.creating.map Prod.fst = some tid then none
          else some (.silent, s.setStack tid (afterProc m born ++ rest))
      | _ => none
  | .destroy tid =>
      match s.threads tid with
      | .running m born .returned :: rest =>
          -- `sm_destroy_smallwin` waits for `sem_system`
          if s.creating = none then
            some (.destroyed m.hsm born (s.windowAt m.hsm),
              { s.setStack tid (.running m born .destroyed :: rest) with
                windows := s.windows.filter fun w => w.hsm ≠ m.hsm
                undefined := (s.windowAt m.hsm).isNone })
          else none
      | _ => none
  | .erase tid =>
      match s.threads tid with
      | .running m _ .destroyed :: rest =>
          some (.silent, { s.setStack tid rest with q := eraseMessage s.q m.hsm })
      | _ => none
  | .createLink tid malloc smProc =>
      if s.CanCall tid ∧ s.creating = none then
        match malloc with
        | none => some (.silent, s)
        | some a =>
            -- `malloc` gives no address that is in use
            if a = skInvalidHsm ∨ (s.windowAt a).isSome then none
            else
              let w : Win := ⟨a, s.now, smProc⟩
              some (.silent, { s with windows := s.windows ++ [w], creating := some (tid, w) })
      else none
  | .createPush tid =>
      match s.creating with
      | none => none
      | some (tid', w) =>
          if tid = tid' then
            some (.created w, { s.post (createMsg w) (.creation w.born) with creating := none })
          else none
  | .push tid m => if s.CanCall tid then some (.silent, s.post m .sender) else none
  | .send tid m =>
      -- `send_message` waits for `sem_system`
      if s.CanCall tid ∧ s.creating = none then some (.silent, s.post m .sender) else none
  | .setXtick tid hsm n100msec param2 sysflag =>
      if s.CanCall tid ∧ 0 < s.semTick then
        some (.silent, { s with
          ticks := (smSetXtick s.ticks hsm n100msec param2 sysflag).2
          registered :=
            match freeTick s.ticks with
            | some i => Function.update s.registered i s.now
            | none => s.registered })
      else none
  | .destroyTick tid htick =>
      if s.CanCall tid ∧ 0 < s.semTick then
        some (.silent, { s.setStack tid (.blocked :: s.threads tid) with
          ticks := smDestroyTick s.ticks htick
          semTick := s.semTick - 1 })
      else none
  | .tickStart =>
      if s.ticker = .delay ∧ 0 < s.semTick then
        some (.silent, { s with ticker := .looking 0, semTick := s.semTick - 1 })
      else none
  | .tickLook =>
      match s.ticker with
      | .looking i =>
          if i < smallwinNticks then
            match Sm.tickLook s.q (s.ticks i) i with
            | none => none
            | some none => some (.silent, { s with ticker := .sending i })
            | some (some slot) =>
                some (.silent, { s with
                  ticks := Function.update s.ticks i slot
                  ticker := .looking (i + 1) })
          else none
      | _ => none
  | .tickSend =>
      match s.ticker with
      | .sending i =>
          -- `sm_ticker` posts with `send_message`, which waits for `sem_system`
          if s.creating = none then
            some (.silent, { s.post ((s.ticks i).message i) (.tick (s.registered i)) with
              ticks := Function.update s.ticks i (s.ticks i).restarted
              ticker := .looking (i + 1) })
          else none
      | _ => none
  | .tickEnd =>
      if s.ticker = .looking smallwinNticks then
        some (.silent, { s with ticker := .delay, semTick := s.semTick + 1 })
      else none

/-- One step; there is none after a node that is not in the list was read or freed. -/
def step : StepMachine Sys SysStep SysEvent := fun s i =>
  if s.undefined then none else (s.act i).map fun r => (r.1, { r.2 with now := s.now + 1 })

end Sys

end SmIpc.Sm
