import SmIpc.Os.TaskCalls

/-! # Threads that create, control and end tasks

The machine `TaskSys` of `Tasks`, laid out in full: `sem_thread_id` is taken and given back in steps of
their own, `sk_task_create` checks the name before it takes a node and names the node before it makes the
thread, and there are the functions that take a task id. A cancellation by `sk_task_wait_timeout` takes
effect in its thread at any later step, or never.

* The fields of a node and of a thread that `TaskSys` has stay where they are (`TaskApi.sys`); a step that
  `TaskSys` has is taken there (`ApiAct.base`).
* `SysAnswer` is what the system answers besides: the kernel's id of a new thread, and whether
  `setpriority` succeeds. `pthread_cancel` and `pthread_kill` succeed for a thread that has not exited.
* `call`, `ran`, `created` and `stopped` are records that no step reads. A process that `SIGSTOP` has stopped
  makes no step; it goes on where it was when another process sends it `SIGCONT`.
* `TaskApi.step` is one step, and `TaskApi.step_moves` what it can be. -/

namespace SmIpc.Os

/-! ## Threads -/

/-- The thread is in the loop of `wrap_task_fun`, up to `UNLOCK_SOURCE`. -/
def ThreadPc.inLoop : ThreadPc → Bool
  | searching | found _ => true
  | _ => false

/-- What a `sk_task_create` made its task with. -/
structure TaskCall where
  /-- `task_pfn`. -/
  taskPfn : Option ℕ
  /-- The task id it stored for its caller. -/
  taskId : ℕ
  deriving DecidableEq, Repr

/-- The arguments of `sk_task_create` that a node keeps besides the function. -/
structure CreateArgs where
  /-- `p_task_name`. -/
  name : List UInt8
  /-- `priority`. -/
  priority : ℕ
  deriving DecidableEq, Repr

/-- How far a thread is in the naming of `sk_task_create`. -/
inductive CreateStage where
  /-- In no call, or with all of it done. -/
  | none
  /-- The name has passed `sk_check_task_name`. -/
  | checked (args : CreateArgs)
  /-- A node has been taken. -/
  | unnamed (args : CreateArgs)
  /-- Past the test of `set_name_thread_info`. -/
  | naming (args : CreateArgs)
  /-- `set_name_thread_info` has returned. -/
  | named (args : CreateArgs)
  deriving DecidableEq, Repr

/-- A thread that may create tasks. -/
structure CreateThread extends TaskThread where
  /-- The `sk_task_create` that made it, none for a thread that is no task. -/
  call : Option TaskCall
  /-- The function that `wrap_task_fun` called, none before it does. -/
  ran : Option (Option ℕ)
  /-- How far its own `sk_task_create` is. -/
  stage : CreateStage
  deriving DecidableEq, Repr

/-- What a thread can be sent by way of its `pthread_t`. -/
inductive ThreadSignal where
  /-- `pthread_cancel`. -/
  | cancel
  /-- `SIGSTOP`. -/
  | stop
  /-- `SIGCONT`. -/
  | cont
  deriving DecidableEq, Repr

/-- A thread in `sk_task_wait_timeout`, `sk_task_suspend` or `sk_task_resume`, after the section. -/
structure Sending where
  /-- The thread to send to. -/
  pthT : ℕ
  /-- What is sent. -/
  signal : ThreadSignal
  /-- The call was made with the id of an ended task. No step reads this. -/
  ended : Bool
  deriving DecidableEq, Repr

/-- A thread. -/
structure ApiThread extends CreateThread where
  /-- `gettid`. -/
  tid : ℕ
  /-- What it is about to send. -/
  sending : Option Sending
  /-- `pthread_cancel` has been called for it. -/
  cancelled : Bool
  /-- The process has been sent `SIGSTOP` by this program, and no `SIGCONT` since. -/
  stopped : Bool
  /-- The nice value. -/
  nice : ℤ
  deriving DecidableEq, Repr

namespace ApiThread

/-- A signal arrives. -/
def receive (th : ApiThread) : ThreadSignal → ApiThread
  | .cancel => { th with cancelled := true }
  | .stop => { th with stopped := true }
  | .cont => { th with stopped := false }

/-- A signal to the thread with `pthread_t` `pthT`. The cancellation is for this thread only; `SIGSTOP` and
`SIGCONT` stop and continue the whole process, also where `pthread_kill` sends them to a thread. -/
def deliver (pthT : ℕ) (signal : ThreadSignal) (th : ApiThread) : ApiThread :=
  if (th.self = pthT ∨ signal ≠ .cancel) ∧ th.pc ≠ .exited then th.receive signal else th

/-- The signal is sent. -/
def sent (th : ApiThread) : ApiThread := { th with sending := none }

/-- `setpriority` for the thread with the kernel's id `who`. -/
def renice (who : ℕ) (pro : ℤ) (th : ApiThread) : ApiThread :=
  if th.tid = who ∧ th.pc ≠ .exited then { th with nice := kernelNice pro } else th

/-- The next thing a thread in this place does may be `LOCK_SOURCE`. -/
def atLock (th : ApiThread) : Bool :=
  match th.sending, th.pc, th.stage with
  | none, .running _, .none | none, .running _, .checked _ => true
  | none, .reserved .., .naming _ | none, .reserved .., .named _ => true
  | none, .createFreeing .., _ | none, .terminating .., _ => true
  | none, .searching, _ | none, .freeing _, _ => true
  | _, _, _ => false

/-- The thread is in the task function, or no task, and in no call. -/
def isIdle (th : ApiThread) : Bool :=
  match th.sending, th.pc, th.stage with
  | none, .running _, .none => true
  | _, _, _ => false

end ApiThread

/-! ## The machine -/

/-- `sem_thread_id`. -/
inductive SemThread where
  /-- Free. -/
  | free
  /-- A thread has taken it, and its section is to come. -/
  | entered (k : ℕ)
  /-- A thread has done its section and is about to give it back. -/
  | leaving (k : ℕ)
  deriving DecidableEq, Repr

/-- The thread that holds the lock, by its place in the list. -/
def SemThread.holder : SemThread → Option ℕ
  | free => none
  | entered k | leaving k => some k

/-- The table, `pid` of `sk_task_create`, the threads and the lock. -/
structure TaskApi where
  /-- `os_thread_info`. -/
  infos : TaskTable
  /-- `pid`. -/
  pid : ℕ
  /-- The threads. -/
  threads : List ApiThread
  /-- `sem_thread_id`. -/
  lock : SemThread
  /-- The `sk_task_create` that took the node last has returned `SK_SUCCESS`. -/
  created : ℕ → Bool

/-- What the system answers in a step. -/
structure SysAnswer where
  /-- The kernel's id of the thread that is made. -/
  gettid : ℕ := 0
  /-- `setpriority` succeeds. -/
  ok : Bool := true
  deriving DecidableEq, Repr

/-- What a thread does next. -/
inductive ApiAct where
  /-- `LOCK_SOURCE(thread)` returns. -/
  | lock
  /-- `UNLOCK_SOURCE(thread)`. -/
  | unlock
  /-- A step of `TaskSys`. -/
  | base (a : TaskAct) (answer : SysAnswer)
  /-- `sk_task_create` calls `sk_check_task_name`. -/
  | check (name : Option (List UInt8)) (priority : ℕ)
  /-- `sk_task_create` fails to set up the attributes of the thread. -/
  | attrFails
  /-- The test of `set_name_thread_info`. -/
  | testName
  /-- The section of `set_name_thread_info`. -/
  | setName
  /-- The section of `sk_task_wait` and `sk_task_wait_timeout`. -/
  | wait (taskId : ℕ)
  /-- The section of `sk_task_suspend`. -/
  | suspend (taskId : ℕ)
  /-- The section of `sk_task_resume`. -/
  | resume (taskId : ℕ)
  /-- `pthread_cancel` or `pthread_kill`, with success or not. -/
  | send (ok : Bool)
  /-- The section of `sk_task_get_status`. -/
  | getStatus (taskId : ℕ)
  /-- The section of `sk_task_set_priority`. -/
  | setPriority (taskId priority : ℕ) (ok : Bool)
  /-- The cancellation of the thread takes effect. -/
  | die
  deriving DecidableEq, Repr

/-- What a call returns. -/
inductive ApiRet where
  /-- What `TaskSys` has. -/
  | ret (ret : TaskRet)
  /-- `SK_SUCCESS` of `sk_task_get_status`, with this status stored. -/
  | taskStatus (taskStatus : SkTaskStatus)
  deriving DecidableEq, Repr

/-- The steps of `TaskSys` that are made under the lock. -/
def TaskAct.isSection : TaskAct → Bool
  | create _ | start _ | destroy _ | curId | term | search | setFree => true
  | join _ | call | ret | testUse | exit => false

/-- The step of `TaskSys` makes a thread. -/
def TaskAct.makes : TaskAct → Bool
  | start (.made _) => true
  | _ => false

/-- The stage of `sk_task_create` in which a step of `TaskSys` is made. -/
def TaskAct.atStage : TaskAct → CreateStage → Bool
  | create _, .checked _ | start _, .named _ => true
  | create _, _ | start _, _ => false
  | _, .none => true
  | _, _ => false

namespace TaskApi

/-- `os_thread_info` after `init_os_thread_info`, with `n` threads that are no tasks. -/
def init (n : ℕ) : TaskApi :=
  { infos := .init
    pid := 0
    threads := (List.range n).map fun k =>
      ⟨⟨⟨k + 1, none, .running none⟩, none, none, .none⟩, k + 1, none, false, false, 0⟩
    lock := .free
    created := fun _ => false }

/-- The part of the state that `TaskSys` has. -/
def sys (s : TaskApi) : TaskSys := ⟨s.infos.nodes, s.pid, s.threads.map (·.toTaskThread)⟩

/-- The task with this id has ended: its thread has exited, and no task that goes on has the id. -/
def ended (s : TaskApi) (taskId : ℕ) : Bool :=
  (s.threads.any fun th => th.call.any (·.taskId == taskId)) &&
    s.threads.all fun th => th.call.all fun c => c.taskId != taskId || th.pc == .exited

/-- The table after a step of `TaskSys`. -/
def infosAfter (s : TaskApi) (th : ApiThread) (a : TaskAct) (e : TaskEffect) : TaskTable :=
  match th.pc, a, th.stage, e.pc with
  | .reserved _ pInfo _, .start created, .named args, _ =>
      skTaskCreateDetails (s.infos.withNodes e.nodes) pInfo args.priority created.thread.isSome
  | .searching, .search, _, .found i => wrapTaskFunDetails (s.infos.withNodes e.nodes) i th.tid
  | _, _, _, _ => s.infos.withNodes e.nodes

/-- The nice value of a thread after a step of `TaskSys`: `wrap_task_fun` sets its own. -/
def niceAfter (w : ℕ) (s : TaskApi) (th : ApiThread) (answer : SysAnswer) (e : TaskEffect) : ℤ :=
  match th.pc, e.pc with
  | .searching, .found i =>
      if (s.infos i).taskPro ≠ skTaskDefaultPriority ∧ answer.ok then
        kernelNice (nicePro w (s.infos i).taskPro)
      else th.nice
  | _, _ => th.nice

/-- The stage of the thread after a step of `TaskSys`. -/
def stageAfter (th : ApiThread) (e : TaskEffect) : CreateStage :=
  match e.pc, th.stage with
  | .reserved .., .checked args => .unnamed args
  | _, _ => .none

/-- The function the thread has called after a step of `TaskSys`. -/
def ranAfter (s : TaskApi) (th : ApiThread) (a : TaskAct) : Option (Option ℕ) :=
  match th.pc, a with
  | .found i, .call => some (s.infos i).taskFun
  | _, _ => th.ran

/-- The `sk_task_create` that has made a thread. -/
def callAfter (th : ApiThread) (e : TaskEffect) : Option TaskCall :=
  match th.pc, e.ret with
  | .reserved _ _ taskPfn, some (.taskId taskId) => some ⟨taskPfn, taskId⟩
  | _, _ => none

/-- The nodes whose `sk_task_create` has returned, after a step of `TaskSys`. -/
def createdAfter (s : TaskApi) (th : ApiThread) (e : TaskEffect) : ℕ → Bool :=
  match th.pc, e.pc, e.made with
  | .running _, .reserved _ pInfo _, _ => Function.update s.created pInfo false
  | .reserved _ pInfo _, _, some _ => Function.update s.created pInfo true
  | _, _, _ => s.created

/-- The thread that has taken a step of `TaskSys`. -/
def threadAfter (w : ℕ) (s : TaskApi) (th : ApiThread) (a : TaskAct) (answer : SysAnswer)
    (e : TaskEffect) : ApiThread :=
  { th with
    pc := e.pc
    ran := s.ranAfter th a
    stage := stageAfter th e
    nice := s.niceAfter w th answer e }

/-- The thread that a step of `TaskSys` has made. -/
def threadMade (th : ApiThread) (answer : SysAnswer) (e : TaskEffect) (made : TaskThread) :
    ApiThread :=
  { toTaskThread := made
    call := callAfter th e
    ran := none
    stage := .none
    tid := answer.gettid
    sending := none
    cancelled := false
    stopped := false
    nice := th.nice }

/-- The state after a step of `TaskSys` by thread `k`. -/
def afterBase (w : ℕ) (s : TaskApi) (k : ℕ) (th : ApiThread) (a : TaskAct) (answer : SysAnswer)
    (e : TaskEffect) : TaskApi :=
  { infos := s.infosAfter th a e
    pid := e.pid
    threads := s.threads.set k (s.threadAfter w th a answer e) ++
      (e.made.map (threadMade th answer e)).toList
    lock := if a.isSection then .leaving k else s.lock
    created := s.createdAfter th e }

/-- Thread `k` may take a step of `TaskSys`: it is in no other call, it has the lock for a section and does
not have it elsewhere, and the kernel's id of a thread it makes is not in use. -/
def MayBase (s : TaskApi) (k : ℕ) (th : ApiThread) (a : TaskAct) (answer : SysAnswer) : Prop :=
  (a.atStage th.stage = true ∧ th.sending = none) ∧
    (if a.isSection then s.lock = .entered k else s.lock.holder ≠ some k) ∧
    (a.makes = true → ∀ th' ∈ s.threads, th'.pc ≠ .exited → th'.tid ≠ answer.gettid)

instance (s : TaskApi) (k : ℕ) (th : ApiThread) (a : TaskAct) (answer : SysAnswer) :
    Decidable (s.MayBase k th a answer) :=
  inferInstanceAs (Decidable (_ ∧ _ ∧ (_ → ∀ th' ∈ s.threads, _)))

/-- A step of thread `k` outside the lock. -/
def outside {α : Type} (s : TaskApi) (k : ℕ) (r : Option α) : Option α :=
  if s.lock.holder = some k then none else r

/-- A section of a call by thread `k`. -/
def inCall {α : Type} (s : TaskApi) (k : ℕ) (th : ApiThread) (r : α) : Option α :=
  if s.lock = .entered k ∧ th.isIdle then some r else none

/-- Thread `k` has moved. -/
def put (s : TaskApi) (k : ℕ) (th : ApiThread) : TaskApi := { s with threads := s.threads.set k th }

/-- Thread `k` has done its section. -/
def leave (s : TaskApi) (k : ℕ) (infos : TaskTable) (th : ApiThread) : TaskApi :=
  { s with infos := infos, threads := s.threads.set k th, lock := .leaving k }

/-- The threads after a signal to `pthT`, which gets nowhere if that thread has exited. -/
def deliverAll (s : TaskApi) (pthT : ℕ) (signal : ThreadSignal) : List ApiThread :=
  if s.sys.Alive pthT then s.threads.map (ApiThread.deliver pthT signal) else s.threads

/-- Thread `k` goes on to send a signal, or has returned. -/
def afterLookup (s : TaskApi) (k : ℕ) (th : ApiThread) (taskId : ℕ) (signal : ThreadSignal) :
    Except SkStatus (ℕ × TaskTable) → Option ApiRet × TaskApi
  | .ok (pthT, infos) =>
      (none, s.leave k infos { th with sending := some ⟨pthT, signal, s.ended taskId⟩ })
  | .error status => (some (.ret (.status status)), s.leave k s.infos th)

/-- What thread `k` does; `none` when it cannot take the step. -/
def act (w maxOsNameNum : ℕ) (s : TaskApi) (k : ℕ) (th : ApiThread) :
    ApiAct → Option (Option ApiRet × TaskApi)
  | .lock => if s.lock = .free ∧ th.atLock then some (none, { s with lock := .entered k }) else none
  | .unlock => if s.lock = .leaving k then some (none, { s with lock := .free }) else none
  | .base a answer =>
      if s.MayBase k th a answer then
        (s.sys.act w th.self th.pc a).map fun e =>
          (e.ret.map .ret, s.afterBase w k th a answer e)
      else none
  | .check name priority =>
      s.outside k <|
        if th.isIdle then
          if skCheckTaskName maxOsNameNum s.infos name = .success then
            -- not `NULL`, since it passed
            some (none, s.put k { th with stage := .checked ⟨name.getD [], priority⟩ })
          else some (some (.ret (.status .errorBadParameter)), s)
        else none
  | .attrFails =>
      s.outside k <|
        match th.stage with
        | .checked _ => some (some (.ret (.status .failed)), s.put k { th with stage := .none })
        | _ => none
  | .testName =>
      s.outside k <|
        match th.pc, th.stage with
        | .reserved _ pInfo _, .unnamed args =>
            if (s.infos pInfo).isUse then some (none, s.put k { th with stage := .naming args })
            -- `SK_FAILED`, which `sk_task_create` does not look at
            else some (none, s.put k { th with stage := .named args })
        | _, _ => none
  | .setName =>
      match th.pc, th.stage with
      | .reserved _ pInfo _, .naming args =>
          if s.lock = .entered k then
            some (none, s.leave k (setNameThreadInfo maxOsNameNum s.infos pInfo args.name)
              { th with stage := .named args })
          else none
      | _, _ => none
  | .wait taskId =>
      s.inCall k th <| s.afterLookup k th taskId .cancel <|
        (skTaskWaitTimeout s.infos taskId).map fun pthT => (pthT, s.infos)
  | .suspend taskId =>
      s.inCall k th <| s.afterLookup k th taskId .stop (skTaskSuspend s.infos taskId)
  | .resume taskId =>
      s.inCall k th <| s.afterLookup k th taskId .cont (skTaskResume s.infos taskId)
  | .send ok =>
      s.outside k <|
        match th.sending with
        | some c =>
            if s.sys.Alive c.pthT ∧ ok = false then none
            else if ok then
              some (some (.ret (.status .success)),
                { s with threads := (s.deliverAll c.pthT c.signal).modify k ApiThread.sent })
            else some (some (.ret (.status .failed)), s.put k th.sent)
        | none => none
  | .getStatus taskId =>
      s.inCall k th <|
        match skTaskGetStatus s.infos taskId with
        | .ok taskStatus => (some (.taskStatus taskStatus), s.leave k s.infos th)
        | .error status => (some (.ret (.status status)), s.leave k s.infos th)
  | .setPriority taskId priority ok =>
      s.inCall k th <|
        let r := skTaskSetPriority w s.infos taskId priority ok
        (some (.ret (.status r.1)),
          { s with
            infos := r.2.1
            threads :=
              match r.2.2 with
              -- the calling thread for 0
              | some (taskPid, pro) =>
                  s.threads.map (ApiThread.renice (if taskPid = 0 then th.tid else taskPid) pro)
              | none => s.threads
            lock := .leaving k })
  | .die =>
      -- before it is enabled, only where the thread waits, not under the lock
      if (th.cancelled = true ∧ th.pc ≠ .exited) ∧
          ¬ (th.pc.inLoop = true ∧ s.lock.holder = some k) then
        some (none, s.put k { th with pc := .exited, stage := .none, sending := none })
      else none

/-- One step: a thread, by its place in the list, and what it does. A thread that is made comes last. -/
def step (w maxOsNameNum : ℕ) : StepMachine TaskApi (ℕ × ApiAct) (Option ApiRet) := fun s i =>
  match s.threads[i.1]? with
  | some th => s.act w maxOsNameNum i.1 th i.2
  | none => none

variable {w m k : ℕ} {s t : TaskApi} {th : ApiThread} {a : ApiAct} {o : Option ApiRet}

/-! ## What a step can be -/

/-- A move within the naming of `sk_task_create`: the stage and the table it leaves. -/
inductive Names (m : ℕ) (s : TaskApi) (th : ApiThread) : ApiAct → CreateStage → TaskTable → Prop
  /-- The name passes `sk_check_task_name`. -/
  | checked {name : Option (List UInt8)} {priority : ℕ} (hstage : th.stage = .none)
      (hcheck : skCheckTaskName m s.infos name = .success) :
      Names m s th (.check name priority) (.checked ⟨name.getD [], priority⟩) s.infos
  /-- `sk_task_create` fails before it takes a node. -/
  | failed {args : CreateArgs} (hstage : th.stage = .checked args) :
      Names m s th .attrFails .none s.infos
  /-- `set_name_thread_info` finds the node in use. -/
  | tested {i : Option ℕ} {pInfo : ℕ} {taskPfn : Option ℕ} {args : CreateArgs}
      (hpc : th.pc = .reserved i pInfo taskPfn) (hstage : th.stage = .unnamed args) :
      Names m s th .testName (.naming args) s.infos
  /-- It does not, and leaves the node without the name. -/
  | skipped {i : Option ℕ} {pInfo : ℕ} {taskPfn : Option ℕ} {args : CreateArgs}
      (hpc : th.pc = .reserved i pInfo taskPfn) (hstage : th.stage = .unnamed args)
      (huse : (s.infos pInfo).isUse = false) : Names m s th .testName (.named args) s.infos
  /-- The name is stored. -/
  | named {i : Option ℕ} {pInfo : ℕ} {taskPfn : Option ℕ} {args : CreateArgs}
      (hpc : th.pc = .reserved i pInfo taskPfn) (hstage : th.stage = .naming args) :
      Names m s th .setName (.named args) (setNameThreadInfo m s.infos pInfo args.name)

/-- **What a step can do.** -/
inductive Moves (w m : ℕ) (s : TaskApi) (k : ℕ) (th : ApiThread) : ApiAct → TaskApi → Prop
  /-- A step of `TaskSys`. -/
  | base {a : TaskAct} {answer : SysAnswer} {e : TaskEffect} (hmay : s.MayBase k th a answer)
      (hact : s.sys.act w th.self th.pc a = some e) :
      Moves w m s k th (.base a answer) (s.afterBase w k th a answer e)
  /-- A move within the naming. -/
  | names {a : ApiAct} {stage : CreateStage} {infos : TaskTable} {lock : SemThread}
      (hnames : Names m s th a stage infos) (hlock : lock.holder = s.lock.holder) :
      Moves w m s k th a { s with
        infos := infos, threads := s.threads.set k { th with stage := stage }, lock := lock }
  /-- A step that changes nothing of a node that `TaskSys` has, no name, and nothing of a thread that has
  to do with the tasks it makes or is. -/
  | quiet {a : ApiAct} {infos : TaskTable} {threads : List ApiThread} {lock : SemThread}
      (hnodes : infos.nodes = s.infos.nodes) (hnames : ∀ n, (infos n).strName = (s.infos n).strName)
      (hthreads : threads.map (·.toCreateThread) = s.threads.map (·.toCreateThread))
      (hlock : ∀ j, lock.holder = some j → s.lock.holder = some j ∨ j = k ∧ th.pc ≠ .exited)
      (hquiet : (∀ b answer, a ≠ .base b answer) ∧ a ≠ .die) :
      Moves w m s k th a { s with infos := infos, threads := threads, lock := lock }
  /-- A cancellation takes effect. -/
  | die (hlive : th.pc ≠ .exited) :
      Moves w m s k th .die (s.put k { th with pc := .exited, stage := .none, sending := none })

/-- Threads that change nothing of what they have to do with tasks. -/
theorem map_map_self {f : ApiThread → ApiThread} (h : ∀ th, (f th).toCreateThread = th.toCreateThread)
    (l : List ApiThread) : (l.map f).map (·.toCreateThread) = l.map (·.toCreateThread) := by
  rw [List.map_map]
  exact List.map_congr_left fun th _ => h th

@[simp] theorem toCreateThread_deliver (pthT : ℕ) (signal : ThreadSignal) (th : ApiThread) :
    (th.deliver pthT signal).toCreateThread = th.toCreateThread := by
  rw [ApiThread.deliver]
  split
  · cases signal <;> rfl
  · rfl

@[simp] theorem toCreateThread_deliverAll (pthT : ℕ) (signal : ThreadSignal) :
    (s.deliverAll pthT signal).map (·.toCreateThread) = s.threads.map (·.toCreateThread) := by
  rw [deliverAll]
  split
  · exact map_map_self (toCreateThread_deliver pthT signal) _
  · rfl

@[simp] theorem toCreateThread_renice (who : ℕ) (pro : ℤ) (th : ApiThread) :
    (th.renice who pro).toCreateThread = th.toCreateThread := by
  rw [ApiThread.renice]
  split <;> rfl

/-- Inversion of a step outside the lock. -/
theorem outside_some {α : Type} {r : Option α} {x : α} (h : s.outside k r = some x) : r = some x := by
  rw [outside] at h
  split at h
  · cases h
  · exact h

/-- Inversion of a section. -/
theorem inCall_some {α : Type} {r x : α} (h : s.inCall k th r = some x) :
    s.lock = .entered k ∧ th.isIdle = true ∧ r = x := by
  rw [inCall] at h
  split at h
  · exact ⟨‹_ ∧ _›.1, ‹_ ∧ _›.2, Option.some.inj h⟩
  · cases h

/-- A thread in no call has not exited, and is in no `sk_task_create`. -/
theorem isIdle_iff : th.isIdle = true ↔
    th.sending = none ∧ (∃ i, th.pc = .running i) ∧ th.stage = .none := by
  unfold ApiThread.isIdle
  split <;> simp_all

theorem pc_of_atLock (h : th.atLock = true) : th.pc ≠ .exited := by
  intro hpc
  unfold ApiThread.atLock at h
  rw [hpc] at h
  split at h <;> simp_all

/-- A call's section, after which its thread is where it was. -/
theorem Moves.leave {infos : TaskTable} {sending : Option Sending} (hth : s.threads[k]? = some th)
    (hlock : s.lock = .entered k) (hnodes : infos.nodes = s.infos.nodes)
    (hnames : ∀ n, (infos n).strName = (s.infos n).strName)
    (hquiet : (∀ b answer, a ≠ .base b answer) ∧ a ≠ .die) :
    Moves w m s k th a (s.leave k infos { th with sending := sending }) := by
  refine .quiet hnodes hnames (ThreadPool.map_set_of_eq _ hth rfl) (fun j hj => .inl ?_) hquiet
  rw [hlock]
  exact hj

theorem Moves.afterLookup {taskId : ℕ} {signal : ThreadSignal} {r : Except SkStatus (ℕ × TaskTable)}
    (hth : s.threads[k]? = some th) (hlock : s.lock = .entered k)
    (hr : ∀ pthT infos, r = .ok (pthT, infos) →
      infos.nodes = s.infos.nodes ∧ ∀ n, (infos n).strName = (s.infos n).strName)
    (hquiet : (∀ b answer, a ≠ .base b answer) ∧ a ≠ .die) :
    Moves w m s k th a (s.afterLookup k th taskId signal r).2 := by
  cases r with
  | error status => exact .leave hth hlock rfl (fun _ => rfl) hquiet
  | ok r =>
    obtain ⟨hnodes, hnames⟩ := hr r.1 r.2 rfl
    exact .leave hth hlock hnodes hnames hquiet

theorem act_moves (hth : s.threads[k]? = some th) (h : s.act w m k th a = some (o, t)) :
    s.Moves w m k th a t := by
  cases a with
  | lock =>
    simp only [act] at h
    split at h
    · rename_i hlock
      cases h
      refine .quiet rfl (fun _ => rfl) rfl (fun j hj => .inr ?_) (by simp)
      exact ⟨(Option.some.inj hj).symm, pc_of_atLock hlock.2⟩
    · cases h
  | unlock =>
    simp only [act] at h
    split at h
    · cases h
      exact .quiet rfl (fun _ => rfl) rfl (fun j hj => by cases hj) (by simp)
    · cases h
  | base a answer =>
    simp only [act] at h
    split at h
    · rename_i hmay
      obtain ⟨e, hact, he⟩ := Option.map_eq_some_iff.mp h
      cases he
      exact .base hmay hact
    · cases h
  | check name priority =>
    have hsame : Moves w m s k th (.check name priority) s :=
      Moves.quiet rfl (fun _ => rfl) rfl (fun j (hj : s.lock.holder = some j) => .inl hj) (by simp)
    have h := outside_some h
    split at h
    · rename_i hidle
      split at h
      · rename_i hcheck
        cases h
        exact .names (.checked (isIdle_iff.mp hidle).2.2 hcheck) rfl
      · cases h
        exact hsame
    · cases h
  | attrFails =>
    have h := outside_some h
    split at h
    · rename_i args hstage
      cases h
      exact .names (.failed hstage) rfl
    · cases h
  | testName =>
    have h := outside_some h
    split at h
    · rename_i i pInfo taskPfn args hpc hstage
      split at h
      · cases h
        exact .names (.tested hpc hstage) rfl
      · rename_i huse
        cases h
        exact .names (.skipped hpc hstage (Bool.eq_false_iff.mpr huse)) rfl
    · cases h
  | setName =>
    simp only [act] at h
    split at h
    · rename_i i pInfo taskPfn args hpc hstage
      split at h
      · rename_i hlock
        cases h
        exact .names (.named hpc hstage) (by rw [hlock]; rfl)
      · cases h
    · cases h
  | wait taskId =>
    obtain ⟨hlock, -, hr⟩ := inCall_some h
    rw [show t = _ from (congrArg Prod.snd hr).symm]
    refine .afterLookup hth hlock ?_ (by simp)
    intro pthT infos hinfos
    cases hwait : skTaskWaitTimeout s.infos taskId with
    | error status =>
      rw [hwait] at hinfos
      cases hinfos
    | ok pthT =>
      rw [hwait] at hinfos
      cases hinfos
      exact ⟨rfl, fun _ => rfl⟩
  | suspend taskId =>
    obtain ⟨hlock, -, hr⟩ := inCall_some h
    rw [show t = _ from (congrArg Prod.snd hr).symm]
    exact .afterLookup hth hlock (fun _ _ => taskSwitch_table) (by simp)
  | resume taskId =>
    obtain ⟨hlock, -, hr⟩ := inCall_some h
    rw [show t = _ from (congrArg Prod.snd hr).symm]
    exact .afterLookup hth hlock (fun _ _ => taskSwitch_table) (by simp)
  | send ok =>
    have h := outside_some h
    split at h
    · rename_i c hsending
      split at h
      · cases h
      · split at h
        · cases h
          refine .quiet rfl (fun _ => rfl) ?_ (fun j hj => .inl hj) (by simp)
          have hsent : ∀ th : ApiThread, th.sent.toCreateThread = th.toCreateThread := fun _ => rfl
          exact (ThreadPool.map_modify_of_eq _ hsent _ k).trans (toCreateThread_deliverAll _ _)
        · cases h
          exact .quiet rfl (fun _ => rfl) (ThreadPool.map_set_of_eq _ hth rfl) (fun j hj => .inl hj) (by simp)
    · cases h
  | getStatus taskId =>
    obtain ⟨hlock, -, hr⟩ := inCall_some h
    split at hr
    · cases hr
      exact .leave hth hlock rfl (fun _ => rfl) (by simp)
    · cases hr
      exact .leave hth hlock rfl (fun _ => rfl) (by simp)
  | setPriority taskId priority ok =>
    obtain ⟨hlock, -, hr⟩ := inCall_some h
    cases hr
    have htable := skTaskSetPriority_table w s.infos taskId priority ok
    refine .quiet htable.1 htable.2 ?_ (fun j hj => .inl ?_) (by simp)
    · split
      · exact map_map_self (toCreateThread_renice _ _) _
      · rfl
    · rw [hlock]
      exact hj
  | die =>
    simp only [act] at h
    split at h
    · rename_i hdie
      cases h
      exact .die hdie.1.2
    · cases h

/-- **Inversion of a step.** -/
theorem step_moves {i : ℕ × ApiAct} (hs : step w m s i = some (o, t)) :
    ∃ th, s.threads[i.1]? = some th ∧ s.Moves w m i.1 th i.2 t := by
  rw [step] at hs
  split at hs
  · rename_i th hth
    exact ⟨th, hth, act_moves hth hs⟩
  · cases hs

/-! ## The part that `TaskSys` has -/

theorem sys_getElem? (hth : s.threads[k]? = some th) : s.sys.threads[k]? = some th.toTaskThread := by
  rw [sys, List.getElem?_map, hth]
  rfl

theorem nodes_infosAfter (s : TaskApi) (th : ApiThread) (a : TaskAct) (e : TaskEffect) :
    (s.infosAfter th a e).nodes = e.nodes := by
  unfold infosAfter
  split
  · rw [nodes_skTaskCreateDetails, TaskTable.nodes_withNodes]
  · rw [nodes_wrapTaskFunDetails, TaskTable.nodes_withNodes]
  · rw [TaskTable.nodes_withNodes]

/-- A step of `TaskSys` is one there. -/
theorem sys_afterBase (w : ℕ) (s : TaskApi) (k : ℕ) (th : ApiThread) (a : TaskAct)
    (answer : SysAnswer) (e : TaskEffect) :
    (s.afterBase w k th a answer e).sys =
      ⟨e.nodes, e.pid, s.sys.threads.set k (th.toTaskThread.goto e.pc) ++ e.made.toList⟩ := by
  have hmade : ((e.made.map (threadMade th answer e)).toList.map (·.toTaskThread)) =
      e.made.toList := by
    cases e.made <;> rfl
  rw [sys, afterBase, nodes_infosAfter, List.map_append, hmade, List.map_set]
  rfl

/-- The naming leaves what `TaskSys` has of the nodes. -/
theorem Names.nodes {stage : CreateStage} {infos : TaskTable} (h : Names m s th a stage infos) :
    infos.nodes = s.infos.nodes := by
  cases h with
  | named => exact nodes_setNameThreadInfo ..
  | _ => rfl

/-- A step that is none of `TaskSys` leaves its part as it is. -/
theorem sys_names {stage : CreateStage} {infos : TaskTable} {lock : SemThread}
    (hth : s.threads[k]? = some th) (h : Names m s th a stage infos) :
    sys { s with infos := infos, threads := s.threads.set k { th with stage := stage }, lock := lock } =
      s.sys := by
  have hthreads : (s.threads.set k { th with stage := stage }).map (·.toTaskThread) =
      s.threads.map (·.toTaskThread) :=
    ThreadPool.map_set_of_eq _ hth rfl
  rw [sys, sys, h.nodes, hthreads]

theorem sys_quiet {infos : TaskTable} {threads : List ApiThread} {lock : SemThread}
    (hnodes : infos.nodes = s.infos.nodes)
    (hthreads : threads.map (·.toCreateThread) = s.threads.map (·.toCreateThread)) :
    sys { s with infos := infos, threads := threads, lock := lock } = s.sys := by
  have hmap := congrArg (List.map (·.toTaskThread)) hthreads
  rw [List.map_map, List.map_map] at hmap
  rw [sys, sys, hnodes]
  exact congrArg _ hmap

theorem sys_die (s : TaskApi) (k : ℕ) (th : ApiThread) :
    sys (s.put k { th with pc := .exited, stage := .none, sending := none }) =
      { s.sys with threads := s.sys.threads.set k (th.toTaskThread.goto .exited) } := by
  rw [sys, put, List.map_set]
  rfl

/-- A step of `TaskSys` is one of its machine. -/
theorem sys_step (hth : s.threads[k]? = some th) {a : TaskAct} {answer : SysAnswer} {e : TaskEffect}
    (hact : s.sys.act w th.self th.pc a = some e) :
    TaskSys.step w s.sys (k, a) = some (e.ret, (s.afterBase w k th a answer e).sys) := by
  rw [TaskSys.step, sys_getElem? hth, sys_afterBase]
  dsimp only
  rw [hact]
  rfl

/-! ## Calls that nothing interrupts -/

/-- `sk_task_create` by thread `k`, which makes the thread with the ids `thread` and `gettid`. -/
def createSteps (k : ℕ) (name : List UInt8) (taskPfn : Option ℕ) (thread gettid : ℕ) :
    List (ℕ × ApiAct) :=
  [.check (some name) skTaskDefaultPriority, .lock, .base (.create taskPfn) {}, .unlock, .testName,
    .lock, .setName, .unlock, .lock, .base (.start (.made thread)) { gettid := gettid }, .unlock].map
      (k, ·)

/-- `wrap_task_fun` up to the task function. -/
def enterSteps (k : ℕ) : List (ℕ × ApiAct) :=
  [.lock, .base .search {}, .unlock, .base .call {}].map (k, ·)

/-- The return of the task function and what `wrap_task_fun` does then, up to `pthread_exit`. -/
def returnSteps (k : ℕ) : List (ℕ × ApiAct) :=
  [.base .ret {}, .base .testUse {}, .lock, .base .setFree {}, .unlock].map (k, ·)

/-- `sk_task_wait_timeout` by thread `k`, for a task whose thread is there. -/
def waitSteps (k taskId : ℕ) : List (ℕ × ApiAct) :=
  [.lock, .wait taskId, .unlock, .send true].map (k, ·)

end TaskApi

end SmIpc.Os
