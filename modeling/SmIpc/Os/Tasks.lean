import Mathlib.Logic.Function.Basic
import SmIpc.Lib.Machine
import SmIpc.Lib.ThreadPool
import SmIpc.Os.Base

/-! # The task table of `skyapi_task.c`

`os_thread_info` and what each function does with it between locking and unlocking `sem_thread_id`,
and the machine of any number of threads that call `sk_task_create`, `sk_task_destroy` and
`sk_task_term` or run `wrap_task_fun`. One step is a section under the lock, the test that
`set_free_thread_info` makes without it, the call or the return of a task function, a `pthread_join`
or the end of a thread. `pthread_create` is part of the section that calls it.

* The step's input says which thread moves and what the system answers: the thread `pthread_create`
  makes, or what it leaves for the id if it fails, and whether `pthread_join` succeeds.
* A thread keeps the node its `sk_task_create` took for it. No step reads this record; it says which
  task is whose (`TaskThread.node`).
* `TaskSys.step` is one step, and `TaskSys.Acts` what it can be (`act_acts`). -/

namespace SmIpc.Os

/-- `MAX_THREAD_COUNT`. -/
def maxThreadCount : ℕ := 80

/-- `sky_os_thread_info_t`, without the name, the priority, the process id and the status. -/
structure TaskNode where
  /-- `is_use` is `IS_USE_FLAGE`. -/
  isUse : Bool
  /-- The id `pthread_create` stored. -/
  threadId : ℕ
  /-- The address of the task function, none for `NULL`. -/
  taskFun : Option ℕ
  /-- The task id. -/
  taskSkId : ℕ
  deriving DecidableEq, Repr

/-- `os_thread_info`, by index. -/
abbrev OsThreadInfo := ℕ → TaskNode

namespace OsThreadInfo

/-- `os_thread_info` after `init_os_thread_info`. -/
def init : OsThreadInfo := fun _ => ⟨false, 0, none, 0⟩

/-- The marks. -/
def use (nodes : OsThreadInfo) : ℕ → Bool := fun n => (nodes n).isUse

/-- A node changed apart from its mark. -/
theorem use_update_of_eq {nodes : OsThreadInfo} {n : ℕ} {node : TaskNode}
    (h : node.isUse = (nodes n).isUse) : use (Function.update nodes n node) = nodes.use := by
  funext m
  rw [use, use, Function.update_apply]
  split
  · rw [h, ‹m = n›]
  · rfl

/-- A node whose mark is changed. -/
theorem use_update (nodes : OsThreadInfo) (n : ℕ) (node : TaskNode) :
    use (Function.update nodes n node) = Function.update nodes.use n node.isUse := by
  funext m
  rw [use, Function.update_apply, Function.update_apply]
  split <;> rfl

end OsThreadInfo

/-! ## The sections -/

/-- The first node of the table that passes a test. -/
def firstNode (test : TaskNode → Bool) (nodes : OsThreadInfo) : Option ℕ :=
  (List.range maxThreadCount).find? fun i => test (nodes i)

/-- The node found passes the test. -/
theorem firstNode_spec {test : TaskNode → Bool} {nodes : OsThreadInfo} {i : ℕ}
    (h : firstNode test nodes = some i) : test (nodes i) = true := by
  have htest := List.find?_some h
  exact htest

/-- `get_free_thread_info`: the node it takes. -/
def getFreeThreadInfo (nodes : OsThreadInfo) : Option ℕ × OsThreadInfo :=
  match firstNode (fun node => !node.isUse) nodes with
  | some i => (some i, Function.update nodes i { nodes i with isUse := true })
  | none => (none, nodes)

/-- `is_use = NO_USE_FLAGE`, in the section of `set_free_thread_info` and elsewhere. -/
def setNoUse (nodes : OsThreadInfo) (i : ℕ) : OsThreadInfo :=
  Function.update nodes i { nodes i with isUse := false }

/-- `get_task_info`: the first node with the task id, in use or not. -/
def getTaskInfo (nodes : OsThreadInfo) (taskId : ℕ) : Option ℕ :=
  firstNode (fun node => node.taskSkId == taskId) nodes

/-- The search of `wrap_task_fun` and `sk_task_cur_id` for the node of the calling thread. -/
def findSelf (nodes : OsThreadInfo) (self : ℕ) : Option ℕ :=
  firstNode (fun node => self == node.threadId && node.isUse) nodes

/-- What `pthread_create` does. -/
inductive PthreadCreate where
  /-- It makes a thread with this id, which it stores. -/
  | made (threadId : ℕ)
  /-- It fails, and leaves this in the place for the id. -/
  | failed (left : ℕ)
  deriving DecidableEq, Repr

/-- The thread it makes. -/
def PthreadCreate.thread : PthreadCreate → Option ℕ
  | made threadId => some threadId
  | failed _ => none

/-- The section of `sk_task_create` with `pthread_create`: the table and `pid`. -/
def skTaskCreateStore (w : ℕ) (nodes : OsThreadInfo) (pid pInfo : ℕ) (taskPfn : Option ℕ) :
    PthreadCreate → OsThreadInfo × ℕ
  | .made threadId =>
      let pid := u32 w (pid + 1)
      (Function.update nodes pInfo
        { nodes pInfo with taskFun := taskPfn, threadId := threadId, taskSkId := pid }, pid)
  | .failed left =>
      (Function.update nodes pInfo { nodes pInfo with taskFun := taskPfn, threadId := left }, pid)

/-- The section of `sk_task_destroy`: the thread to join and the table, or what it returns. -/
def skTaskDestroy (nodes : OsThreadInfo) (taskId : ℕ) : Except SkStatus (ℕ × OsThreadInfo) :=
  match getTaskInfo nodes taskId with
  | none => .error .errorBadParameter
  | some i =>
      if (nodes i).isUse then .ok ((nodes i).threadId, setNoUse nodes i) else .error .failed

/-- The section of `sk_task_term` after `sk_task_cur_id`; none if it does not find the id. -/
def skTaskTerm (nodes : OsThreadInfo) (curTaskId : ℕ) : Option OsThreadInfo :=
  (getTaskInfo nodes curTaskId).map (setNoUse nodes)

/-- `sk_task_cur_id`: the task id of the calling thread, if it finds its node. -/
def skTaskCurId (nodes : OsThreadInfo) (self : ℕ) : Option ℕ :=
  (findSelf nodes self).map fun i => (nodes i).taskSkId

@[simp] theorem use_setNoUse (nodes : OsThreadInfo) (i : ℕ) :
    (setNoUse nodes i).use = Function.update nodes.use i false :=
  nodes.use_update i _

/-- The node that `get_free_thread_info` takes was not in use. -/
theorem getFreeThreadInfo_some {nodes nodes' : OsThreadInfo} {i : ℕ}
    (h : getFreeThreadInfo nodes = (some i, nodes')) :
    nodes.use i = false ∧ nodes'.use = Function.update nodes.use i true := by
  rw [getFreeThreadInfo] at h
  split at h
  · rename_i j hfirst
    obtain ⟨hi, rfl⟩ := Prod.mk.inj h
    obtain rfl := Option.some.inj hi
    have hfree := firstNode_spec hfirst
    rw [Bool.not_eq_true'] at hfree
    exact ⟨hfree, nodes.use_update j _⟩
  · cases h

theorem getFreeThreadInfo_none {nodes nodes' : OsThreadInfo}
    (h : getFreeThreadInfo nodes = (none, nodes')) : nodes' = nodes := by
  rw [getFreeThreadInfo] at h
  split at h
  · cases h
  · exact (Prod.mk.inj h).2.symm

/-- What `sk_task_destroy` marks as not in use is the node with the task id. -/
theorem skTaskDestroy_ok {nodes nodes' : OsThreadInfo} {taskId pthT : ℕ}
    (h : skTaskDestroy nodes taskId = .ok (pthT, nodes')) :
    ∃ i, getTaskInfo nodes taskId = some i ∧ (nodes i).isUse = true ∧ nodes' = setNoUse nodes i := by
  rw [skTaskDestroy] at h
  split at h
  · cases h
  · rename_i i hinfo
    split at h
    · obtain ⟨-, rfl⟩ := Prod.mk.inj (Except.ok.inj h)
      exact ⟨i, hinfo, ‹_›, rfl⟩
    · cases h

/-- Where `sk_task_destroy` is refused, its task is not in use. -/
theorem skTaskDestroy_error {nodes : OsThreadInfo} {taskId : ℕ} {status : SkStatus}
    (h : skTaskDestroy nodes taskId = .error status) {i : ℕ}
    (hi : getTaskInfo nodes taskId = some i) : (nodes i).isUse = false := by
  rw [skTaskDestroy, hi] at h
  dsimp only at h
  split at h
  · cases h
  · exact Bool.eq_false_iff.mpr ‹_›

/-- The section with `pthread_create` leaves the marks as they are. -/
@[simp] theorem use_skTaskCreateStore (w : ℕ) (nodes : OsThreadInfo) (pid pInfo : ℕ)
    (taskPfn : Option ℕ) (created : PthreadCreate) :
    (skTaskCreateStore w nodes pid pInfo taskPfn created).1.use = nodes.use := by
  cases created <;> exact OsThreadInfo.use_update_of_eq rfl

/-- It writes its node only. -/
theorem skTaskCreateStore_eq (w : ℕ) (nodes : OsThreadInfo) (pid pInfo : ℕ) (taskPfn : Option ℕ)
    (created : PthreadCreate) :
    (skTaskCreateStore w nodes pid pInfo taskPfn created).1 =
      Function.update nodes pInfo ((skTaskCreateStore w nodes pid pInfo taskPfn created).1 pInfo) := by
  cases created <;> simp only [skTaskCreateStore, Function.update_self]

/-! ## Threads -/

/-- Where a thread stands. A thread that is a task holds the loop index `i` of its `wrap_task_fun`
from the search on; it is none for the other threads. -/
inductive ThreadPc where
  /-- In the loop of `wrap_task_fun`. -/
  | searching
  /-- In `wrap_task_fun`, about to call the task function. -/
  | found (i : ℕ)
  /-- In the task function, or in a thread that is no task, and in no call. -/
  | running (i : Option ℕ)
  /-- In `sk_task_create`, with the node it took. -/
  | reserved (i : Option ℕ) (pInfo : ℕ) (taskPfn : Option ℕ)
  /-- In `sk_task_create`, where `pthread_create` failed. -/
  | createFailed (i : Option ℕ) (pInfo : ℕ)
  /-- There, past the test of `set_free_thread_info`. -/
  | createFreeing (i : Option ℕ) (pInfo : ℕ)
  /-- In `sk_task_destroy`, about to join a thread. -/
  | joining (i : Option ℕ) (pthT : ℕ)
  /-- In `sk_task_term`, with what `sk_task_cur_id` gave. -/
  | terminating (i : Option ℕ) (curTaskId : ℕ)
  /-- In `wrap_task_fun`, after the task function. -/
  | returned (i : ℕ)
  /-- There, past the test of `set_free_thread_info`. -/
  | freeing (i : ℕ)
  /-- Has given its node back and is about to detach itself and exit. -/
  | exiting
  /-- Gone. -/
  | exited
  deriving DecidableEq, Repr

/-- A thread. -/
structure TaskThread where
  /-- `pthread_self`. -/
  self : ℕ
  /-- The node its `sk_task_create` took, none for a thread that is no task. -/
  node : Option ℕ
  /-- Where it stands. -/
  pc : ThreadPc
  deriving DecidableEq, Repr

/-- The thread, elsewhere in its code. -/
def TaskThread.goto (th : TaskThread) (pc : ThreadPc) : TaskThread := { th with pc := pc }

/-! ## The machine -/

/-- The table, `pid` of `sk_task_create`, and the threads. -/
structure TaskSys where
  /-- `os_thread_info`. -/
  nodes : OsThreadInfo
  /-- `pid`. -/
  pid : ℕ
  /-- The threads. -/
  threads : List TaskThread

/-- What a thread does next. -/
inductive TaskAct where
  /-- `sk_task_create` takes a node. -/
  | create (taskPfn : Option ℕ)
  /-- `sk_task_create` calls `pthread_create`. -/
  | start (created : PthreadCreate)
  /-- The section of `sk_task_destroy`. -/
  | destroy (taskId : ℕ)
  /-- The `pthread_join` of `sk_task_destroy` ends, with success or not. -/
  | join (ok : Bool)
  /-- `sk_task_term` calls `sk_task_cur_id`. -/
  | curId
  /-- The section of `sk_task_term`. -/
  | term
  /-- A round of the loop of `wrap_task_fun`. -/
  | search
  /-- `wrap_task_fun` calls the task function. -/
  | call
  /-- The task function returns. -/
  | ret
  /-- The test of `set_free_thread_info`. -/
  | testUse
  /-- The section of `set_free_thread_info`. -/
  | setFree
  /-- The thread detaches itself and exits. -/
  | exit
  deriving DecidableEq, Repr

/-- What a call returns. -/
inductive TaskRet where
  /-- A status. -/
  | status (status : SkStatus)
  /-- `SK_ERROR_INVALID_ID`. -/
  | errorInvalidId
  /-- `SK_SUCCESS`, with this task id stored. -/
  | taskId (taskId : ℕ)
  deriving DecidableEq, Repr

/-- What a thread has done in a step. -/
structure TaskEffect where
  /-- The table. -/
  nodes : OsThreadInfo
  /-- `pid`. -/
  pid : ℕ
  /-- Where the thread stands now. -/
  pc : ThreadPc
  /-- The thread that `pthread_create` made. -/
  made : Option TaskThread
  /-- What the call returned, if it did. -/
  ret : Option TaskRet

namespace TaskSys

/-- `os_thread_info` after `init_os_thread_info`, with `n` threads that are no tasks. -/
def init (n : ℕ) : TaskSys :=
  ⟨.init, 0, (List.range n).map fun k => ⟨k + 1, none, .running none⟩⟩

/-- A thread with this id has not exited. -/
def Alive (s : TaskSys) (thread : ℕ) : Prop :=
  ∃ th ∈ s.threads, th.self = thread ∧ th.pc ≠ .exited

instance (s : TaskSys) (thread : ℕ) : Decidable (s.Alive thread) :=
  inferInstanceAs (Decidable (∃ th ∈ s.threads, _))

/-- A thread moves without touching the table. -/
def move (s : TaskSys) (pc : ThreadPc) (ret : Option TaskRet) : TaskEffect :=
  ⟨s.nodes, s.pid, pc, none, ret⟩

/-- A thread moves and writes the table. -/
def write (s : TaskSys) (nodes : OsThreadInfo) (pc : ThreadPc) (ret : Option TaskRet) : TaskEffect :=
  ⟨nodes, s.pid, pc, none, ret⟩

/-- What the thread with id `self` does; `none` when it cannot take the step. -/
def act (w : ℕ) (s : TaskSys) (self : ℕ) : ThreadPc → TaskAct → Option TaskEffect
  | .running i, .create taskPfn =>
      match getFreeThreadInfo s.nodes with
      | (some pInfo, nodes) => some (s.write nodes (.reserved i pInfo taskPfn) none)
      | (none, nodes) => some (s.write nodes (.running i) (some (.status .failed)))
  | .reserved i pInfo taskPfn, .start (.made thread) =>
      -- an id in use is not given out again
      if s.Alive thread then none
      else
        let r := skTaskCreateStore w s.nodes s.pid pInfo taskPfn (.made thread)
        some ⟨r.1, r.2, .running i, some ⟨thread, some pInfo, .searching⟩, some (.taskId r.2)⟩
  | .reserved i pInfo taskPfn, .start (.failed left) =>
      -- the old id is left there, or one that no thread has
      if left = (s.nodes pInfo).threadId ∨ ¬ s.Alive left then
        let r := skTaskCreateStore w s.nodes s.pid pInfo taskPfn (.failed left)
        some (s.write r.1 (.createFailed i pInfo) none)
      else none
  | .createFailed i pInfo, .testUse =>
      if (s.nodes pInfo).isUse then some (s.move (.createFreeing i pInfo) none)
      else some (s.move (.running i) (some (.status .failed)))
  | .createFreeing i pInfo, .setFree =>
      some (s.write (setNoUse s.nodes pInfo) (.running i) (some (.status .failed)))
  | .running i, .destroy taskId =>
      match skTaskDestroy s.nodes taskId with
      | .ok (pthT, nodes) => some (s.write nodes (.joining i pthT) none)
      | .error status => some (s.move (.running i) (some (.status status)))
  | .joining i pthT, .join ok =>
      if ok then
        if s.Alive pthT then none else some (s.move (.running i) (some (.status .success)))
      else some (s.move (.running i) (some (.status .failed)))
  | .running i, .curId =>
      match skTaskCurId s.nodes self with
      | some curTaskId => some (s.move (.terminating i curTaskId) none)
      | none => some (s.move (.running i) (some .errorInvalidId))
  | .terminating i curTaskId, .term =>
      match skTaskTerm s.nodes curTaskId with
      | some nodes => some (s.write nodes .exiting none)
      | none => some (s.move (.running i) (some .errorInvalidId))
  | .searching, .search =>
      match findSelf s.nodes self with
      | some i => some (s.move (.found i) none)
      | none => some (s.move .searching none)
  | .found i, .call =>
      match (s.nodes i).taskFun with
      | some _ => some (s.move (.running (some i)) none)
      | none => some (s.move (.returned i) none)
  | .running (some i), .ret => some (s.move (.returned i) none)
  | .returned i, .testUse =>
      if (s.nodes i).isUse then some (s.move (.freeing i) none) else some (s.move .exiting none)
  | .freeing i, .setFree => some (s.write (setNoUse s.nodes i) .exiting none)
  | .exiting, .exit => some (s.move .exited none)
  | _, _ => none

/-- One step: a thread, by its place in the list, and what it does. A thread that is made comes
last. -/
def step (w : ℕ) : StepMachine TaskSys (ℕ × TaskAct) (Option TaskRet) := fun s i =>
  match s.threads[i.1]? with
  | some th =>
      (s.act w th.self th.pc i.2).map fun e =>
        (e.ret, ⟨e.nodes, e.pid, s.threads.set i.1 (th.goto e.pc) ++ e.made.toList⟩)
  | none => none

/-! ## What a step can be -/

/-- **What a thread can do**, one rule for each way `act` can go. -/
inductive Acts (w : ℕ) (s : TaskSys) (self : ℕ) : ThreadPc → TaskAct → TaskEffect → Prop
  /-- `sk_task_create` takes a node. -/
  | took {i : Option ℕ} {taskPfn : Option ℕ} {pInfo : ℕ} {nodes : OsThreadInfo}
      (hget : getFreeThreadInfo s.nodes = (some pInfo, nodes)) :
      Acts w s self (.running i) (.create taskPfn)
        (s.write nodes (.reserved i pInfo taskPfn) none)
  /-- There is none. -/
  | full {i : Option ℕ} {taskPfn : Option ℕ} (hget : getFreeThreadInfo s.nodes = (none, s.nodes)) :
      Acts w s self (.running i) (.create taskPfn)
        (s.move (.running i) (some (.status .failed)))
  /-- `pthread_create` makes a thread. -/
  | started {i : Option ℕ} {pInfo : ℕ} {taskPfn : Option ℕ} {thread : ℕ}
      (hlive : ¬ s.Alive thread) :
      Acts w s self (.reserved i pInfo taskPfn) (.start (.made thread))
        ⟨(skTaskCreateStore w s.nodes s.pid pInfo taskPfn (.made thread)).1,
          (skTaskCreateStore w s.nodes s.pid pInfo taskPfn (.made thread)).2, .running i,
          some ⟨thread, some pInfo, .searching⟩,
          some (.taskId (skTaskCreateStore w s.nodes s.pid pInfo taskPfn (.made thread)).2)⟩
  /-- It fails. -/
  | startFailed {i : Option ℕ} {pInfo : ℕ} {taskPfn : Option ℕ} {left : ℕ}
      (hleft : left = (s.nodes pInfo).threadId ∨ ¬ s.Alive left) :
      Acts w s self (.reserved i pInfo taskPfn) (.start (.failed left))
        (s.write (skTaskCreateStore w s.nodes s.pid pInfo taskPfn (.failed left)).1
          (.createFailed i pInfo) none)
  /-- `set_free_thread_info` finds the node of `sk_task_create` in use. -/
  | tested {i : Option ℕ} {pInfo : ℕ} (huse : (s.nodes pInfo).isUse = true) :
      Acts w s self (.createFailed i pInfo) .testUse (s.move (.createFreeing i pInfo) none)
  /-- It does not. -/
  | lost {i : Option ℕ} {pInfo : ℕ} (huse : (s.nodes pInfo).isUse = false) :
      Acts w s self (.createFailed i pInfo) .testUse
        (s.move (.running i) (some (.status .failed)))
  /-- It gives the node back. -/
  | gaveUp {i : Option ℕ} {pInfo : ℕ} :
      Acts w s self (.createFreeing i pInfo) .setFree
        (s.write (setNoUse s.nodes pInfo) (.running i) (some (.status .failed)))
  /-- `sk_task_destroy` takes the mark of the node it finds. -/
  | destroyed {i : Option ℕ} {taskId n pthT : ℕ} (hinfo : getTaskInfo s.nodes taskId = some n)
      (huse : (s.nodes n).isUse = true) :
      Acts w s self (.running i) (.destroy taskId)
        (s.write (setNoUse s.nodes n) (.joining i pthT) none)
  /-- It finds none in use. -/
  | destroyRefused {i : Option ℕ} {taskId : ℕ} {status : SkStatus}
      (hdestroy : skTaskDestroy s.nodes taskId = .error status) :
      Acts w s self (.running i) (.destroy taskId)
        (s.move (.running i) (some (.status status)))
  /-- `sk_task_destroy` has joined the thread. -/
  | joined {i : Option ℕ} {pthT : ℕ} (hgone : ¬ s.Alive pthT) :
      Acts w s self (.joining i pthT) (.join true) (s.move (.running i) (some (.status .success)))
  /-- `pthread_join` fails. -/
  | joinFailed {i : Option ℕ} {pthT : ℕ} :
      Acts w s self (.joining i pthT) (.join false) (s.move (.running i) (some (.status .failed)))
  /-- `sk_task_term` has its task id. -/
  | terminates {i : Option ℕ} {curTaskId : ℕ} (hcur : skTaskCurId s.nodes self = some curTaskId) :
      Acts w s self (.running i) .curId (s.move (.terminating i curTaskId) none)
  /-- `sk_task_term` is refused before its section. -/
  | noCurId {i : Option ℕ} (hcur : skTaskCurId s.nodes self = none) :
      Acts w s self (.running i) .curId (s.move (.running i) (some .errorInvalidId))
  /-- `sk_task_term` gives the node it finds back. -/
  | termed {i : Option ℕ} {curTaskId n : ℕ} (hinfo : getTaskInfo s.nodes curTaskId = some n) :
      Acts w s self (.terminating i curTaskId) .term (s.write (setNoUse s.nodes n) .exiting none)
  /-- It finds none. -/
  | noTerm {i : Option ℕ} {curTaskId : ℕ} (hinfo : getTaskInfo s.nodes curTaskId = none) :
      Acts w s self (.terminating i curTaskId) .term
        (s.move (.running i) (some .errorInvalidId))
  /-- `wrap_task_fun` finds a node. -/
  | finds {i : ℕ} (hfind : findSelf s.nodes self = some i) :
      Acts w s self .searching .search (s.move (.found i) none)
  /-- It finds none and goes on. -/
  | searchesOn (hfind : findSelf s.nodes self = none) :
      Acts w s self .searching .search (s.move .searching none)
  /-- It calls the task function. -/
  | calls {i taskPfn : ℕ} (hfun : (s.nodes i).taskFun = some taskPfn) :
      Acts w s self (.found i) .call (s.move (.running (some i)) none)
  /-- There is no task function. -/
  | skips {i : ℕ} (hfun : (s.nodes i).taskFun = none) :
      Acts w s self (.found i) .call (s.move (.returned i) none)
  /-- The task function returns. -/
  | returns {i : ℕ} : Acts w s self (.running (some i)) .ret (s.move (.returned i) none)
  /-- `set_free_thread_info` finds the node of `wrap_task_fun` in use. -/
  | ends {i : ℕ} (huse : (s.nodes i).isUse = true) :
      Acts w s self (.returned i) .testUse (s.move (.freeing i) none)
  /-- It does not. -/
  | endsFree {i : ℕ} (huse : (s.nodes i).isUse = false) :
      Acts w s self (.returned i) .testUse (s.move .exiting none)
  /-- It gives the node back. -/
  | frees {i : ℕ} : Acts w s self (.freeing i) .setFree (s.write (setNoUse s.nodes i) .exiting none)
  /-- The thread exits. -/
  | exits : Acts w s self .exiting .exit (s.move .exited none)

variable {w self : ℕ} {s : TaskSys} {pc : ThreadPc} {a : TaskAct} {e : TaskEffect}

/-- **Inversion of `act`.** -/
theorem act_acts (h : s.act w self pc a = some e) : s.Acts w self pc a e := by
  unfold act at h
  split at h
  · split at h
    · rename_i hget
      cases h
      exact .took hget
    · rename_i hget
      obtain rfl := getFreeThreadInfo_none hget
      cases h
      exact .full hget
  · split at h
    · cases h
    · rename_i hlive
      cases h
      exact .started hlive
  · split at h
    · rename_i hleft
      cases h
      exact .startFailed hleft
    · cases h
  · split at h
    · rename_i huse
      cases h
      exact .tested huse
    · rename_i huse
      cases h
      exact .lost (Bool.eq_false_iff.mpr huse)
  · cases h
    exact .gaveUp
  · split at h
    · rename_i hdestroy
      obtain ⟨n, hinfo, huse, rfl⟩ := skTaskDestroy_ok hdestroy
      cases h
      exact .destroyed hinfo huse
    · rename_i hdestroy
      cases h
      exact .destroyRefused hdestroy
  · rename_i ok
    cases ok with
    | true =>
      rw [if_pos rfl] at h
      split at h
      · cases h
      · rename_i hgone
        cases h
        exact .joined hgone
    | false =>
      cases h
      exact .joinFailed
  · split at h
    · rename_i hcur
      cases h
      exact .terminates hcur
    · rename_i hcur
      cases h
      exact .noCurId hcur
  · split at h
    · rename_i hterm
      obtain ⟨n, hinfo, rfl⟩ := Option.map_eq_some_iff.mp hterm
      cases h
      exact .termed hinfo
    · rename_i hterm
      cases h
      exact .noTerm (Option.map_eq_none_iff.mp hterm)
  · split at h
    · rename_i hfind
      cases h
      exact .finds hfind
    · rename_i hfind
      cases h
      exact .searchesOn hfind
  · split at h
    · rename_i hfun
      cases h
      exact .calls hfun
    · rename_i hfun
      cases h
      exact .skips hfun
  · cases h
    exact .returns
  · split at h
    · rename_i huse
      cases h
      exact .ends huse
    · rename_i huse
      cases h
      exact .endsFree (Bool.eq_false_iff.mpr huse)
  · cases h
    exact .frees
  · cases h
    exact .exits
  · cases h

end TaskSys

end SmIpc.Os
