import SmIpc.Os.Tasks

/-! # The whole nodes of the task table, and the calls on a task

`TaskInfo` is `sky_os_thread_info_t` with all its fields: a `TaskNode` and what `Tasks` leaves out. This file
has what `skyapi_task.c` does with those fields: the name check and the naming of `sk_task_create`, what it
stores next to the node, what `wrap_task_fun` does when it has found its node, and the sections of the
functions that take a task id. The locking is left to the caller. -/

namespace SmIpc.Os

/-- `sk_task_status_t`. -/
inductive SkTaskStatus where
  /-- `SK_TASK_STATUS_READY`. -/
  | ready
  /-- `SK_TASK_STATUS_SLEEP`. -/
  | sleep
  /-- `SK_TASK_STATUS_RUNNING`. -/
  | running
  /-- `SK_TASK_STATUS_SUPENDED`. -/
  | suspended
  /-- `SK_TASK_STATUS_ERROR`. -/
  | error
  deriving DecidableEq, Repr

/-- `sky_os_thread_info_t`. -/
structure TaskInfo extends TaskNode where
  /-- `str_name`, up to its first zero. -/
  strName : List UInt8
  /-- The kernel's id of the thread. -/
  taskPid : ℕ
  /-- The priority. -/
  taskPro : ℕ
  /-- The status. -/
  taskStatus : SkTaskStatus
  deriving DecidableEq, Repr

/-- `os_thread_info` with all its fields, by index. -/
abbrev TaskTable := ℕ → TaskInfo

namespace TaskTable

/-- `os_thread_info` after `init_os_thread_info`. -/
def init : TaskTable := fun _ => ⟨⟨false, 0, none, 0⟩, [], 0, 0, .ready⟩

/-- The fields of `TaskNode`. -/
def nodes (infos : TaskTable) : OsThreadInfo := fun n => (infos n).toTaskNode

/-- The table with these fields written. -/
def withNodes (infos : TaskTable) (nodes : OsThreadInfo) : TaskTable :=
  fun n => { infos n with toTaskNode := nodes n }

@[simp] theorem nodes_withNodes (infos : TaskTable) (nodes : OsThreadInfo) :
    (infos.withNodes nodes).nodes = nodes := rfl

@[simp] theorem strName_withNodes (infos : TaskTable) (nodes : OsThreadInfo) (n : ℕ) :
    (infos.withNodes nodes n).strName = (infos n).strName := rfl

@[simp] theorem nodes_apply (infos : TaskTable) (n : ℕ) :
    infos.nodes n = (infos n).toTaskNode := rfl

/-- A node changed in its other fields. -/
theorem nodes_update_of_eq {infos : TaskTable} {i : ℕ} {info : TaskInfo}
    (h : info.toTaskNode = (infos i).toTaskNode) :
    nodes (Function.update infos i info) = infos.nodes := by
  funext n
  rw [nodes, Function.update_apply]
  split
  · rw [h, ‹n = i›, nodes]
  · rfl

/-- A field of a table with one node written. -/
theorem field_update {α : Type} (f : TaskInfo → α) (infos : TaskTable) (i : ℕ) (info : TaskInfo)
    (n : ℕ) : f (Function.update infos i info n) = if n = i then f info else f (infos n) := by
  rw [Function.update_apply]
  split <;> rfl

/-- A field that is not written. -/
theorem field_update_of_eq {α : Type} (f : TaskInfo → α) {infos : TaskTable} {i : ℕ} {info : TaskInfo}
    (h : f info = f (infos i)) (n : ℕ) : f (Function.update infos i info n) = f (infos n) := by
  rw [field_update f]
  split
  · rw [h, ‹n = i›]
  · rfl

end TaskTable

/-! ## Names -/

/-- `sk_check_task_name`, with `MAX_OS_NAME_NUM`. -/
def skCheckTaskName (maxOsNameNum : ℕ) (infos : TaskTable) : Option (List UInt8) → SkStatus
  | none => .errorBadParameter
  | some taskName =>
      if maxOsNameNum ≤ taskName.length then .errorBadParameter
      else if (List.range maxThreadCount).any fun i =>
          (infos i).isUse && (infos i).strName == taskName then .errorBadParameter
      else .success

/-- The section of `set_name_thread_info`. -/
def setNameThreadInfo (maxOsNameNum : ℕ) (infos : TaskTable) (pInfo : ℕ) (name : List UInt8) :
    TaskTable :=
  Function.update infos pInfo { infos pInfo with strName := name.take (maxOsNameNum - 1) }

/-- **What a name is that passes the check**: a short one that no node in use has. -/
theorem skCheckTaskName_success {m : ℕ} {infos : TaskTable} {taskName : Option (List UInt8)}
    (h : skCheckTaskName m infos taskName = .success) :
    ∃ name, taskName = some name ∧ name.length < m ∧
      ∀ i < maxThreadCount, (infos i).isUse = true → (infos i).strName ≠ name := by
  unfold skCheckTaskName at h
  split at h
  · cases h
  · rename_i name
    split at h
    · cases h
    · split at h
      · cases h
      · rename_i hlength hdup
        refine ⟨name, rfl, Nat.lt_of_not_le hlength, ?_⟩
        intro i hi huse hname
        refine hdup (List.any_eq_true.mpr ⟨i, List.mem_range.mpr hi, ?_⟩)
        rw [huse, hname]
        simp

@[simp] theorem nodes_setNameThreadInfo (m : ℕ) (infos : TaskTable) (pInfo : ℕ)
    (name : List UInt8) : (setNameThreadInfo m infos pInfo name).nodes = infos.nodes :=
  TaskTable.nodes_update_of_eq rfl

/-- A name that passed the check is stored whole, and in its node only. -/
theorem strName_setNameThreadInfo {m : ℕ} {name : List UInt8} (h : name.length < m)
    (infos : TaskTable) (pInfo n : ℕ) :
    (setNameThreadInfo m infos pInfo name n).strName =
      if n = pInfo then name else (infos n).strName := by
  rw [setNameThreadInfo, Function.update_apply]
  split
  · exact List.take_of_length_le (Nat.le_sub_one_of_lt h)
  · rfl

/-! ## Priorities -/

/-- `SK_TASK_DEFAULT_PRIORITY`. -/
def skTaskDefaultPriority : ℕ := 64

/-- `SK_TASK_PRIORITY_LOWEST`. -/
def skTaskPriorityLowest : ℕ := skTaskDefaultPriority - 24

/-- `SK_TASK_PRIORITY_HIGHEST`. -/
def skTaskPriorityHighest : ℕ := skTaskDefaultPriority + 24

/-- The `prioritys` of `sk_task_create` and `sk_task_set_priority`. -/
def taskPrioritys (priority : ℕ) : ℕ :=
  if priority > skTaskPriorityHighest then skTaskPriorityHighest
  else if priority < skTaskPriorityLowest then skTaskPriorityLowest
  else priority

/-- A `U32` as `S32`. -/
def s32 (w x : ℕ) : ℤ := if x < 2 ^ (w - 1) then x else (x : ℤ) - 2 ^ w

/-- The `pro` of `wrap_task_fun` and `sk_task_set_priority`. -/
def nicePro (w taskPro : ℕ) : ℤ :=
  Int.tdiv (s32 w (u32 w (40 * ((taskPro : ℤ) - skTaskDefaultPriority))))
    ((skTaskPriorityHighest : ℤ) - skTaskPriorityLowest) * -1

/-- The nice value that `setpriority` sets when it is called with this one: the kernel has those from -20
to 19, and brings any other into this range. -/
def kernelNice (pro : ℤ) : ℤ := max (-20) (min 19 pro)

theorem kernelNice_le (pro : ℤ) : kernelNice pro ≤ 19 := by
  rw [kernelNice]
  omega

/-- The nice values of the least and the greatest priority, as they are asked for and as they are set. -/
example : nicePro 32 skTaskPriorityLowest = 20 ∧ nicePro 32 skTaskPriorityHighest = -20 ∧
    kernelNice 20 = 19 ∧ kernelNice (-20) = -20 := by decide

/-! ## The nodes of a new task -/

/-- What the section of `sk_task_create` stores next to the node, where `pthread_create` makes a thread or
not. -/
def skTaskCreateDetails (infos : TaskTable) (pInfo priority : ℕ) (made : Bool) : TaskTable :=
  Function.update infos pInfo { infos pInfo with
    taskPro := taskPrioritys priority
    taskStatus := if made then .running else (infos pInfo).taskStatus }

/-- What `wrap_task_fun` stores in the node it finds. -/
def wrapTaskFunDetails (infos : TaskTable) (i tid : ℕ) : TaskTable :=
  Function.update infos i { infos i with taskPid := tid }

@[simp] theorem nodes_skTaskCreateDetails (infos : TaskTable) (pInfo priority : ℕ) (made : Bool) :
    (skTaskCreateDetails infos pInfo priority made).nodes = infos.nodes :=
  TaskTable.nodes_update_of_eq rfl

@[simp] theorem strName_skTaskCreateDetails (infos : TaskTable) (pInfo priority : ℕ) (made : Bool)
    (n : ℕ) : (skTaskCreateDetails infos pInfo priority made n).strName = (infos n).strName :=
  TaskTable.field_update_of_eq (·.strName) (by rfl) n

@[simp] theorem nodes_wrapTaskFunDetails (infos : TaskTable) (i tid : ℕ) :
    (wrapTaskFunDetails infos i tid).nodes = infos.nodes :=
  TaskTable.nodes_update_of_eq rfl

@[simp] theorem strName_wrapTaskFunDetails (infos : TaskTable) (i tid n : ℕ) :
    (wrapTaskFunDetails infos i tid n).strName = (infos n).strName :=
  TaskTable.field_update_of_eq (·.strName) (by rfl) n

/-! ## Calls with a task id -/

/-- The section of `sk_task_wait_timeout`: the thread to cancel, or what it returns. -/
def skTaskWaitTimeout (infos : TaskTable) (taskId : ℕ) : Except SkStatus ℕ :=
  match getTaskInfo infos.nodes taskId with
  | none => .error .errorBadParameter
  | some i => if (infos i).isUse then .ok (infos i).threadId else .error .failed

/-- The sections of `sk_task_suspend` and `sk_task_resume`, which differ in the status they ask for and the
one they set: the thread to signal and the table, or what they return. -/
def taskSwitch (old new : SkTaskStatus) (infos : TaskTable) (taskId : ℕ) :
    Except SkStatus (ℕ × TaskTable) :=
  match getTaskInfo infos.nodes taskId with
  | none => .error .errorBadParameter
  | some i =>
      if (infos i).isUse then
        if (infos i).taskStatus = old then
          .ok ((infos i).threadId, Function.update infos i { infos i with taskStatus := new })
        else .error .success
      else .error .failed

/-- The section of `sk_task_suspend`. -/
def skTaskSuspend : TaskTable → ℕ → Except SkStatus (ℕ × TaskTable) := taskSwitch .running .suspended

/-- The section of `sk_task_resume`. -/
def skTaskResume : TaskTable → ℕ → Except SkStatus (ℕ × TaskTable) := taskSwitch .suspended .running

/-- The section of `sk_task_get_status`: the status it stores, or what it returns. -/
def skTaskGetStatus (infos : TaskTable) (taskId : ℕ) : Except SkStatus SkTaskStatus :=
  match getTaskInfo infos.nodes taskId with
  | none => .error .errorBadParameter
  | some i => if (infos i).isUse then .ok (infos i).taskStatus else .error .failed

/-- The section of `sk_task_set_priority`, where `setpriority` succeeds or not: what it returns, the table,
and the process and nice value that `setpriority` was called with, if it succeeded. -/
def skTaskSetPriority (w : ℕ) (infos : TaskTable) (taskId priority : ℕ) (ok : Bool) :
    SkStatus × TaskTable × Option (ℕ × ℤ) :=
  match getTaskInfo infos.nodes taskId with
  | none => (.errorBadParameter, infos, none)
  | some i =>
      if priority = (infos i).taskPro then (.success, infos, none)
      else
        let prioritys := taskPrioritys priority
        if ok then
          (.success, Function.update infos i { infos i with taskPro := prioritys },
            some ((infos i).taskPid, nicePro w prioritys))
        else (.failed, infos, none)

/-- `sk_task_suspend` and `sk_task_resume` write a status. -/
theorem taskSwitch_ok {old new : SkTaskStatus} {infos infos' : TaskTable} {taskId pthT : ℕ}
    (h : taskSwitch old new infos taskId = .ok (pthT, infos')) :
    ∃ i, infos' = Function.update infos i { infos i with taskStatus := new } := by
  unfold taskSwitch at h
  split at h
  · cases h
  · split at h
    · split at h
      · obtain ⟨-, rfl⟩ := Prod.mk.inj (Except.ok.inj h)
        exact ⟨_, rfl⟩
      · cases h
    · cases h

/-- They write nothing else. -/
theorem taskSwitch_table {old new : SkTaskStatus} {infos infos' : TaskTable} {taskId pthT : ℕ}
    (h : taskSwitch old new infos taskId = .ok (pthT, infos')) :
    infos'.nodes = infos.nodes ∧ ∀ n, (infos' n).strName = (infos n).strName := by
  obtain ⟨i, rfl⟩ := taskSwitch_ok h
  exact ⟨TaskTable.nodes_update_of_eq rfl, TaskTable.field_update_of_eq (·.strName) (by rfl)⟩

/-- **What `sk_task_set_priority` does**: it fails and does nothing, or returns `SK_SUCCESS` without doing
anything since the priority is the one in the node, or writes the priority and calls `setpriority`. -/
theorem skTaskSetPriority_cases (w : ℕ) (infos : TaskTable) (taskId priority : ℕ) (ok : Bool) :
    (∃ status, status ≠ .success ∧
      (∀ i, getTaskInfo infos.nodes taskId = some i → priority ≠ (infos i).taskPro ∧ ok = false) ∧
      skTaskSetPriority w infos taskId priority ok = (status, infos, none)) ∨
    (∃ i, getTaskInfo infos.nodes taskId = some i ∧ priority = (infos i).taskPro ∧
      skTaskSetPriority w infos taskId priority ok = (.success, infos, none)) ∨
    ∃ i, getTaskInfo infos.nodes taskId = some i ∧ priority ≠ (infos i).taskPro ∧ ok = true ∧
      skTaskSetPriority w infos taskId priority ok =
        (.success, Function.update infos i { infos i with taskPro := taskPrioritys priority },
          some ((infos i).taskPid, nicePro w (taskPrioritys priority))) := by
  cases hinfo : getTaskInfo infos.nodes taskId with
  | none =>
    refine .inl ⟨.errorBadParameter, SkStatus.noConfusion, fun i hi => (nomatch hi), ?_⟩
    simp only [skTaskSetPriority, hinfo]
  | some i =>
    by_cases hsame : priority = (infos i).taskPro
    · refine .inr (.inl ⟨i, rfl, hsame, ?_⟩)
      simp only [skTaskSetPriority, hinfo, if_pos hsame]
    · cases ok with
      | false =>
        refine .inl ⟨.failed, SkStatus.noConfusion, fun i' hi' => ?_, ?_⟩
        · obtain rfl := Option.some.inj hi'
          exact ⟨hsame, rfl⟩
        · simp only [skTaskSetPriority, hinfo, if_neg hsame, Bool.false_eq_true, if_false]
      | true =>
        refine .inr (.inr ⟨i, rfl, hsame, rfl, ?_⟩)
        simp only [skTaskSetPriority, hinfo, if_neg hsame, if_true]

/-- `sk_task_set_priority` writes a priority. -/
theorem skTaskSetPriority_table (w : ℕ) (infos : TaskTable) (taskId priority : ℕ) (ok : Bool) :
    (skTaskSetPriority w infos taskId priority ok).2.1.nodes = infos.nodes ∧
      ∀ n, ((skTaskSetPriority w infos taskId priority ok).2.1 n).strName = (infos n).strName := by
  rcases skTaskSetPriority_cases w infos taskId priority ok with
    ⟨status, -, -, hr⟩ | ⟨i, -, -, hr⟩ | ⟨i, -, -, -, hr⟩
  · rw [hr]
    exact ⟨rfl, fun _ => rfl⟩
  · rw [hr]
    exact ⟨rfl, fun _ => rfl⟩
  · rw [hr]
    exact ⟨TaskTable.nodes_update_of_eq rfl, TaskTable.field_update_of_eq (·.strName) (by rfl)⟩

end SmIpc.Os
