import SmIpc.Os.TaskNames

/-! # Calls with the id of an ended task

`get_task_info` finds a node by its task id whether it is in use or not, and a node keeps the id, the
`pthread_t` and the process id of an ended task until the next `sk_task_create` that takes it fills it in.

* `ApiAct.taskId?` is the task id a section is made with, and `TaskApi.Harmless` says of a step of such a call
  that it returns no success and changes nothing.
* `TaskApi.Refused` is the condition on the node and on the system for this.
* `ended_task_calls`: a call with the id of an ended task is harmless exactly under the condition; and a node
  in use that has the id of an ended task is one that a `sk_task_create` has taken and not filled in, if
  every task finds its own node and no cancellation takes effect in one that has it.
  `ended_task_calls_not_refused` are two calls that do harm. -/

namespace SmIpc.Os

/-- The task id that the section of a call is made with. -/
def ApiAct.taskId? : ApiAct → Option ℕ
  | base (.destroy taskId) _ | wait taskId | suspend taskId | resume taskId | getStatus taskId
  | setPriority taskId _ _ => some taskId
  | _ => none

/-- What a call with the id of an ended task may return: an error, or nothing yet. -/
def ApiRet.IsError : ApiRet → Prop
  | ret (.status status) => status ≠ .success
  | ret .errorInvalidId => True
  | ret (.taskId _) | taskStatus _ => False

/-- What the calls can change of a thread: its cancellation, its stop state and its nice value. -/
def ApiThread.marks (th : ApiThread) : Bool × Bool × ℤ := (th.cancelled, th.stopped, th.nice)

namespace TaskApi

variable {w m k : ℕ} {s t : TaskApi} {th : ApiThread} {a : ApiAct} {i : ℕ × ApiAct}
  {o : Option ApiRet}

/-- The step belongs to a call that was made with the id of an ended task. -/
def OnEnded (s : TaskApi) (th : ApiThread) (a : ApiAct) : Prop :=
  (∃ taskId, a.taskId? = some taskId ∧ s.ended taskId = true) ∨
    ∃ ok c, a = .send ok ∧ th.sending = some c ∧ c.ended = true

/-- Nothing of the table and of what the calls can change of a thread is different. -/
def Unchanged (s t : TaskApi) : Prop :=
  t.infos = s.infos ∧ t.threads.map (·.marks) = s.threads.map (·.marks)

/-- **A step of a call with the id of an ended task does no harm**: if it returns, then an error, and it
changes nothing. -/
def Harmless (w m : ℕ) (s : TaskApi) (i : ℕ × ApiAct) : Prop :=
  ∀ th o t, s.threads[i.1]? = some th → s.OnEnded th i.2 → step w m s i = some (o, t) →
    (∀ r ∈ o, r.IsError) ∧ s.Unchanged t

/-- **The condition**: the node with the task id is not in use, or, for `sk_task_set_priority`, the priority
is not the one the node has and `setpriority` fails; `pthread_cancel` fails, if it comes to that. -/
def Refused (s : TaskApi) : ApiAct → Prop
  | .base (.destroy taskId) _ | .suspend taskId | .resume taskId | .getStatus taskId =>
      ∀ n, getTaskInfo s.infos.nodes taskId = some n → (s.infos n).isUse = false
  | .setPriority taskId priority ok =>
      ∀ n, getTaskInfo s.infos.nodes taskId = some n → priority ≠ (s.infos n).taskPro ∧ ok = false
  | .send ok => ok = false
  | _ => True

/-- The condition on a step. -/
def StepRefused (s : TaskApi) (i : ℕ × ApiAct) : Prop :=
  ∀ th, s.threads[i.1]? = some th → s.OnEnded th i.2 → s.Refused i.2

/-! ## The sections -/

/-- A section that leaves the table as it is. -/
theorem unchanged_leave (hth : s.threads[k]? = some th) {th' : ApiThread} (h : th'.marks = th.marks) :
    s.Unchanged (s.leave k s.infos th') :=
  ⟨rfl, ThreadPool.map_set_of_eq _ hth h⟩

/-- A section that writes another node into the table. -/
theorem not_unchanged_leave {th' : ApiThread} {n : ℕ} {info : TaskInfo} (h : info ≠ s.infos n) :
    ¬ s.Unchanged (s.leave k (Function.update s.infos n info) th') := by
  rintro ⟨hinfos, -⟩
  have hn := congrFun hinfos n
  change Function.update s.infos n info n = s.infos n at hn
  rw [Function.update_self] at hn
  exact h hn

/-- An error is returned. -/
theorem isError_status {status : SkStatus} (h : status ≠ .success) :
    ∀ r ∈ (some (.ret (.status status)) : Option ApiRet), r.IsError := by
  intro r hr
  obtain rfl := Option.some.inj hr
  exact h

theorem badParameter_ne_success : SkStatus.errorBadParameter ≠ .success := by decide

theorem failed_ne_success : SkStatus.failed ≠ .success := by decide

theorem not_isError_success :
    ¬ ∀ r ∈ (some (.ret (.status .success)) : Option ApiRet), r.IsError :=
  fun h => h _ rfl rfl

/-- The result of a step does no harm. -/
def DoesNoHarm (s : TaskApi) (r : Option ApiRet × TaskApi) : Prop :=
  (∀ x ∈ r.1, x.IsError) ∧ s.Unchanged r.2

/-- `sk_task_suspend` and `sk_task_resume`. -/
theorem afterLookup_taskSwitch {old new : SkTaskStatus} (hne : old ≠ new) {taskId : ℕ}
    {signal : ThreadSignal} (hth : s.threads[k]? = some th) :
    s.DoesNoHarm (s.afterLookup k th taskId signal (taskSwitch old new s.infos taskId)) ↔
      ∀ n, getTaskInfo s.infos.nodes taskId = some n → (s.infos n).isUse = false := by
  unfold taskSwitch
  split
  · rename_i hinfo
    refine iff_of_true ⟨isError_status (by decide), unchanged_leave hth rfl⟩ ?_
    intro n hn
    cases hinfo.symm.trans hn
  · rename_i i hinfo
    have hrefused : (∀ n, getTaskInfo s.infos.nodes taskId = some n → (s.infos n).isUse = false) ↔
        (s.infos i).isUse = false := by
      rw [hinfo]
      simp
    rw [hrefused]
    split
    · rename_i huse
      refine iff_of_false ?_ (by simp [huse])
      split
      · -- the status is written
        rintro ⟨-, hsame⟩
        refine not_unchanged_leave ?_ hsame
        intro heq
        have hstatus : new = (s.infos i).taskStatus := congrArg TaskInfo.taskStatus heq
        rw [‹(s.infos i).taskStatus = old›] at hstatus
        exact hne hstatus.symm
      · rintro ⟨herror, -⟩
        exact not_isError_success herror
    · rename_i huse
      exact iff_of_true ⟨isError_status (by decide), unchanged_leave hth rfl⟩
        (Bool.eq_false_iff.mpr huse)

/-- `sk_task_wait_timeout` up to `pthread_cancel`. -/
theorem afterLookup_wait {taskId : ℕ} (hth : s.threads[k]? = some th) :
    s.DoesNoHarm (s.afterLookup k th taskId .cancel
      ((skTaskWaitTimeout s.infos taskId).map fun pthT => (pthT, s.infos))) := by
  unfold skTaskWaitTimeout
  split
  · exact ⟨isError_status (by decide), unchanged_leave hth rfl⟩
  · split
    · exact ⟨(fun _ hr => nomatch hr), unchanged_leave hth rfl⟩
    · exact ⟨isError_status (by decide), unchanged_leave hth rfl⟩

/-- `sk_task_destroy`. -/
theorem afterBase_destroy {taskId : ℕ} {answer : SysAnswer} {e : TaskEffect}
    (hth : s.threads[k]? = some th) (hact : s.sys.act w th.self th.pc (.destroy taskId) = some e) :
    s.DoesNoHarm (e.ret.map .ret, s.afterBase w k th (.destroy taskId) answer e) ↔
      ∀ n, getTaskInfo s.infos.nodes taskId = some n → (s.infos n).isUse = false := by
  generalize hpc : th.pc = pc at hact
  cases TaskSys.act_acts hact with
  | @destroyed i _ n pthT hinfo huse =>
    refine iff_of_false ?_ ?_
    · -- the node is no longer in use
      rintro ⟨-, hinfos, -⟩
      have hnodes := congrArg (fun infos => (TaskTable.nodes infos n).isUse) hinfos
      change ((s.infosAfter th _ _).nodes n).isUse = _ at hnodes
      rw [nodes_infosAfter] at hnodes
      have hfree : (setNoUse s.infos.nodes n n).isUse = false := by
        rw [setNoUse, Function.update_self]
      rw [show (s.infos.nodes n).isUse = true from huse] at hnodes
      cases hfree.symm.trans hnodes
    · intro hrefused
      have hfree := hrefused n hinfo
      have huse' : (s.infos n).isUse = true := huse
      rw [huse'] at hfree
      cases hfree
  | @destroyRefused i _ status hdestroy =>
    refine iff_of_true ⟨isError_status ?_, ?_, ?_⟩ ?_
    · rintro rfl
      unfold skTaskDestroy at hdestroy
      split at hdestroy
      · cases hdestroy
      · split at hdestroy <;> cases hdestroy
    · change s.infosAfter th _ _ = s.infos
      unfold infosAfter
      split
      · rename_i ha _
        cases ha
      · rename_i ha _
        cases ha
      · rfl
    · change (s.threads.set k _ ++ []).map _ = _
      rw [List.append_nil]
      refine ThreadPool.map_set_of_eq _ hth ?_
      have hnice : s.niceAfter w th answer (s.sys.move (.running i) (some (.status status))) = th.nice := by
        rw [niceAfter, hpc]
      exact congrArg (fun nice => (th.cancelled, th.stopped, nice)) hnice
    · exact fun n hn => skTaskDestroy_error hdestroy hn

/-- `sk_task_get_status`. -/
theorem getStatus_refused {taskId : ℕ} (hth : s.threads[k]? = some th) :
    s.DoesNoHarm (match skTaskGetStatus s.infos taskId with
      | .ok taskStatus => (some (.taskStatus taskStatus), s.leave k s.infos th)
      | .error status => (some (.ret (.status status)), s.leave k s.infos th)) ↔
      ∀ n, getTaskInfo s.infos.nodes taskId = some n → (s.infos n).isUse = false := by
  unfold skTaskGetStatus
  cases hinfo : getTaskInfo s.infos.nodes taskId with
  | none =>
    exact iff_of_true ⟨isError_status badParameter_ne_success, unchanged_leave hth rfl⟩ (fun n hn => nomatch hn)
  | some n =>
    dsimp only
    cases huse : (s.infos n).isUse with
    | true =>
      refine iff_of_false ?_ ?_
      · rintro ⟨herror, -⟩
        exact herror (.taskStatus (s.infos n).taskStatus) rfl
      · intro hrefused
        rw [hrefused n rfl] at huse
        cases huse
    | false =>
      refine iff_of_true ⟨isError_status failed_ne_success, unchanged_leave hth rfl⟩ ?_
      intro n' hn'
      obtain rfl := Option.some.inj hn'
      exact huse

/-- `sk_task_set_priority`, which does not look whether the node is in use. -/
theorem setPriority_refused {taskId priority : ℕ} {ok : Bool} {threads : List ApiThread}
    (hthreads : (skTaskSetPriority w s.infos taskId priority ok).2.2 = none → threads = s.threads) :
    s.DoesNoHarm (some (.ret (.status (skTaskSetPriority w s.infos taskId priority ok).1)),
        { s with
          infos := (skTaskSetPriority w s.infos taskId priority ok).2.1
          threads := threads
          lock := .leaving k }) ↔
      ∀ n, getTaskInfo s.infos.nodes taskId = some n →
        priority ≠ (s.infos n).taskPro ∧ ok = false := by
  rcases skTaskSetPriority_cases w s.infos taskId priority ok with
    ⟨status, hfails, hrefused, hr⟩ | ⟨i, hinfo, hsame, hr⟩ | ⟨i, hinfo, hother, rfl, hr⟩
  · rw [hr] at hthreads ⊢
    obtain rfl := hthreads rfl
    exact iff_of_true ⟨isError_status hfails, rfl, rfl⟩ hrefused
  · rw [hr]
    exact iff_of_false (fun h => not_isError_success h.1) fun h => (h i hinfo).1 hsame
  · rw [hr]
    exact iff_of_false (fun h => not_isError_success h.1) fun h => Bool.noConfusion (h i hinfo).2

/-! ## Steps -/

/-- **A call with the id of an ended task is harmless exactly** under the condition. -/
theorem doesNoHarm_iff_refused (hth : s.threads[k]? = some th) (hended : s.OnEnded th a)
    (hact : s.act w m k th a = some (o, t)) : s.DoesNoHarm (o, t) ↔ s.Refused a := by
  cases a with
  | base b answer =>
    obtain ⟨taskId, htask, -⟩ | ⟨ok, c, ha, -⟩ := hended
    · simp only [act] at hact
      split at hact
      · obtain ⟨e, he, hr⟩ := Option.map_eq_some_iff.mp hact
        rw [← hr]
        cases b with
        | destroy taskId => exact afterBase_destroy hth he
        | _ => cases htask
      · cases hact
    · cases ha
  | wait taskId =>
    obtain ⟨-, -, hr⟩ := inCall_some hact
    rw [← hr]
    exact iff_of_true (afterLookup_wait hth) trivial
  | suspend taskId =>
    obtain ⟨-, -, hr⟩ := inCall_some hact
    rw [← hr]
    exact afterLookup_taskSwitch (by decide) hth
  | resume taskId =>
    obtain ⟨-, -, hr⟩ := inCall_some hact
    rw [← hr]
    exact afterLookup_taskSwitch (by decide) hth
  | getStatus taskId =>
    obtain ⟨-, -, hr⟩ := inCall_some hact
    rw [← hr]
    exact getStatus_refused hth
  | setPriority taskId priority ok =>
    obtain ⟨-, -, hr⟩ := inCall_some hact
    rw [← hr]
    refine setPriority_refused ?_
    intro hnone
    rw [hnone]
  | send ok =>
    have hsend := outside_some hact
    split at hsend
    · split at hsend
      · cases hsend
      · split at hsend
        · rename_i hok
          cases hsend
          exact iff_of_false (fun h => not_isError_success h.1) (by simp [Refused, hok])
        · rename_i hok
          cases hsend
          exact iff_of_true ⟨isError_status (by decide), rfl, ThreadPool.map_set_of_eq _ hth rfl⟩
            (Bool.eq_false_iff.mpr hok)
    · cases hsend
  | _ =>
    obtain ⟨taskId, htask, -⟩ | ⟨ok, c, ha, -⟩ := hended
    · cases htask
    · cases ha

theorem harmless_iff_stepRefused (hs : step w m s i = some (o, t)) :
    s.Harmless w m i ↔ s.StepRefused i := by
  obtain ⟨k, a⟩ := i
  rw [step] at hs
  split at hs
  · rename_i th hth
    constructor
    · intro h th' hth' hended
      obtain rfl := Option.some.inj (hth.symm.trans hth')
      refine (doesNoHarm_iff_refused hth hended hs).mp (h th o t hth hended ?_)
      rw [step, hth]
      exact hs
    · intro h th' o' t' hth' hended hs'
      obtain rfl := Option.some.inj (hth.symm.trans hth')
      rw [step, hth] at hs'
      obtain ⟨rfl, rfl⟩ := Prod.mk.inj (Option.some.inj (hs.symm.trans hs'))
      exact (doesNoHarm_iff_refused hth hended hs).mpr (h th hth hended)
  · cases hs

/-! ## Nodes with the id of an ended task -/

/-- **A node in use with the id of an ended task** is one that a `sk_task_create` has taken and not filled
in. -/
def EndedNodesTaken (s : TaskApi) : Prop :=
  ∀ taskId n, s.ended taskId = true → getTaskInfo s.infos.nodes taskId = some n →
    (s.infos n).isUse = true → n ∈ taken s.creates

theorem Known.endedNodesTaken (h : s.Known) (hreclaimed : s.Reclaimed) : s.EndedNodesTaken := by
  intro taskId n hended hinfo huse
  obtain ⟨sth, hsth, hn⟩ := List.mem_flatMap.mp (hreclaimed.nodes n huse)
  obtain ⟨th, hth, rfl⟩ := List.mem_map.mp hsth
  rcases List.mem_append.mp hn with hocc | hres
  · -- a task that runs in the node goes on, and has the id
    obtain ⟨hgo, hnode⟩ := ThreadPc.mem_occupies_iff.mp hocc
    have hknows := h.threads th hth
    have hsome : th.node.isSome = true := by rw [hnode]; rfl
    obtain ⟨c, hc⟩ := Option.isSome_iff_exists.mp (hknows.called hsome)
    obtain ⟨n', hnode', hserves, -⟩ := (hknows.identified c hc).finds hgo
    obtain rfl := Option.some.inj (hnode.symm.trans hnode')
    have hid : (s.infos.nodes n).taskSkId = taskId := beq_iff_eq.mp (firstNode_spec hinfo)
    have hall := List.all_eq_true.mp (Bool.and_eq_true_iff.mp hended).2 th hth
    rw [hc, Option.all_some, ← hid, hserves.taskId] at hall
    simp only [bne_self_eq_false, Bool.false_or, beq_iff_eq] at hall
    exact absurd hall hgo.2
  · exact List.mem_flatMap.mpr ⟨th.toCreateThread, List.mem_map_of_mem hth, hres⟩

/-- A step that is none of a call with a task id. -/
theorem stepRefused_of_none (h : a.taskId? = none) (hsend : ∀ ok, a ≠ .send ok) :
    s.StepRefused (k, a) := by
  rintro th - (⟨taskId, htask, -⟩ | ⟨ok, c, ha, -⟩)
  · cases h.symm.trans htask
  · exact absurd ha (hsend ok)

/-- A `sk_task_destroy` with the id of node `n`. -/
theorem stepRefused_destroy_iff {taskId n : ℕ} {answer : SysAnswer} (hth : s.threads[k]? = some th)
    (hended : s.ended taskId = true) (hinfo : getTaskInfo s.infos.nodes taskId = some n) :
    s.StepRefused (k, .base (.destroy taskId) answer) ↔ (s.infos n).isUse = false := by
  constructor
  · intro h
    exact h th hth (.inl ⟨taskId, rfl, hended⟩) n hinfo
  · intro hfree th' _ _ n' hn'
    obtain rfl := Option.some.inj (hinfo.symm.trans hn')
    exact hfree

/-- A `sk_task_set_priority` with the id of node `n`. -/
theorem stepRefused_setPriority_iff {taskId n priority : ℕ} {ok : Bool} (hth : s.threads[k]? = some th)
    (hended : s.ended taskId = true) (hinfo : getTaskInfo s.infos.nodes taskId = some n) :
    s.StepRefused (k, .setPriority taskId priority ok) ↔
      priority ≠ (s.infos n).taskPro ∧ ok = false := by
  constructor
  · intro h
    exact h th hth (.inl ⟨taskId, rfl, hended⟩) n hinfo
  · intro hrefused th' _ _ n' hn'
    obtain rfl := Option.some.inj (hinfo.symm.trans hn')
    exact hrefused

end TaskApi

/-- **When calls with the id of an ended task are refused.** Take any number of threads that create, control
and end tasks, and the tasks they make, over any interleaving. Every step of a call that is made with the id
of an ended task returns an error, if it returns, and changes no node, no cancellation, no stop state and no
nice value, if and only if every such `sk_task_destroy`, `sk_task_suspend`, `sk_task_resume` and
`sk_task_get_status` finds a node that is not in use, every such `sk_task_set_priority` is for a priority the
node does not have and its `setpriority` fails, and every such `pthread_cancel` fails. If every task finds
its own node and every cancellation takes effect in a task that has given its node back, a node in use that
has the id of an ended task is one that a `sk_task_create` has taken and not filled in. -/
theorem ended_task_calls (w m n : ℕ) (steps : List (ℕ × ApiAct)) (os : List (Option ApiRet))
    (s : TaskApi) (hrun : StepMachine.run (TaskApi.step w m) (TaskApi.init n) steps = some (os, s)) :
    (StepMachine.Along (TaskApi.step w m) (TaskApi.Harmless w m) (TaskApi.init n) steps ↔
      StepMachine.Along (TaskApi.step w m) TaskApi.StepRefused (TaskApi.init n) steps) ∧
    (StepMachine.Along (TaskApi.step w m) (fun s i => s.StepTellsApart i ∧ s.DiesClean i)
        (TaskApi.init n) steps →
      StepMachine.Throughout (TaskApi.step w m) TaskApi.EndedNodesTaken (TaskApi.init n) steps) := by
  constructor
  · exact StepMachine.along_congr (fun _ _ _ _ hs => TaskApi.harmless_iff_stepRefused hs) hrun
  · refine StepMachine.throughout_of_along (TaskApi.step w m) _
      (fun s => s.Known ∧ s.Reclaimed) TaskApi.EndedNodesTaken
      ⟨TaskApi.known_init n, TaskApi.reclaimed_init n⟩ (fun _ h => h.1.endedNodesTaken h.2) ?_
    rintro u i o t ⟨hknown, hreclaimed⟩ ⟨hpart, hdies⟩ hs
    refine ⟨hknown.step hs hpart, (TaskApi.reclaimed_iff_stepReclaims hreclaimed hs).mpr ?_⟩
    exact TaskApi.stepReclaims_of hknown.inv (hknown.stepFindsOwn hpart) hdies

open TaskApi in
set_option maxRecDepth 4000 in
/-- The law at a run in which a task returns, and `sk_task_destroy` is called with its id. -/
theorem ended_task_calls_destroy :
    StepMachine.Along (TaskApi.step 32 60) (TaskApi.Harmless 32 60) (TaskApi.init 1)
      (createSteps 0 [97] (some 5) 2 102 ++ enterSteps 1 ++ returnSteps 1 ++
        [(1, .base .exit {}), (0, .lock), (0, .base (.destroy 1) {})]) := by
  have hrun : ∃ os s, StepMachine.run (TaskApi.step 32 60) (TaskApi.init 1)
      (createSteps 0 [97] (some 5) 2 102 ++ enterSteps 1 ++ returnSteps 1 ++
        [(1, .base .exit {}), (0, .lock), (0, .base (.destroy 1) {})]) = some (os, s) :=
    ⟨_, _, rfl⟩
  obtain ⟨os, s, hrun⟩ := hrun
  refine (ended_task_calls 32 60 1 _ os s hrun).1.mpr ?_
  iterate 22 refine StepMachine.along_cons (stepRefused_of_none rfl fun _ => ApiAct.noConfusion) rfl ?_
  -- the id is that of node 0, which is free
  refine StepMachine.along_cons ((stepRefused_destroy_iff (n := 0) rfl rfl ?_).mpr ?_) rfl trivial
  · rfl
  · rfl

open TaskApi in
set_option maxRecDepth 8000 in
/-- **Calls that do harm.** A task ends and a second `sk_task_create` takes its node: `sk_task_destroy` with
the old id takes the mark of the node away. And `sk_task_set_priority` with the id of an ended task succeeds
although its node is free, and sets the nice value of the thread that the system has given its kernel id. -/
theorem ended_task_calls_not_refused :
    (∃ os s, StepMachine.run (TaskApi.step 32 60) (TaskApi.init 2)
        (createSteps 0 [97] (some 5) 3 103 ++ enterSteps 2 ++ returnSteps 2 ++
          [(2, .base .exit {}), (0, .check (some [98]) 64), (0, .lock),
            (0, .base (.create (some 6)) {}), (0, .unlock), (1, .lock)]) = some (os, s) ∧
      s.ended 1 = true ∧ ¬ s.Harmless 32 60 (1, .base (.destroy 1) {})) ∧
    ∃ os s, StepMachine.run (TaskApi.step 32 60) (TaskApi.init 2)
        (createSteps 0 [97] (some 5) 3 103 ++ enterSteps 2 ++ returnSteps 2 ++
          [(2, .base .exit {}), (0, .lock)]) = some (os, s) ∧
      s.ended 1 = true ∧ (s.infos 0).isUse = false ∧
      ¬ s.Harmless 32 60 (0, .setPriority 1 88 true) := by
  refine ⟨⟨_, _, rfl, rfl, ?_⟩, _, _, rfl, rfl, rfl, ?_⟩
  · refine (harmless_iff_stepRefused rfl).not.mpr ?_
    rw [stepRefused_destroy_iff (n := 0) rfl rfl rfl]
    exact Bool.noConfusion
  · refine (harmless_iff_stepRefused rfl).not.mpr ?_
    rw [stepRefused_setPriority_iff (n := 0) rfl rfl rfl]
    exact fun h => Bool.noConfusion h.2

end SmIpc.Os
