import SmIpc.Os.TaskIdentity

/-! # Finding a task by its name

`sky_task_Id` takes the first node whose name matches, in use or not. Here calls of `sk_task_create` and the
ways a task can end come one after another, each completed before the next.

* `skTaskCreate` is a whole call of `sk_task_create`, and `TaskEnding.free` what an ending does to the table.
  `TaskSeq.step` takes one of them; `made` keeps which task was made last in each node.
* `TaskSeq.Recorded` is the invariant: a node in use has the name and the id of the task made in it, and no
  node before it has its name, since a task gets the first free node.
* `skyTaskId_finds_iff` — a task in use is always found. A name that no task in use has is found all the same
  if an ended task has left it in a node, as in `skyTaskId_finds_ended`. -/

namespace SmIpc.Os

/-! ## Completed calls -/

/-- `sky_task_Id`: what it returns, and what it stores behind `task_id`, which is there or `NULL`. -/
def skyTaskId (w : ℕ) (infos : TaskTable) (name : Option (List UInt8)) (hasTaskId : Bool) :
    SkStatus × Option ℕ :=
  match name, hasTaskId with
  | some name, true =>
      match (List.range maxThreadCount).find? fun i => (infos i).strName == name with
      | some i => (.success, some (infos i).taskSkId)
      | none => (.failed, some (skInvalidId w))
  | _, _ => (.failed, none)

/-- **What `sky_task_Id` does**: it fails if no node has the name, and takes the first one that has. -/
theorem skyTaskId_search (w : ℕ) (infos : TaskTable) (name : List UInt8) :
    (∀ i < maxThreadCount, (infos i).strName ≠ name) ∧
        skyTaskId w infos (some name) true = (.failed, some (skInvalidId w)) ∨
      ∃ i < maxThreadCount, (infos i).strName = name ∧ (∀ j < i, (infos j).strName ≠ name) ∧
        skyTaskId w infos (some name) true = (.success, some (infos i).taskSkId) := by
  cases hfind : (List.range maxThreadCount).find? fun i => (infos i).strName == name with
  | none =>
    refine .inl ⟨fun i hi => ?_, by rw [skyTaskId, hfind]⟩
    have htest := List.find?_range_eq_none.mp hfind i hi
    rw [Bool.not_eq_true'] at htest
    exact ne_of_beq_false htest
  | some i =>
    obtain ⟨hname, hi, hbefore⟩ := List.find?_range_eq_some.mp hfind
    refine .inr ⟨i, List.mem_range.mp hi, beq_iff_eq.mp hname, fun j hj => ?_,
      by rw [skyTaskId, hfind]⟩
    have htest := hbefore j hj
    rw [Bool.not_eq_true'] at htest
    exact ne_of_beq_false htest

/-- The arguments of a `sk_task_create`, and what the system answers. -/
structure TaskRequest where
  /-- `p_task_id` is not `NULL`. -/
  hasTaskId : Bool := true
  /-- `p_task_name`. -/
  name : Option (List UInt8)
  /-- `task_pfn`. -/
  taskPfn : Option ℕ := none
  /-- `priority`. -/
  priority : ℕ := skTaskDefaultPriority
  /-- The attributes of the thread can be set up. -/
  attrOk : Bool := true
  /-- What `pthread_create` does. -/
  created : PthreadCreate
  deriving DecidableEq, Repr

/-- What a `sk_task_create` has done. -/
structure TaskMade where
  /-- What it returned. -/
  status : SkStatus
  /-- The node of the task it made. -/
  node : Option ℕ
  /-- `os_thread_info`. -/
  infos : TaskTable
  /-- `pid`. -/
  pid : ℕ

/-- `sk_task_create`, from the call to the return. -/
def skTaskCreate (w maxOsNameNum : ℕ) (infos : TaskTable) (pid : ℕ) (r : TaskRequest) : TaskMade :=
  if r.hasTaskId = false ∨ skCheckTaskName maxOsNameNum infos r.name ≠ .success then
    ⟨.errorBadParameter, none, infos, pid⟩
  else if r.attrOk = false then ⟨.failed, none, infos, pid⟩
  else
    match getFreeThreadInfo infos.nodes with
    | (none, _) => ⟨.failed, none, infos, pid⟩
    | (some pInfo, nodes) =>
        -- the name is not `NULL`, since it passed the check
        let infos := setNameThreadInfo maxOsNameNum (infos.withNodes nodes) pInfo (r.name.getD [])
        let stored := skTaskCreateStore w infos.nodes pid pInfo r.taskPfn r.created
        let infos :=
          skTaskCreateDetails (infos.withNodes stored.1) pInfo r.priority r.created.thread.isSome
        if r.created.thread.isSome then ⟨.success, some pInfo, infos, stored.2⟩
        else ⟨.failed, none, infos.withNodes (setNoUse infos.nodes pInfo), stored.2⟩

/-- The ways a task can end. -/
inductive TaskEnding where
  /-- The task function returns in the thread, and `wrap_task_fun` gives the node back. -/
  | returned (self : ℕ)
  /-- The thread calls `sk_task_term`. -/
  | term (self : ℕ)
  /-- Another thread calls `sk_task_destroy`, and its `pthread_join` returns. -/
  | destroyed (taskId : ℕ)
  deriving DecidableEq, Repr

/-- The table after a task has ended; none if there is no such task. -/
def TaskEnding.free (nodes : OsThreadInfo) : TaskEnding → Option OsThreadInfo
  | returned self => (findSelf nodes self).map (setNoUse nodes)
  | term self => (skTaskCurId nodes self).bind (skTaskTerm nodes)
  | destroyed taskId =>
      match skTaskDestroy nodes taskId with
      | .ok (_, nodes) => some nodes
      | .error _ => none

/-! ## Sequences of calls -/

/-- The table, `pid`, and the task that was made last in each node: its name and its id. No call reads
`made`. -/
structure TaskSeq where
  /-- `os_thread_info`. -/
  infos : TaskTable
  /-- `pid`. -/
  pid : ℕ
  /-- The tasks made. -/
  made : ℕ → Option (List UInt8 × ℕ)

namespace TaskSeq

/-- `os_thread_info` after `init_os_thread_info`. -/
def init : TaskSeq := ⟨.init, 0, fun _ => none⟩

/-- A `sk_task_create`, or the end of a task. -/
inductive Call where
  /-- `sk_task_create`. -/
  | create (r : TaskRequest)
  /-- The end of a task. -/
  | ends (ending : TaskEnding)
  deriving DecidableEq, Repr

/-- One call after the other. -/
def step (w maxOsNameNum : ℕ) : StepMachine TaskSeq Call SkStatus
  | s, .create r =>
      let done := skTaskCreate w maxOsNameNum s.infos s.pid r
      some (done.status, ⟨done.infos, done.pid,
        match done.node with
        | some n => Function.update s.made n (some (r.name.getD [], (done.infos n).taskSkId))
        | none => s.made⟩)
  | s, .ends ending =>
      (ending.free s.infos.nodes).map fun nodes =>
        (.success, { s with infos := s.infos.withNodes nodes })

/-- Node `i` is in use by the task with this name and this id. -/
def Holds (s : TaskSeq) (i : ℕ) (name : List UInt8) (taskId : ℕ) : Prop :=
  i < maxThreadCount ∧ (s.infos i).isUse = true ∧ s.made i = some (name, taskId)

/-- What `sky_task_Id` should do for a name. -/
def Finds (w : ℕ) (s : TaskSeq) (name : List UInt8) : Prop :=
  ((skyTaskId w s.infos (some name) true).1 = .success ↔ ∃ i taskId, s.Holds i name taskId) ∧
    ∀ i taskId, s.Holds i name taskId →
      skyTaskId w s.infos (some name) true = (.success, some taskId)

/-! ### What a call does -/

/-- `sk_task_create` takes the first free node for a name that no node in use has. -/
structure Takes (s : TaskSeq) (n : ℕ) (name : List UInt8) : Prop where
  /-- The node is one of the table. -/
  lt : n < maxThreadCount
  /-- It is free. -/
  free : (s.infos n).isUse = false
  /-- It is the first. -/
  below : ∀ i < n, (s.infos i).isUse = true
  /-- The name is that of no node in use. -/
  unused : ∀ i < maxThreadCount, (s.infos i).isUse = true → (s.infos i).strName ≠ name

/-- **What a call can do to the table.** -/
inductive Does (s : TaskSeq) : TaskSeq → Prop
  /-- Nothing. -/
  | nothing : Does s s
  /-- A free node is given a new name, and stays free. -/
  | names {n : ℕ} {name : List UInt8} {t : TaskSeq} (htakes : s.Takes n name)
      (hsame : ∀ i, i ≠ n → t.infos i = s.infos i) (hname : (t.infos n).strName = name)
      (hfree : (t.infos n).isUse = false) (hmade : t.made = s.made) : Does s t
  /-- A task is made in a free node. -/
  | makes {n taskId : ℕ} {name : List UInt8} {t : TaskSeq} (htakes : s.Takes n name)
      (hsame : ∀ i, i ≠ n → t.infos i = s.infos i) (hname : (t.infos n).strName = name)
      (hid : (t.infos n).taskSkId = taskId)
      (hmade : t.made = Function.update s.made n (some (name, taskId))) : Does s t
  /-- A node is given back. -/
  | frees (n : ℕ) : Does s { s with infos := s.infos.withNodes (setNoUse s.infos.nodes n) }

variable {w m : ℕ} {s t : TaskSeq} {o : SkStatus}

/-- A node that is given back, and the others. -/
theorem freed_self (infos : TaskTable) (n : ℕ) :
    infos.withNodes (setNoUse infos.nodes n) n = { infos n with isUse := false } := by
  simp only [TaskTable.withNodes, setNoUse, Function.update_self, TaskTable.nodes]

theorem freed_of_ne (infos : TaskTable) {n i : ℕ} (hi : i ≠ n) :
    infos.withNodes (setNoUse infos.nodes n) i = infos i := by
  simp only [TaskTable.withNodes, setNoUse, Function.update_of_ne hi, TaskTable.nodes]

/-- `get_free_thread_info` takes the first free node. -/
theorem getFreeThreadInfo_below {nodes nodes' : OsThreadInfo} {n : ℕ}
    (h : getFreeThreadInfo nodes = (some n, nodes')) : ∀ i < n, (nodes i).isUse = true := by
  rw [getFreeThreadInfo] at h
  split at h
  · rename_i j hfirst
    obtain rfl := Option.some.inj (Prod.mk.inj h).1
    intro i hi
    have htest := (firstNode_eq_some_iff.mp hfirst).2.2 i hi
    rwa [Bool.not_eq_false'] at htest
  · cases h

/-- What an ending does is to give back a node. -/
theorem free_eq {nodes nodes' : OsThreadInfo} {ending : TaskEnding}
    (h : ending.free nodes = some nodes') : ∃ n, nodes' = setNoUse nodes n := by
  cases ending with
  | returned self =>
    obtain ⟨n, -, hn⟩ := Option.map_eq_some_iff.mp h
    exact ⟨n, hn.symm⟩
  | term self =>
    obtain ⟨curTaskId, -, hterm⟩ := Option.bind_eq_some_iff.mp h
    obtain ⟨n, -, hn⟩ := Option.map_eq_some_iff.mp hterm
    exact ⟨n, hn.symm⟩
  | destroyed taskId =>
    rw [TaskEnding.free] at h
    split at h
    · rename_i hdestroy
      cases h
      obtain ⟨n, -, -, hn⟩ := skTaskDestroy_ok hdestroy
      exact ⟨n, hn⟩
    · cases h

/-- All that `sk_task_create` stores, in the node it has taken. -/
theorem skTaskCreate_apply (w m pid n priority : ℕ) (infos : TaskTable) (name : List UInt8)
    (taskPfn : Option ℕ) (created : PthreadCreate) {nodes : OsThreadInfo}
    (hnodes : nodes = Function.update infos.nodes n { infos.nodes n with isUse := true }) :
    (∀ i, i ≠ n →
      skTaskCreateDetails ((setNameThreadInfo m (infos.withNodes nodes) n name).withNodes
        (skTaskCreateStore w nodes pid n taskPfn created).1) n priority created.thread.isSome i = infos i) ∧
    (skTaskCreateDetails ((setNameThreadInfo m (infos.withNodes nodes) n name).withNodes
        (skTaskCreateStore w nodes pid n taskPfn created).1) n priority created.thread.isSome n).strName =
      name.take (m - 1) ∧
    (skTaskCreateDetails ((setNameThreadInfo m (infos.withNodes nodes) n name).withNodes
        (skTaskCreateStore w nodes pid n taskPfn created).1) n priority created.thread.isSome n).taskSkId =
      if created.thread.isSome then u32 w (pid + 1) else (infos n).taskSkId := by
  refine ⟨?_, ?_, ?_⟩
  · intro i hi
    have hstore : (skTaskCreateStore w nodes pid n taskPfn created).1 i = (infos i).toTaskNode := by
      rw [hnodes]
      cases created <;> simp only [skTaskCreateStore, Function.update_of_ne hi, TaskTable.nodes]
    simp only [skTaskCreateDetails, TaskTable.withNodes, setNameThreadInfo, Function.update_of_ne hi,
      hstore]
  · simp only [skTaskCreateDetails, TaskTable.withNodes, setNameThreadInfo, Function.update_self]
  · simp only [skTaskCreateDetails, TaskTable.withNodes, Function.update_self, skTaskCreateStore, hnodes]
    cases created <;> simp [PthreadCreate.thread, Function.update_self]

/-- **Inversion of a call.** -/
theorem step_does {c : Call} (hs : step w m s c = some (o, t)) : s.Does t := by
  cases c with
  | ends ending =>
    obtain ⟨nodes, hfree, heq⟩ := Option.map_eq_some_iff.mp hs
    obtain ⟨n, rfl⟩ := free_eq hfree
    obtain ⟨-, rfl⟩ := Prod.mk.inj heq
    exact .frees n
  | create r =>
    obtain ⟨-, rfl⟩ := Prod.mk.inj (Option.some.inj hs)
    generalize hdone : skTaskCreate w m s.infos s.pid r = done
    by_cases hbad : r.hasTaskId = false ∨ skCheckTaskName m s.infos r.name ≠ .success
    · rw [skTaskCreate, if_pos hbad] at hdone
      obtain rfl := hdone
      exact .nothing
    by_cases hattr : r.attrOk = false
    · rw [skTaskCreate, if_neg hbad, if_pos hattr] at hdone
      obtain rfl := hdone
      exact .nothing
    obtain ⟨name, hname, hshort, hunused⟩ :=
      skCheckTaskName_success (not_ne_iff.mp (not_or.mp hbad).2)
    rw [skTaskCreate, if_neg hbad, if_neg hattr] at hdone
    cases hget : getFreeThreadInfo s.infos.nodes with
    | mk found nodes =>
      rw [hget] at hdone
      cases found with
      | none =>
        obtain rfl := hdone
        exact .nothing
      | some n =>
        obtain ⟨hn, hnodes⟩ := getFreeThreadInfo_eq hget
        have htakes : s.Takes n name :=
          ⟨hn, (getFreeThreadInfo_some hget).1, getFreeThreadInfo_below hget, hunused⟩
        obtain ⟨hother, hstored, hid⟩ :=
          skTaskCreate_apply w m s.pid n r.priority s.infos name r.taskPfn r.created hnodes
        rw [List.take_of_length_le (Nat.le_sub_one_of_lt hshort)] at hstored
        simp only [hname, Option.getD_some, nodes_setNameThreadInfo,
          TaskTable.nodes_withNodes] at hdone ⊢
        cases hcreated : r.created with
        | failed left =>
          rw [hcreated] at hdone hother hstored
          obtain rfl := hdone
          refine .names htakes (fun i hi => (freed_of_ne _ hi).trans (hother i hi)) ?_ ?_ rfl
          · exact (congrArg (fun info => info.strName) (freed_self _ n)).trans hstored
          · exact congrArg (fun info => info.isUse) (freed_self _ n)
        | made thread =>
          rw [hcreated] at hdone hother hstored hid
          obtain rfl := hdone
          exact .makes htakes hother hstored hid
            (congrArg (fun taskId => Function.update s.made n (some (name, taskId))) hid)

/-! ### The tasks in use -/

/-- **The invariant**: a node in use has the name and the id of the task made in it, and no node before it
has the same name, in use or not. -/
structure Recorded (s : TaskSeq) : Prop where
  /-- The tasks. -/
  made : ∀ i < maxThreadCount, (s.infos i).isUse = true →
    s.made i = some ((s.infos i).strName, (s.infos i).taskSkId)
  /-- The names. -/
  first : ∀ i j, i < j → j < maxThreadCount → (s.infos j).isUse = true →
    (s.infos i).strName ≠ (s.infos j).strName

theorem recorded_init : init.Recorded :=
  ⟨fun _ _ huse => absurd huse Bool.false_ne_true, fun _ _ _ _ huse => absurd huse Bool.false_ne_true⟩

/-- The names, when a node has been taken and named. -/
theorem Recorded.first_of_takes (h : s.Recorded) {n : ℕ} {name : List UInt8} (htakes : s.Takes n name)
    (hsame : ∀ i, i ≠ n → t.infos i = s.infos i) (hname : (t.infos n).strName = name) {i j : ℕ}
    (hij : i < j) (hj : j < maxThreadCount) (huse : (t.infos j).isUse = true) :
    (t.infos i).strName ≠ (t.infos j).strName := by
  by_cases hjn : j = n
  · -- the nodes before the one taken are in use, and the name is not theirs
    subst hjn
    rw [hname, hsame i (Nat.ne_of_lt hij)]
    exact htakes.unused i (Nat.lt_trans hij hj) (htakes.below i hij)
  · rw [hsame j hjn] at huse ⊢
    by_cases hin : i = n
    · rw [hin, hname]
      exact (htakes.unused j hj huse).symm
    · rw [hsame i hin]
      exact h.first i j hij hj huse

/-- **One call keeps the invariant.** -/
theorem Recorded.does (h : s.Recorded) (hdoes : s.Does t) : t.Recorded := by
  cases hdoes with
  | nothing => exact h
  | @names n name _ htakes hsame hname hfree hmade =>
    refine ⟨fun i hi huse => ?_, fun i j => h.first_of_takes htakes hsame hname⟩
    have hin : i ≠ n := by
      rintro rfl
      exact absurd (hfree.symm.trans huse) Bool.false_ne_true
    rw [hsame i hin] at huse ⊢
    rw [hmade]
    exact h.made i hi huse
  | @makes n taskId name _ htakes hsame hname hid hmade =>
    refine ⟨fun i hi huse => ?_, fun i j => h.first_of_takes htakes hsame hname⟩
    by_cases hin : i = n
    · rw [hin, hmade, Function.update_self, hname, hid]
    · rw [hmade, Function.update_of_ne hin]
      rw [hsame i hin] at huse ⊢
      exact h.made i hi huse
  | frees n =>
    have hsame : ∀ i, (s.infos.withNodes (setNoUse s.infos.nodes n) i).isUse = true →
        s.infos.withNodes (setNoUse s.infos.nodes n) i = s.infos i := by
      intro i huse
      refine freed_of_ne s.infos ?_
      rintro rfl
      rw [freed_self] at huse
      exact absurd huse Bool.false_ne_true
    refine ⟨fun i hi huse => ?_, fun i j hij hj huse => ?_⟩
    · have hi' := hsame i huse
      dsimp only at huse ⊢
      rw [hi'] at huse ⊢
      exact h.made i hi huse
    · have hj' := hsame j huse
      dsimp only at huse ⊢
      rw [hj'] at huse ⊢
      exact h.first i j hij hj huse

/-- **The invariant of a sequence of calls.** -/
theorem recorded {calls : List Call} {os : List SkStatus}
    (h : StepMachine.run (step w m) init calls = some (os, s)) : s.Recorded :=
  StepMachine.run_induction (step w m) (fun _ _ s => s.Recorded) recorded_init
    (fun _ _ _ _ _ _ _ hs hstep => hs.does (step_does hstep)) h

/-- What a node holds is its name and its id. -/
theorem Recorded.eq_of_holds (h : s.Recorded) {i taskId : ℕ} {name : List UInt8}
    (hholds : s.Holds i name taskId) : (s.infos i).strName = name ∧ (s.infos i).taskSkId = taskId := by
  obtain ⟨hi, huse, hmade⟩ := hholds
  exact Prod.mk.inj (Option.some.inj ((h.made i hi huse).symm.trans hmade))

/-! ### The search -/

/-- A task in use is found. -/
theorem Recorded.finds_of_holds (h : s.Recorded) {i taskId : ℕ} {name : List UInt8}
    (hholds : s.Holds i name taskId) :
    skyTaskId w s.infos (some name) true = (.success, some taskId) := by
  obtain ⟨hname, hid⟩ := h.eq_of_holds hholds
  rcases skyTaskId_search w s.infos name with ⟨hnone, -⟩ | ⟨j, hj, hjname, hbefore, hfinds⟩
  · exact absurd hname (hnone i hholds.1)
  · rcases Nat.lt_trichotomy j i with hlt | rfl | hlt
    · exact absurd (hjname.trans hname.symm) (h.first j i hlt hholds.1 hholds.2.1)
    · rw [hfinds, hid]
    · exact absurd hname (hbefore i hlt)

end TaskSeq

/-- **When `sky_task_Id` is right about a name**: when a task of that name is in use, or else no node of the
table has the name. -/
theorem skyTaskId_finds_iff (w m : ℕ) (calls : List TaskSeq.Call) (os : List SkStatus) (s : TaskSeq)
    (h : StepMachine.run (TaskSeq.step w m) TaskSeq.init calls = some (os, s)) (name : List UInt8) :
    s.Finds w name ↔ (∃ i taskId, s.Holds i name taskId) ∨
      ∀ i < maxThreadCount, (s.infos i).strName ≠ name := by
  have hrecorded := TaskSeq.recorded h
  by_cases hexists : ∃ i taskId, s.Holds i name taskId
  · refine iff_of_true ⟨?_, fun i taskId => hrecorded.finds_of_holds⟩ (.inl hexists)
    obtain ⟨i, taskId, hholds⟩ := hexists
    rw [hrecorded.finds_of_holds hholds]
    exact iff_of_true rfl ⟨i, taskId, hholds⟩
  · have hvacuous : ∀ i taskId, s.Holds i name taskId →
        skyTaskId w s.infos (some name) true = (.success, some taskId) :=
      fun i taskId hholds => absurd ⟨i, taskId, hholds⟩ hexists
    rcases skyTaskId_search w s.infos name with ⟨hnone, hfails⟩ | ⟨i, hi, hname, -, hfinds⟩
    · refine iff_of_true ⟨?_, hvacuous⟩ (.inr hnone)
      rw [hfails]
      exact iff_of_false SkStatus.noConfusion hexists
    · -- the first node with the name is free, and is taken for the task
      refine iff_of_false (fun hright => hexists (hright.1.mp ?_)) ?_
      · rw [hfinds]
      · rintro (htask | hnone)
        · exact hexists htask
        · exact hnone i hi hname

set_option maxRecDepth 4000 in
/-- A task returns, and a second one takes its node under a new name: both names are searched for rightly. -/
theorem skyTaskId_finds_iff_reused : ∃ os s,
    StepMachine.run (TaskSeq.step 32 60) TaskSeq.init
      [.create { name := some [97], created := .made 5 }, .ends (.returned 5),
        .create { name := some [98], created := .made 6 }] = some (os, s) ∧
    s.Finds 32 [97] ∧ s.Finds 32 [98] := by
  have hreused : ∃ os s,
      StepMachine.run (TaskSeq.step 32 60) TaskSeq.init
        [.create { name := some [97], created := .made 5 }, .ends (.returned 5),
          .create { name := some [98], created := .made 6 }] = some (os, s) ∧
      (∀ i < maxThreadCount, (s.infos i).strName ≠ [97]) ∧ (s.infos 0).isUse = true ∧
      s.made 0 = some ([98], 2) := ⟨_, _, rfl, by decide, rfl, rfl⟩
  obtain ⟨os, s, hrun, hgone, huse, hmade⟩ := hreused
  refine ⟨os, s, hrun, ?_, ?_⟩
  · exact (skyTaskId_finds_iff 32 60 _ os s hrun [97]).mpr (.inr hgone)
  · exact (skyTaskId_finds_iff 32 60 _ os s hrun [98]).mpr (.inl ⟨0, 2, by decide, huse, hmade⟩)

set_option maxRecDepth 4000 in
/-- **The id of a task that has returned.** No node is in use, and `sky_task_Id` finds the task. -/
theorem skyTaskId_finds_ended : ∃ os s,
    StepMachine.run (TaskSeq.step 32 60) TaskSeq.init
      [.create { name := some [97], created := .made 5 }, .ends (.returned 5)] = some (os, s) ∧
    (∀ i < maxThreadCount, (s.infos i).isUse = false) ∧
    skyTaskId 32 s.infos (some [97]) true = (.success, some 1) ∧ ¬ s.Finds 32 [97] := by
  have hended : ∃ os s,
      StepMachine.run (TaskSeq.step 32 60) TaskSeq.init
        [.create { name := some [97], created := .made 5 }, .ends (.returned 5)] = some (os, s) ∧
      (∀ i < maxThreadCount, (s.infos i).isUse = false) ∧
      skyTaskId 32 s.infos (some [97]) true = (.success, some 1) := ⟨_, _, rfl, by decide, rfl⟩
  obtain ⟨os, s, hrun, hfree, hfinds⟩ := hended
  refine ⟨os, s, hrun, hfree, hfinds, ?_⟩
  rintro ⟨hsuccess, -⟩
  obtain ⟨i, taskId, hi, huse, -⟩ := hsuccess.mp (congrArg Prod.fst hfinds)
  exact absurd ((hfree i hi).symm.trans huse) Bool.false_ne_true

end SmIpc.Os
