import SmIpc.Os.TaskIdentity

/-! # Task ids

`sk_task_create` counts `pid` up and stores it in the node as the task id, which stays there when the task
has ended. Until `pid` has wrapped around no two nodes have the same id, so `sk_task_term`, which looks for
the id that `sk_task_cur_id` has given it, finds the node of the calling task.

* `IdsDiffer`: ids stored are at most `pid`, and no two nodes have the same.
* `Numbered` is this with what is known of the threads; `Numbered.finds` is what it is for.
* `identified_below`: tasks find their own nodes as long as `pid` has not wrapped around, whatever
  `sk_task_term` is called for. -/

namespace SmIpc.Os

/-! ## Ids in the table -/

/-- No node has an id that `pid` has not reached, and no two have the same, unless it is 0. -/
structure IdsDiffer (nodes : OsThreadInfo) (pid : ℕ) : Prop where
  /-- Ids are counted up. -/
  le : ∀ n, (nodes n).taskSkId ≤ pid
  /-- Two nodes with one id are the same. -/
  inj : ∀ i j, 0 < (nodes i).taskSkId → (nodes i).taskSkId = (nodes j).taskSkId → i = j

namespace IdsDiffer

variable {nodes nodes' : OsThreadInfo} {pid n : ℕ}

theorem init (pid : ℕ) : IdsDiffer .init pid :=
  ⟨fun _ => Nat.zero_le pid, fun _ _ hpos => absurd hpos (Nat.lt_irrefl 0)⟩

/-- A table with the same ids. -/
theorem congr (h : IdsDiffer nodes pid) (hids : ∀ n, (nodes' n).taskSkId = (nodes n).taskSkId) :
    IdsDiffer nodes' pid := by
  constructor
  · intro n
    rw [hids]
    exact h.le n
  · intro i j
    rw [hids, hids]
    exact h.inj i j

/-- A node is given the next id. -/
theorem store (h : IdsDiffer nodes pid) {node : TaskNode} (hid : node.taskSkId = pid + 1) :
    IdsDiffer (Function.update nodes n node) (pid + 1) := by
  have hother : ∀ i, i ≠ n → (Function.update nodes n node i).taskSkId = (nodes i).taskSkId :=
    fun i hi => by rw [Function.update_of_ne hi]
  have hown : (Function.update nodes n node n).taskSkId = pid + 1 := by
    rw [Function.update_self, hid]
  constructor
  · intro i
    by_cases hi : i = n
    · rw [hi, hown]
    · rw [hother i hi]
      exact Nat.le_succ_of_le (h.le i)
  · intro i j hpos heq
    by_cases hi : i = n
    · by_cases hj : j = n
      · rw [hi, hj]
      · -- an old id is smaller
        rw [hi, hown, hother j hj] at heq
        exact absurd (h.le j) (by omega)
    · by_cases hj : j = n
      · rw [hj, hown, hother i hi] at heq
        exact absurd (h.le i) (by omega)
      · rw [hother i hi] at hpos heq
        rw [hother j hj] at heq
        exact h.inj i j hpos heq

/-- The search for the id of a node finds this node. -/
theorem getTaskInfo (h : IdsDiffer nodes pid) {m taskId : ℕ} (hid : (nodes n).taskSkId = taskId)
    (hpos : 0 < taskId) (hinfo : getTaskInfo nodes taskId = some m) : m = n := by
  have hm : (nodes m).taskSkId = taskId := beq_iff_eq.mp (firstNode_spec hinfo)
  exact h.inj m n (hm ▸ hpos) (hm.trans hid.symm)

end IdsDiffer

/-! ## Steps -/

namespace TaskSys

variable {w self : ℕ} {s : TaskSys} {pc : ThreadPc} {a : TaskAct} {e : TaskEffect}

/-- **What a step does to the task ids stored**: nothing, or `sk_task_create` stores that of the thread it has
made. -/
theorem act_ids (h : s.act w self pc a = some e) :
    e.made = none ∧ e.pid = s.pid ∧ (∀ n, (e.nodes n).taskSkId = (s.nodes n).taskSkId) ∨
    ∃ i n taskPfn thread, pc = .reserved i n taskPfn ∧
      e.made = some ⟨thread, some n, .searching⟩ ∧ e.pid = u32 w (s.pid + 1) ∧
      e.ret = some (.taskId (u32 w (s.pid + 1))) ∧
      e.nodes = (skTaskCreateStore w s.nodes s.pid n taskPfn (.made thread)).1 := by
  have hsame : ∀ {n : ℕ} {node : TaskNode}, node.taskSkId = (s.nodes n).taskSkId →
      ∀ m, (Function.update s.nodes n node m).taskSkId = (s.nodes m).taskSkId := by
    intro n node hid m
    rw [Function.update_apply]
    split
    · rw [hid, ‹m = n›]
    · rfl
  cases act_acts h with
  | took hget =>
    obtain ⟨-, rfl⟩ := getFreeThreadInfo_eq hget
    exact .inl ⟨rfl, rfl, hsame rfl⟩
  | @started i n taskPfn thread hlive => exact .inr ⟨i, n, taskPfn, thread, rfl, rfl, rfl, rfl, rfl⟩
  | startFailed | gaveUp | destroyed | termed | frees => exact .inl ⟨rfl, rfl, hsame rfl⟩
  | _ => exact .inl ⟨rfl, rfl, fun _ => rfl⟩

/-- **What a step does to the `pthread_t` stored**: one that is written is that of no thread there is. -/
theorem act_threadId (h : s.act w self pc a = some e) (n : ℕ) :
    (e.nodes n).threadId = (s.nodes n).threadId ∨ ¬ s.Alive (e.nodes n).threadId := by
  have hwrite : ∀ {m : ℕ} {node : TaskNode},
      node.threadId = (s.nodes m).threadId ∨ ¬ s.Alive node.threadId →
      (Function.update s.nodes m node n).threadId = (s.nodes n).threadId ∨
        ¬ s.Alive (Function.update s.nodes m node n).threadId := by
    intro m node hnode
    rw [Function.update_apply]
    split
    · rwa [‹n = m›]
    · exact .inl rfl
  cases act_acts h with
  | took hget =>
    obtain ⟨-, rfl⟩ := getFreeThreadInfo_eq hget
    exact hwrite (.inl rfl)
  | started hlive => exact hwrite (.inr hlive)
  | startFailed hleft => exact hwrite hleft
  | gaveUp | destroyed | termed | frees => exact hwrite (.inl rfl)
  | _ => exact .inl rfl

/-- A thread comes into `sk_task_term` with what `sk_task_cur_id` gave. -/
theorem act_terminating (h : s.act w self pc a = some e) {i : Option ℕ} {curTaskId : ℕ}
    (hpc : e.pc = .terminating i curTaskId) :
    pc = .running i ∧ skTaskCurId s.nodes self = some curTaskId := by
  cases act_acts h with
  | terminates hcur =>
    obtain ⟨rfl, rfl⟩ := ThreadPc.terminating.inj hpc
    exact ⟨rfl, hcur⟩
  | _ => cases hpc

end TaskSys

/-- What is known of a thread: no node stores its `pthread_t` unless it is a task, a task has a task id, and
in `sk_task_term` it goes by this id. -/
structure CreateThread.Numbers (nodes : OsThreadInfo) (th : CreateThread) : Prop where
  /-- A thread that is no task. -/
  stranger : th.call = none → th.pc ≠ .exited → ∀ n, (nodes n).threadId ≠ th.self
  /-- The id of a task. -/
  taskId : ∀ c, th.call = some c → 0 < c.taskId
  /-- The id in `sk_task_term`. -/
  term : ∀ i curTaskId, th.pc = .terminating i curTaskId →
    ∃ c, th.call = some c ∧ c.taskId = curTaskId

namespace TaskApi

variable {w m k : ℕ} {s t : TaskApi} {th : ApiThread} {a : TaskAct} {answer : SysAnswer}
  {e : TaskEffect} {i : ℕ × ApiAct} {o : Option ApiRet}

/-- **The invariant about ids.** -/
structure Numbered (s : TaskApi) : Prop where
  /-- The ids stored. -/
  ids : IdsDiffer s.infos.nodes s.pid
  /-- The threads. -/
  threads : ∀ th ∈ s.threads, th.toCreateThread.Numbers s.infos.nodes

/-- **`sk_task_term` finds the node of the calling task.** -/
theorem Numbered.finds (h : s.Numbered) (hknown : s.Known) (hth : th ∈ s.threads) {i : Option ℕ}
    {curTaskId n : ℕ} (hpc : th.pc = .terminating i curTaskId)
    (hinfo : getTaskInfo s.infos.nodes curTaskId = some n) : th.node = some n := by
  obtain ⟨c, hc, rfl⟩ := (h.threads th hth).term i curTaskId hpc
  have hgo : th.pc.GoesOn := by simp [ThreadPc.GoesOn, hpc]
  obtain ⟨n', hnode, hserves, -⟩ := ((hknown.threads th hth).identified c hc).finds hgo
  rw [hnode, h.ids.getTaskInfo hserves.taskId ((h.threads th hth).taskId c hc) hinfo]

/-- The thread that has moved. -/
theorem Numbered.moved (h : s.Numbered) (hknown : s.Known) (hth : th ∈ s.threads)
    (hact : s.sys.act w th.self th.pc a = some e)
    (hstranger : th.call = none → ∀ n, (e.nodes n).threadId ≠ th.self) :
    (s.threadAfter w th a answer e).toCreateThread.Numbers e.nodes := by
  have hnumbers := h.threads th hth
  refine ⟨fun hcall _ => hstranger hcall, hnumbers.taskId, ?_⟩
  intro i curTaskId hpc
  obtain ⟨hrunning, hcur⟩ := TaskSys.act_terminating hact hpc
  have hlive : th.pc ≠ .exited := by simp [hrunning]
  cases hc : th.call with
  | none =>
    -- a thread that is no task finds no node
    obtain ⟨n, hfind, -⟩ := Option.map_eq_some_iff.mp hcur
    have htest := (Bool.and_eq_true_iff.mp (firstNode_spec hfind)).1
    exact absurd (beq_iff_eq.mp htest).symm (hnumbers.stranger hc hlive n)
  | some c =>
    have hgo : th.pc.GoesOn := by simp [ThreadPc.GoesOn, hrunning]
    obtain ⟨n, -, hserves, -⟩ := ((hknown.threads th hth).identified c hc).finds hgo
    exact ⟨c, hc, Option.some.inj (hserves.curId.symm.trans hcur)⟩

/-- **One step keeps the invariant** while `pid` has not wrapped around. -/
theorem Numbered.step (h : s.Numbered) (hknown : s.Known) (hpid : s.pid + 1 < 2 ^ w)
    (hs : TaskApi.step w m s i = some (o, t)) : t.Numbered := by
  obtain ⟨th, hth, hmoves⟩ := step_moves hs
  obtain ⟨k, a⟩ := i
  have hmem : th ∈ s.threads := List.mem_of_getElem? hth
  cases hmoves with
  | @base a answer e hmay hact =>
    have hnodes : (s.afterBase w k th a answer e).infos.nodes = e.nodes := nodes_infosAfter ..
    have hids := TaskSys.act_ids hact
    have hnext : u32 w (s.sys.pid + 1) = s.pid + 1 := u32_of_lt rfl hpid
    -- a thread that is no task stays one that no node names
    have hstranger : ∀ th' ∈ s.threads, th'.pc ≠ .exited → th'.call = none →
        ∀ n, (e.nodes n).threadId ≠ th'.self := by
      intro th' hth' hlive hcall n
      rcases TaskSys.act_threadId hact n with hsame | hdead
      · rw [hsame]
        exact (h.threads th' hth').stranger hcall hlive n
      · exact fun hself => hdead ⟨_, mem_sys hth', hself.symm, hlive⟩
    constructor
    · rw [hnodes]
      show IdsDiffer e.nodes e.pid
      rcases hids with ⟨-, hpid', hsame⟩ | ⟨i, n, taskPfn, thread, -, -, hpid', -, hstore⟩
      · rw [hpid']
        exact h.ids.congr hsame
      · rw [hpid', hnext, hstore]
        exact h.ids.store hnext
    · intro th' hth'
      rw [hnodes]
      rcases List.mem_append.mp hth' with hset | hnew
      · rcases List.mem_or_eq_of_mem_set hset with hold | rfl
        · have hnumbers := h.threads th' hold
          exact ⟨fun hcall hlive => hstranger th' hold hlive hcall, hnumbers.taskId, hnumbers.term⟩
        · exact h.moved hknown hmem hact fun hcall =>
            hstranger th hmem (TaskSys.act_pc hact).1 hcall
      · obtain ⟨made, hmade, rfl⟩ := Option.map_eq_some_iff.mp (Option.mem_toList.mp hnew)
        rcases hids with ⟨hnone, -⟩ | ⟨i, n, taskPfn, thread, hpc, hthread, -, hret, -⟩
        · cases hnone.symm.trans hmade
        · obtain rfl := Option.some.inj (hthread.symm.trans hmade)
          have hcall : callAfter th e = some ⟨taskPfn, s.pid + 1⟩ := by
            rw [callAfter, hpc, hret, hnext]
          refine ⟨fun hnone => ?_, fun c hc => ?_, fun _ _ hterm => by cases hterm⟩
          · cases hcall.symm.trans hnone
          · obtain rfl := Option.some.inj (hcall.symm.trans hc)
            exact Nat.succ_pos _
  | @names a stage infos lock hnames hlock =>
    have hnumbers := h.threads th hmem
    have hall : ∀ th' ∈ s.threads.set k { th with stage := stage },
        th'.toCreateThread.Numbers s.infos.nodes :=
      ThreadPool.forall_mem_set h.threads k ⟨hnumbers.stranger, hnumbers.taskId, hnumbers.term⟩
    have hids := h.ids
    rw [← hnames.nodes] at hall hids
    exact ⟨hids, hall⟩
  | @quiet a infos threads lock hnodes hnames hthreads hlock hquiet =>
    have hall : ∀ th' ∈ s.threads.map (·.toCreateThread), th'.Numbers s.infos.nodes :=
      List.forall_mem_map.mpr h.threads
    have hids := h.ids
    rw [← hthreads, ← hnodes] at hall
    rw [← hnodes] at hids
    exact ⟨hids, List.forall_mem_map.mp hall⟩
  | die hlive =>
    refine ⟨h.ids, ThreadPool.forall_mem_set h.threads k ?_⟩
    exact ⟨fun _ hlive' => absurd rfl hlive', (h.threads th hmem).taskId, fun _ _ hpc => by cases hpc⟩

theorem numbered_init (n : ℕ) : (init n).Numbered := by
  refine ⟨IdsDiffer.init 0, ?_⟩
  intro th hth
  obtain ⟨k, -, rfl⟩ := List.mem_map.mp hth
  refine ⟨fun _ _ _ => ?_, fun c hc => ?_, fun _ _ hpc => ?_⟩
  · exact (Nat.succ_ne_zero k).symm
  · cases hc
  · cases hpc

/-- The condition on a step, for any `sk_task_term`, while `pid` has not wrapped around. -/
def StepBelow (w : ℕ) (s : TaskApi) (i : ℕ × ApiAct) : Prop :=
  s.pid + 1 < 2 ^ w ∧ ((∀ answer, i.2 ≠ .base .term answer) → s.StepTellsApart i)

/-- A `sk_task_term` meets the condition by itself. -/
theorem StepBelow.tellsApart (h : s.StepBelow w i) (hnumbered : s.Numbered) (hknown : s.Known) :
    s.StepTellsApart i := by
  by_cases hterm : ∃ answer, i.2 = .base .term answer
  · obtain ⟨answer, hi⟩ := hterm
    intro a answer' ha sth hsth
    obtain ⟨rfl, -⟩ := ApiAct.base.inj (ha.symm.trans hi)
    obtain ⟨th, hth, rfl⟩ := List.mem_map.mp (List.mem_of_getElem? hsth)
    intro j curTaskId hpc n hinfo
    exact hnumbered.finds hknown hth hpc hinfo
  · exact h.2 (not_exists.mp hterm)

end TaskApi

/-- **Tasks find their own nodes until `pid` wraps around.** -/
theorem identified_below (w m n : ℕ) (steps : List (ℕ × ApiAct))
    (hbelow : StepMachine.Along (TaskApi.step w m) (TaskApi.StepBelow w) (TaskApi.init n) steps) :
    StepMachine.Throughout (TaskApi.step w m) TaskApi.Identified (TaskApi.init n) steps := by
  refine StepMachine.throughout_of_along (TaskApi.step w m) (TaskApi.StepBelow w)
    (fun s => s.Known ∧ s.Numbered) TaskApi.Identified
    ⟨TaskApi.known_init n, TaskApi.numbered_init n⟩ (fun _ h => h.1.identified) ?_ hbelow
  rintro s i o t ⟨hknown, hnumbered⟩ hi hs
  exact ⟨hknown.step hs (hi.tellsApart hnumbered hknown), hnumbered.step hknown hi.1 hs⟩

end SmIpc.Os
