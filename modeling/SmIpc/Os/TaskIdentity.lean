import SmIpc.Os.TaskReclaim

/-! # Which node a task finds

A task finds its node by its `pthread_t`, in the first node in use that stores it. A node is in use from the
time `sk_task_create` takes it, and until it stores the new task there it still has the `pthread_t`, the
function and the task id of an earlier one, whose `pthread_t` the system may have given to another thread.

* `Serves`: the search finds a node, and it is the one the task's `sk_task_create` filled in.
* `TaskSys.Writes` lists what a step of `TaskSys` does to the table.
* `task_finds_own_node`: every task finds its own node throughout a run in which no `sk_task_create` takes a
  node that another task would find, and none is given a `pthread_t` that an earlier node in use has.
  `task_finds_other_node` is a run where a task runs the function of another. -/

namespace SmIpc.Os

/-! ## Searches -/

/-- The node found is the first that passes the test. -/
theorem firstNode_eq_some_iff {test : TaskNode → Bool} {nodes : OsThreadInfo} {n : ℕ} :
    firstNode test nodes = some n ↔
      n < maxThreadCount ∧ test (nodes n) = true ∧ ∀ j < n, test (nodes j) = false := by
  rw [firstNode, List.find?_range_eq_some, List.mem_range, and_left_comm]
  simp only [Bool.not_eq_true']

/-- The node that `get_free_thread_info` takes. -/
theorem getFreeThreadInfo_eq {nodes nodes' : OsThreadInfo} {n : ℕ}
    (h : getFreeThreadInfo nodes = (some n, nodes')) :
    n < maxThreadCount ∧ nodes' = Function.update nodes n { nodes n with isUse := true } := by
  rw [getFreeThreadInfo] at h
  split at h
  · rename_i i hfirst
    obtain ⟨hi, rfl⟩ := Prod.mk.inj h
    obtain rfl := Option.some.inj hi
    exact ⟨(firstNode_eq_some_iff.mp hfirst).1, rfl⟩
  · cases h

/-- The search of the thread with `pthread_t` `thread` finds node `n`, which is what `sk_task_create` made of
it. -/
structure Serves (nodes : OsThreadInfo) (thread n : ℕ) (c : TaskCall) : Prop where
  /-- The search. -/
  finds : findSelf nodes thread = some n
  /-- The function. -/
  taskFun : (nodes n).taskFun = c.taskPfn
  /-- The task id. -/
  taskId : (nodes n).taskSkId = c.taskId

/-- What `sk_task_cur_id` gives. -/
theorem Serves.curId {nodes : OsThreadInfo} {self n : ℕ} {c : TaskCall} (h : Serves nodes self n c) :
    skTaskCurId nodes self = some c.taskId := by
  rw [skTaskCurId, h.finds, Option.map_some, h.taskId]

/-- A node that is written is not the one served, and does not come before it with the same
`pthread_t`. -/
theorem Serves.update {nodes : OsThreadInfo} {self n m : ℕ} {c : TaskCall} (h : Serves nodes self n c)
    {node : TaskNode} (hne : n ≠ m)
    (hlater : m < n → node.isUse = true → self ≠ node.threadId) :
    Serves (Function.update nodes m node) self n c := by
  have hkeep : Function.update nodes m node n = nodes n := Function.update_of_ne hne _ _
  refine ⟨?_, by rw [hkeep, h.taskFun], by rw [hkeep, h.taskId]⟩
  obtain ⟨hn, hown, hfirst⟩ := firstNode_eq_some_iff.mp h.finds
  refine firstNode_eq_some_iff.mpr ⟨hn, by rw [hkeep, hown], ?_⟩
  intro j hj
  rw [Function.update_apply]
  split
  · rename_i hjm
    have hself := hlater (hjm ▸ hj)
    cases huse : node.isUse with
    | false => rw [Bool.and_false]
    | true => simp [hself huse]
  · exact hfirst j hj

/-- The task has not finished in `wrap_task_fun`. -/
def ThreadPc.GoesOn (pc : ThreadPc) : Prop := pc ≠ .exiting ∧ pc ≠ .exited

/-- The node a thread runs in is the one that was taken for it, until it finishes. -/
theorem ThreadPc.mem_occupies_iff {pc : ThreadPc} {node : Option ℕ} {n : ℕ} :
    n ∈ pc.occupies node ↔ pc.GoesOn ∧ node = some n := by
  cases pc with
  | exiting => exact iff_of_false List.not_mem_nil fun h => h.1.1 rfl
  | exited => exact iff_of_false List.not_mem_nil fun h => h.1.2 rfl
  | _ =>
    refine Option.mem_toList.trans (and_iff_right ?_).symm
    exact ⟨ThreadPc.noConfusion, ThreadPc.noConfusion⟩

/-! ## What a step writes -/

namespace TaskSys

variable {w self k : ℕ} {s : TaskSys} {node : Option ℕ} {pc : ThreadPc} {a : TaskAct}
  {e : TaskEffect}

/-- The node whose mark a step takes away. -/
def Clears (s : TaskSys) (n : ℕ) : ThreadPc → TaskAct → Prop
  | .createFreeing _ pInfo, .setFree => n = pInfo
  | .running _, .destroy taskId => getTaskInfo s.nodes taskId = some n ∧ s.nodes.use n = true
  | .terminating _ curTaskId, .term => getTaskInfo s.nodes curTaskId = some n
  | .freeing i, .setFree => n = i
  | _, _ => False

/-- **What a step does to the table**, and the thread it makes. -/
inductive Writes (w : ℕ) (s : TaskSys) (pc : ThreadPc) (a : TaskAct) (e : TaskEffect) : Prop
  /-- Nothing. -/
  | none (hnodes : e.nodes = s.nodes) (hmade : e.made = none)
      (hres : e.pc.reserves.Sublist pc.reserves)
  /-- `sk_task_create` takes a node. -/
  | takes {i : Option ℕ} {n : ℕ} {taskPfn : Option ℕ} (hpc : pc = .running i)
      (ha : a = .create taskPfn) (hget : getFreeThreadInfo s.nodes = (some n, e.nodes))
      (hpc' : e.pc = .reserved i n taskPfn) (hmade : e.made = Option.none)
  /-- `sk_task_create` fills its node in. -/
  | stores {i : Option ℕ} {n : ℕ} {taskPfn : Option ℕ} {created : PthreadCreate}
      (hpc : pc = .reserved i n taskPfn) (ha : a = .start created)
      (hnodes : e.nodes = (skTaskCreateStore w s.nodes s.pid n taskPfn created).1)
      (hmade : e.made = created.thread.map fun self => ⟨self, some n, .searching⟩)
      (hlive : (e.nodes n).threadId = (s.nodes n).threadId ∨ ¬ s.Alive (e.nodes n).threadId)
      (hret : ∀ self, created = .made self → ¬ s.Alive self ∧
        e.ret = some (.taskId (skTaskCreateStore w s.nodes s.pid n taskPfn created).2) ∧
          e.pc.reserves = [])
      (hres : e.pc.reserves.Sublist pc.reserves)
  /-- A node loses its mark. -/
  | clears (n : ℕ) (hclears : s.Clears n pc a) (hnodes : e.nodes = setNoUse s.nodes n)
      (hmade : e.made = Option.none) (hres : e.pc.reserves = [])

theorem act_writes (h : s.act w self pc a = some e) : s.Writes w pc a e := by
  cases act_acts h with
  | took hget => exact .takes rfl rfl hget rfl rfl
  | @started i pInfo taskPfn thread hlive =>
    refine .stores rfl rfl rfl rfl (.inr ?_) ?_ (List.nil_sublist _)
    · simpa only [skTaskCreateStore, Function.update_self] using hlive
    · rintro self hself
      obtain rfl := PthreadCreate.made.inj hself
      exact ⟨hlive, rfl, rfl⟩
  | startFailed hleft =>
    refine .stores rfl rfl rfl rfl ?_ (fun _ h => by cases h) (List.Sublist.refl _)
    simpa only [write, skTaskCreateStore, Function.update_self] using hleft
  | lost => exact .none rfl rfl (List.nil_sublist _)
  | @gaveUp i pInfo => exact .clears pInfo rfl rfl rfl rfl
  | @destroyed i taskId n pthT hinfo huse => exact .clears n ⟨hinfo, huse⟩ rfl rfl rfl
  | @termed i curTaskId n hinfo => exact .clears n hinfo rfl rfl rfl
  | @frees i => exact .clears i rfl rfl rfl rfl
  | full | tested | destroyRefused | joined | joinFailed | terminates | noCurId | noTerm | finds
  | searchesOn | calls | skips | returns | ends | endsFree | exits =>
    exact .none rfl rfl (List.Sublist.refl _)

/-- Where a thread stands after a step: a task that goes on went on before, and has the index it found. -/
theorem act_pc_after (h : s.act w self pc a = some e) :
    (e.pc.GoesOn → pc.GoesOn) ∧ (∀ i, e.pc = .found i → findSelf s.nodes self = some i) ∧
      (e.pc = .searching → pc = .searching) := by
  cases act_acts h with
  | @finds i hfind =>
    refine ⟨fun _ => ⟨ThreadPc.noConfusion, ThreadPc.noConfusion⟩, ?_, fun _ => rfl⟩
    intro j hj
    obtain rfl := ThreadPc.found.inj hj
    exact hfind
  | searchesOn => exact ⟨id, fun _ => ThreadPc.noConfusion, id⟩
  | termed | endsFree | frees | exits =>
    exact ⟨fun hon => absurd hon (by simp [ThreadPc.GoesOn, move, write]), fun _ => ThreadPc.noConfusion,
      ThreadPc.noConfusion⟩
  | _ =>
    exact ⟨fun _ => ⟨ThreadPc.noConfusion, ThreadPc.noConfusion⟩, fun _ => ThreadPc.noConfusion,
      ThreadPc.noConfusion⟩

/-- A node threads run in is not one that a thread has taken for a new task. -/
theorem Inv.disjoint (h : s.Inv) {th th' : TaskThread} (hth : th ∈ s.threads) (hth' : th' ∈ s.threads)
    {n : ℕ} (hocc : n ∈ th.pc.occupies th.node) : n ∉ th'.pc.reserves := by
  intro hres
  have hperm := List.flatMap_append_perm s.threads (fun th => th.pc.occupies th.node)
    (fun th => th.pc.reserves)
  have hnodup := hperm.nodup_iff.mpr h.exclusive.2
  exact (List.nodup_append.mp hnodup).2.2 n (List.mem_flatMap.mpr ⟨th, hth, hocc⟩) n
    (List.mem_flatMap.mpr ⟨th', hth', hres⟩) rfl

/-- The node a thread has is marked. -/
theorem Inv.marked (h : s.Inv) {th : TaskThread} (hth : th ∈ s.threads) {n : ℕ}
    (hn : n ∈ th.pc.holds th.node) : s.nodes.use n = true :=
  h.exclusive.1 n (List.mem_flatMap.mpr ⟨th, hth, hn⟩)

end TaskSys

/-! ## Tasks and their nodes -/

/-- **The task is who it was made to be**: as long as it has not finished, its search and `sk_task_cur_id`
find the node that was taken for it, with the function and the task id of its `sk_task_create`, and
what it has called, if anything, is this function. -/
structure CreateThread.Identified (nodes : OsThreadInfo) (th : CreateThread) (c : TaskCall) :
    Prop where
  /-- The node. -/
  finds : th.pc.GoesOn → ∃ n, th.node = some n ∧ Serves nodes th.self n c ∧ ∀ i, th.pc = .found i → i = n
  /-- The function. -/
  ran : ∀ taskFun, th.ran = some taskFun → taskFun = c.taskPfn

namespace TaskApi

variable {w m k : ℕ} {s t : TaskApi} {th : ApiThread} {a : TaskAct} {answer : SysAnswer}
  {e : TaskEffect} {i : ℕ × ApiAct} {o : Option ApiRet}

/-- Every task is who it was made to be. -/
def Identified (s : TaskApi) : Prop :=
  ∀ th ∈ s.threads, ∀ c, th.call = some c → th.toCreateThread.Identified s.infos.nodes c

/-- The condition on a step of `TaskSys` by the thread `th`: `sk_task_create` takes no node that comes before
the node of a task and still stores its `pthread_t`; the thread it makes gets no `pthread_t` that an
earlier node in use stores; `sk_task_destroy` finds no node in use that a thread has, and `sk_task_term` finds
the calling task's node. -/
def TellsApart (s : TaskApi) (th : TaskThread) : TaskAct → Prop
  | .create _ =>
      ∀ n nodes, getFreeThreadInfo s.infos.nodes = (some n, nodes) → ∀ th' ∈ s.threads,
        th'.pc.GoesOn → th'.self = (s.infos n).threadId → ∀ n', th'.node = some n' → n' < n
  | .start (.made thread) =>
      ∀ i n taskPfn, th.pc = .reserved i n taskPfn → ∀ j < n, (s.infos j).isUse = true →
        (s.infos j).threadId ≠ thread
  | .destroy taskId =>
      ∀ n, getTaskInfo s.infos.nodes taskId = some n → (s.infos n).isUse = true → n ∉ held s.sys.threads
  | .term =>
      ∀ i curTaskId, th.pc = .terminating i curTaskId →
        ∀ n, getTaskInfo s.infos.nodes curTaskId = some n → th.node = some n
  | _ => True

/-- The condition on a step. -/
def StepTellsApart (s : TaskApi) (i : ℕ × ApiAct) : Prop :=
  ∀ a answer, i.2 = .base a answer → ∀ th, s.sys.threads[i.1]? = some th → s.TellsApart th a

/-- What is known of a thread: the node it has taken is one of the table, a thread that searches or has a node
is a task, and a task is who it was made to be. -/
structure Knows (nodes : OsThreadInfo) (th : CreateThread) : Prop where
  /-- The node taken. -/
  reserves : ∀ n ∈ th.pc.reserves, n < maxThreadCount
  /-- The search. -/
  searching : th.pc = .searching → th.call.isSome
  /-- The node taken for it. -/
  called : th.node.isSome → th.call.isSome
  /-- The task. -/
  identified : ∀ c, th.call = some c → th.Identified nodes c

/-- **The invariant.** -/
structure Known (s : TaskApi) : Prop where
  /-- The nodes threads have. -/
  inv : s.sys.Inv
  /-- The threads. -/
  threads : ∀ th ∈ s.threads, Knows s.infos.nodes th.toCreateThread

theorem Known.identified (h : s.Known) : s.Identified := fun th hth => (h.threads th hth).identified

/-- Threads of `TaskSys` are threads. -/
theorem mem_sys (hth : th ∈ s.threads) : th.toTaskThread ∈ s.sys.threads := List.mem_map_of_mem hth

/-- A task finds its node, so the lookups of a step find what they are meant for. -/
theorem Known.findsOwn (h : s.Known) (hth : th ∈ s.threads) (hpart : s.TellsApart th.toTaskThread a) :
    s.sys.FindsOwn th.self th.node th.pc a := by
  unfold TaskSys.FindsOwn
  split
  · exact hpart
  · rename_i hpc
    intro n hfind
    have hknows := h.threads th hth
    obtain ⟨c, hc⟩ := Option.isSome_iff_exists.mp (hknows.searching hpc)
    have hgo : th.pc.GoesOn := by simp [ThreadPc.GoesOn, hpc]
    obtain ⟨n', hnode, hserves, -⟩ := (hknows.identified c hc).finds hgo
    rw [hnode, ← hfind]
    exact hserves.finds.symm
  · rename_i i curTaskId hpc
    exact hpart i curTaskId hpc
  · trivial

/-- **What a step of `TaskSys` writes, no other task loses its node by.** -/
theorem Known.serves (h : s.Known) (hth : th ∈ s.threads) (hpart : s.TellsApart th.toTaskThread a)
    (hact : s.sys.act w th.self th.pc a = some e) {th' : ApiThread} (hth' : th' ∈ s.threads)
    (hgo : th'.pc.GoesOn) {n : ℕ} {c : TaskCall} (hnode : th'.node = some n)
    (hmark : e.nodes.use n = true) (hserves : Serves s.infos.nodes th'.self n c) :
    Serves e.nodes th'.self n c := by
  have hocc : n ∈ th'.pc.occupies th'.node := ThreadPc.mem_occupies_iff.mpr ⟨hgo, hnode⟩
  have hfirst := firstNode_eq_some_iff.mp hserves.finds
  cases TaskSys.act_writes hact with
  | none hnodes hmade hres =>
    rw [hnodes]
    exact hserves
  | @takes i n' taskPfn hpc ha hget hpc' hmade =>
    subst ha
    rw [(getFreeThreadInfo_eq hget).2]
    refine hserves.update ?_ ?_
    · rintro rfl
      have hfree := (getFreeThreadInfo_some hget).1
      have huse := h.inv.marked (mem_sys hth') (List.mem_append_left _ hocc)
      rw [hfree] at huse
      cases huse
    · intro hlt _ hself
      exact absurd (hpart n' _ hget th' hth' hgo hself n hnode) (Nat.lt_asymm hlt)
  | @stores i n' taskPfn created hpc ha hnodes hmade hlive hret hres =>
    have hne : n ≠ n' := by
      rintro rfl
      refine h.inv.disjoint (mem_sys hth') (mem_sys hth) hocc ?_
      rw [hpc]
      exact List.mem_singleton_self n
    have hstored : e.nodes = Function.update s.infos.nodes n' (e.nodes n') := by
      rw [hnodes]
      exact skTaskCreateStore_eq ..
    have huse : e.nodes.use = s.infos.nodes.use := by
      rw [hnodes, use_skTaskCreateStore]
      rfl
    rw [hstored]
    refine hserves.update hne ?_
    intro hlt hmarked hself
    rcases hlive with hold | hnew
    · -- the node has the id it had, and was not found before
      have hfail := hfirst.2.2 n' hlt
      have huse' : (s.infos.nodes n').isUse = true := (congrFun huse n').symm.trans hmarked
      have hself' : th'.self = (s.infos.nodes n').threadId := hself.trans hold
      rw [← hself', huse', beq_self_eq_true] at hfail
      cases hfail
    · exact hnew ⟨th'.toTaskThread, mem_sys hth', hself, hgo.2⟩
  | clears n' hclears hnodes hmade hres =>
    rw [hnodes]
    refine hserves.update ?_ ?_
    · rintro rfl
      rw [hnodes, TaskSys.use_setNoUse_iff] at hmark
      exact hmark.2 rfl
    · intro _ huse
      cases huse

/-- The thread that took a step of `TaskSys`. -/
theorem Known.moved (h : s.Known) (hth : th ∈ s.threads) (hpart : s.TellsApart th.toTaskThread a)
    (hact : s.sys.act w th.self th.pc a = some e)
    (hmark : ∀ n, n ∈ e.pc.holds th.node → e.nodes.use n = true) :
    Knows e.nodes (s.threadAfter w th a answer e).toCreateThread := by
  have hknows := h.threads th hth
  obtain ⟨hgoes, hfound, hsearching⟩ := TaskSys.act_pc_after hact
  refine ⟨?_, fun hpc => hknows.searching (hsearching hpc), hknows.called, ?_⟩
  · intro n hn
    cases TaskSys.act_writes hact with
    | none hnodes hmade hres => exact hknows.reserves n (hres.subset hn)
    | takes hpc ha hget hpc' hmade =>
      have hn' : n ∈ e.pc.reserves := hn
      rw [hpc'] at hn'
      rw [List.mem_singleton.mp hn']
      exact (getFreeThreadInfo_eq hget).1
    | stores hpc ha hnodes hmade hlive hret hres => exact hknows.reserves n (hres.subset hn)
    | clears n' hclears hnodes hmade hres =>
      have hn' : n ∈ e.pc.reserves := hn
      rw [hres] at hn'
      cases hn'
  · intro c hc
    have hold := hknows.identified c hc
    refine ⟨?_, ?_⟩
    · intro hgo
      obtain ⟨n, hnode, hserves, -⟩ := hold.finds (hgoes hgo)
      have hocc : n ∈ e.pc.holds th.node :=
        List.mem_append_left _ (ThreadPc.mem_occupies_iff.mpr ⟨hgo, hnode⟩)
      refine ⟨n, hnode, h.serves hth hpart hact hth (hgoes hgo) hnode (hmark n hocc) hserves, ?_⟩
      intro j hj
      exact Option.some.inj ((hfound j hj).symm.trans hserves.finds)
    · intro taskFun hran
      have hran' : s.ranAfter th a = some taskFun := hran
      unfold ranAfter at hran'
      split at hran'
      · rename_i j hpc
        -- what is called is the function of the node that was found
        have hgo : th.pc.GoesOn := by simp [ThreadPc.GoesOn, hpc]
        obtain ⟨n, -, hserves, hindex⟩ := hold.finds hgo
        obtain rfl := Option.some.inj hran'
        rw [hindex j hpc]
        exact hserves.taskFun
      · exact hold.ran taskFun hran'

/-- The thread that a step of `TaskSys` has made. -/
theorem Known.made (h : s.Known) (hth : th ∈ s.threads) (hpart : s.TellsApart th.toTaskThread a)
    (hact : s.sys.act w th.self th.pc a = some e) {made : TaskThread} (hmade : e.made = some made) :
    Knows e.nodes (threadMade th answer e made).toCreateThread := by
  have hnew : ∀ {x : TaskThread}, e.made = some x → x = made := fun hx =>
    Option.some.inj (hx.symm.trans hmade)
  cases TaskSys.act_writes hact with
  | none hnodes hnone hres => cases hnone.symm.trans hmade
  | takes hpc ha hget hpc' hnone => cases hnone.symm.trans hmade
  | clears n' hclears hnodes hnone hres => cases hnone.symm.trans hmade
  | @stores i n taskPfn created hpc ha hnodes hthread hlive hret hres =>
    cases created with
    | failed left => cases hthread.symm.trans hmade
    | made thread =>
      obtain rfl := hnew hthread
      have hcall : callAfter th e =
          some ⟨taskPfn, (skTaskCreateStore w s.sys.nodes s.sys.pid n taskPfn (.made thread)).2⟩ := by
        rw [callAfter, hpc, (hret thread rfl).2.1]
      have hmem : n ∈ th.pc.reserves := by
        rw [hpc]
        exact List.mem_singleton_self n
      have hsome : (threadMade th answer e ⟨thread, some n, .searching⟩).call.isSome = true := by
        simp [threadMade, hcall]
      refine ⟨fun n hn => absurd hn List.not_mem_nil, fun _ => hsome, fun _ => hsome, ?_⟩
      intro c hc
      obtain rfl := Option.some.inj (hcall.symm.trans hc)
      refine ⟨?_, fun _ hran => by cases hran⟩
      intro _
      refine ⟨n, rfl, ?_, fun _ hi => by cases hi⟩
      have hown : e.nodes n = { s.sys.nodes n with
          taskFun := taskPfn, threadId := thread, taskSkId := u32 w (s.sys.pid + 1) } := by
        rw [hnodes]
        exact Function.update_self n _ _
      have huse : (s.sys.nodes n).isUse = true :=
        h.inv.marked (mem_sys hth) (List.mem_append_right _ hmem)
      refine ⟨firstNode_eq_some_iff.mpr ⟨(h.threads th hth).reserves n hmem, ?_, ?_⟩, ?_, ?_⟩
      · rw [hown, huse]
        simp [threadMade]
      · intro j hj
        have hother : e.nodes j = s.sys.nodes j := by
          rw [hnodes]
          exact Function.update_of_ne (Nat.ne_of_lt hj) _ _
        subst ha
        rw [hother]
        cases huse' : (s.sys.nodes j).isUse with
        | false => rw [Bool.and_false]
        | true =>
          have hne := hpart i n taskPfn hpc j hj huse'
          simp [threadMade, sys, hne.symm]
      · rw [hown]
      · rw [hown]
        rfl

/-- The lookups of a step that meets the condition. -/
theorem Known.stepFindsOwn (h : s.Known) (hpart : s.StepTellsApart i) : s.StepFindsOwn i := by
  intro a answer ha th hth
  obtain ⟨th', hth', rfl⟩ := List.mem_map.mp (List.mem_of_getElem? hth)
  exact h.findsOwn hth' (hpart a answer ha _ hth)

/-- **One step keeps the invariant** if it meets the condition. -/
theorem Known.step (h : s.Known) (hs : TaskApi.step w m s i = some (o, t))
    (hpart : s.StepTellsApart i) : t.Known := by
  have hinv := inv_step h.inv hs (h.stepFindsOwn hpart)
  obtain ⟨th, hth, hmoves⟩ := step_moves hs
  obtain ⟨k, a⟩ := i
  have hmem := List.mem_of_getElem? hth
  cases hmoves with
  | @base a answer e hmay hact =>
    have hpart' := hpart a answer rfl _ (sys_getElem? hth)
    have hnodes : (s.afterBase w k th a answer e).infos.nodes = e.nodes := nodes_infosAfter ..
    -- in the new state every node that a thread has is marked
    have hmark : ∀ th' ∈ (s.afterBase w k th a answer e).threads, ∀ n ∈ th'.pc.holds th'.node,
        e.nodes.use n = true := by
      intro th' hth' n hn
      rw [← hnodes]
      exact hinv.marked (mem_sys hth') hn
    refine ⟨hinv, ?_⟩
    intro th' hth'
    rw [hnodes]
    rcases List.mem_append.mp hth' with hset | hnew
    · rcases List.mem_or_eq_of_mem_set hset with hold | rfl
      · have hknows := h.threads th' hold
        refine ⟨hknows.reserves, hknows.searching, hknows.called, fun c hc => ?_⟩
        have hthen := hknows.identified c hc
        refine ⟨fun hgo => ?_, hthen.ran⟩
        obtain ⟨n, hnode, hserves, hindex⟩ := hthen.finds hgo
        have hn := hmark th' hth' n (List.mem_append_left _ (ThreadPc.mem_occupies_iff.mpr ⟨hgo, hnode⟩))
        exact ⟨n, hnode, h.serves hmem hpart' hact hold hgo hnode hn hserves, hindex⟩
      · exact h.moved hmem hpart' hact (hmark _ hth')
    · obtain ⟨made, hmade, rfl⟩ := Option.map_eq_some_iff.mp (Option.mem_toList.mp hnew)
      exact h.made hmem hpart' hact hmade
  | @names a stage infos lock hnames hlock =>
    have hknows := h.threads th hmem
    have hall : ∀ th' ∈ s.threads.set k { th with stage := stage },
        Knows s.infos.nodes th'.toCreateThread := by
      refine ThreadPool.forall_mem_set h.threads k
        ⟨hknows.reserves, hknows.searching, hknows.called, ?_⟩
      exact fun c hc => ⟨(hknows.identified c hc).finds, (hknows.identified c hc).ran⟩
    rw [← hnames.nodes] at hall
    exact ⟨hinv, hall⟩
  | @quiet a infos threads lock hnodes hnames hthreads hlock hquiet =>
    have hall : ∀ th' ∈ s.threads.map (·.toCreateThread), Knows s.infos.nodes th' :=
      List.forall_mem_map.mpr h.threads
    rw [← hthreads, ← hnodes] at hall
    exact ⟨hinv, List.forall_mem_map.mp hall⟩
  | die hlive =>
    have hknows := h.threads th hmem
    refine ⟨hinv, ThreadPool.forall_mem_set h.threads k ?_⟩
    refine ⟨fun n hn => absurd hn List.not_mem_nil, ThreadPc.noConfusion, hknows.called,
      fun c hc => ?_⟩
    exact ⟨fun hgo => absurd rfl hgo.2, (hknows.identified c hc).ran⟩

theorem known_init (n : ℕ) : (init n).Known := by
  refine ⟨?_, ?_⟩
  · rw [sys_init]
    exact TaskSys.inv_init n
  · intro th hth
    obtain ⟨k, -, rfl⟩ := List.mem_map.mp hth
    refine ⟨fun n hn => absurd hn List.not_mem_nil, ThreadPc.noConfusion,
      fun hn => Bool.noConfusion hn, fun c hc => ?_⟩
    cases hc

/-- A step's thread is one. -/
theorem stepTellsApart_iff (hth : s.threads[k]? = some th) {a : TaskAct} {answer : SysAnswer} :
    s.StepTellsApart (k, .base a answer) ↔ s.TellsApart th.toTaskThread a := by
  have hsys := sys_getElem? hth
  constructor
  · intro h
    exact h a answer rfl _ hsys
  · rintro h _ _ ha th' hth'
    cases ha
    obtain rfl := Option.some.inj (hsys.symm.trans hth')
    exact h

end TaskApi

/-- **When every task finds its own node.** Take any number of threads that create, control and end tasks,
and the tasks they make, over any interleaving, where the system may give a new thread the `pthread_t` of
one that has exited. If no `sk_task_create` takes a node that comes before the node of a task and still
stores its `pthread_t`, no thread it makes gets a `pthread_t` that an earlier node in use stores,
`sk_task_destroy` finds no node in use that a thread has, and `sk_task_term` finds the calling task's
node, then in every state of the run every task runs the function that its `sk_task_create` was called
with, and its search and `sk_task_cur_id` find the node filled in for it and the task id it was given. -/
theorem task_finds_own_node (w m n : ℕ) (steps : List (ℕ × ApiAct))
    (hpart : StepMachine.Along (TaskApi.step w m) TaskApi.StepTellsApart (TaskApi.init n) steps) :
    StepMachine.Throughout (TaskApi.step w m) TaskApi.Identified (TaskApi.init n) steps := by
  refine StepMachine.throughout_of_along (TaskApi.step w m) TaskApi.StepTellsApart TaskApi.Known
    TaskApi.Identified (TaskApi.known_init n) (fun _ h => h.identified) ?_ hpart
  intro s i o t hs hi hstep
  exact hs.step hstep hi

open TaskApi in
set_option maxRecDepth 4000 in
/-- The law at a run in which a task is created and calls its function. -/
theorem task_finds_own_node_one :
    StepMachine.Throughout (TaskApi.step 32 60) TaskApi.Identified (TaskApi.init 1)
      (createSteps 0 [97] (some 5) 2 102 ++ enterSteps 1) := by
  refine task_finds_own_node 32 60 1 _ ?_
  iterate 2 refine StepMachine.along_cons (fun _ _ ha => by cases ha) rfl ?_
  refine StepMachine.along_cons ((stepTellsApart_iff rfl).mpr ?_) rfl ?_
  · -- there is no task yet
    intro n nodes _ th hth _ _ n' hnode
    obtain rfl := List.mem_singleton.mp hth
    cases hnode
  iterate 6 refine StepMachine.along_cons (fun _ _ ha => by cases ha) rfl ?_
  refine StepMachine.along_cons ((stepTellsApart_iff rfl).mpr ?_) rfl ?_
  · -- and no node before its own
    intro i n taskPfn hpc j hj
    cases hpc
    exact absurd hj (Nat.not_lt_zero j)
  iterate 2 refine StepMachine.along_cons (fun _ _ ha => by cases ha) rfl ?_
  refine StepMachine.along_cons ((stepTellsApart_iff rfl).mpr trivial) rfl ?_
  refine StepMachine.along_cons (fun _ _ ha => by cases ha) rfl ?_
  exact StepMachine.along_cons ((stepTellsApart_iff rfl).mpr trivial) rfl trivial

open TaskApi in
set_option maxRecDepth 8000 in
/-- **A task that runs the function of another.** A first task ends. A `sk_task_create` takes its node, and
before it fills it in, another one makes a thread that gets the `pthread_t` of the first task. This thread
finds the node of the first task: it calls the function 10 of that task, not its own function 30, and is
given the task id 1 of that task for its own 2. -/
theorem task_finds_other_node :
    ∃ os s th, StepMachine.run (TaskApi.step 32 60) (TaskApi.init 2)
        (createSteps 0 [97] (some 10) 5 105 ++ enterSteps 2 ++ returnSteps 2 ++
          [(2, .base .exit {}), (0, .check (some [98]) 64), (0, .lock),
            (0, .base (.create (some 20)) {}), (0, .unlock)] ++
          createSteps 1 [99] (some 30) 5 106 ++ enterSteps 3) = some (os, s) ∧
      s.threads[3]? = some th ∧ th.call = some ⟨some 30, 2⟩ ∧ th.ran = some (some 10) ∧
      skTaskCurId s.infos.nodes th.self = some 1 ∧ ¬ s.Identified := by
  refine ⟨_, _, _, rfl, rfl, rfl, rfl, rfl, ?_⟩
  intro h
  have hran := (h _ (List.mem_of_getElem? (i := 3) rfl) ⟨some 30, 2⟩ rfl).ran (some 10) rfl
  cases hran

end SmIpc.Os
