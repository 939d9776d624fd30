import SmIpc.Lib.Slots
import SmIpc.Os.Tasks

/-! # Who has which node of the task table

A task that has been created and has not finished in `wrap_task_fun` has the node its
`sk_task_create` took.

* `NodesOwned`: these nodes are marked as in use, and no two tasks have the same.
* `act_does` lists what a step can do to the marks and to the nodes threads have.
* `task_nodes_owned`: when every state of a run has the property, and what is enough for it. -/

namespace SmIpc.Os

namespace ThreadPc

/-- The node of a task that has not finished in `wrap_task_fun`, where `sk_task_create` took `node`
for it. -/
def occupies (node : Option ℕ) : ThreadPc → List ℕ
  | exiting | exited => []
  | _ => node.toList

/-- The node a thread has taken for a task it has not created yet. -/
def reserves : ThreadPc → List ℕ
  | reserved _ pInfo _ | createFailed _ pInfo | createFreeing _ pInfo => [pInfo]
  | _ => []

/-- The nodes a thread has, the one it runs in and the one it has taken. -/
def holds (node : Option ℕ) (pc : ThreadPc) : List ℕ := pc.occupies node ++ pc.reserves

/-- The loop index the thread goes by is the node that was taken for it. -/
def Tracks (node : Option ℕ) : ThreadPc → Prop
  | running i | reserved i _ _ | createFailed i _ | createFreeing i _ | joining i _
  | terminating i _ => i = node
  | found i | returned i | freeing i => some i = node
  | searching | exiting | exited => True

end ThreadPc

/-- The nodes of the tasks that have not finished in `wrap_task_fun`. -/
def occupied (threads : List TaskThread) : List ℕ :=
  threads.flatMap fun th => th.pc.occupies th.node

/-- The nodes threads have. -/
def held (threads : List TaskThread) : List ℕ := threads.flatMap fun th => th.pc.holds th.node

namespace TaskSys

/-- **Every task that has been created and has not finished in `wrap_task_fun` has a node that is
marked as in use, and no two such tasks have the same.** -/
def NodesOwned (s : TaskSys) : Prop := Slots.Exclusive s.nodes.use (occupied s.threads)

/-- The condition on what thread `tid` does: a node that loses its mark is no other task's, nor the
task's own if this goes on, and a thread is made for a node that is still marked and no task has. -/
def Keeps (s : TaskSys) (tid : ℕ) : ThreadPc → TaskAct → Prop
  | .running _, .destroy taskId =>
      ∀ n, getTaskInfo s.nodes taskId = some n → (s.nodes n).isUse = true → n ∉ occupied s.threads
  | .createFreeing _ pInfo, .setFree => pInfo ∉ occupied s.threads
  | .terminating _ curTaskId, .term =>
      ∀ n, getTaskInfo s.nodes curTaskId = some n → n ∉ occupied (s.threads.eraseIdx tid)
  | .freeing i, .setFree => i ∉ occupied (s.threads.eraseIdx tid)
  | .reserved _ pInfo _, .start (.made _) =>
      (s.nodes pInfo).isUse = true ∧ pInfo ∉ occupied s.threads
  | _, _ => True

/-- The lookups find what they are meant for: `sk_task_destroy` no node in use that a thread has,
`wrap_task_fun` and `sk_task_term` the node that was taken for the calling task. -/
def FindsOwn (s : TaskSys) (self : ℕ) (node : Option ℕ) : ThreadPc → TaskAct → Prop
  | .running _, .destroy taskId =>
      ∀ n, getTaskInfo s.nodes taskId = some n → (s.nodes n).isUse = true → n ∉ held s.threads
  | .searching, .search => ∀ n, findSelf s.nodes self = some n → node = some n
  | .terminating _ curTaskId, .term => ∀ n, getTaskInfo s.nodes curTaskId = some n → node = some n
  | _, _ => True

/-! ## What a step does to the nodes -/

/-- **What a step can do** to the marks, and to the nodes the moving thread has. -/
inductive Does (s : TaskSys) (self : ℕ) (node : Option ℕ) (pc : ThreadPc) (a : TaskAct)
    (e : TaskEffect) : Prop
  /-- The marks stay, and the thread gets no node. -/
  | quiet (hkeeps : ∀ tid, s.Keeps tid pc a)
      (htracks : pc.Tracks node → s.FindsOwn self node pc a → e.pc.Tracks node)
      (huse : e.nodes.use = s.nodes.use) (hmade : e.made = none)
      (hocc : (e.pc.occupies node).Sublist (pc.occupies node))
      (hres : e.pc.reserves.Sublist pc.reserves)
  /-- `sk_task_create` takes a node. -/
  | took (n : ℕ) (hkeeps : ∀ tid, s.Keeps tid pc a) (htracks : pc.Tracks node → e.pc.Tracks node)
      (hfree : s.nodes.use n = false)
      (huse : e.nodes.use = Function.update s.nodes.use n true) (hmade : e.made = none)
      (hocc : e.pc.occupies node = pc.occupies node) (hres : pc.reserves = [])
      (hres' : e.pc.reserves = [n])
  /-- `sk_task_create` makes the task. -/
  | started (n thread : ℕ)
      (hkeeps : ∀ tid, s.Keeps tid pc a ↔ s.nodes.use n = true ∧ n ∉ occupied s.threads)
      (htracks : pc.Tracks node → e.pc.Tracks node)
      (huse : e.nodes.use = s.nodes.use) (hmade : e.made = some ⟨thread, some n, .searching⟩)
      (hocc : e.pc.occupies node = pc.occupies node) (hres : pc.reserves = [n])
      (hres' : e.pc.reserves = [])
  /-- `sk_task_destroy` marks a node as not in use. -/
  | destroyed (n : ℕ) (hkeeps : ∀ tid, s.Keeps tid pc a ↔ n ∉ occupied s.threads)
      (htracks : pc.Tracks node → e.pc.Tracks node)
      (howns : s.FindsOwn self node pc a → n ∉ held s.threads)
      (huse : e.nodes.use = Function.update s.nodes.use n false) (hmade : e.made = none)
      (hocc : e.pc.occupies node = pc.occupies node) (hres : e.pc.reserves = pc.reserves)
  /-- `sk_task_create` gives its node back. -/
  | gaveUp (n : ℕ) (hkeeps : ∀ tid, s.Keeps tid pc a ↔ n ∉ occupied s.threads)
      (htracks : pc.Tracks node → e.pc.Tracks node)
      (huse : e.nodes.use = Function.update s.nodes.use n false) (hmade : e.made = none)
      (hocc : e.pc.occupies node = pc.occupies node) (hres : pc.reserves = [n])
      (hres' : e.pc.reserves = [])
  /-- A task ends, and gives a node back. -/
  | ended (n : ℕ) (hkeeps : ∀ tid, s.Keeps tid pc a ↔ n ∉ occupied (s.threads.eraseIdx tid))
      (howns : pc.Tracks node → s.FindsOwn self node pc a → pc.holds node = [n])
      (huse : e.nodes.use = Function.update s.nodes.use n false) (hmade : e.made = none)
      (hends : e.pc = .exiting)

variable {w self : ℕ} {s t : TaskSys} {node : Option ℕ} {pc pc' : ThreadPc} {a : TaskAct}
  {e : TaskEffect}

theorem act_does (h : s.act w self pc a = some e) : s.Does self node pc a e := by
  cases act_acts h with
  | @took i taskPfn pInfo nodes hget =>
    obtain ⟨hfree, huse⟩ := getFreeThreadInfo_some hget
    exact .took pInfo (fun _ => trivial) id hfree huse rfl rfl rfl rfl
  | @started i pInfo taskPfn thread =>
    exact .started pInfo thread (fun _ => Iff.rfl) id (use_skTaskCreateStore ..) rfl rfl rfl rfl
  | startFailed =>
    exact .quiet (fun _ => trivial) (fun hi _ => hi) (use_skTaskCreateStore ..) rfl (.refl _)
      (.refl _)
  | lost =>
    exact .quiet (fun _ => trivial) (fun hi _ => hi) rfl rfl (.refl _) (List.nil_sublist _)
  | @gaveUp i pInfo =>
    exact .gaveUp pInfo (fun _ => Iff.rfl) id (use_setNoUse ..) rfl rfl rfl rfl
  | @destroyed i taskId n pthT hinfo hinUse =>
    refine .destroyed n (fun _ => ⟨fun hk => hk n hinfo hinUse, ?_⟩) id
      (fun howns => howns n hinfo hinUse) (use_setNoUse ..) rfl rfl rfl
    rintro hn m hm -
    obtain rfl := Option.some.inj (hinfo.symm.trans hm)
    exact hn
  | destroyRefused hdestroy =>
    refine .quiet (fun _ n hn hinUse => ?_) (fun hi _ => hi) rfl rfl (.refl _) (.refl _)
    exact absurd hinUse (Bool.eq_false_iff.mp (skTaskDestroy_error hdestroy hn))
  | @termed i curTaskId n hinfo =>
    refine .ended n (fun _ => ⟨fun hk => hk n hinfo, ?_⟩) ?_ (use_setNoUse ..) rfl rfl
    · intro hn m hm
      obtain rfl := Option.some.inj (hinfo.symm.trans hm)
      exact hn
    · intro _ howns
      rw [howns n hinfo]
      rfl
  | noTerm hinfo =>
    refine .quiet (fun _ n hn => ?_) (fun hi _ => hi) rfl rfl (.refl _) (.refl _)
    cases hinfo.symm.trans hn
  | @finds i hfind =>
    exact .quiet (fun _ => trivial) (fun _ howns => (howns i hfind).symm) rfl rfl (.refl _) (.refl _)
  | endsFree =>
    exact .quiet (fun _ => trivial) (fun _ _ => trivial) rfl rfl (List.nil_sublist _) (.refl _)
  | @frees i =>
    refine .ended i (fun _ => Iff.rfl) ?_ (use_setNoUse ..) rfl rfl
    intro htracks _
    obtain rfl : some i = node := htracks
    rfl
  | full | tested | joined | joinFailed | terminates | noCurId | searchesOn | calls | skips | returns
  | ends | exits =>
    exact .quiet (fun _ => trivial) (fun hi _ => hi) rfl rfl (.refl _) (.refl _)

/-! ## One step -/

/-- The condition on a step. -/
def StepKeeps (s : TaskSys) (i : ℕ × TaskAct) : Prop :=
  ∀ th, s.threads[i.1]? = some th → s.Keeps i.1 th.pc i.2

/-- The lookups of a step find what they are meant for. -/
def StepFindsOwn (s : TaskSys) (i : ℕ × TaskAct) : Prop :=
  ∀ th, s.threads[i.1]? = some th → s.FindsOwn th.self th.node th.pc i.2

/-- A step's thread is one, so its lookups are looked at once. -/
theorem stepFindsOwn_of {i : ℕ × TaskAct} {th : TaskThread} (hth : s.threads[i.1]? = some th)
    (h : s.FindsOwn th.self th.node th.pc i.2) : s.StepFindsOwn i := by
  intro th' hth'
  obtain rfl := Option.some.inj (hth.symm.trans hth')
  exact h

/-- **The invariant.** -/
structure Inv (s : TaskSys) : Prop where
  /-- The nodes threads have are marked, and no two threads have the same. -/
  exclusive : Slots.Exclusive s.nodes.use (held s.threads)
  /-- Every task goes by the index of its node. -/
  tracks : ∀ th ∈ s.threads, th.pc.Tracks th.node

/-- **Inversion of a step.** -/
theorem step_does {i : ℕ × TaskAct} {o : Option TaskRet} (hs : step w s i = some (o, t)) :
    ∃ th e, s.threads[i.1]? = some th ∧ s.Does th.self th.node th.pc i.2 e ∧
      t = ⟨e.nodes, e.pid, s.threads.set i.1 (th.goto e.pc) ++ e.made.toList⟩ := by
  rw [step] at hs
  split at hs
  · rename_i th hth
    obtain ⟨e, hact, he⟩ := Option.map_eq_some_iff.mp hs
    exact ⟨th, e, hth, act_does hact, (Prod.mk.inj he).2.symm⟩
  · cases hs

/-- What a system is asked of its nodes, the moving thread set apart. -/
theorem exclusive_get {f : TaskThread → List ℕ} {k : ℕ} {th : TaskThread}
    (hth : s.threads[k]? = some th) {use : ℕ → Bool} :
    Slots.Exclusive use (s.threads.flatMap f) ↔
      Slots.Exclusive use (f th ++ (s.threads.eraseIdx k).flatMap f) :=
  Slots.exclusive_perm (ThreadPool.flatMap_get f hth)

theorem exclusive_set {f : TaskThread → List ℕ} {k : ℕ} {th : TaskThread}
    (hth : s.threads[k]? = some th) {use : ℕ → Bool} (th' : TaskThread) (new : List TaskThread) :
    Slots.Exclusive use ((s.threads.set k th' ++ new).flatMap f) ↔
      Slots.Exclusive use (new.flatMap f ++ (f th' ++ (s.threads.eraseIdx k).flatMap f)) :=
  Slots.exclusive_perm (ThreadPool.flatMap_set f hth th' new)

/-- **One step** from a state with the property leads to one with the property exactly if it meets the
condition. -/
theorem nodesOwned_iff_stepKeeps {i : ℕ × TaskAct} {o : Option TaskRet}
    (hs : step w s i = some (o, t)) (h : s.NodesOwned) : t.NodesOwned ↔ s.StepKeeps i := by
  obtain ⟨th, e, hth, hdoes, rfl⟩ := step_does hs
  have hkeep : s.StepKeeps i ↔ s.Keeps i.1 th.pc i.2 := by
    rw [StepKeeps, hth]
    simp
  have hmem : ∀ n, n ∈ occupied s.threads ↔
      n ∈ th.pc.occupies th.node ++ occupied (s.threads.eraseIdx i.1) :=
    fun n => (ThreadPool.flatMap_get _ hth).mem_iff
  rw [NodesOwned, occupied, exclusive_get hth] at h
  rw [hkeep, NodesOwned, occupied, exclusive_set hth]
  cases hdoes with
  | quiet hkeeps htracks huse hmade hocc hres =>
    rw [huse, hmade]
    exact iff_of_true (h.sublist (hocc.append_right _)) (hkeeps i.1)
  | took n hkeeps htracks hfree huse hmade hocc hres hres' =>
    rw [huse, hmade]
    simp only [TaskThread.goto, hocc]
    exact iff_of_true (h.mark n) (hkeeps i.1)
  | started n thread hkeeps htracks huse hmade hocc hres hres' =>
    rw [huse, hmade, hkeeps, hmem]
    simp only [TaskThread.goto, hocc]
    refine Slots.exclusive_cons.trans (and_congr_right fun _ => and_iff_left h)
  | destroyed n hkeeps htracks howns huse hmade hocc hres =>
    rw [huse, hmade, hkeeps, hmem]
    simp only [TaskThread.goto, hocc]
    exact h.unmark_iff n
  | gaveUp n hkeeps htracks huse hmade hocc hres hres' =>
    rw [huse, hmade, hkeeps, hmem]
    simp only [TaskThread.goto, hocc]
    exact h.unmark_iff n
  | ended n hkeeps howns huse hmade hends =>
    rw [huse, hmade, hkeeps]
    simp only [TaskThread.goto, hends]
    exact (h.sublist (List.sublist_append_right _ _)).unmark_iff n

/-- **One step keeps the invariant** if its lookups find what they are meant for. -/
theorem Inv.step (h : s.Inv) {i : ℕ × TaskAct} {o : Option TaskRet}
    (hs : TaskSys.step w s i = some (o, t)) (hfinds : s.StepFindsOwn i) : t.Inv := by
  obtain ⟨th, e, hth, hdoes, rfl⟩ := step_does hs
  have howns := hfinds th hth
  have htracks := h.tracks th (List.mem_of_getElem? hth)
  have hexcl := (exclusive_get (f := fun th => th.pc.holds th.node) hth).mp h.exclusive
  -- the other threads stay, so the index is left to look at for the moved and the made thread
  have htracks_of : e.pc.Tracks th.node → (∀ th' ∈ e.made, th'.pc.Tracks th'.node) →
      ∀ th' ∈ s.threads.set i.1 (th.goto e.pc) ++ e.made.toList, th'.pc.Tracks th'.node := by
    intro hmoved hmade th' hth'
    rcases List.mem_append.mp hth' with hset | hnew
    · exact ThreadPool.forall_mem_set h.tracks i.1 hmoved th' hset
    · exact hmade th' (Option.mem_toList.mp hnew)
  -- a node taken for another task is listed after the thread's own
  have hlast : ∀ (n : ℕ) (l r : List ℕ), (l ++ [n] ++ r).Perm (n :: (l ++ r)) := by
    intro n l r
    rw [List.append_assoc]
    exact List.perm_middle
  cases hdoes with
  | quiet hkeeps htracks' huse hmade hocc hres =>
    refine ⟨?_, htracks_of (htracks' htracks howns) (by rw [hmade]; simp)⟩
    rw [held, exclusive_set hth, huse, hmade]
    exact hexcl.sublist ((hocc.append hres).append_right _)
  | took n hkeeps htracks' hfree huse hmade hocc hres hres' =>
    refine ⟨?_, htracks_of (htracks' htracks) (by rw [hmade]; simp)⟩
    rw [held, exclusive_set hth, huse, hmade]
    simp only [ThreadPc.holds, TaskThread.goto, hocc, hres, hres', List.append_nil] at hexcl ⊢
    exact (Slots.exclusive_perm (hlast n _ _)).mpr (hexcl.acquire hfree)
  | started n thread hkeeps htracks' huse hmade hocc hres hres' =>
    refine ⟨?_, htracks_of (htracks' htracks) (by rw [hmade]; simp [ThreadPc.Tracks])⟩
    rw [held, exclusive_set hth, huse, hmade]
    simp only [ThreadPc.holds, TaskThread.goto, hocc, hres, hres', List.append_nil] at hexcl ⊢
    exact (Slots.exclusive_perm (hlast n (th.pc.occupies th.node) _)).mp hexcl
  | destroyed n hkeeps htracks' hfree huse hmade hocc hres =>
    refine ⟨?_, htracks_of (htracks' htracks) (by rw [hmade]; simp)⟩
    have hnot : n ∉ _ := mt (ThreadPool.flatMap_get _ hth).mem_iff.mpr (hfree howns)
    rw [held, exclusive_set hth, huse, hmade]
    simp only [ThreadPc.holds, TaskThread.goto, hocc, hres] at hexcl hnot ⊢
    exact (hexcl.unmark_iff n).mpr hnot
  | gaveUp n hkeeps htracks' huse hmade hocc hres hres' =>
    refine ⟨?_, htracks_of (htracks' htracks) (by rw [hmade]; simp)⟩
    rw [held, exclusive_set hth, huse, hmade]
    simp only [ThreadPc.holds, TaskThread.goto, hocc, hres, hres', List.append_nil] at hexcl ⊢
    exact ((Slots.exclusive_perm (hlast n _ _)).mp hexcl).release
  | ended n hkeeps hholds huse hmade hends =>
    refine ⟨?_, htracks_of (by rw [hends]; trivial) (by rw [hmade]; simp)⟩
    rw [held, exclusive_set hth, huse, hmade]
    rw [hholds htracks howns] at hexcl
    simp only [TaskThread.goto, hends]
    exact hexcl.release

/-- The nodes of tasks are among the nodes threads have. -/
theorem Inv.nodesOwned (h : s.Inv) : s.NodesOwned := by
  refine h.exclusive.sublist ?_
  rw [occupied]
  induction s.threads with
  | nil => exact .slnil
  | cons th l ih => exact (List.sublist_append_left _ _).append ih

theorem inv_init (n : ℕ) : (init n).Inv := by
  have hthread : ∀ th ∈ (init n).threads, th.node = none ∧ th.pc = .running none := by
    intro th hth
    obtain ⟨k, -, rfl⟩ := List.mem_map.mp hth
    exact ⟨rfl, rfl⟩
  refine ⟨?_, ?_⟩
  · have hnone : held (init n).threads = [] := by
      refine List.flatMap_eq_nil_iff.mpr ?_
      intro th hth
      obtain ⟨hnode, hpc⟩ := hthread th hth
      rw [hnode, hpc]
      rfl
    rw [hnone]
    exact Slots.exclusive_nil _
  · intro th hth
    obtain ⟨hnode, hpc⟩ := hthread th hth
    rw [hnode, hpc]
    rfl

end TaskSys

/-- **When the nodes of the tasks are safe.** Take any number of threads that call `sk_task_create`,
`sk_task_destroy` and `sk_task_term`, and the tasks they make, over any interleaving. In every state a
run goes through, every task that has been created and has not finished in `wrap_task_fun` has a node
marked `IS_USE_FLAGE`, and no two such tasks have the same, if and only if every step of the run keeps
from taking away the mark of another such task's node and from making a task for a node that has lost
its mark or that another such task has. It is enough that `sk_task_destroy` finds no node in use that a thread
has, and that `wrap_task_fun` and `sk_task_term` find the node of the calling task. -/
theorem task_nodes_owned (w n : ℕ) (steps : List (ℕ × TaskAct)) (os : List (Option TaskRet))
    (s : TaskSys) (hrun : StepMachine.run (TaskSys.step w) (TaskSys.init n) steps = some (os, s)) :
    (StepMachine.Throughout (TaskSys.step w) TaskSys.NodesOwned (TaskSys.init n) steps ↔
      StepMachine.Along (TaskSys.step w) TaskSys.StepKeeps (TaskSys.init n) steps) ∧
    (StepMachine.Along (TaskSys.step w) TaskSys.StepFindsOwn (TaskSys.init n) steps →
      StepMachine.Throughout (TaskSys.step w) TaskSys.NodesOwned (TaskSys.init n) steps) := by
  constructor
  · refine StepMachine.throughout_iff_along (TaskSys.step w) TaskSys.StepKeeps (fun _ => True)
      TaskSys.NodesOwned trivial (TaskSys.inv_init n).nodesOwned (fun _ _ _ _ _ _ => trivial) ?_ hrun
    intro u i o t _ hu hs
    exact TaskSys.nodesOwned_iff_stepKeeps hs hu
  · refine StepMachine.throughout_of_along (TaskSys.step w) TaskSys.StepFindsOwn TaskSys.Inv
      TaskSys.NodesOwned (TaskSys.inv_init n) (fun _ h => h.nodesOwned) ?_
    intro u i o t hu hfinds hs
    exact hu.step hs hfinds

/-- The law at a run in which a task is created, returns and exits: its node stays its own. -/
theorem task_nodes_owned_return :
    StepMachine.Throughout (TaskSys.step 32) TaskSys.NodesOwned (TaskSys.init 1)
      [(0, .create (some 5)), (0, .start (.made 2)), (1, .search), (1, .call), (1, .ret),
        (1, .testUse), (1, .setFree), (1, .exit)] := by
  refine (task_nodes_owned 32 1 _ _ _ rfl).2 ?_
  iterate 2 refine StepMachine.along_cons (TaskSys.stepFindsOwn_of rfl trivial) rfl ?_
  -- the task finds the node it was made for
  refine StepMachine.along_cons (TaskSys.stepFindsOwn_of rfl fun _ hfind => hfind) rfl ?_
  iterate 5 refine StepMachine.along_cons (TaskSys.stepFindsOwn_of rfl trivial) rfl ?_
  trivial

/-- **A node with two tasks.** `sk_task_destroy` is called for a task that runs: it marks the task's
node as not in use and waits for the task. The next `sk_task_create` takes the node, and both tasks
run in it. -/
theorem task_node_shared :
    ∃ os s, StepMachine.run (TaskSys.step 32) (TaskSys.init 2)
        [(0, .create (some 5)), (0, .start (.made 3)), (2, .search), (2, .call), (0, .destroy 1),
          (1, .create (some 6)), (1, .start (.made 4)), (3, .search), (3, .call)] = some (os, s) ∧
      occupied s.threads = [0, 0] ∧ ¬ s.NodesOwned := by
  refine ⟨_, _, rfl, rfl, ?_⟩
  intro h
  exact absurd h.2 (by decide)

end SmIpc.Os
