import SmIpc.Os.TaskApi
import SmIpc.Os.TaskNodes

/-! # What an ended task leaves behind

A task gives its node back and its thread ends, or `sk_task_wait_timeout` has its thread cancelled, which may
take effect anywhere.

* `TaskApi.Reclaimed`: every node in use is had by a thread that has not exited, and so is the lock.
* `LeavesMarked` lists the nodes a step of `TaskSys` leaves in use without the thread that had them.
* `task_nodes_reclaimed`: when every state of a run has the property, and what is enough for it. -/

namespace SmIpc.Os

/-! ## Steps of the table -/

namespace TaskSys

variable {w self k m : ℕ} {s : TaskSys} {node : Option ℕ} {pc : ThreadPc} {a : TaskAct}
  {e : TaskEffect}

/-- The node `m` of a task, which is marked, and which the task leaves as it is when it ends: `sk_task_term`
finds another node with the task id, and `wrap_task_fun` goes by another index. -/
def LeavesMarked (s : TaskSys) (node : Option ℕ) (m : ℕ) : ThreadPc → TaskAct → Prop
  | .terminating _ curTaskId, .term =>
      (node = some m ∧ s.nodes.use m = true) ∧ ∃ n, getTaskInfo s.nodes curTaskId = some n ∧ n ≠ m
  | .freeing i, .setFree => (node = some m ∧ s.nodes.use m = true) ∧ i ≠ m
  | .returned i, .testUse => (node = some m ∧ s.nodes.use m = true) ∧ s.nodes.use i = false
  | _, _ => False

/-- What a step does to the marks and to the nodes its thread has, in view of the marks it leaves. -/
structure Gives (s : TaskSys) (node : Option ℕ) (pc : ThreadPc) (a : TaskAct) (e : TaskEffect) :
    Prop where
  /-- What is marked newly is had by the thread. -/
  marks : ∀ m, e.nodes.use m = true →
    s.nodes.use m = true ∨ m ∈ held e.made.toList ++ e.pc.holds node
  /-- What the thread lets go and stays marked. -/
  leaves : ∀ m, m ∈ pc.holds node ∧ e.nodes.use m = true ∧
    m ∉ held e.made.toList ++ e.pc.holds node ↔ s.LeavesMarked node m pc a

/-- A step that leaves no node its thread has and that stays marked. -/
theorem Gives.of_keeps (huse : ∀ m, e.nodes.use m = true →
      s.nodes.use m = true ∨ m ∈ held e.made.toList ++ e.pc.holds node)
    (hkeeps : ∀ m ∈ pc.holds node, e.nodes.use m = true →
      m ∈ held e.made.toList ++ e.pc.holds node)
    (hleaves : ∀ m, ¬ s.LeavesMarked node m pc a) : s.Gives node pc a e where
  marks := huse
  leaves m := iff_of_false (fun h => h.2.2 (hkeeps m h.1 h.2.1)) (hleaves m)

/-- A step that neither marks a node nor lets one go. -/
theorem Gives.quiet (huse : e.nodes.use = s.nodes.use)
    (hholds : ∀ m ∈ pc.holds node, m ∈ e.pc.holds node)
    (hleaves : ∀ m, ¬ s.LeavesMarked node m pc a) : s.Gives node pc a e :=
  .of_keeps (fun _ hm => .inl (huse ▸ hm)) (fun m hm _ => List.mem_append_right _ (hholds m hm))
    hleaves

/-- A task that ends: what it leaves is its node, if that stays marked. -/
theorem Gives.ends (huse : ∀ m, e.nodes.use m = true → s.nodes.use m = true) (hmade : e.made = none)
    (hends : e.pc = .exiting) (hholds : pc.holds node = node.toList)
    (hleaves : ∀ m, node = some m ∧ e.nodes.use m = true ↔ s.LeavesMarked node m pc a) :
    s.Gives node pc a e where
  marks m hm := .inl (huse m hm)
  leaves m := by
    rw [hmade, hends, hholds, Option.mem_toList, ← hleaves m]
    have hnone : m ∉ held (Option.toList none) ++ ThreadPc.exiting.holds node := List.not_mem_nil
    exact ⟨fun h => ⟨h.1, h.2.1⟩, fun h => ⟨h.1, h.2, hnone⟩⟩

/-- The nodes in use after one has lost its mark. -/
theorem use_setNoUse_iff {nodes : OsThreadInfo} {i : ℕ} :
    (setNoUse nodes i).use m = true ↔ nodes.use m = true ∧ i ≠ m := by
  rw [use_setNoUse, Function.update_apply]
  split
  · simp [‹m = i›]
  · simp [Ne.symm ‹m ≠ i›]

/-- The node a thread gives back before it makes a task of it. -/
theorem Gives.gaveUp {pInfo : ℕ} (hnodes : e.nodes = setNoUse s.nodes pInfo)
    (hholds : pc.holds node = e.pc.holds node ++ [pInfo])
    (hleaves : ∀ m, ¬ s.LeavesMarked node m pc a) : s.Gives node pc a e := by
  refine .of_keeps (fun m hm => ?_) (fun m hm hmark => ?_) hleaves
  · rw [hnodes, use_setNoUse_iff] at hm
    exact .inl hm.1
  · rw [hnodes, use_setNoUse_iff] at hmark
    rw [hholds, List.mem_append, List.mem_singleton] at hm
    exact List.mem_append_right _ (hm.resolve_right (Ne.symm hmark.2))

/-- **What a step gives.** -/
theorem act_gives (h : s.act w self pc a = some e) : s.Gives node pc a e := by
  cases act_acts h with
  | @took i taskPfn pInfo nodes hget =>
    obtain ⟨-, huse⟩ := getFreeThreadInfo_some hget
    refine .of_keeps (fun m hm => ?_) (fun m hm _ => ?_) (fun m => id)
    · have hm' : Function.update s.nodes.use pInfo true m = true := huse ▸ hm
      rw [Function.update_apply] at hm'
      split at hm'
      · rename_i hpInfo
        exact .inr (List.mem_append_right _ (List.mem_append_right _ (List.mem_singleton.mpr hpInfo)))
      · exact .inl hm'
    · have hm' : m ∈ node.toList ++ [] := hm
      rw [List.append_nil] at hm'
      exact List.mem_append_right _ (List.mem_append_left _ hm')
  | @started i pInfo taskPfn thread =>
    refine .of_keeps (fun m hm => .inl ?_) (fun m hm _ => ?_) (fun m => id)
    · rwa [use_skTaskCreateStore] at hm
    · -- the node goes to the task
      have hm' : m ∈ node.toList ++ [pInfo] := hm
      rcases List.mem_append.mp hm' with hown | hnew
      · exact List.mem_append_right _ (List.mem_append_left _ hown)
      · exact List.mem_append_left _ hnew
  | startFailed => exact .quiet (use_skTaskCreateStore ..) (fun _ hm => hm) (fun _ => id)
  | @lost i pInfo huse =>
    refine .of_keeps (fun m hm => .inl hm) (fun m hm hmark => ?_) (fun m => id)
    have hm' : m ∈ node.toList ++ [pInfo] := hm
    rcases List.mem_append.mp hm' with hown | hnew
    · exact List.mem_append_right _ (List.mem_append_left _ hown)
    · rw [List.mem_singleton.mp hnew] at hmark
      exact absurd hmark (Bool.eq_false_iff.mp huse)
  | @gaveUp i pInfo =>
    refine .gaveUp rfl ?_ (fun _ => id)
    exact congrArg (· ++ [pInfo]) (List.append_nil _).symm
  | destroyed =>
    refine .of_keeps (fun m hm => .inl ?_) (fun m hm _ => List.mem_append_right _ hm) (fun _ => id)
    exact (use_setNoUse_iff.mp hm).1
  | @termed i curTaskId n hinfo =>
    refine .ends (fun m hm => (use_setNoUse_iff.mp hm).1) rfl rfl (List.append_nil _) ?_
    intro m
    rw [LeavesMarked, hinfo, and_assoc, and_congr_right_iff]
    intro _
    refine use_setNoUse_iff.trans (and_congr_right fun _ => ?_)
    constructor
    · intro hne
      exact ⟨n, rfl, hne⟩
    · rintro ⟨n', hn, hne⟩
      exact Option.some.inj hn ▸ hne
  | noTerm hinfo =>
    refine .quiet rfl (fun _ hm => hm) ?_
    rintro m ⟨-, n, hn, -⟩
    cases hinfo.symm.trans hn
  | ends huse =>
    refine .quiet rfl (fun _ hm => hm) ?_
    rintro m ⟨-, hfree⟩
    exact absurd huse (Bool.eq_false_iff.mp hfree)
  | endsFree huse =>
    refine .ends (fun m hm => hm) rfl rfl (List.append_nil _) ?_
    intro m
    exact (and_iff_left huse).symm
  | frees =>
    refine .ends (fun m hm => (use_setNoUse_iff.mp hm).1) rfl rfl (List.append_nil _) ?_
    intro m
    rw [LeavesMarked, and_assoc]
    exact and_congr_right fun _ => use_setNoUse_iff
  | full | tested | destroyRefused | joined | joinFailed | terminates | noCurId | finds | searchesOn
  | calls | skips | returns | exits =>
    exact .quiet rfl (fun _ hm => hm) (fun _ => id)

/-- A thread that moves has not exited, and does so in its last step only. -/
theorem act_pc (h : s.act w self pc a = some e) : pc ≠ .exited ∧ (e.pc = .exited → a = .exit) := by
  cases act_acts h with
  | exits => exact ⟨ThreadPc.noConfusion, fun _ => rfl⟩
  | _ => exact ⟨ThreadPc.noConfusion, ThreadPc.noConfusion⟩

end TaskSys

/-! ## Steps with the lock, and cancellations -/

namespace TaskApi

variable {w m : ℕ} {s t : TaskApi} {i : ℕ × ApiAct} {o : Option ApiRet}

/-- **Nothing is left behind**: a thread that has not exited has the node, for every node in use, and holds
the lock, if it is held. -/
structure Reclaimed (s : TaskApi) : Prop where
  /-- The nodes. -/
  nodes : Slots.Covered s.sys.nodes.use (held s.sys.threads)
  /-- `sem_thread_id`. -/
  lock : ∀ k, s.lock.holder = some k → ∃ th, s.sys.threads[k]? = some th ∧ th.pc ≠ .exited

/-- The condition on a step of thread `k`: a task that ends leaves no node in use, unless another thread has
it, and a cancellation takes effect in no thread that holds the lock, or has a node in use that no other
has. -/
def Reclaims (s : TaskApi) (k : ℕ) (th : TaskThread) : ApiAct → Prop
  | .base a _ =>
      ∀ n, s.sys.LeavesMarked th.node n th.pc a → n ∈ held (s.sys.threads.eraseIdx k)
  | .die =>
      s.lock.holder ≠ some k ∧ ∀ n ∈ th.pc.holds th.node, s.sys.nodes.use n = true →
        n ∈ held (s.sys.threads.eraseIdx k)
  | _ => True

/-- The condition on a step. -/
def StepReclaims (s : TaskApi) (i : ℕ × ApiAct) : Prop :=
  ∀ th, s.sys.threads[i.1]? = some th → s.Reclaims i.1 th i.2

/-- A step's thread is one. -/
theorem stepReclaims_iff {k : ℕ} {th : ApiThread} {a : ApiAct} (hth : s.threads[k]? = some th) :
    s.StepReclaims (k, a) ↔ s.Reclaims k th.toTaskThread a := by
  rw [StepReclaims, sys_getElem? hth]
  simp

/-- The threads are the moving one and the others. -/
theorem Reclaimed.get (h : s.Reclaimed) {k : ℕ} {th : TaskThread} (hth : s.sys.threads[k]? = some th) :
    Slots.Covered s.sys.nodes.use (th.pc.holds th.node ++ held (s.sys.threads.eraseIdx k)) :=
  (Slots.covered_perm (ThreadPool.flatMap_get _ hth)).mp h.nodes

/-- What the threads have after a step of one. -/
theorem covered_set {l : List TaskThread} {k : ℕ} {th : TaskThread} (hth : l[k]? = some th)
    (use : ℕ → Bool) (th' : TaskThread) (new : List TaskThread) :
    Slots.Covered use (held (l.set k th' ++ new)) ↔
      Slots.Covered use ((held new ++ th'.pc.holds th'.node) ++ held (l.eraseIdx k)) := by
  rw [List.append_assoc]
  exact Slots.covered_perm (ThreadPool.flatMap_set _ hth th' new)

/-- A step of `TaskSys` that moves a thread other than the holder of the lock, or is a section. -/
theorem Reclaimed.lock_afterBase (h : s.Reclaimed) {k : ℕ} {th : ApiThread} {a : TaskAct}
    {answer : SysAnswer} {e : TaskEffect} (hth : s.threads[k]? = some th)
    (hmay : s.MayBase k th a answer) (hact : s.sys.act w th.self th.pc a = some e) (j : ℕ)
    (hj : (s.afterBase w k th a answer e).lock.holder = some j) :
    ∃ th', (s.afterBase w k th a answer e).sys.threads[j]? = some th' ∧ th'.pc ≠ .exited := by
  have hk := (List.getElem?_eq_some_iff.mp (sys_getElem? hth)).1
  have hlock : (if a.isSection then SemThread.leaving k else s.lock).holder = some j := hj
  rw [sys_afterBase]
  by_cases hsec : a.isSection
  · rw [if_pos hsec] at hlock
    obtain rfl := Option.some.inj hlock
    refine ⟨th.toTaskThread.goto e.pc, ?_, ?_⟩
    · rw [List.getElem?_append_left (by rwa [List.length_set]), List.getElem?_set_self hk]
    · intro hpc
      rw [(TaskSys.act_pc hact).2 hpc] at hsec
      cases hsec
  · rw [if_neg hsec] at hlock
    -- the holder is another thread
    have hother : s.lock.holder ≠ some k := by
      have hnot := hmay.2.1
      rwa [if_neg hsec] at hnot
    have hjk : k ≠ j := by
      rintro rfl
      exact hother hlock
    obtain ⟨th', hth', hlive⟩ := h.lock j hlock
    refine ⟨th', ?_, hlive⟩
    rw [List.getElem?_append_left, List.getElem?_set_ne hjk, hth']
    rw [List.length_set]
    exact (List.getElem?_eq_some_iff.mp hth').1

/-- **One step** leaves nothing behind exactly if it meets the condition. -/
theorem reclaimed_iff_stepReclaims (h : s.Reclaimed) (hs : step w m s i = some (o, t)) :
    t.Reclaimed ↔ s.StepReclaims i := by
  obtain ⟨th, hth, hmoves⟩ := step_moves hs
  obtain ⟨k, a⟩ := i
  have hsys := sys_getElem? hth
  rw [stepReclaims_iff hth]
  cases hmoves with
  | @base a answer e hmay hact =>
    have hgives : s.sys.Gives th.node th.pc a e := TaskSys.act_gives hact
    have hlock := h.lock_afterBase hth hmay hact
    have hnodes : Slots.Covered (s.afterBase w k th a answer e).sys.nodes.use
        (held (s.afterBase w k th a answer e).sys.threads) ↔
          s.Reclaims k th.toTaskThread (.base a answer) := by
      rw [sys_afterBase]
      refine (covered_set hsys _ _ _).trans (((h.get hsys).step_iff hgives.marks).trans ?_)
      constructor
      · intro hrest n hn
        obtain ⟨hold, hmark, hgone⟩ := (hgives.leaves n).mpr hn
        exact hrest n hold hmark hgone
      · intro hrest n hold hmark hgone
        exact hrest n ((hgives.leaves n).mp ⟨hold, hmark, hgone⟩)
    exact ⟨fun ht => hnodes.mp ht.nodes, fun ht => ⟨hnodes.mpr ht, hlock⟩⟩
  | names hnames hlock =>
    refine iff_of_true ⟨?_, ?_⟩ (by cases hnames <;> trivial)
    · rw [sys_names hth hnames]
      exact h.nodes
    · rw [sys_names hth hnames, hlock]
      exact h.lock
  | quiet hnodes hnames hthreads hlock hquiet =>
    have hmeets : s.Reclaims k th.toTaskThread a := by
      cases a with
      | base => exact absurd rfl (hquiet.1 _ _)
      | die => exact absurd rfl hquiet.2
      | _ => trivial
    refine iff_of_true ⟨?_, ?_⟩ hmeets
    · rw [sys_quiet hnodes hthreads]
      exact h.nodes
    · rw [sys_quiet hnodes hthreads]
      intro j hj
      rcases hlock j hj with hold | ⟨rfl, hlive⟩
      · exact h.lock j hold
      · exact ⟨th.toTaskThread, hsys, hlive⟩
  | die hlive =>
    have hk := (List.getElem?_eq_some_iff.mp hsys).1
    constructor
    · rintro ⟨hnodes, hlock⟩
      rw [sys_die] at hnodes hlock
      refine ⟨?_, ?_⟩
      · intro hholder
        obtain ⟨th', hth', hlive'⟩ := hlock k hholder
        rw [List.getElem?_set_self hk] at hth'
        obtain rfl := Option.some.inj hth'
        exact hlive' rfl
      · intro n _ hmark
        have hn := hnodes n hmark
        have hperm := (ThreadPool.flatMap_set (fun th => th.pc.holds th.node) hsys
          (th.toTaskThread.goto .exited) []).mem_iff (a := n)
        rw [List.append_nil] at hperm
        exact hperm.mp hn
    · rintro ⟨hholder, hrest⟩
      refine ⟨?_, ?_⟩
      · rw [sys_die]
        have hset := covered_set hsys s.sys.nodes.use (th.toTaskThread.goto .exited) []
        rw [List.append_nil] at hset
        refine hset.mpr (((h.get hsys).step_iff fun n hn => .inl hn).mpr ?_)
        intro n hold hmark _
        exact hrest n hold hmark
      · rw [sys_die]
        intro j hj
        obtain ⟨th', hth', hlive'⟩ := h.lock j hj
        refine ⟨th', ?_, hlive'⟩
        have hjk : k ≠ j := by
          rintro rfl
          exact hholder hj
        rw [List.getElem?_set_ne hjk]
        exact hth'

/-- Where nothing is left behind, `sk_task_create` lacks nodes only because threads that have not exited have
them all. -/
theorem Reclaimed.full (h : s.Reclaimed) {nodes : OsThreadInfo}
    (hfull : getFreeThreadInfo s.sys.nodes = (none, nodes)) :
    ∀ n < maxThreadCount, ∃ th ∈ s.sys.threads, th.pc ≠ .exited ∧ n ∈ th.pc.holds th.node := by
  intro n hn
  rw [getFreeThreadInfo] at hfull
  split at hfull
  · cases hfull
  · rename_i hnone
    have huse := List.find?_eq_none.mp hnone n (List.mem_range.mpr hn)
    rw [Bool.not_eq_true', Bool.not_eq_false] at huse
    obtain ⟨th, hth, hmem⟩ := List.mem_flatMap.mp (h.nodes n huse)
    refine ⟨th, hth, ?_, hmem⟩
    intro hpc
    rw [hpc] at hmem
    cases hmem

/-! ## Lookups that find what they are meant for -/

/-- The lookups of a step find what they are meant for. -/
def StepFindsOwn (s : TaskApi) (i : ℕ × ApiAct) : Prop :=
  ∀ a answer, i.2 = .base a answer → s.sys.StepFindsOwn (i.1, a)

/-- **The invariant of `TaskSys` is kept**, cancellations or not, if the lookups find what they are meant
for. -/
theorem inv_step (h : s.sys.Inv) (hs : step w m s i = some (o, t)) (hfinds : s.StepFindsOwn i) :
    t.sys.Inv := by
  obtain ⟨th, hth, hmoves⟩ := step_moves hs
  obtain ⟨k, a⟩ := i
  have hsys := sys_getElem? hth
  cases hmoves with
  | base hmay hact => exact h.step (sys_step hth hact) (hfinds _ _ rfl)
  | names hnames hlock =>
    rw [sys_names hth hnames]
    exact h
  | quiet hnodes hnames hthreads hlock hquiet =>
    rw [sys_quiet hnodes hthreads]
    exact h
  | die hlive =>
    rw [sys_die]
    refine ⟨?_, ThreadPool.forall_mem_set h.tracks k trivial⟩
    have hset : Slots.Exclusive s.sys.nodes.use
        (held (s.sys.threads.set k (th.toTaskThread.goto .exited) ++ [])) ↔ _ :=
      TaskSys.exclusive_set hsys _ []
    rw [List.append_nil] at hset
    exact hset.mpr (((TaskSys.exclusive_get hsys).mp h.exclusive).sublist
      (List.sublist_append_right _ _))

/-- The condition on a cancellation: its thread has given its node back, and does not hold the lock. -/
def DiesClean (s : TaskApi) (i : ℕ × ApiAct) : Prop :=
  i.2 = .die → s.lock.holder ≠ some i.1 ∧ ∀ th, s.sys.threads[i.1]? = some th → th.pc = .exiting

/-- A task that finds its own node leaves nothing. -/
theorem not_leavesMarked {sys : TaskSys} {self n : ℕ} {node : Option ℕ} {pc : ThreadPc} {a : TaskAct}
    (htracks : pc.Tracks node) (hfinds : sys.FindsOwn self node pc a) :
    ¬ sys.LeavesMarked node n pc a := by
  intro h
  unfold TaskSys.LeavesMarked at h
  split at h
  · obtain ⟨⟨hnode, -⟩, n', hn', hne⟩ := h
    exact hne (Option.some.inj ((hfinds n' hn').symm.trans hnode))
  · exact h.2 (Option.some.inj (htracks.trans h.1.1))
  · rename_i i
    obtain ⟨⟨hnode, hmark⟩, hfree⟩ := h
    have htracks : some i = node := htracks
    obtain rfl := Option.some.inj (htracks.trans hnode)
    rw [hmark] at hfree
    cases hfree
  · exact h

theorem stepReclaims_of (h : s.sys.Inv) (hfinds : s.StepFindsOwn i) (hdies : s.DiesClean i) :
    s.StepReclaims i := by
  obtain ⟨k, a⟩ := i
  intro th hth
  cases a with
  | base a answer =>
    intro n hn
    exact absurd hn (not_leavesMarked (h.tracks th (List.mem_of_getElem? hth))
      (hfinds a answer rfl th hth))
  | die =>
    obtain ⟨hlock, hexiting⟩ := hdies rfl
    refine ⟨hlock, ?_⟩
    rw [hexiting th hth]
    exact fun n hn => absurd hn List.not_mem_nil
  | _ => trivial

/-- The first state. -/
theorem sys_init (n : ℕ) : (init n).sys = TaskSys.init n := by
  rw [sys, init, TaskSys.init, List.map_map]
  rfl

theorem reclaimed_init (n : ℕ) : (init n).Reclaimed := by
  refine ⟨?_, fun k hk => by cases hk⟩
  intro i hi
  cases hi

end TaskApi

/-- **When ended tasks leave nothing behind.** Take any number of threads that create, control and end tasks,
and the tasks they make, over any interleaving, with cancellations that take effect anywhere. In every state
of a run every node in use is had by a thread that has not exited, and the lock is held by none that has,
if and only if every step keeps from ending a task that leaves its node in use, by its return, by
`sk_task_term` or by a cancellation, and from cancelling a thread that holds the lock. It is enough that the
lookups find the calling task's node, `sk_task_destroy` finds no node in use that a thread has, and a
cancellation takes effect only in a task that has given its node back. -/
theorem task_nodes_reclaimed (w m n : ℕ) (steps : List (ℕ × ApiAct)) (os : List (Option ApiRet))
    (s : TaskApi) (hrun : StepMachine.run (TaskApi.step w m) (TaskApi.init n) steps = some (os, s)) :
    (StepMachine.Throughout (TaskApi.step w m) TaskApi.Reclaimed (TaskApi.init n) steps ↔
      StepMachine.Along (TaskApi.step w m) TaskApi.StepReclaims (TaskApi.init n) steps) ∧
    (StepMachine.Along (TaskApi.step w m) (fun s i => s.StepFindsOwn i ∧ s.DiesClean i)
        (TaskApi.init n) steps →
      StepMachine.Throughout (TaskApi.step w m) TaskApi.Reclaimed (TaskApi.init n) steps) := by
  have hinit : (TaskApi.init n).sys.Inv := by
    rw [TaskApi.sys_init]
    exact TaskSys.inv_init n
  constructor
  · refine StepMachine.throughout_iff_along (TaskApi.step w m) TaskApi.StepReclaims (fun _ => True)
      TaskApi.Reclaimed trivial (TaskApi.reclaimed_init n) (fun _ _ _ _ _ _ => trivial) ?_ hrun
    intro u i o t _ hu hs
    exact TaskApi.reclaimed_iff_stepReclaims hu hs
  · refine StepMachine.throughout_of_along (TaskApi.step w m) _
      (fun s => s.Reclaimed ∧ s.sys.Inv) TaskApi.Reclaimed ⟨TaskApi.reclaimed_init n, hinit⟩
      (fun _ h => h.1) ?_
    rintro u i o t ⟨hu, hinv⟩ ⟨hfinds, hdies⟩ hs
    exact ⟨(TaskApi.reclaimed_iff_stepReclaims hu hs).mpr
      (TaskApi.stepReclaims_of hinv hfinds hdies), TaskApi.inv_step hinv hs hfinds⟩

open TaskApi in
set_option maxRecDepth 4000 in
/-- The law at a run in which a task is created and cancelled, and returns before the cancellation takes
effect: its node is free again. -/
theorem task_nodes_reclaimed_return :
    StepMachine.Throughout (TaskApi.step 32 60) TaskApi.Reclaimed (TaskApi.init 1)
      (createSteps 0 [97] (some 5) 2 102 ++ enterSteps 1 ++ waitSteps 0 1 ++ returnSteps 1 ++
        [(1, .die)]) := by
  have hrun : ∃ os s, StepMachine.run (TaskApi.step 32 60) (TaskApi.init 1)
      (createSteps 0 [97] (some 5) 2 102 ++ enterSteps 1 ++ waitSteps 0 1 ++ returnSteps 1 ++
        [(1, .die)]) = some (os, s) := ⟨_, _, rfl⟩
  obtain ⟨os, s, hrun⟩ := hrun
  refine (task_nodes_reclaimed 32 60 1 _ os s hrun).1.mpr ?_
  -- up to the return no task ends
  iterate 20 refine StepMachine.along_cons ((stepReclaims_iff rfl).mpr (by
    first | exact trivial | exact fun _ h => False.elim h)) rfl ?_
  -- the node is in use at the test, and is the one that loses its mark
  refine StepMachine.along_cons ((stepReclaims_iff rfl).mpr fun n h => ?_) rfl ?_
  · exact Bool.noConfusion (show true = false from h.2)
  refine StepMachine.along_cons ((stepReclaims_iff rfl).mpr trivial) rfl ?_
  refine StepMachine.along_cons ((stepReclaims_iff rfl).mpr fun n h => ?_) rfl ?_
  · exact absurd (Option.some.inj h.1.1) h.2
  refine StepMachine.along_cons ((stepReclaims_iff rfl).mpr trivial) rfl ?_
  refine StepMachine.along_cons ((stepReclaims_iff rfl).mpr ⟨by decide, fun n h => ?_⟩) rfl trivial
  exact absurd h List.not_mem_nil

open TaskApi in
set_option maxRecDepth 4000 in
/-- **What a cancelled task leaves.** A task that is cancelled while its function runs leaves its node in use,
which no thread has any more; one that is cancelled between `LOCK_SOURCE` and `UNLOCK_SOURCE` leaves the lock
taken. -/
theorem task_cancelled_leaves :
    (∃ os s, StepMachine.run (TaskApi.step 32 60) (TaskApi.init 1)
        (createSteps 0 [97] (some 5) 2 102 ++ enterSteps 1 ++ waitSteps 0 1 ++ [(1, .die)]) =
          some (os, s) ∧
      (s.infos 0).isUse = true ∧ held s.sys.threads = [] ∧ ¬ s.Reclaimed) ∧
    ∃ os s, StepMachine.run (TaskApi.step 32 60) (TaskApi.init 1)
        (createSteps 0 [97] (some 5) 2 102 ++ enterSteps 1 ++ waitSteps 0 1 ++
          [(1, .check (some [98]) 64), (1, .lock), (1, .die)]) = some (os, s) ∧
      s.lock = .entered 1 ∧ ¬ s.Reclaimed := by
  refine ⟨⟨_, _, rfl, rfl, rfl, ?_⟩, _, _, rfl, rfl, ?_⟩
  · intro h
    exact absurd (h.nodes 0 rfl) List.not_mem_nil
  · intro h
    obtain ⟨th, hth, hlive⟩ := h.lock 1 rfl
    obtain rfl := Option.some.inj hth
    exact hlive rfl

end SmIpc.Os
