import SmIpc.Os.TaskIds
import SmIpc.Os.TaskNames

/-! # The nice values of tasks

A task's priority is in its node, where `sk_task_create` and `sk_task_set_priority` store it, and its nice
value in the kernel, where `wrap_task_fun` and `sk_task_set_priority` set it.

* `niceOf` is the nice value for a priority, and `nicePro_taskPrioritys` what the unsigned arithmetic gives.
  For the least priority it is 20, which no thread can have: `setpriority` sets 19 (`kernelNice`).
* `TaskApi.Sets` says what a successful `sk_task_set_priority` should do, `TaskApi.Reaches` what this takes,
  and `TaskApi.Live.sets_iff` that it is exactly this.
* `TaskApi.Nices` lists what a step can do to priorities and nice values. The invariant `TaskApi.Agreed` is
  that the node of a task agrees with the kernel; steps that meet `TaskApi.StepKeepsNice` keep it.
* `skTaskSetPriority_sets` puts both together for the calls of any run; in `skTaskSetPriority_misses` three
  calls succeed and do not set the nice value of the task. -/

namespace SmIpc.Os

/-! ## Nice values -/

/-- The nice value for a priority. -/
def niceOf (priority : ℕ) : ℤ := -(40 * ((priority : ℤ) - skTaskDefaultPriority)).tdiv 48

/-- A small number comes back from `U32` unchanged. -/
theorem s32_u32 {w : ℕ} {x : ℤ} (hw : 32 ≤ w) (h₀ : -2 ^ 31 ≤ x) (h₁ : x < 2 ^ 31) :
    s32 w (u32 w x) = x := by
  obtain ⟨v, rfl⟩ : ∃ v, w = v + 1 := ⟨w - 1, by omega⟩
  have hpow : (2 : ℤ) ^ 31 ≤ 2 ^ v := by
    exact_mod_cast Nat.pow_le_pow_right (by decide : 0 < 2) (by omega : 31 ≤ v)
  have hdouble : (2 : ℤ) ^ (v + 1) = 2 * 2 ^ v := by rw [pow_succ, Int.mul_comm]
  have hval := natCast_u32 (v + 1) x
  rw [s32, Nat.add_sub_cancel]
  by_cases hneg : x < 0
  · -- a negative number is in the upper half
    rw [hdouble, ← Int.add_emod_right, Int.emod_eq_of_lt (by omega) (by omega)] at hval
    have hhalf : ¬ u32 (v + 1) x < 2 ^ v := by
      intro hlt
      have hlt' : (u32 (v + 1) x : ℤ) < 2 ^ v := by exact_mod_cast hlt
      omega
    rw [if_neg hhalf, hval, hdouble, Int.add_sub_cancel]
  · rw [hdouble, Int.emod_eq_of_lt (by omega) (by omega)] at hval
    have hhalf : u32 (v + 1) x < 2 ^ v := by
      have hlt : (u32 (v + 1) x : ℤ) < 2 ^ v := by omega
      exact_mod_cast hlt
    rw [if_pos hhalf, hval]

theorem taskPrioritys_le (priority : ℕ) :
    skTaskPriorityLowest ≤ taskPrioritys priority ∧ taskPrioritys priority ≤ skTaskPriorityHighest := by
  unfold taskPrioritys
  split
  · exact ⟨by decide, le_rfl⟩
  · split
    · exact ⟨le_rfl, by decide⟩
    · exact ⟨by omega, by omega⟩

@[simp] theorem taskPrioritys_idem (priority : ℕ) :
    taskPrioritys (taskPrioritys priority) = taskPrioritys priority := by
  obtain ⟨hlow, hhigh⟩ := taskPrioritys_le priority
  rw [taskPrioritys, if_neg (Nat.not_lt.mpr hhigh), if_neg (Nat.not_lt.mpr hlow)]

/-- **The unsigned arithmetic gives the nice value**, also where it is positive. -/
theorem nicePro_taskPrioritys {w : ℕ} (hw : 32 ≤ w) (priority : ℕ) :
    nicePro w (taskPrioritys priority) = niceOf (taskPrioritys priority) := by
  obtain ⟨hlow, hhigh⟩ := taskPrioritys_le priority
  have hlow' : (40 : ℤ) ≤ taskPrioritys priority := by exact_mod_cast hlow
  have hhigh' : (taskPrioritys priority : ℤ) ≤ 88 := by exact_mod_cast hhigh
  have hdefault : (skTaskDefaultPriority : ℤ) = 64 := rfl
  have hspan : (skTaskPriorityHighest : ℤ) - skTaskPriorityLowest = 48 := rfl
  rw [nicePro, niceOf, hdefault, hspan, s32_u32 hw (by omega) (by omega), Int.mul_neg_one]

/-- The nice value for a priority is one that the kernel has, but for the least priority, whose is 20. -/
theorem niceOf_bounds {priority : ℕ} (h : taskPrioritys priority ≠ skTaskPriorityLowest) :
    -20 ≤ niceOf (taskPrioritys priority) ∧ niceOf (taskPrioritys priority) ≤ 19 := by
  obtain ⟨hlow, hhigh⟩ := taskPrioritys_le priority
  have hlow' : (41 : ℤ) ≤ taskPrioritys priority := by exact_mod_cast lt_of_le_of_ne hlow h.symm
  have hhigh' : (taskPrioritys priority : ℤ) ≤ 88 := by exact_mod_cast hhigh
  have hdefault : (skTaskDefaultPriority : ℤ) = 64 := rfl
  have hfrom : (-920 : ℤ).tdiv 48 ≤ (40 * ((taskPrioritys priority : ℤ) - 64)).tdiv 48 :=
    Int.tdiv_le_tdiv (by decide) (by omega)
  have hto : (40 * ((taskPrioritys priority : ℤ) - 64)).tdiv 48 ≤ (960 : ℤ).tdiv 48 :=
    Int.tdiv_le_tdiv (by decide) (by omega)
  rw [show (-920 : ℤ).tdiv 48 = -19 by decide] at hfrom
  rw [niceOf, hdefault]
  exact ⟨Int.neg_le_neg hto, by omega⟩

/-- `setpriority` sets it as it is. -/
theorem kernelNice_niceOf {priority : ℕ} (h : taskPrioritys priority ≠ skTaskPriorityLowest) :
    kernelNice (niceOf (taskPrioritys priority)) = niceOf (taskPrioritys priority) := by
  obtain ⟨hlow, hhigh⟩ := niceOf_bounds h
  rw [kernelNice, min_eq_right hhigh, max_eq_right hlow]

/-- No thread has the nice value for the least priority. -/
theorem ne_lowest_of_niceOf_le {priority : ℕ} (h : niceOf (taskPrioritys priority) ≤ 19) :
    taskPrioritys priority ≠ skTaskPriorityLowest := by
  intro hlowest
  rw [hlowest] at h
  exact absurd h (by decide)

/-! ## A call of `sk_task_set_priority` -/

namespace TaskApi

variable {w m k j i taskId priority : ℕ} {s t : TaskApi} {th caller : ApiThread} {ok : Bool}

/-- Thread `j` is the task with this id: it has not finished in `wrap_task_fun`, and the search of its thread
and the one for its id find the node that was taken for it. -/
structure Live (s : TaskApi) (j i taskId : ℕ) (th : ApiThread) : Prop where
  /-- The thread. -/
  thread : s.threads[j]? = some th
  /-- It goes on. -/
  goesOn : th.pc.GoesOn
  /-- The node. -/
  node : th.node = some i
  /-- The task. -/
  called : ∃ c, th.call = some c ∧ c.taskId = taskId ∧ Serves s.infos.nodes th.self i c
  /-- The id. -/
  finds : getTaskInfo s.infos.nodes taskId = some i

/-- The nice value a thread has, or gets from `wrap_task_fun` if it is still in the search there and
`setpriority` succeeds or not. -/
def niceDue (w : ℕ) (s : TaskApi) (th : ApiThread) (ok : Bool) : ℤ :=
  match th.pc, th.node with
  | .searching, some i =>
      if (s.infos i).taskPro ≠ skTaskDefaultPriority ∧ ok then kernelNice (nicePro w (s.infos i).taskPro)
      else th.nice
  | _, _ => th.nice

/-- **What a successful call should do** for thread `j`: give it the nice value for the priority, at once or
when its `wrap_task_fun` runs, and leave the nice values of the other threads alone. -/
structure Sets (w : ℕ) (s t : TaskApi) (j priority : ℕ) (ok : Bool) : Prop where
  /-- The task. -/
  own : ∀ th, t.threads[j]? = some th →
    t.niceDue w th ok = niceOf (taskPrioritys priority)
  /-- The other threads. -/
  others : ∀ j', j' ≠ j → t.threads[j']?.map (·.nice) = s.threads[j']?.map (·.nice)

/-- The kernel's id of the thread that `setpriority` is called for: 0 is the calling thread. -/
def niceTarget (s : TaskApi) (caller : ApiThread) (i : ℕ) : ℕ :=
  if (s.infos i).taskPid = 0 then caller.tid else (s.infos i).taskPid

/-- The condition on the state before the call. The kernel has the nice value. Without `setpriority`, which is
not called for the priority in the node, the task already has it; otherwise `task_pid` is its own, and no
other thread's. A task still in the search gets the value there, if `setpriority` succeeds and the priority
is not the default one. -/
structure Reaches (s : TaskApi) (caller th : ApiThread) (j i priority : ℕ) (ok : Bool) : Prop where
  /-- The nice value, which is 20 for the least priority and at most 19 for the kernel. -/
  inRange : taskPrioritys priority ≠ skTaskPriorityLowest
  /-- The task. -/
  own : th.nice = niceOf (taskPrioritys priority) ∨
    priority ≠ (s.infos i).taskPro ∧ th.tid = s.niceTarget caller i ∨
    th.pc = .searching ∧ taskPrioritys priority ≠ skTaskDefaultPriority ∧ ok = true
  /-- The other threads. -/
  others : priority ≠ (s.infos i).taskPro → ∀ j' th', j' ≠ j → s.threads[j']? = some th' →
    th'.pc ≠ .exited → th'.tid = s.niceTarget caller i → th'.nice = niceOf (taskPrioritys priority)

/-- **What a successful call does**: nothing if the priority is the one in the node. -/
theorem setPriority_success (hcaller : s.threads[k]? = some caller)
    (hs : step w m s (k, .setPriority taskId priority ok) =
      some (some (.ret (.status .success)), t)) :
    ∃ i, getTaskInfo s.infos.nodes taskId = some i ∧
      (priority = (s.infos i).taskPro ∧ t.infos = s.infos ∧ t.threads = s.threads ∨
        (priority ≠ (s.infos i).taskPro ∧ ok = true) ∧
          t.infos = Function.update s.infos i
            { s.infos i with taskPro := taskPrioritys priority } ∧
          t.threads = s.threads.map
            (ApiThread.renice (s.niceTarget caller i) (nicePro w (taskPrioritys priority)))) := by
  rw [step, hcaller] at hs
  obtain ⟨-, -, hr⟩ := inCall_some hs
  obtain ⟨hret, rfl⟩ := Prod.mk.inj hr
  rcases skTaskSetPriority_cases w s.infos taskId priority ok with
    ⟨status, hfails, -, hr⟩ | ⟨i, hinfo, hsame, hr⟩ | ⟨i, hinfo, hother, hok, hr⟩
  · rw [hr] at hret
    cases hret
    exact absurd rfl hfails
  · refine ⟨i, hinfo, .inl ⟨hsame, ?_, ?_⟩⟩ <;> simp only [hr]
  · refine ⟨i, hinfo, .inr ⟨⟨hother, hok⟩, ?_, ?_⟩⟩ <;> simp only [hr]
    rfl

/-- When a thread has, or gets, the nice value for the priority in its node. -/
theorem niceDue_eq_iff (ok : Bool) (hw : 32 ≤ w)
    (hrange : taskPrioritys priority ≠ skTaskPriorityLowest) (hnode : th.node = some i)
    (hpro : (s.infos i).taskPro = taskPrioritys priority) :
    s.niceDue w th ok = niceOf (taskPrioritys priority) ↔
      th.nice = niceOf (taskPrioritys priority) ∨
        th.pc = .searching ∧ taskPrioritys priority ≠ skTaskDefaultPriority ∧ ok = true := by
  unfold niceDue
  split
  · rename_i i' hpc hnode'
    obtain rfl := Option.some.inj (hnode.symm.trans hnode')
    rw [hpro, nicePro_taskPrioritys hw, kernelNice_niceOf hrange]
    split
    · rename_i hsets
      exact iff_of_true rfl (.inr ⟨hpc, hsets⟩)
    · rename_i hkeeps
      exact (or_iff_left fun hsets => hkeeps hsets.2).symm
  · rename_i hother
    exact (or_iff_left fun hsets => hother i hsets.1 hnode).symm

/-- The kernel has the nice value that a thread gets. -/
theorem niceDue_le (s : TaskApi) (h : th.nice ≤ 19) : s.niceDue w th ok ≤ 19 := by
  unfold niceDue
  split
  · split
    · exact kernelNice_le _
    · exact h
  · exact h

/-- What `setpriority` does to a thread. -/
@[simp] theorem pc_renice (who : ℕ) (pro : ℤ) (th : ApiThread) : (th.renice who pro).pc = th.pc :=
  congrArg (·.pc) (toCreateThread_renice who pro th)

@[simp] theorem node_renice (who : ℕ) (pro : ℤ) (th : ApiThread) : (th.renice who pro).node = th.node :=
  congrArg (·.node) (toCreateThread_renice who pro th)

@[simp] theorem tid_renice (who : ℕ) (pro : ℤ) (th : ApiThread) : (th.renice who pro).tid = th.tid := by
  rw [ApiThread.renice]
  split <;> rfl

theorem nice_renice_self {who : ℕ} {th : ApiThread} (pro : ℤ) (htid : th.tid = who)
    (hlive : th.pc ≠ .exited) : (th.renice who pro).nice = kernelNice pro := by
  rw [ApiThread.renice, if_pos ⟨htid, hlive⟩]

theorem nice_renice_iff {pro : ℤ} (hpro : kernelNice pro = pro) (who : ℕ) (th : ApiThread) :
    (th.renice who pro).nice = pro ↔ th.nice = pro ∨ th.tid = who ∧ th.pc ≠ .exited := by
  rw [ApiThread.renice]
  split
  · rename_i hhit
    exact iff_of_true hpro (.inr hhit)
  · rename_i hmiss
    exact (or_iff_left hmiss).symm

theorem nice_renice_same_iff {pro : ℤ} (hpro : kernelNice pro = pro) (who : ℕ) (th : ApiThread) :
    (th.renice who pro).nice = th.nice ↔ (th.tid = who → th.pc ≠ .exited → th.nice = pro) := by
  rw [ApiThread.renice]
  split
  · rename_i hhit
    simp only [hpro]
    exact ⟨fun heq _ _ => heq.symm, fun heq => (heq hhit.1 hhit.2).symm⟩
  · rename_i hmiss
    exact iff_of_true rfl fun htid hlive => absurd ⟨htid, hlive⟩ hmiss

/-- After a successful call the priority is in the node. -/
theorem Live.taskPro_after (h : s.Live j i taskId th) (hcaller : s.threads[k]? = some caller)
    (hpro : taskPrioritys (s.infos i).taskPro = (s.infos i).taskPro)
    (hs : step w m s (k, .setPriority taskId priority ok) =
      some (some (.ret (.status .success)), t)) :
    (t.infos i).taskPro = taskPrioritys priority := by
  obtain ⟨i', hinfo, hdoes⟩ := setPriority_success hcaller hs
  obtain rfl := Option.some.inj (h.finds.symm.trans hinfo)
  rcases hdoes with ⟨hsame, hinfos, -⟩ | ⟨-, hinfos, -⟩
  · rw [hinfos, hsame, hpro]
  · rw [hinfos, Function.update_self]

/-- The nice values are those of the kernel. -/
def InRange (s : TaskApi) : Prop := ∀ th ∈ s.threads, th.nice ≤ 19

/-- A call that does what it should is not one for the least priority. -/
theorem Sets.inRange (h : Sets w s t j priority ok) (hj : t.threads[j]? = some th) (ht : t.InRange) :
    taskPrioritys priority ≠ skTaskPriorityLowest := by
  refine ne_lowest_of_niceOf_le ?_
  rw [← h.own th hj]
  exact t.niceDue_le (ht th (List.mem_of_getElem? hj))

/-- The task has its place after a successful call. -/
theorem Live.thread_after (h : s.Live j i taskId th) (hcaller : s.threads[k]? = some caller)
    (hs : step w m s (k, .setPriority taskId priority ok) =
      some (some (.ret (.status .success)), t)) : ∃ th', t.threads[j]? = some th' ∧ th'.node = some i := by
  obtain ⟨i', -, ⟨-, -, hthreads⟩ | ⟨-, -, hthreads⟩⟩ := setPriority_success hcaller hs
  · rw [hthreads]
    exact ⟨th, h.thread, h.node⟩
  · rw [hthreads, List.getElem?_map, h.thread]
    exact ⟨_, rfl, (node_renice _ _ th).trans h.node⟩

/-- When a call for the priority in the node does what it should: it does nothing. -/
theorem Live.sets_iff_of_same (h : s.Live j i taskId th) (hw : 32 ≤ w)
    (hrange : taskPrioritys priority ≠ skTaskPriorityLowest)
    (hstored : (t.infos i).taskPro = taskPrioritys priority) (hsame : priority = (s.infos i).taskPro)
    (hthreads : t.threads = s.threads) :
    Sets w s t j priority ok ↔ s.Reaches caller th j i priority ok := by
  have hdue := niceDue_eq_iff ok hw hrange h.node hstored
  constructor
  · intro hsets
    have hown := hsets.own th (by rw [hthreads, h.thread])
    exact ⟨hrange, (hdue.mp hown).imp_right .inr, fun hne => absurd hsame hne⟩
  · intro hreaches
    refine ⟨fun th' hth' => ?_, fun j' _ => by rw [hthreads]⟩
    rw [hthreads, h.thread] at hth'
    obtain rfl := Option.some.inj hth'
    refine hdue.mpr (hreaches.own.imp_right fun hown => hown.resolve_left ?_)
    exact fun hne => hne.1 hsame

/-- When one that calls `setpriority` does. -/
theorem Live.sets_iff_of_other (h : s.Live j i taskId th) (hw : 32 ≤ w)
    (hrange : taskPrioritys priority ≠ skTaskPriorityLowest)
    (hstored : (t.infos i).taskPro = taskPrioritys priority) (hother : priority ≠ (s.infos i).taskPro)
    (hthreads : t.threads = s.threads.map
      (ApiThread.renice (s.niceTarget caller i) (niceOf (taskPrioritys priority)))) :
    Sets w s t j priority ok ↔ s.Reaches caller th j i priority ok := by
  have hkernel := kernelNice_niceOf hrange
  generalize hwho : s.niceTarget caller i = who at hthreads
  generalize hvalue : niceOf (taskPrioritys priority) = pro at hthreads hkernel
  have hdue := niceDue_eq_iff ok hw hrange ((node_renice who pro th).trans h.node) hstored
  rw [hvalue, nice_renice_iff hkernel, pc_renice] at hdue
  have hget : ∀ (j' : ℕ) (th' : ApiThread), s.threads[j']? = some th' →
      t.threads[j']? = some (th'.renice who pro) := by
    intro j' th' hth'
    rw [hthreads, List.getElem?_map, hth', Option.map_some]
  have hown := hget j th h.thread
  constructor
  · intro hsets
    refine ⟨hrange, ?_, fun _ j' th' hj' hth' hlive htid => ?_⟩
    · rw [hvalue, hwho]
      have hown' := hsets.own _ hown
      rw [hvalue] at hown'
      rcases hdue.mp hown' with (hnice | ⟨htid, -⟩) | hsearching
      · exact .inl hnice
      · exact .inr (.inl ⟨hother, htid⟩)
      · exact .inr (.inr hsearching)
    · rw [hwho] at htid
      rw [hvalue]
      have hsame := hsets.others j' hj'
      rw [hget j' th' hth', hth'] at hsame
      exact (nice_renice_same_iff hkernel who th').mp (Option.some.inj hsame) htid hlive
  · intro hreaches
    refine ⟨fun th' hth' => ?_, fun j' hj' => ?_⟩
    · obtain rfl := Option.some.inj (hown.symm.trans hth')
      rw [hvalue]
      have hown' := hreaches.own
      rw [hvalue, hwho] at hown'
      rcases hown' with hnice | ⟨-, htid⟩ | hsearching
      · exact hdue.mpr (.inl (.inl hnice))
      · exact hdue.mpr (.inl (.inr ⟨htid, h.goesOn.2⟩))
      · exact hdue.mpr (.inr hsearching)
    · cases hth' : s.threads[j']? with
      | none => rw [hthreads, List.getElem?_map, hth', Option.map_none]
      | some th' =>
        have hothers := hreaches.others hother j' th' hj' hth'
        rw [hvalue, hwho] at hothers
        rw [hget j' th' hth', Option.map_some, Option.map_some,
          (nice_renice_same_iff hkernel who th').mpr fun htid hlive => hothers hlive htid]

/-- **When a call does what it should**, for a node with a priority that has been stored. -/
theorem Live.sets_iff (h : s.Live j i taskId th) (hw : 32 ≤ w) (hcaller : s.threads[k]? = some caller)
    (hpro : taskPrioritys (s.infos i).taskPro = (s.infos i).taskPro) (ht : t.InRange) {called : Bool}
    (hs : step w m s (k, .setPriority taskId priority called) =
      some (some (.ret (.status .success)), t)) :
    Sets w s t j priority ok ↔ s.Reaches caller th j i priority ok := by
  have hstored := h.taskPro_after hcaller hpro hs
  obtain ⟨th', hth', -⟩ := h.thread_after hcaller hs
  by_cases hrange : taskPrioritys priority = skTaskPriorityLowest
  · exact iff_of_false (fun hsets => hsets.inRange hth' ht hrange) fun hreaches => hreaches.inRange hrange
  obtain ⟨i', hinfo, hdoes⟩ := setPriority_success hcaller hs
  obtain rfl := Option.some.inj (h.finds.symm.trans hinfo)
  rcases hdoes with ⟨hsame, -, hthreads⟩ | ⟨⟨hother, -⟩, -, hthreads⟩
  · exact h.sets_iff_of_same hw hrange hstored hsame hthreads
  · rw [nicePro_taskPrioritys hw] at hthreads
    exact h.sets_iff_of_other hw hrange hstored hother hthreads

end TaskApi

/-! ## What a step does to priorities and nice values -/

/-- To the kernel the thread is what it was, and it is in the search of `wrap_task_fun` if it was. -/
structure ApiThread.Like (th' th : ApiThread) : Prop where
  /-- The node. -/
  node : th'.node = th.node
  /-- The kernel's id. -/
  tid : th'.tid = th.tid
  /-- The nice value. -/
  nice : th'.nice = th.nice
  /-- It was there. -/
  live : th'.pc ≠ .exited → th.pc ≠ .exited
  /-- It went on. -/
  goesOn : th'.pc.GoesOn → th.pc.GoesOn
  /-- The search. -/
  searching : th'.pc.GoesOn → (th'.pc = .searching ↔ th.pc = .searching)

/-- A thread that stays in its place. -/
theorem ApiThread.Like.of_pc {th' th : ApiThread} (hnode : th'.node = th.node) (htid : th'.tid = th.tid)
    (hnice : th'.nice = th.nice) (hpc : th'.pc = th.pc) : th'.Like th := by
  refine ⟨hnode, htid, hnice, ?_, ?_, ?_⟩ <;> rw [hpc]
  · exact id
  · exact id
  · exact fun _ => Iff.rfl

/-- Every thread of the second list is what it was in the first. -/
def Kept : List ApiThread → List ApiThread → Prop := ThreadPool.Pointwise fun th th' => th'.Like th

theorem ApiThread.Like.refl (th : ApiThread) : th.Like th := .of_pc rfl rfl rfl rfl

theorem kept_refl (l : List ApiThread) : Kept l l := ThreadPool.pointwise_refl .refl l

theorem kept_set {l : List ApiThread} {k : ℕ} {th th' : ApiThread} (hth : l[k]? = some th)
    (hlike : th'.Like th) : Kept l (l.set k th') :=
  ThreadPool.pointwise_set .refl hth hlike

namespace TaskApi

variable {w m k j i : ℕ} {s t : TaskApi} {th : ApiThread} {o : Option ApiRet}

/-- **What a step can do** to the priorities and the kernel's ids in the nodes and to the nice values. -/
inductive Nices (w : ℕ) (s : TaskApi) (k : ℕ) (th : ApiThread) : ApiAct → TaskApi → Prop
  /-- Nothing. -/
  | quiet {a : ApiAct} {t : TaskApi} (hpro : ∀ n, (t.infos n).taskPro = (s.infos n).taskPro)
      (hpid : ∀ n, (t.infos n).taskPid = (s.infos n).taskPid) (hkept : Kept s.threads t.threads) :
      Nices w s k th a t
  /-- `sk_task_create` stores the priority, and makes the thread or fails. -/
  | stores {i : Option ℕ} {n : ℕ} {taskPfn : Option ℕ} {outcome : PthreadCreate} {args : CreateArgs}
      {answer : SysAnswer} {t : TaskApi} {threads : List ApiThread} {made : Option ApiThread}
      (hpc : th.pc = .reserved i n taskPfn)
      (hstage : th.stage = .named args)
      (hpro : ∀ n', (t.infos n').taskPro =
        if n' = n then taskPrioritys args.priority else (s.infos n').taskPro)
      (hpid : ∀ n', (t.infos n').taskPid = (s.infos n').taskPid)
      (hthreads : t.threads = threads ++ made.toList) (hkept : Kept s.threads threads)
      (hlength : threads.length = s.threads.length)
      (hmade : ∀ th' ∈ made, th'.node = some n ∧ th'.pc = .searching ∧ th'.nice = th.nice ∧
        th'.tid = answer.gettid ∧ (∃ self, outcome = .made self) ∧
        ∀ x ∈ s.threads, x.pc ≠ .exited → x.tid ≠ answer.gettid) :
      Nices w s k th (.base (.start outcome) answer) t
  /-- `wrap_task_fun` finds a node. -/
  | finds {n : ℕ} {answer : SysAnswer} {t : TaskApi} {th' : ApiThread} (hpc : th.pc = .searching)
      (hfind : findSelf s.infos.nodes th.self = some n)
      (hpro : ∀ n', (t.infos n').taskPro = (s.infos n').taskPro)
      (hpid : ∀ n', (t.infos n').taskPid = if n' = n then th.tid else (s.infos n').taskPid)
      (hthreads : t.threads = s.threads.set k th') (hnode : th'.node = th.node) (htid : th'.tid = th.tid)
      (hpc' : th'.pc = .found n)
      (hnice : th'.nice = if (s.infos n).taskPro ≠ skTaskDefaultPriority ∧ answer.ok then
        kernelNice (nicePro w (s.infos n).taskPro) else th.nice) : Nices w s k th (.base .search answer) t
  /-- `sk_task_set_priority` sets a priority and a nice value. -/
  | sets {n taskId priority : ℕ} {t : TaskApi} (hinfo : getTaskInfo s.infos.nodes taskId = some n)
      (hother : priority ≠ (s.infos n).taskPro)
      (hpro : ∀ n', (t.infos n').taskPro =
        if n' = n then taskPrioritys priority else (s.infos n').taskPro)
      (hpid : ∀ n', (t.infos n').taskPid = (s.infos n').taskPid)
      (hthreads : t.threads = s.threads.map
        (ApiThread.renice (s.niceTarget th n) (nicePro w (taskPrioritys priority)))) :
      Nices w s k th (.setPriority taskId priority true) t

/-- A step of `TaskSys` other than these two. -/
theorem Nices.of_base {a : TaskAct} {answer : SysAnswer} {e : TaskEffect} (hth : s.threads[k]? = some th)
    (hmade : e.made = none) (hinfos : s.infosAfter th a e = s.infos.withNodes e.nodes)
    (hnice : s.niceAfter w th answer e = th.nice) (hlive : th.pc ≠ .exited)
    (hgoes : e.pc.GoesOn → th.pc.GoesOn)
    (hsearching : e.pc.GoesOn → (e.pc = .searching ↔ th.pc = .searching)) :
    s.Nices w k th (.base a answer) (s.afterBase w k th a answer e) := by
  have hinfos' : (s.afterBase w k th a answer e).infos = s.infos.withNodes e.nodes := hinfos
  refine .quiet (fun n => by rw [hinfos']; rfl) (fun n => by rw [hinfos']; rfl) ?_
  have hthreads : (s.afterBase w k th a answer e).threads =
      s.threads.set k (s.threadAfter w th a answer e) := by
    rw [afterBase, hmade]
    exact List.append_nil _
  rw [hthreads]
  exact kept_set hth ⟨rfl, rfl, hnice, fun _ => hlive, hgoes, hsearching⟩

/-- `pthread_create` in `sk_task_create`. -/
theorem Nices.of_start {i : Option ℕ} {n : ℕ} {taskPfn : Option ℕ} {outcome : PthreadCreate}
    {answer : SysAnswer} {e : TaskEffect} (hth : s.threads[k]? = some th)
    (hmay : s.MayBase k th (.start outcome) answer)
    (hpc : th.pc = .reserved i n taskPfn)
    (hmade : e.made = outcome.thread.map fun self => ⟨self, some n, .searching⟩)
    (hgoes : e.pc.GoesOn → th.pc.GoesOn) (hsearching : e.pc ≠ .searching) :
    s.Nices w k th (.base (.start outcome) answer) (s.afterBase w k th (.start outcome) answer e) := by
  obtain ⟨args, hstage⟩ := atStage_start hmay.1.1
  have hinfos : (s.afterBase w k th (.start outcome) answer e).infos =
      skTaskCreateDetails (s.infos.withNodes e.nodes) n args.priority outcome.thread.isSome := by
    change s.infosAfter th _ e = _
    simp only [infosAfter, hpc, hstage]
  have hlike : (s.threadAfter w th (.start outcome) answer e).Like th := by
    refine ⟨rfl, rfl, ?_, ?_, hgoes, ?_⟩
    · simp [threadAfter, niceAfter, hpc]
    · simp [hpc]
    · simp [threadAfter, hpc, hsearching]
  refine .stores hpc hstage (fun n' => ?_) (fun n' => ?_) rfl (kept_set hth hlike) List.length_set ?_
  · rw [hinfos]
    exact TaskTable.field_update (·.taskPro) _ n _ n'
  · rw [hinfos]
    exact TaskTable.field_update_of_eq (·.taskPid) (by rfl) n'
  · intro th' hth'
    obtain ⟨made, hmade', rfl⟩ := Option.map_eq_some_iff.mp hth'
    rw [hmade] at hmade'
    cases outcome with
    | failed left => cases hmade'
    | made self =>
      obtain rfl := Option.some.inj hmade'
      exact ⟨rfl, rfl, rfl, rfl, ⟨self, rfl⟩, hmay.2.2 rfl⟩

theorem nices_afterBase {a : TaskAct} {answer : SysAnswer} {e : TaskEffect}
    (hth : s.threads[k]? = some th) (hmay : s.MayBase k th a answer)
    (hact : s.sys.act w th.self th.pc a = some e) :
    s.Nices w k th (.base a answer) (s.afterBase w k th a answer e) := by
  have hacts := TaskSys.act_acts hact
  have hgoes := (TaskSys.act_pc_after hact).1
  generalize hpc : th.pc = pc at hacts
  cases hacts with
  | started | startFailed => exact .of_start hth hmay hpc rfl hgoes ThreadPc.noConfusion
  | @finds n hfind =>
    have hinfos : (s.afterBase w k th .search answer (s.sys.move (.found n) none)).infos =
        wrapTaskFunDetails (s.infos.withNodes s.infos.nodes) n th.tid := by
      change s.infosAfter th _ _ = _
      simp only [infosAfter, hpc, TaskSys.move]
      rfl
    refine .finds hpc hfind (fun n' => ?_) (fun n' => ?_) (List.append_nil _) rfl rfl rfl ?_
    · rw [hinfos]
      exact TaskTable.field_update_of_eq (·.taskPro) (by rfl) n'
    · rw [hinfos]
      exact TaskTable.field_update (·.taskPid) _ n _ n'
    · simp only [threadAfter, niceAfter, hpc, TaskSys.move]
  | _ =>
    refine .of_base hth rfl ?_ ?_ ?_ hgoes ?_
    · simp [infosAfter, hpc, TaskSys.move, TaskSys.write]
    · simp [niceAfter, hpc, TaskSys.move, TaskSys.write]
    · simp [hpc]
    · simp [hpc, TaskSys.move, TaskSys.write]

/-- `sk_task_suspend` and `sk_task_resume` write neither. -/
theorem taskSwitch_priorities {old new : SkTaskStatus} {infos infos' : TaskTable} {taskId pthT : ℕ}
    (h : taskSwitch old new infos taskId = .ok (pthT, infos')) (n : ℕ) :
    (infos' n).taskPro = (infos n).taskPro ∧ (infos' n).taskPid = (infos n).taskPid := by
  obtain ⟨i, rfl⟩ := taskSwitch_ok h
  exact ⟨TaskTable.field_update_of_eq (·.taskPro) (by rfl) n,
    TaskTable.field_update_of_eq (·.taskPid) (by rfl) n⟩

/-- A thread that moves within a call. -/
theorem Nices.put {a : ApiAct} {stage : CreateStage} {sending : Option Sending} {lock : SemThread}
    {infos : TaskTable} (hth : s.threads[k]? = some th)
    (hinfos : ∀ n, (infos n).taskPro = (s.infos n).taskPro ∧ (infos n).taskPid = (s.infos n).taskPid) :
    s.Nices w k th a { s with
      infos := infos, threads := s.threads.set k { th with stage := stage, sending := sending },
      lock := lock } :=
  .quiet (fun n => (hinfos n).1) (fun n => (hinfos n).2) (kept_set hth (.of_pc rfl rfl rfl rfl))

theorem Nices.afterLookup {a : ApiAct} {taskId : ℕ} {signal : ThreadSignal}
    {r : Except SkStatus (ℕ × TaskTable)} (hth : s.threads[k]? = some th)
    (hr : ∀ pthT infos, r = .ok (pthT, infos) → ∀ n,
      (infos n).taskPro = (s.infos n).taskPro ∧ (infos n).taskPid = (s.infos n).taskPid) :
    s.Nices w k th a (s.afterLookup k th taskId signal r).2 := by
  cases r with
  | error status => exact .put hth fun _ => ⟨rfl, rfl⟩
  | ok r => exact .put hth (hr r.1 r.2 rfl)

theorem like_deliver (pthT : ℕ) (signal : ThreadSignal) (th : ApiThread) :
    (th.deliver pthT signal).Like th := by
  rw [ApiThread.deliver]
  split
  · cases signal <;> exact .of_pc rfl rfl rfl rfl
  · exact .of_pc rfl rfl rfl rfl

theorem kept_deliverAll (pthT : ℕ) (signal : ThreadSignal) :
    Kept s.threads (s.deliverAll pthT signal) := by
  rw [deliverAll]
  split
  · exact ThreadPool.pointwise_map (R := fun (th th' : ApiThread) => th'.Like th)
      (like_deliver pthT signal) _
  · exact kept_refl _

theorem act_nices {a : ApiAct} (hth : s.threads[k]? = some th) (h : s.act w m k th a = some (o, t)) :
    s.Nices w k th a t := by
  cases a with
  | lock =>
    simp only [act] at h
    split at h
    · cases h
      exact .quiet (fun _ => rfl) (fun _ => rfl) (kept_refl _)
    · cases h
  | unlock =>
    simp only [act] at h
    split at h
    · cases h
      exact .quiet (fun _ => rfl) (fun _ => rfl) (kept_refl _)
    · cases h
  | base a answer =>
    simp only [act] at h
    split at h
    · rename_i hmay
      obtain ⟨e, hact, he⟩ := Option.map_eq_some_iff.mp h
      cases he
      exact nices_afterBase hth hmay hact
    · cases h
  | check name priority =>
    have h := outside_some h
    split at h
    · split at h
      · cases h
        exact .put hth fun _ => ⟨rfl, rfl⟩
      · cases h
        exact .quiet (fun _ => rfl) (fun _ => rfl) (kept_refl _)
    · cases h
  | attrFails =>
    have h := outside_some h
    split at h
    · cases h
      exact .put hth fun _ => ⟨rfl, rfl⟩
    · cases h
  | testName =>
    have h := outside_some h
    split at h
    · split at h
      · cases h
        exact .put hth fun _ => ⟨rfl, rfl⟩
      · cases h
        exact .put hth fun _ => ⟨rfl, rfl⟩
    · cases h
  | setName =>
    simp only [act] at h
    split at h
    · split at h
      · cases h
        exact .put hth fun n => ⟨TaskTable.field_update_of_eq (·.taskPro) (by rfl) n,
          TaskTable.field_update_of_eq (·.taskPid) (by rfl) n⟩
      · cases h
    · cases h
  | wait taskId =>
    obtain ⟨-, -, hr⟩ := inCall_some h
    rw [show t = _ from (congrArg Prod.snd hr).symm]
    refine .afterLookup hth fun pthT infos hinfos n => ?_
    cases hwait : skTaskWaitTimeout s.infos taskId with
    | error status =>
      rw [hwait] at hinfos
      cases hinfos
    | ok pthT =>
      rw [hwait] at hinfos
      cases hinfos
      exact ⟨rfl, rfl⟩
  | suspend taskId =>
    obtain ⟨-, -, hr⟩ := inCall_some h
    rw [show t = _ from (congrArg Prod.snd hr).symm]
    exact .afterLookup hth fun _ _ => taskSwitch_priorities
  | resume taskId =>
    obtain ⟨-, -, hr⟩ := inCall_some h
    rw [show t = _ from (congrArg Prod.snd hr).symm]
    exact .afterLookup hth fun _ _ => taskSwitch_priorities
  | send ok =>
    have h := outside_some h
    split at h
    · rename_i c hsending
      split at h
      · cases h
      · split at h
        · cases h
          refine .quiet (fun _ => rfl) (fun _ => rfl) fun j x hx => ?_
          rw [List.getElem?_modify] at hx
          obtain ⟨y, hy, rfl⟩ := Option.map_eq_some_iff.mp hx
          obtain ⟨th', hth', hlike⟩ := kept_deliverAll c.pthT c.signal j y hy
          refine ⟨th', hth', ?_⟩
          split
          · exact ⟨hlike.node, hlike.tid, hlike.nice, hlike.live, hlike.goesOn, hlike.searching⟩
          · exact hlike
        · cases h
          exact .put hth fun _ => ⟨rfl, rfl⟩
    · cases h
  | getStatus taskId =>
    obtain ⟨-, -, hr⟩ := inCall_some h
    split at hr
    · cases hr
      exact .put hth fun _ => ⟨rfl, rfl⟩
    · cases hr
      exact .put hth fun _ => ⟨rfl, rfl⟩
  | setPriority taskId priority ok =>
    obtain ⟨-, -, hr⟩ := inCall_some h
    cases hr
    rcases skTaskSetPriority_cases w s.infos taskId priority ok with
      ⟨status, -, -, hr⟩ | ⟨n, -, -, hr⟩ | ⟨n, hinfo, hother, rfl, hr⟩
    · simp only [hr]
      exact .quiet (fun _ => rfl) (fun _ => rfl) (kept_refl _)
    · simp only [hr]
      exact .quiet (fun _ => rfl) (fun _ => rfl) (kept_refl _)
    · simp only [hr]
      exact .sets hinfo hother (TaskTable.field_update (·.taskPro) s.infos n _)
        (TaskTable.field_update_of_eq (·.taskPid) (by rfl)) rfl
  | die =>
    simp only [act] at h
    split at h
    · rename_i hdie
      cases h
      refine .quiet (fun _ => rfl) (fun _ => rfl) (kept_set hth ?_)
      refine ⟨rfl, rfl, rfl, fun hlive => absurd rfl hlive, fun hgo => absurd rfl hgo.2,
        fun hgo => absurd rfl hgo.2⟩
    · cases h

/-- **Inversion of a step.** -/
theorem step_nices {i : ℕ × ApiAct} (hs : step w m s i = some (o, t)) :
    ∃ th, s.threads[i.1]? = some th ∧ s.Nices w i.1 th i.2 t := by
  rw [step] at hs
  split at hs
  · rename_i th hth
    exact ⟨th, hth, act_nices hth hs⟩
  · cases hs

/-! ## Priorities in the nodes of tasks -/

/-- The priority in the node of a task is one that has been stored there. -/
def Stored (s : TaskApi) : Prop :=
  ∀ th ∈ s.threads, ∀ i, th.node = some i → taskPrioritys (s.infos i).taskPro = (s.infos i).taskPro

theorem stored_init (n : ℕ) : (init n).Stored := by
  intro th hth i hnode
  obtain ⟨k, -, rfl⟩ := List.mem_map.mp hth
  cases hnode

/-- Threads with the nodes they had, and priorities that are what they were or are stored. -/
theorem Stored.of_kept (h : s.Stored) {threads : List ApiThread} {infos : TaskTable}
    (hpro : ∀ n, (infos n).taskPro = (s.infos n).taskPro ∨
      taskPrioritys (infos n).taskPro = (infos n).taskPro)
    (hnode : ThreadPool.Pointwise (fun th th' => th'.node = th.node) s.threads threads) :
    ∀ th ∈ threads, ∀ i, th.node = some i → taskPrioritys (infos i).taskPro = (infos i).taskPro := by
  intro th' hth' i hi
  obtain ⟨th, hth, hsame⟩ := hnode.exists_mem hth'
  rcases hpro i with hold | hstored
  · rw [hold]
    exact h th hth i (hsame ▸ hi)
  · exact hstored

/-- A priority that is written is a stored one. -/
theorem stored_of_ite {priority n : ℕ} {infos infos' : TaskTable}
    (hpro : ∀ n', (infos' n').taskPro = if n' = n then taskPrioritys priority else (infos n').taskPro)
    (n' : ℕ) : (infos' n').taskPro = (infos n').taskPro ∨
      taskPrioritys (infos' n').taskPro = (infos' n').taskPro := by
  rw [hpro]
  split
  · exact .inr (taskPrioritys_idem priority)
  · exact .inl rfl

/-- **One step keeps the invariant.** -/
theorem Stored.step (h : s.Stored) {i : ℕ × ApiAct} (hs : TaskApi.step w m s i = some (o, t)) :
    t.Stored := by
  obtain ⟨th, hth, hnices⟩ := step_nices hs
  obtain ⟨k, a⟩ := i
  cases hnices with
  | quiet hpro hpid hkept => exact h.of_kept (fun n => .inl (hpro n)) (hkept.mono fun _ _ hlike => hlike.node)
  | @stores i n taskPfn outcome args answer _ threads made hpc hstage hpro hpid hthreads hkept hlength
      hmade =>
    have hold := h.of_kept (stored_of_ite hpro) (hkept.mono fun _ _ hlike => hlike.node)
    intro th' hth'
    rw [hthreads] at hth'
    rcases List.mem_append.mp hth' with hth' | hth'
    · exact hold th' hth'
    · intro i' hi'
      obtain ⟨hnode, -⟩ := hmade th' (Option.mem_toList.mp hth')
      obtain rfl := Option.some.inj (hnode.symm.trans hi')
      rw [hpro, if_pos rfl, taskPrioritys_idem]
  | finds hpc hfind hpro hpid hthreads hnode htid hpc' hnice =>
    refine h.of_kept (fun n => .inl (hpro n)) ?_
    rw [hthreads]
    exact ThreadPool.pointwise_set (R := fun (th th' : ApiThread) => th'.node = th.node)
      (fun _ => rfl) hth hnode
  | sets hinfo hother hpro hpid hthreads =>
    refine h.of_kept (stored_of_ite hpro) ?_
    rw [hthreads]
    exact ThreadPool.pointwise_map (R := fun (th th' : ApiThread) => th'.node = th.node)
      (node_renice _ _) _

/-! ## Nice values of the kernel -/

theorem inRange_init (n : ℕ) : (init n).InRange := by
  intro th hth
  obtain ⟨k, -, rfl⟩ := List.mem_map.mp hth
  change (0 : ℤ) ≤ 19
  decide

theorem InRange.kept (h : s.InRange) {threads : List ApiThread} (hkept : Kept s.threads threads) :
    ∀ th ∈ threads, th.nice ≤ 19 := by
  intro th' hth'
  obtain ⟨th, hth, hlike⟩ := hkept.exists_mem hth'
  rw [hlike.nice]
  exact h th hth

/-- **One step keeps the invariant.** -/
theorem InRange.step (h : s.InRange) {i : ℕ × ApiAct} (hs : TaskApi.step w m s i = some (o, t)) :
    t.InRange := by
  obtain ⟨th, hth, hnices⟩ := step_nices hs
  obtain ⟨k, a⟩ := i
  have hold : th.nice ≤ 19 := h th (List.mem_of_getElem? hth)
  intro x hx
  cases hnices with
  | quiet hpro hpid hkept => exact h.kept hkept x hx
  | stores hpc hstage hpro hpid hthreads hkept hlength hmade =>
    rw [hthreads] at hx
    rcases List.mem_append.mp hx with hx | hx
    · exact h.kept hkept x hx
    · -- a thread starts with the nice value of the one that makes it
      obtain ⟨-, -, hnice, -⟩ := hmade x (Option.mem_toList.mp hx)
      rwa [hnice]
  | finds hpc hfind hpro hpid hthreads hnode htid hpc' hnice =>
    rw [hthreads] at hx
    rcases List.mem_or_eq_of_mem_set hx with hx | rfl
    · exact h x hx
    · rw [hnice]
      split
      · exact kernelNice_le _
      · exact hold
  | sets hinfo hother hpro hpid hthreads =>
    rw [hthreads] at hx
    obtain ⟨y, hy, rfl⟩ := List.mem_map.mp hx
    rw [ApiThread.renice]
    split
    · exact kernelNice_le _
    · exact h y hy

/-! ## Runs in which the table and the kernel agree -/

/-- What is asked of a thread whose node stores this priority and this kernel's id: before `wrap_task_fun` has
found the node it has the nice value for the default priority if that is the one, and then the one that
`setpriority` sets for the priority, and its id is in the node. -/
structure Agrees (infos : TaskTable) (th : ApiThread) (n : ℕ) : Prop where
  /-- In the search. -/
  waits : th.pc = .searching → (infos n).taskPro = skTaskDefaultPriority →
    th.nice = niceOf skTaskDefaultPriority
  /-- After it. -/
  taskPid : th.pc ≠ .searching → (infos n).taskPid = th.tid
  /-- After it. -/
  nice : th.pc ≠ .searching → th.nice = kernelNice (niceOf (infos n).taskPro)

/-- The kernel has given each thread an id of its own. -/
structure TidsDiffer (threads : List ApiThread) : Prop where
  /-- Two threads with one id are the same, unless one has exited. -/
  inj : ∀ (j j' : ℕ) (th th' : ApiThread), threads[j]? = some th → threads[j']? = some th' →
    th.pc ≠ .exited → th'.pc ≠ .exited → th.tid = th'.tid → j = j'
  /-- 0 is not an id. -/
  ne_zero : ∀ th ∈ threads, th.tid ≠ 0

/-- **The invariant**: the nodes of tasks agree with the kernel. -/
structure Agreed (s : TaskApi) : Prop where
  /-- The ids. -/
  tids : TidsDiffer s.threads
  /-- The nodes. -/
  nodes : ∀ th ∈ s.threads, th.pc.GoesOn → ∀ n, th.node = some n → Agrees s.infos th n

/-- The condition on a step: a task of the default priority is made by a thread with the nice value for it,
`setpriority` succeeds in `wrap_task_fun`, and a new priority is set only for a task whose `wrap_task_fun`
has found its node. -/
def KeepsNice (s : TaskApi) (th : ApiThread) : ApiAct → Prop
  | .base (.start (.made _)) answer =>
      answer.gettid ≠ 0 ∧ ∀ args, th.stage = .named args →
        taskPrioritys args.priority = skTaskDefaultPriority → th.nice = niceOf skTaskDefaultPriority
  | .base .search answer =>
      ∀ n, findSelf s.infos.nodes th.self = some n → (s.infos n).taskPro ≠ skTaskDefaultPriority →
        answer.ok = true
  | .setPriority taskId priority true =>
      ∀ n, getTaskInfo s.infos.nodes taskId = some n → priority ≠ (s.infos n).taskPro →
        ∃ th' ∈ s.threads, th'.pc.GoesOn ∧ th'.pc ≠ .searching ∧ th'.node = some n
  | _ => True

/-- The condition on a step, in a run in which tasks find their own nodes. -/
def StepKeepsNice (w : ℕ) (s : TaskApi) (i : ℕ × ApiAct) : Prop :=
  s.StepBelow w i ∧ ∀ th, s.threads[i.1]? = some th → s.KeepsNice th i.2

/-- Two tasks that go on have different nodes. -/
theorem Known.index_eq (h : s.Known) {j j' n : ℕ} {th th' : ApiThread} (hth : s.threads[j]? = some th)
    (hth' : s.threads[j']? = some th') (hgo : th.pc.GoesOn) (hgo' : th'.pc.GoesOn)
    (hnode : th.node = some n) (hnode' : th'.node = some n) : j = j' := by
  by_contra hne
  have hholds : n ∈ th.pc.holds th.node :=
    List.mem_append_left _ (ThreadPc.mem_occupies_iff.mpr ⟨hgo, hnode⟩)
  have hholds' : n ∈ th'.pc.holds th'.node :=
    List.mem_append_left _ (ThreadPc.mem_occupies_iff.mpr ⟨hgo', hnode'⟩)
  have hperm := ThreadPool.flatMap_get (fun th : TaskThread => th.pc.holds th.node) (sys_getElem? hth)
  have hnodup := hperm.nodup_iff.mp h.inv.exclusive.2
  refine (List.nodup_append.mp hnodup).2.2 n hholds n (List.mem_flatMap.mpr ⟨_, ?_, hholds'⟩) rfl
  exact List.mem_eraseIdx_iff_getElem?.mpr ⟨j', fun h => hne h.symm, sys_getElem? hth'⟩

/-- The node of a task that goes on is not taken for another. -/
theorem Known.not_reserved (h : s.Known) {th th' : ApiThread} {n : ℕ} (hth : th ∈ s.threads)
    (hth' : th' ∈ s.threads) (hgo : th.pc.GoesOn) (hnode : th.node = some n) :
    n ∉ th'.pc.reserves :=
  h.inv.disjoint (mem_sys hth) (mem_sys hth') (ThreadPc.mem_occupies_iff.mpr ⟨hgo, hnode⟩)

theorem agreed_init (n : ℕ) : (init n).Agreed := by
  have hget : ∀ (j : ℕ) (th : ApiThread), (init n).threads[j]? = some th →
      th.tid = j + 1 ∧ th.node = none := by
    intro j th hth
    rw [init, List.getElem?_map] at hth
    obtain ⟨k, hk, rfl⟩ := Option.map_eq_some_iff.mp hth
    obtain ⟨hj, rfl⟩ := List.getElem?_eq_some_iff.mp hk
    rw [List.getElem_range]
    exact ⟨rfl, rfl⟩
  refine ⟨⟨?_, ?_⟩, ?_⟩
  · intro j j' th th' hth hth' _ _ heq
    rw [(hget j th hth).1, (hget j' th' hth').1] at heq
    exact Nat.succ_inj.mp heq
  · intro th hth
    obtain ⟨j, hj⟩ := List.mem_iff_getElem?.mp hth
    rw [(hget j th hj).1]
    exact Nat.succ_ne_zero j
  · intro th hth _ i hi
    obtain ⟨j, hj⟩ := List.mem_iff_getElem?.mp hth
    cases (hget j th hj).2.symm.trans hi

/-- A thread that is what it was, with the same in its node. -/
theorem Agrees.like {infos infos' : TaskTable} {th th' : ApiThread} {n : ℕ} (h : Agrees infos th n)
    (hlike : th'.Like th) (hgo : th'.pc.GoesOn) (hpro : (infos' n).taskPro = (infos n).taskPro)
    (hpid : (infos' n).taskPid = (infos n).taskPid) : Agrees infos' th' n := by
  have hsearching := hlike.searching hgo
  constructor
  · rw [hpro, hlike.nice, hsearching]
    exact h.waits
  · rw [hpid, hlike.tid, Ne, hsearching]
    exact h.taskPid
  · rw [hpro, hlike.nice, Ne, hsearching]
    exact h.nice

/-- Threads with the ids they had still have ids of their own. -/
theorem TidsDiffer.of_pointwise {old new : List ApiThread} (h : TidsDiffer old)
    (hnew : ThreadPool.Pointwise
      (fun th th' => th'.tid = th.tid ∧ (th'.pc ≠ .exited → th.pc ≠ .exited)) old new) :
    TidsDiffer new := by
  constructor
  · intro j j' x x' hx hx' hlive hlive' htid
    obtain ⟨th, hth, heq, hlives⟩ := hnew j x hx
    obtain ⟨th', hth', heq', hlives'⟩ := hnew j' x' hx'
    rw [heq, heq'] at htid
    exact h.inj j j' th th' hth hth' (hlives hlive) (hlives' hlive') htid
  · intro x hx
    obtain ⟨th, hth, heq, -⟩ := hnew.exists_mem hx
    rw [heq]
    exact h.ne_zero th hth

theorem TidsDiffer.kept {old new : List ApiThread} (h : TidsDiffer old) (hkept : Kept old new) :
    TidsDiffer new :=
  h.of_pointwise (hkept.mono fun _ _ hlike => ⟨hlike.tid, hlike.live⟩)

/-- A thread that is made gets an id of its own. -/
theorem TidsDiffer.append {threads : List ApiThread} {made : Option ApiThread} (h : TidsDiffer threads)
    (hmade : ∀ th' ∈ made, th'.tid ≠ 0 ∧ ∀ th ∈ threads, th.pc ≠ .exited → th.tid ≠ th'.tid) :
    TidsDiffer (threads ++ made.toList) := by
  have hget : ∀ (j : ℕ) (x : ApiThread), (threads ++ made.toList)[j]? = some x →
      threads[j]? = some x ∨ j = threads.length ∧ made = some x := by
    intro j x hx
    rw [List.getElem?_append] at hx
    split at hx
    · exact .inl hx
    · cases made with
      | none => cases hx
      | some th' =>
        obtain ⟨hj, rfl⟩ := List.getElem?_eq_some_iff.mp hx
        have hj' : j - threads.length = 0 := Nat.lt_one_iff.mp hj
        refine .inr ⟨by omega, ?_⟩
        simp [hj']
  constructor
  · intro j j' x x' hx hx' hlive hlive' htid
    rcases hget j x hx with hold | ⟨hj, hnew⟩
    · rcases hget j' x' hx' with hold' | ⟨hj', hnew'⟩
      · exact h.inj j j' x x' hold hold' hlive hlive' htid
      · exact absurd htid ((hmade x' hnew').2 x (List.mem_of_getElem? hold) hlive)
    · rcases hget j' x' hx' with hold' | ⟨hj', hnew'⟩
      · exact absurd htid.symm ((hmade x hnew).2 x' (List.mem_of_getElem? hold') hlive')
      · rw [hj, hj']
  · intro x hx
    rcases List.mem_append.mp hx with hx | hx
    · exact h.ne_zero x hx
    · exact (hmade x (Option.mem_toList.mp hx)).1

/-- `sk_task_create` stores a priority in the node it has taken, and may make a thread. -/
theorem Agreed.stores (h : s.Agreed) (hknown : s.Known) (hth : th ∈ s.threads) {n priority : ℕ}
    {threads : List ApiThread} {made : Option ApiThread} (hres : n ∈ th.pc.reserves)
    (hpro : ∀ n', (t.infos n').taskPro = if n' = n then taskPrioritys priority else (s.infos n').taskPro)
    (hpid : ∀ n', (t.infos n').taskPid = (s.infos n').taskPid)
    (hthreads : t.threads = threads ++ made.toList) (hkept : Kept s.threads threads)
    (hids : ∀ x ∈ made, x.tid ≠ 0 ∧ ∀ th ∈ s.threads, th.pc ≠ .exited → th.tid ≠ x.tid)
    (hmade : ∀ x ∈ made, ∀ n', x.node = some n' → Agrees t.infos x n') : t.Agreed := by
  constructor
  · rw [hthreads]
    refine (h.tids.kept hkept).append fun x hx => ⟨(hids x hx).1, fun y hy hlive => ?_⟩
    obtain ⟨y', hy', hlike⟩ := hkept.exists_mem hy
    rw [hlike.tid]
    exact (hids x hx).2 y' hy' (hlike.live hlive)
  · intro x hx hgo n' hn'
    rw [hthreads] at hx
    rcases List.mem_append.mp hx with hx | hx
    · obtain ⟨x', hx', hlike⟩ := hkept.exists_mem hx
      have hold := h.nodes x' hx' (hlike.goesOn hgo) n' (hlike.node ▸ hn')
      -- the node taken is no other task's
      have hne : n' ≠ n := by
        rintro rfl
        exact hknown.not_reserved hx' hth (hlike.goesOn hgo) (hlike.node ▸ hn') hres
      exact hold.like hlike hgo (by rw [hpro, if_neg hne]) (hpid n')
    · exact hmade x (Option.mem_toList.mp hx) n' hn'

/-- `wrap_task_fun` stores the kernel's id in the node of the task. -/
theorem Agreed.finds (h : s.Agreed) (hknown : s.Known) {n : ℕ} {th' : ApiThread}
    (hth : s.threads[k]? = some th) (hgo : th.pc.GoesOn) (hn : th.node = some n)
    (hpro : ∀ n', (t.infos n').taskPro = (s.infos n').taskPro)
    (hpid : ∀ n', (t.infos n').taskPid = if n' = n then th.tid else (s.infos n').taskPid)
    (hthreads : t.threads = s.threads.set k th') (hnode : th'.node = th.node) (htid : th'.tid = th.tid)
    (hagrees : Agrees t.infos th' n) : t.Agreed := by
  constructor
  · rw [hthreads]
    exact h.tids.of_pointwise
      (ThreadPool.pointwise_set (fun _ => ⟨rfl, id⟩) hth ⟨htid, fun _ => hgo.2⟩)
  · intro x hx hgo' i hi
    obtain ⟨j, hj⟩ := List.mem_iff_getElem?.mp hx
    rw [hthreads] at hj
    by_cases hkj : k = j
    · -- the thread itself
      subst hkj
      rw [List.getElem?_set_self (List.getElem?_eq_some_iff.mp hth).1] at hj
      obtain rfl := Option.some.inj hj
      obtain rfl := Option.some.inj ((hnode.trans hn).symm.trans hi)
      exact hagrees
    · -- the other threads have other nodes
      rw [List.getElem?_set_ne hkj] at hj
      have hne : i ≠ n := by
        rintro rfl
        exact hkj (hknown.index_eq hth hj hgo hgo' hn hi)
      have hold := h.nodes x (List.mem_of_getElem? hj) hgo' i hi
      exact hold.like (.refl x) hgo' (hpro i) (by rw [hpid, if_neg hne])

/-- `sk_task_set_priority` stores a priority in the node of a task that has found it, and sets its nice
value. -/
theorem Agreed.sets (h : s.Agreed) (hknown : s.Known) {n priority : ℕ} {own : ApiThread}
    (hown : own ∈ s.threads) (hgo : own.pc.GoesOn) (hpc : own.pc ≠ .searching)
    (hnode : own.node = some n)
    (hpro : ∀ n', (t.infos n').taskPro = if n' = n then taskPrioritys priority else (s.infos n').taskPro)
    (hpid : ∀ n', (t.infos n').taskPid = (s.infos n').taskPid)
    (hthreads : t.threads =
      s.threads.map (ApiThread.renice own.tid (niceOf (taskPrioritys priority)))) : t.Agreed := by
  obtain ⟨l, hl⟩ := List.mem_iff_getElem?.mp hown
  constructor
  · rw [hthreads]
    refine h.tids.of_pointwise (ThreadPool.pointwise_map (fun x => ?_) _)
    rw [tid_renice, pc_renice]
    exact ⟨rfl, id⟩
  · intro x hx hgo' i hi
    rw [hthreads] at hx
    obtain ⟨y, hy, rfl⟩ := List.mem_map.mp hx
    rw [pc_renice] at hgo'
    rw [node_renice] at hi
    obtain ⟨j, hj⟩ := List.mem_iff_getElem?.mp hy
    have hold := h.nodes y hy hgo' i hi
    by_cases hin : i = n
    · -- the task itself
      subst hin
      obtain rfl := hknown.index_eq hl hj hgo hgo' hnode hi
      obtain rfl := Option.some.inj (hl.symm.trans hj)
      refine ⟨fun hsearching => ?_, fun _ => ?_, fun _ => ?_⟩
      · rw [pc_renice] at hsearching
        exact absurd hsearching hpc
      · rw [hpid, tid_renice, hold.taskPid hpc]
      · rw [hpro, if_pos rfl]
        exact nice_renice_self _ rfl hgo.2
    · -- `setpriority` is not called for any other
      have hmiss : y.renice own.tid (niceOf (taskPrioritys priority)) = y := by
        rw [ApiThread.renice, if_neg]
        rintro ⟨htid, hlive⟩
        obtain rfl := h.tids.inj j l y own hj hl hlive hgo.2 htid
        obtain rfl := Option.some.inj (hl.symm.trans hj)
        exact hin (Option.some.inj (hi.symm.trans hnode))
      rw [hmiss]
      exact hold.like (.refl y) hgo' (by rw [hpro, if_neg hin]) (hpid i)

/-- **One step keeps the invariant.** -/
theorem Agreed.step (h : s.Agreed) (hknown : s.Known) (hstored : s.Stored) (hw : 32 ≤ w)
    {i : ℕ × ApiAct} (hs : TaskApi.step w m s i = some (o, t))
    (hkeeps : ∀ th, s.threads[i.1]? = some th → s.KeepsNice th i.2) : t.Agreed := by
  obtain ⟨th, hth, hnices⟩ := step_nices hs
  obtain ⟨k, a⟩ := i
  have hmem : th ∈ s.threads := List.mem_of_getElem? hth
  have hkeep := hkeeps th hth
  cases hnices with
  | quiet hpro hpid hkept =>
    refine ⟨h.tids.kept hkept, fun x hx hgo n hn => ?_⟩
    obtain ⟨x', hx', hlike⟩ := hkept.exists_mem hx
    have hold := h.nodes x' hx' (hlike.goesOn hgo) n (hlike.node ▸ hn)
    exact hold.like hlike hgo (hpro n) (hpid n)
  | @stores i n taskPfn outcome args answer _ threads made hpc hstage hpro hpid hthreads hkept hlength
      hmade =>
    have hres : n ∈ th.pc.reserves := by
      rw [hpc]
      exact List.mem_singleton_self n
    refine h.stores hknown hmem hres hpro hpid hthreads hkept (fun x hx => ?_) fun x hx n' hn' => ?_
    · obtain ⟨-, -, -, htid, ⟨self, rfl⟩, hfresh⟩ := hmade x hx
      rw [htid]
      exact ⟨hkeep.1, hfresh⟩
    · -- the thread made is in the search
      obtain ⟨hnode, hsearching, hnice, -, ⟨self, rfl⟩, -⟩ := hmade x hx
      obtain rfl := Option.some.inj (hnode.symm.trans hn')
      refine ⟨fun _ hdefault => ?_, fun hpc' => absurd hsearching hpc',
        fun hpc' => absurd hsearching hpc'⟩
      rw [hpro, if_pos rfl] at hdefault
      rw [hnice]
      exact hkeep.2 args hstage hdefault
  | @finds n answer _ th' hpc hfind hpro hpid hthreads hnode htid hpc' hnice =>
    -- the node found is the one taken for the task
    have hgo : th.pc.GoesOn := by simp [ThreadPc.GoesOn, hpc]
    have hknows := hknown.threads th hmem
    obtain ⟨c, hc⟩ := Option.isSome_iff_exists.mp (hknows.searching hpc)
    obtain ⟨n', hn', hserves, -⟩ := (hknows.identified c hc).finds hgo
    obtain rfl := Option.some.inj (hfind.symm.trans hserves.finds)
    refine h.finds hknown hth hgo hn' hpro hpid hthreads hnode htid ⟨fun hsearching => ?_, fun _ => ?_,
      fun _ => ?_⟩
    · cases hpc'.symm.trans hsearching
    · rw [hpid, if_pos rfl, htid]
    · rw [hnice, hpro]
      split
      · rw [← hstored th hmem n hn', nicePro_taskPrioritys hw]
      · rename_i hdefault
        have hpro' : (s.infos n).taskPro = skTaskDefaultPriority := by
          by_contra hne
          exact hdefault ⟨hne, hkeep n hfind hne⟩
        rw [(h.nodes th hmem hgo n hn').waits hpc hpro', hpro']
        decide
  | @sets n taskId priority _ hinfo hother hpro hpid hthreads =>
    obtain ⟨own, hown, hgo, hpc, hnode⟩ := hkeep n hinfo hother
    have htarget : s.niceTarget th n = own.tid := by
      rw [niceTarget, (h.nodes own hown hgo n hnode).taskPid hpc, if_neg (h.tids.ne_zero own hown)]
    rw [htarget, nicePro_taskPrioritys hw] at hthreads
    exact h.sets hknown hown hgo hpc hnode hpro hpid hthreads

/-! ## Calls in a run -/

/-- The thread, if it goes on, has this node, with this priority. -/
def HasPriority (s : TaskApi) (j i priority : ℕ) : Prop :=
  j < s.threads.length ∧ ∀ th, s.threads[j]? = some th → th.pc.GoesOn →
    th.node = some i ∧ (s.infos i).taskPro = priority

theorem Live.hasPriority {taskId priority : ℕ} {caller : ApiThread} {ok : Bool}
    (h : s.Live j i taskId th) (hcaller : s.threads[k]? = some caller)
    (hpro : taskPrioritys (s.infos i).taskPro = (s.infos i).taskPro)
    (hs : step w m s (k, .setPriority taskId priority ok) =
      some (some (.ret (.status .success)), t)) : t.HasPriority j i (taskPrioritys priority) := by
  have hstored := h.taskPro_after hcaller hpro hs
  obtain ⟨th', hth', hnode⟩ := h.thread_after hcaller hs
  refine ⟨(List.getElem?_eq_some_iff.mp hth').1, fun x hx _ => ⟨?_, hstored⟩⟩
  obtain rfl := Option.some.inj (hth'.symm.trans hx)
  exact hnode

/-- Threads do not go from the list. -/
theorem step_length_le {i : ℕ × ApiAct} (hs : step w m s i = some (o, t)) :
    s.threads.length ≤ t.threads.length := by
  obtain ⟨th, -, hmoves⟩ := step_moves hs
  obtain ⟨k, a⟩ := i
  cases hmoves with
  | base hmay hact =>
    rw [afterBase, List.length_append, List.length_set]
    exact Nat.le_add_right _ _
  | names => exact Nat.le_of_eq List.length_set.symm
  | quiet hnodes hnames hthreads hlock hquiet =>
    have hlength := congrArg List.length hthreads
    rw [List.length_map, List.length_map] at hlength
    exact Nat.le_of_eq hlength.symm
  | die => exact Nat.le_of_eq List.length_set.symm

/-- **Only `sk_task_set_priority` writes the priority of a task.** -/
theorem HasPriority.step {priority : ℕ} (h : s.HasPriority j i priority) (hknown : s.Known)
    {a : ℕ × ApiAct} (hs : TaskApi.step w m s a = some (o, t))
    (hother : ∀ taskId p ok, a.2 ≠ .setPriority taskId p ok) : t.HasPriority j i priority := by
  obtain ⟨th, hth, hnices⟩ := step_nices hs
  obtain ⟨k, a⟩ := a
  refine ⟨Nat.lt_of_lt_of_le h.1 (step_length_le hs), fun x hx hgo => ?_⟩
  cases hnices with
  | quiet hpro hpid hkept =>
    obtain ⟨x', hx', hlike⟩ := hkept j x hx
    obtain ⟨hnode, hhas⟩ := h.2 x' hx' (hlike.goesOn hgo)
    exact ⟨hlike.node.trans hnode, (hpro i).trans hhas⟩
  | @stores i' n taskPfn outcome args answer _ threads made hpc hstage hpro hpid hthreads hkept hlength
      hmade =>
    rw [hthreads, List.getElem?_append_left (hlength ▸ h.1)] at hx
    obtain ⟨x', hx', hlike⟩ := hkept j x hx
    obtain ⟨hnode, hhas⟩ := h.2 x' hx' (hlike.goesOn hgo)
    have hne : i ≠ n := by
      rintro rfl
      refine hknown.not_reserved (List.mem_of_getElem? hx') (List.mem_of_getElem? hth)
        (hlike.goesOn hgo) hnode ?_
      rw [hpc]
      exact List.mem_singleton_self i
    rw [hpro, if_neg hne]
    exact ⟨hlike.node.trans hnode, hhas⟩
  | @finds n answer _ th' hpc hfind hpro hpid hthreads hnode htid hpc' hnice =>
    rw [hthreads] at hx
    rw [hpro]
    by_cases hkj : k = j
    · subst hkj
      rw [List.getElem?_set_self h.1] at hx
      obtain rfl := Option.some.inj hx
      obtain ⟨hnode', hhas⟩ := h.2 th hth (by simp [ThreadPc.GoesOn, hpc])
      exact ⟨hnode.trans hnode', hhas⟩
    · rw [List.getElem?_set_ne hkj] at hx
      exact h.2 x hx hgo
  | sets => exact absurd rfl (hother _ _ _)

/-- What is known in a run whose steps meet the condition. -/
structure Regular (s : TaskApi) : Prop where
  /-- Tasks and their nodes. -/
  known : s.Known
  /-- Their ids. -/
  numbered : s.Numbered
  /-- Their priorities. -/
  stored : s.Stored
  /-- Their nice values. -/
  agreed : s.Agreed

/-- **One step keeps the invariant** if it meets the condition. -/
theorem Regular.step (h : s.Regular) (hw : 32 ≤ w) {i : ℕ × ApiAct} (hi : s.StepKeepsNice w i)
    (hs : TaskApi.step w m s i = some (o, t)) : t.Regular where
  known := h.known.step hs (hi.1.tellsApart h.numbered h.known)
  numbered := h.numbered.step h.known hi.1.1 hs
  stored := h.stored.step hs
  agreed := h.agreed.step h.known h.stored hw hs hi.2

theorem regular_init (n : ℕ) : (init n).Regular :=
  ⟨known_init n, numbered_init n, stored_init n, agreed_init n⟩

/-- A task that goes on is found by its thread and by its id. -/
theorem Regular.live (h : s.Regular) {c : TaskCall} (hth : s.threads[j]? = some th)
    (hgo : th.pc.GoesOn) (hc : th.call = some c) : ∃ i, s.Live j i c.taskId th := by
  have hmem := List.mem_of_getElem? hth
  obtain ⟨i, hnode, hserves, -⟩ := ((h.known.threads th hmem).identified c hc).finds hgo
  refine ⟨i, hth, hgo, hnode, ⟨c, hc, rfl, hserves⟩, ?_⟩
  cases hinfo : getTaskInfo s.infos.nodes c.taskId with
  | none =>
    -- its own node has the id
    have hlt := (firstNode_eq_some_iff.mp hserves.finds).1
    have hmiss := List.find?_range_eq_none.mp hinfo i hlt
    rw [Bool.not_eq_true'] at hmiss
    exact absurd hserves.taskId (ne_of_beq_false hmiss)
  | some i' =>
    have hpos := (h.numbered.threads th hmem).taskId c hc
    rw [h.numbered.ids.getTaskInfo hserves.taskId hpos hinfo]

/-- **Where the table and the kernel agree a call does what it should.** -/
theorem Regular.reaches (h : s.Regular) {caller : ApiThread} {taskId priority : ℕ}
    (hlive : s.Live j i taskId th) (hrange : taskPrioritys priority ≠ skTaskPriorityLowest)
    (hkeeps : priority ≠ (s.infos i).taskPro →
      ∃ th' ∈ s.threads, th'.pc.GoesOn ∧ th'.pc ≠ .searching ∧ th'.node = some i) :
    s.Reaches caller th j i priority true := by
  have hmem := List.mem_of_getElem? hlive.thread
  have hagrees := h.agreed.nodes th hmem hlive.goesOn i hlive.node
  by_cases hsame : priority = (s.infos i).taskPro
  · refine ⟨hrange, ?_, fun hne => absurd hsame hne⟩
    have hstored : taskPrioritys priority = (s.infos i).taskPro := by
      rw [hsame, h.stored th hmem i hlive.node]
    have hkernel := kernelNice_niceOf hrange
    rw [hstored] at hkernel ⊢
    by_cases hpc : th.pc = .searching
    · by_cases hdefault : (s.infos i).taskPro = skTaskDefaultPriority
      · rw [hdefault]
        exact .inl (hagrees.waits hpc hdefault)
      · exact .inr (.inr ⟨hpc, hdefault, rfl⟩)
    · exact .inl ((hagrees.nice hpc).trans hkernel)
  · obtain ⟨th', hth', hgo, hpc, hnode⟩ := hkeeps hsame
    obtain ⟨j', hj'⟩ := List.mem_iff_getElem?.mp hth'
    obtain rfl := h.known.index_eq hlive.thread hj' hlive.goesOn hgo hlive.node hnode
    obtain rfl := Option.some.inj (hlive.thread.symm.trans hj')
    have htarget : s.niceTarget caller i = th.tid := by
      rw [niceTarget, hagrees.taskPid hpc, if_neg (h.agreed.tids.ne_zero th hmem)]
    refine ⟨hrange, .inr (.inl ⟨hsame, htarget.symm⟩), fun _ l x hl hx hxlive htid => ?_⟩
    rw [htarget] at htid
    exact absurd (h.agreed.tids.inj l j x th hx hlive.thread hxlive hlive.goesOn.2 htid) hl

/-- From here on the task has the nice value for the priority as soon as `wrap_task_fun` has run, in every
run that goes on from here, meets the condition and has no further `sk_task_set_priority`. -/
def GetsNice (w m : ℕ) (s : TaskApi) (j priority : ℕ) : Prop :=
  ∀ steps os u, StepMachine.run (TaskApi.step w m) s steps = some (os, u) →
    StepMachine.Along (TaskApi.step w m)
      (fun v a => v.StepKeepsNice w a ∧ ∀ taskId p ok, a.2 ≠ .setPriority taskId p ok) s steps →
    ∀ th, u.threads[j]? = some th → th.pc.GoesOn → th.pc ≠ .searching →
      th.nice = niceOf (taskPrioritys priority)

theorem Regular.getsNice (h : s.Regular) (hw : 32 ≤ w) {priority : ℕ}
    (hrange : taskPrioritys priority ≠ skTaskPriorityLowest)
    (hhas : s.HasPriority j i (taskPrioritys priority)) : s.GetsNice w m j priority := by
  intro steps os u hrun halong th hth hgo hpc
  obtain ⟨hregular, -, hhas'⟩ := StepMachine.run_induction_along (TaskApi.step w m) _
    (fun _ _ u => u.Regular ∧ u.HasPriority j i (taskPrioritys priority)) ⟨h, hhas⟩
    (fun _ _ _ _ _ _ _ hu ha hstep =>
      ⟨hu.1.step hw ha.1 hstep, hu.2.step hu.1.known hstep ha.2⟩) halong hrun
  obtain ⟨hnode, hpro⟩ := hhas' th hth hgo
  have hagrees := (hregular.agreed.nodes th (List.mem_of_getElem? hth) hgo i hnode).nice hpc
  rwa [hpro, kernelNice_niceOf hrange] at hagrees

end TaskApi

/-- **When `sk_task_set_priority` does what it should.** Take any number of threads that create, control and
end tasks, and the tasks they make, over any interleaving, and a call that returns `SK_SUCCESS` there. It
gives a task that goes on the nice value for the priority, at once or when `wrap_task_fun` runs, and leaves
all other threads theirs, if and only if the state before the call meets `TaskApi.Reaches`. In a run whose
steps all meet `TaskApi.StepKeepsNice` every call for a task that goes on does, but for the least priority,
and the nice value stays until the next one. -/
theorem skTaskSetPriority_sets (w m n : ℕ) (hw : 32 ≤ w) (steps : List (ℕ × ApiAct))
    (os : List (Option ApiRet)) (s : TaskApi)
    (hrun : StepMachine.run (TaskApi.step w m) (TaskApi.init n) steps = some (os, s))
    (k taskId priority : ℕ) (called : Bool) (caller : ApiThread) (hcaller : s.threads[k]? = some caller)
    (t : TaskApi) (hs : TaskApi.step w m s (k, .setPriority taskId priority called) =
      some (some (.ret (.status .success)), t)) :
    (∀ j i th, s.Live j i taskId th → ∀ ok,
      (TaskApi.Sets w s t j priority ok ↔ s.Reaches caller th j i priority ok)) ∧
    (StepMachine.Along (TaskApi.step w m) (TaskApi.StepKeepsNice w) (TaskApi.init n)
        (steps ++ [(k, .setPriority taskId priority called)]) →
      taskPrioritys priority ≠ skTaskPriorityLowest → ∀ j th c, s.threads[j]? = some th → th.pc.GoesOn →
        th.call = some c → c.taskId = taskId →
        TaskApi.Sets w s t j priority true ∧ t.GetsNice w m j priority) := by
  have hstored : s.Stored := StepMachine.run_induction (TaskApi.step w m) (fun _ _ s => s.Stored)
    (TaskApi.stored_init n) (fun _ _ _ _ _ _ _ hu hstep => hu.step hstep) hrun
  have hrange : s.InRange := StepMachine.run_induction (TaskApi.step w m) (fun _ _ s => s.InRange)
    (TaskApi.inRange_init n) (fun _ _ _ _ _ _ _ hu hstep => hu.step hstep) hrun
  have hiff : ∀ j i th, s.Live j i taskId th → ∀ ok,
      (TaskApi.Sets w s t j priority ok ↔ s.Reaches caller th j i priority ok) := by
    intro j i th hlive ok
    have hpro := hstored th (List.mem_of_getElem? hlive.thread) i hlive.node
    exact hlive.sets_iff hw hcaller hpro (hrange.step hs) hs
  refine ⟨hiff, fun halong hpriority j th c hth hgo hc hid => ?_⟩
  obtain ⟨halong, hkeeps⟩ := (StepMachine.along_snoc _ _ _ _ _ _ os hrun).mp halong
  have hregular : s.Regular := StepMachine.run_induction_along (TaskApi.step w m)
    (TaskApi.StepKeepsNice w) (fun _ _ s => s.Regular) (TaskApi.regular_init n)
    (fun _ _ _ _ _ _ _ hu hi hstep => hu.step hw hi hstep) halong hrun
  obtain ⟨i, hlive⟩ := hregular.live hth hgo hc
  subst hid
  constructor
  · obtain ⟨i', hinfo, hdoes⟩ := TaskApi.setPriority_success hcaller hs
    obtain rfl := Option.some.inj (hlive.finds.symm.trans hinfo)
    refine (hiff j i th hlive true).mpr (hregular.reaches hlive hpriority fun hother => ?_)
    rcases hdoes with ⟨hsame, -⟩ | ⟨⟨-, rfl⟩, -⟩
    · exact absurd hsame hother
    · exact hkeeps.2 caller hcaller i hinfo hother
  · have hpro := hstored th (List.mem_of_getElem? hth) i hlive.node
    exact (hregular.step hw hkeeps hs).getsNice hw hpriority (hlive.hasPriority hcaller hpro hs)

open TaskApi in
set_option maxRecDepth 8000 in
/-- The law at a run in which the task has found its node when its priority is set. -/
theorem skTaskSetPriority_sets_running : ∃ os s t,
    StepMachine.run (TaskApi.step 32 60) (TaskApi.init 1)
      (createSteps 0 [97] (some 5) 2 102 ++ enterSteps 1 ++ [(0, .lock)]) = some (os, s) ∧
    TaskApi.step 32 60 s (0, .setPriority 1 70 true) = some (some (.ret (.status .success)), t) ∧
    TaskApi.Sets 32 s t 1 70 true := by
  have hrun : ∃ os s t caller th,
      StepMachine.run (TaskApi.step 32 60) (TaskApi.init 1)
        (createSteps 0 [97] (some 5) 2 102 ++ enterSteps 1 ++ [(0, .lock)]) = some (os, s) ∧
      TaskApi.step 32 60 s (0, .setPriority 1 70 true) = some (some (.ret (.status .success)), t) ∧
      s.threads = [caller, th] ∧ s.Live 1 0 1 th ∧ th.tid = 102 ∧ caller.tid = 1 ∧
      (s.infos 0).taskPid = 102 ∧ (s.infos 0).taskPro = 64 := by
    refine ⟨_, _, _, _, _, rfl, rfl, rfl, ?_, rfl, rfl, rfl, rfl⟩
    exact ⟨rfl, ⟨ThreadPc.noConfusion, ThreadPc.noConfusion⟩, rfl, ⟨_, rfl, rfl, rfl, rfl, rfl⟩, rfl⟩
  obtain ⟨os, s, t, caller, th, hrun, hs, hthreads, hlive, htid, hcaller, hpid, hpro⟩ := hrun
  have hget : s.threads[0]? = some caller := by rw [hthreads]; rfl
  refine ⟨os, s, t, hrun, hs, ?_⟩
  refine ((skTaskSetPriority_sets 32 60 1 le_rfl _ os s hrun 0 1 70 true caller hget t hs).1 1 0 th hlive
    true).mpr ⟨by decide, .inr (.inl ⟨?_, ?_⟩), fun _ j' th' hj' hth' _ htid' => ?_⟩
  · rw [hpro]
    decide
  · rw [htid, niceTarget, hpid]
    rfl
  · -- the calling thread has another id
    rw [niceTarget, hpid] at htid'
    rw [hthreads] at hth'
    match j', hj' with
    | 0, _ =>
      obtain rfl := Option.some.inj hth'
      rw [hcaller] at htid'
      cases htid'
    | 1, hj' => exact absurd rfl hj'
    | _ + 2, _ => cases hth'

open TaskApi in
set_option maxRecDepth 8000 in
/-- **Calls that miss the task.** A call before `wrap_task_fun` has stored `task_pid` sets the nice value of
the calling thread. After a `setpriority` that failed in `wrap_task_fun`, a call for the same priority
succeeds and sets none. And a call for the least priority sets nice value 19. -/
theorem skTaskSetPriority_misses :
    (∃ os s t, StepMachine.run (TaskApi.step 32 60) (TaskApi.init 1)
        (createSteps 0 [97] (some 5) 2 102 ++ [(0, .lock)]) = some (os, s) ∧
      TaskApi.step 32 60 s (0, .setPriority 1 70 true) =
        some (some (.ret (.status .success)), t) ∧
      (∃ th, s.Live 1 0 1 th) ∧
      s.threads[0]?.map (·.nice) = some 0 ∧ t.threads[0]?.map (·.nice) = some (-5) ∧
      ¬ TaskApi.Sets 32 s t 1 70 true) ∧
    (∃ os s t, StepMachine.run (TaskApi.step 32 60) (TaskApi.init 1)
        ((0, .check (some [97]) 88) :: (createSteps 0 [97] (some 5) 2 102).tail ++
          [(1, .lock), (1, .base .search { ok := false }), (1, .unlock), (0, .lock)]) = some (os, s) ∧
      TaskApi.step 32 60 s (0, .setPriority 1 88 true) =
        some (some (.ret (.status .success)), t) ∧
      (∃ th, s.Live 1 0 1 th) ∧ t.threads[1]?.map (·.nice) = some 0 ∧
      ¬ TaskApi.Sets 32 s t 1 88 true) ∧
    ∃ os s t, StepMachine.run (TaskApi.step 32 60) (TaskApi.init 1)
        (createSteps 0 [97] (some 5) 2 102 ++ enterSteps 1 ++ [(0, .lock)]) = some (os, s) ∧
      TaskApi.step 32 60 s (0, .setPriority 1 skTaskPriorityLowest true) =
        some (some (.ret (.status .success)), t) ∧
      (∃ th, s.Live 1 0 1 th) ∧ niceOf (taskPrioritys skTaskPriorityLowest) = 20 ∧
      t.threads[1]?.map (·.nice) = some 19 ∧ ¬ TaskApi.Sets 32 s t 1 skTaskPriorityLowest true := by
  have hsearching : ThreadPc.searching.GoesOn := ⟨ThreadPc.noConfusion, ThreadPc.noConfusion⟩
  have hfound : (ThreadPc.found 0).GoesOn := ⟨ThreadPc.noConfusion, ThreadPc.noConfusion⟩
  have hrunning : (ThreadPc.running (some 0)).GoesOn := ⟨ThreadPc.noConfusion, ThreadPc.noConfusion⟩
  refine ⟨?_, ?_, ?_⟩
  · refine ⟨_, _, _, rfl, rfl, ⟨_, rfl, hsearching, rfl, ⟨_, rfl, rfl, rfl, rfl, rfl⟩, rfl⟩, rfl, rfl, ?_⟩
    intro hsets
    have hother := hsets.others 0 (by decide)
    cases hother
  · refine ⟨_, _, _, rfl, rfl, ⟨_, rfl, hfound, rfl, ⟨_, rfl, rfl, rfl, rfl, rfl⟩, rfl⟩, rfl, ?_⟩
    intro hsets
    have hown := hsets.own _ rfl
    cases hown
  · refine ⟨_, _, _, rfl, rfl, ⟨_, rfl, hrunning, rfl, ⟨_, rfl, rfl, rfl, rfl, rfl⟩, rfl⟩, rfl, rfl, ?_⟩
    intro hsets
    have hown := hsets.own _ rfl
    cases hown

end SmIpc.Os
