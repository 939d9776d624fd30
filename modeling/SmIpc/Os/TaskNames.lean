import SmIpc.Lib.UniqueNames
import SmIpc.Os.TaskIdentity

/-! # The names of tasks

`sk_task_create` looks for the name among the nodes in use, takes a node, and names it, in three steps of which
only the last two hold the lock. A name is claimed from the check on and is in use when the task is made.

* `TaskApi.NamesDiffer`: no two nodes in use whose `sk_task_create` has returned have the same name.
* `Claims` is the invariant, with a lemma for each thing a step can do to it.
* `task_names_differ`: the names differ throughout a run in which no check passes for a name that another
  `sk_task_create` has checked and not stored yet, and no step frees a node that another one has taken.
  `task_names_equal` is a run with two tasks of one name. -/

namespace SmIpc.Os

open UniqueNames

/-! ## Claims -/

namespace CreateStage

/-- The name a `sk_task_create` has found unused. -/
def wanted : CreateStage → List (List UInt8)
  | none => []
  | checked args | unnamed args | naming args | named args => [args.name]

/-- The same, as long as no node has it. -/
def pending : CreateStage → List (List UInt8)
  | none | named _ => []
  | checked args | unnamed args | naming args => [args.name]

end CreateStage

/-- The names the threads claim. -/
def wanted (ths : List CreateThread) : List (List UInt8) := ths.flatMap fun th => th.stage.wanted

/-- The nodes the threads have taken for tasks to come. -/
def taken (ths : List CreateThread) : List ℕ := ths.flatMap fun th => th.pc.reserves

/-- The nodes in use whose `sk_task_create` has returned. -/
def live (use created : ℕ → Bool) : Set ℕ :=
  {n | n < maxThreadCount ∧ use n = true ∧ created n = true}

/-- What is known of a thread: it claims a name that fits into a node, the node it has taken is one of the
table and no task's yet, and after the naming it has the name. -/
structure Claimant (m : ℕ) (name : ℕ → List UInt8) (created : ℕ → Bool) (th : CreateThread) :
    Prop where
  /-- The name fits. -/
  short : ∀ x ∈ th.stage.wanted, x.length < m
  /-- The node. -/
  reserves : ∀ n ∈ th.pc.reserves, n < maxThreadCount ∧ created n = false
  /-- The naming. -/
  named : ∀ args, th.stage = .named args → ∃ n ∈ th.pc.reserves, name n = args.name

/-- **The invariant**: names in use and names claimed differ, and the nodes taken are marked and differ. -/
structure Claims (m : ℕ) (use : ℕ → Bool) (name : ℕ → List UInt8) (created : ℕ → Bool)
    (ths : List CreateThread) : Prop where
  /-- The names. -/
  apart : Apart (live use created) name (wanted ths)
  /-- The nodes. -/
  taken : Slots.Exclusive use (taken ths)
  /-- The threads. -/
  threads : ∀ th ∈ ths, Claimant m name created th

namespace Claims

variable {m k n : ℕ} {use created : ℕ → Bool} {name : ℕ → List UInt8} {ths : List CreateThread}
  {th th' : CreateThread}

/-- The moving thread set apart, in the names and in the nodes. -/
theorem wanted_get (hth : ths[k]? = some th) :
    (wanted ths).Perm (th.stage.wanted ++ wanted (ths.eraseIdx k)) :=
  ThreadPool.flatMap_get _ hth

theorem wanted_set (hth : ths[k]? = some th) (th' : CreateThread) :
    (wanted (ths.set k th')).Perm (th'.stage.wanted ++ wanted (ths.eraseIdx k)) := by
  have hperm := ThreadPool.flatMap_set (fun th : CreateThread => th.stage.wanted) hth th' []
  rwa [List.append_nil] at hperm

theorem taken_get (hth : ths[k]? = some th) :
    (Os.taken ths).Perm (th.pc.reserves ++ Os.taken (ths.eraseIdx k)) :=
  ThreadPool.flatMap_get _ hth

theorem taken_set (hth : ths[k]? = some th) (th' : CreateThread) :
    (Os.taken (ths.set k th')).Perm (th'.pc.reserves ++ Os.taken (ths.eraseIdx k)) := by
  have hperm := ThreadPool.flatMap_set (fun th : CreateThread => th.pc.reserves) hth th' []
  rwa [List.append_nil] at hperm

/-- A node that a thread has taken is marked. -/
theorem use_of_reserves (h : Claims m use name created ths) (hth : th ∈ ths)
    (hn : n ∈ th.pc.reserves) : use n = true :=
  h.taken.1 n (List.mem_flatMap.mpr ⟨th, hth, hn⟩)

/-- Other threads have taken other nodes. -/
theorem not_mem_erase (h : Claims m use name created ths) (hth : ths[k]? = some th)
    (hn : n ∈ th.pc.reserves) : n ∉ Os.taken (ths.eraseIdx k) := by
  have hnodup := (taken_get hth).nodup_iff.mp h.taken.2
  exact fun hmem => (List.nodup_append.mp hnodup).2.2 n hn n hmem rfl

/-- New threads that claim nothing. -/
theorem append (h : Claims m use name created ths) {new : List CreateThread}
    (hnew : ∀ x ∈ new, x.stage = .none ∧ x.pc.reserves = []) :
    Claims m use name created (ths ++ new) := by
  have hwanted : wanted new = [] := by
    refine List.flatMap_eq_nil_iff.mpr fun x hx => ?_
    rw [(hnew x hx).1]
    rfl
  have htaken : Os.taken new = [] := List.flatMap_eq_nil_iff.mpr fun x hx => (hnew x hx).2
  refine ⟨?_, ?_, ?_⟩
  · rw [wanted, List.flatMap_append]
    change Apart _ _ (wanted ths ++ wanted new)
    rw [hwanted, List.append_nil]
    exact h.apart
  · rw [Os.taken, List.flatMap_append]
    change Slots.Exclusive _ (Os.taken ths ++ Os.taken new)
    rw [htaken, List.append_nil]
    exact h.taken
  · intro x hx
    rcases List.mem_append.mp hx with hx | hx
    · exact h.threads x hx
    · obtain ⟨hstage, hres⟩ := hnew x hx
      refine ⟨?_, ?_, ?_⟩
      · rw [hstage]
        exact fun y hy => absurd hy List.not_mem_nil
      · rw [hres]
        exact fun n hn => absurd hn List.not_mem_nil
      · rw [hstage]
        exact fun args => CreateStage.noConfusion

/-- A thread that gives up what it claims or has taken, or goes on with it, short of the naming. -/
theorem set (h : Claims m use name created ths) (hth : ths[k]? = some th)
    (hwanted : th'.stage.wanted.Sublist th.stage.wanted)
    (hres : th'.pc.reserves.Sublist th.pc.reserves) (hnamed : ∀ args, th'.stage ≠ .named args) :
    Claims m use name created (ths.set k th') := by
  have hold := h.threads th (List.mem_of_getElem? hth)
  refine ⟨?_, ?_, ThreadPool.forall_mem_set h.threads k ?_⟩
  · refine (apart_perm (wanted_set hth th')).mpr ?_
    exact ((apart_perm (wanted_get hth)).mp h.apart).mono subset_rfl (fun _ _ => rfl)
      (hwanted.append_right _)
  · refine (Slots.exclusive_perm (taken_set hth th')).mpr ?_
    exact ((Slots.exclusive_perm (taken_get hth)).mp h.taken).sublist (hres.append_right _)
  · exact ⟨fun x hx => hold.short x (hwanted.subset hx), fun n hn => hold.reserves n (hres.subset hn),
      fun args hargs => absurd hargs (hnamed args)⟩

/-- A node that nobody has taken loses its mark. -/
theorem clear (h : Claims m use name created ths) (hn : n ∉ Os.taken ths) :
    Claims m (Function.update use n false) name created ths := by
  refine ⟨h.apart.mono ?_ (fun _ _ => rfl) (List.Sublist.refl _), (h.taken.unmark_iff n).mpr hn,
    h.threads⟩
  rintro a ⟨ha, huse, hcreated⟩
  rw [Function.update_apply] at huse
  split at huse
  · cases huse
  · exact ⟨ha, huse, hcreated⟩

/-- A thread takes a node. -/
theorem take (h : Claims m use name created ths) (hth : ths[k]? = some th) (hn : n < maxThreadCount)
    (hfree : use n = false) (hres : th.pc.reserves = []) (hres' : th'.pc.reserves = [n])
    (hwanted : th'.stage.wanted.Sublist th.stage.wanted) (hnamed : ∀ args, th'.stage ≠ .named args) :
    Claims m (Function.update use n true) name (Function.update created n false) (ths.set k th') := by
  have hcreated : ∀ a, created a = false → Function.update created n false a = false := by
    intro a ha
    rw [Function.update_apply]
    split
    · rfl
    · exact ha
  refine ⟨?_, ?_, ThreadPool.forall_mem_set ?_ k ?_⟩
  · refine (apart_perm (wanted_set hth th')).mpr ?_
    refine ((apart_perm (wanted_get hth)).mp h.apart).mono ?_ (fun _ _ => rfl)
      (hwanted.append_right _)
    rintro a ⟨ha, huse, hcreated⟩
    rw [Function.update_apply] at huse hcreated
    split at hcreated
    · cases hcreated
    · rw [if_neg ‹a ≠ n›] at huse
      exact ⟨ha, huse, hcreated⟩
  · refine (Slots.exclusive_perm (taken_set hth th')).mpr ?_
    have hrest := (Slots.exclusive_perm (taken_get hth)).mp h.taken
    rw [hres, List.nil_append] at hrest
    rw [hres']
    exact hrest.acquire hfree
  · intro x hx
    have hold := h.threads x hx
    exact ⟨hold.short, fun a ha => ⟨(hold.reserves a ha).1, hcreated a (hold.reserves a ha).2⟩,
      hold.named⟩
  · have hold := h.threads th (List.mem_of_getElem? hth)
    refine ⟨fun x hx => hold.short x (hwanted.subset hx), ?_, fun args h => absurd h (hnamed args)⟩
    rw [hres']
    intro a ha
    rw [List.mem_singleton.mp ha]
    exact ⟨hn, Function.update_self n false created⟩

/-- A thread makes the task it has named a node for. -/
theorem publish (h : Claims m use name created ths) (hth : ths[k]? = some th) {args : CreateArgs}
    (hstage : th.stage = .named args) (hres : th.pc.reserves = [n]) (hstage' : th'.stage = .none)
    (hres' : th'.pc.reserves = []) :
    Claims m use name (Function.update created n true) (ths.set k th') := by
  have hmem := List.mem_of_getElem? hth
  have hn : n ∈ th.pc.reserves := by
    rw [hres]
    exact List.mem_singleton_self n
  have hname : name n = args.name := by
    obtain ⟨n', hn', hname⟩ := (h.threads th hmem).named args hstage
    rw [hres] at hn'
    rwa [List.mem_singleton.mp hn'] at hname
  refine ⟨?_, ?_, ?_⟩
  · refine (apart_perm (wanted_set hth th')).mpr ?_
    have happart := (apart_perm (wanted_get hth)).mp h.apart
    have hw : th.stage.wanted = [name n] := by
      rw [hstage, hname]
      rfl
    rw [hw] at happart
    rw [hstage']
    refine (Apart.publish happart).mono ?_ (fun _ _ => rfl) (List.Sublist.refl _)
    rintro a ⟨ha, huse, hcreated⟩
    rw [Function.update_apply] at hcreated
    split at hcreated
    · exact .inl ‹a = n›
    · exact .inr ⟨ha, huse, hcreated⟩
  · refine (Slots.exclusive_perm (taken_set hth th')).mpr ?_
    rw [hres']
    exact ((Slots.exclusive_perm (taken_get hth)).mp h.taken).sublist (List.sublist_append_right _ _)
  · intro x hx
    rcases List.mem_cons.mp ((ThreadPool.perm_set hth th').mem_iff.mp hx) with rfl | hx
    · refine ⟨?_, ?_, ?_⟩
      · rw [hstage']
        exact fun y hy => absurd hy List.not_mem_nil
      · rw [hres']
        exact fun a ha => absurd ha List.not_mem_nil
      · rw [hstage']
        exact fun args => CreateStage.noConfusion
    · have hold := h.threads x (List.mem_of_mem_eraseIdx hx)
      refine ⟨hold.short, fun a ha => ⟨(hold.reserves a ha).1, ?_⟩, hold.named⟩
      have hne : a ≠ n := by
        rintro rfl
        exact h.not_mem_erase hth hn (List.mem_flatMap.mpr ⟨x, hx, ha⟩)
      rw [Function.update_of_ne hne]
      exact (hold.reserves a ha).2

/-- A name passes the check, which no other thread has checked and not stored yet. -/
theorem check (h : Claims m use name created ths) (hth : ths[k]? = some th) {args : CreateArgs}
    (hstage : th.stage = .none) (hstage' : th'.stage = .checked args) (hpc : th'.pc = th.pc)
    (hshort : args.name.length < m)
    (hunused : ∀ i < maxThreadCount, use i = true → name i ≠ args.name)
    (hpending : ∀ x ∈ ths, args.name ∉ x.stage.pending) :
    Claims m use name created (ths.set k th') := by
  have hold := h.threads th (List.mem_of_getElem? hth)
  refine ⟨?_, ?_, ThreadPool.forall_mem_set h.threads k ?_⟩
  · refine (apart_perm (wanted_set hth th')).mpr ?_
    have happart := (apart_perm (wanted_get hth)).mp h.apart
    rw [hstage] at happart
    rw [hstage']
    refine apart_cons.mpr ⟨fun a ha => hunused a ha.1 ha.2.1, ?_, happart⟩
    intro hmem
    obtain ⟨x, hx, hname⟩ := List.mem_flatMap.mp hmem
    have hx := List.mem_of_mem_eraseIdx hx
    -- a thread that claims the name has stored it in a node in use, or is still to do so
    cases hxstage : x.stage with
    | named args' =>
      rw [hxstage] at hname
      obtain ⟨n, hn, hstored⟩ := (h.threads x hx).named args' hxstage
      rw [← List.mem_singleton.mp hname] at hstored
      exact hunused n ((h.threads x hx).reserves n hn).1 (h.use_of_reserves hx hn) hstored
    | none =>
      rw [hxstage] at hname
      cases hname
    | checked args' | unnamed args' | naming args' =>
      refine hpending x hx ?_
      rw [hxstage] at hname ⊢
      exact hname
  · refine (Slots.exclusive_perm (taken_set hth th')).mpr ?_
    rw [hpc]
    exact (Slots.exclusive_perm (taken_get hth)).mp h.taken
  · refine ⟨?_, by rw [hpc]; exact hold.reserves, ?_⟩
    · rw [hstage']
      intro x hx
      rwa [List.mem_singleton.mp hx]
    · rw [hstage']
      exact fun args => CreateStage.noConfusion

/-- A thread stores the name in the node it has taken. -/
theorem store (h : Claims m use name created ths) (hth : ths[k]? = some th) {args : CreateArgs}
    (hstage : th.stage = .naming args) (hn : n ∈ th.pc.reserves) (hstage' : th'.stage = .named args)
    (hpc : th'.pc = th.pc) :
    Claims m use (Function.update name n args.name) created (ths.set k th') := by
  have hold := h.threads th (List.mem_of_getElem? hth)
  refine ⟨?_, ?_, ?_⟩
  · refine (apart_perm (wanted_set hth th')).mpr ?_
    have happart := (apart_perm (wanted_get hth)).mp h.apart
    rw [hstage] at happart
    rw [hstage']
    refine happart.mono subset_rfl ?_ (List.Sublist.refl _)
    rintro a ⟨-, -, hcreated⟩
    refine Function.update_of_ne ?_ _ _
    rintro rfl
    rw [(hold.reserves a hn).2] at hcreated
    cases hcreated
  · refine (Slots.exclusive_perm (taken_set hth th')).mpr ?_
    rw [hpc]
    exact (Slots.exclusive_perm (taken_get hth)).mp h.taken
  · intro x hx
    rcases List.mem_cons.mp ((ThreadPool.perm_set hth th').mem_iff.mp hx) with rfl | hx
    · refine ⟨?_, by rw [hpc]; exact hold.reserves, ?_⟩
      · intro y hy
        refine hold.short y ?_
        rw [hstage'] at hy
        rw [hstage]
        exact hy
      · intro args' hargs
        rw [hstage'] at hargs
        obtain rfl := CreateStage.named.inj hargs
        exact ⟨n, by rw [hpc]; exact hn, Function.update_self n _ _⟩
    · have hx' := h.threads x (List.mem_of_mem_eraseIdx hx)
      refine ⟨hx'.short, hx'.reserves, fun args' hargs => ?_⟩
      obtain ⟨n', hn', hname⟩ := hx'.named args' hargs
      refine ⟨n', hn', ?_⟩
      rw [Function.update_of_ne, hname]
      rintro rfl
      exact h.not_mem_erase hth hn (List.mem_flatMap.mpr ⟨x, hx, hn'⟩)

end Claims

/-! ## Steps -/

namespace TaskApi

variable {w m k : ℕ} {s t : TaskApi} {th : ApiThread} {a : TaskAct} {answer : SysAnswer}
  {e : TaskEffect} {i : ℕ × ApiAct} {o : Option ApiRet}

/-- The threads, without what the names have nothing to do with. -/
def creates (s : TaskApi) : List CreateThread := s.threads.map (·.toCreateThread)

theorem creates_getElem? (hth : s.threads[k]? = some th) :
    s.creates[k]? = some th.toCreateThread := by
  rw [creates, List.getElem?_map, hth]
  rfl

/-- **No two nodes in use whose `sk_task_create` has returned have the same name.** -/
def NamesDiffer (s : TaskApi) : Prop :=
  ∀ i < maxThreadCount, ∀ j < maxThreadCount, (s.infos i).isUse = true → s.created i = true →
    (s.infos j).isUse = true → s.created j = true → (s.infos i).strName = (s.infos j).strName → i = j

/-- The condition on a step of thread `k`: a name that passes the check is not one that another thread has
checked and not stored yet, and no node loses its mark that another thread has taken. -/
def ClaimsApart (m : ℕ) (s : TaskApi) (k : ℕ) (th : TaskThread) : ApiAct → Prop
  | .check name _ =>
      skCheckTaskName m s.infos name = .success → ∀ th' ∈ s.creates, name.getD [] ∉ th'.stage.pending
  | .base a _ => ∀ n, s.sys.Clears n th.pc a → n ∉ taken (s.creates.eraseIdx k)
  | _ => True

/-- The condition on a step. -/
def StepClaimsApart (m : ℕ) (s : TaskApi) (i : ℕ × ApiAct) : Prop :=
  ∀ th, s.sys.threads[i.1]? = some th → s.ClaimsApart m i.1 th i.2

/-- A step's thread is one. -/
theorem stepClaimsApart_iff (hth : s.threads[k]? = some th) {a : ApiAct} :
    s.StepClaimsApart m (k, a) ↔ s.ClaimsApart m k th.toTaskThread a := by
  rw [StepClaimsApart, sys_getElem? hth]
  simp

/-- **The invariant.** -/
def Named (m : ℕ) (s : TaskApi) : Prop :=
  Claims m s.infos.nodes.use (fun n => (s.infos n).strName) s.created s.creates

theorem Named.namesDiffer (h : s.Named m) : s.NamesDiffer :=
  fun _ hi _ hj hui hci huj hcj heq => h.apart.injOn ⟨hi, hui, hci⟩ ⟨hj, huj, hcj⟩ heq

/-! ### Steps of the table -/

@[simp] theorem strName_infosAfter (s : TaskApi) (th : ApiThread) (a : TaskAct) (e : TaskEffect) (n : ℕ) :
    (s.infosAfter th a e n).strName = (s.infos n).strName := by
  generalize hinfos : s.infosAfter th a e = infos
  unfold infosAfter at hinfos
  split at hinfos
  · rw [← hinfos, strName_skTaskCreateDetails, TaskTable.strName_withNodes]
  · rw [← hinfos, strName_wrapTaskFunDetails, TaskTable.strName_withNodes]
  · rw [← hinfos, TaskTable.strName_withNodes]

theorem stageAfter_wanted (th : ApiThread) (e : TaskEffect) :
    (stageAfter th e).wanted.Sublist th.stage.wanted := by
  unfold stageAfter
  split
  · rw [‹th.stage = _›]
    exact List.Sublist.refl _
  · exact List.nil_sublist _

theorem stageAfter_ne_named (th : ApiThread) (e : TaskEffect) (args : CreateArgs) :
    stageAfter th e ≠ .named args := by
  unfold stageAfter
  split <;> exact CreateStage.noConfusion

/-- A task is made after the naming. -/
theorem atStage_start {stage : CreateStage} {outcome : PthreadCreate}
    (h : (TaskAct.start outcome).atStage stage = true) : ∃ args, stage = .named args := by
  cases stage with
  | named args => exact ⟨args, rfl⟩
  | _ => cases h

/-- A step that neither takes a node nor makes a task. -/
theorem createdAfter_of (hmade : e.made = none) (hres : e.pc.reserves.Sublist th.pc.reserves) :
    s.createdAfter th e = s.created := by
  unfold createdAfter
  split
  · rename_i hpc hpc'
    rw [hpc, hpc'] at hres
    cases hres
  · rename_i hmade'
    cases hmade.symm.trans hmade'
  · rfl

/-- The threads after a step of the table. -/
theorem creates_afterBase (w : ℕ) (s : TaskApi) (k : ℕ) (th : ApiThread) (a : TaskAct)
    (answer : SysAnswer) (e : TaskEffect) :
    (s.afterBase w k th a answer e).creates =
      s.creates.set k (s.threadAfter w th a answer e).toCreateThread ++
        (e.made.map fun made => (threadMade th answer e made).toCreateThread).toList := by
  rw [creates, afterBase, List.map_append, List.map_set, creates]
  cases e.made <;> rfl

/-- **A step of the table keeps the invariant.** -/
theorem Named.afterBase (h : s.Named m) (hth : s.threads[k]? = some th)
    (hmay : s.MayBase k th a answer) (hact : s.sys.act w th.self th.pc a = some e)
    (hspares : s.ClaimsApart m k th.toTaskThread (.base a answer)) :
    (s.afterBase w k th a answer e).Named m := by
  have hget := creates_getElem? hth
  have hnames : (fun n => ((s.afterBase w k th a answer e).infos n).strName) =
      fun n => (s.infos n).strName := funext fun n => strName_infosAfter s th a e n
  have hnodes : (s.afterBase w k th a answer e).infos.nodes = e.nodes := nodes_infosAfter ..
  have hset : ∀ {use created}, Claims m use (fun n => (s.infos n).strName) created s.creates →
      e.pc.reserves.Sublist th.pc.reserves → Claims m use (fun n => (s.infos n).strName) created
        (s.creates.set k (s.threadAfter w th a answer e).toCreateThread) := fun hclaims hres =>
    hclaims.set hget (stageAfter_wanted th e) hres (stageAfter_ne_named th e)
  rw [Named, hnames, hnodes, creates_afterBase]
  cases TaskSys.act_writes hact with
  | none hsame hmade hres =>
    have hcreated : (s.afterBase w k th a answer e).created = s.created := createdAfter_of hmade hres
    rw [hcreated, hmade, hsame]
    refine (hset h hres).append ?_
    exact fun x hx => absurd hx List.not_mem_nil
  | clears n hclears hclear hmade hres =>
    have hsub : e.pc.reserves.Sublist th.pc.reserves := by
      rw [hres]
      exact List.nil_sublist _
    have hcreated : (s.afterBase w k th a answer e).created = s.created := createdAfter_of hmade hsub
    rw [hcreated, hmade, hclear, use_setNoUse]
    refine ((hset h hsub).clear ?_).append (fun x hx => absurd hx List.not_mem_nil)
    rw [(Claims.taken_set hget _).mem_iff]
    change n ∉ e.pc.reserves ++ _
    rw [hres]
    exact hspares n hclears
  | @takes i n taskPfn hpc ha htake hpc' hmade =>
    obtain ⟨hfree, huse⟩ := getFreeThreadInfo_some htake
    have hcreated : (s.afterBase w k th a answer e).created = Function.update s.created n false := by
      change s.createdAfter th e = _
      rw [createdAfter, hpc, hpc']
    have hres : th.pc.reserves = [] := by
      rw [hpc]
      rfl
    rw [hcreated, hmade, huse]
    refine (h.take hget (getFreeThreadInfo_eq htake).1 hfree hres ?_ (stageAfter_wanted th e)
      (stageAfter_ne_named th e)).append (fun x hx => absurd hx List.not_mem_nil)
    change e.pc.reserves = [n]
    rw [hpc']
    rfl
  | @stores i n taskPfn outcome hpc ha hstore hmade hlive hret hres =>
    have huse : e.nodes.use = s.infos.nodes.use := by
      rw [hstore, use_skTaskCreateStore]
      rfl
    rw [huse]
    cases outcome with
    | failed left =>
      have hcreated : (s.afterBase w k th a answer e).created = s.created := createdAfter_of hmade hres
      rw [hcreated, hmade]
      exact (hset h hres).append (fun x hx => absurd hx List.not_mem_nil)
    | made thread =>
      have hcreated : (s.afterBase w k th a answer e).created = Function.update s.created n true := by
        change s.createdAfter th e = _
        rw [createdAfter, hpc, hmade]
        rfl
      obtain ⟨args, hstage⟩ := atStage_start (ha ▸ hmay.1.1)
      have hreserves : th.pc.reserves = [n] := by
        rw [hpc]
        rfl
      rw [hcreated, hmade]
      refine (h.publish hget hstage hreserves ?_ (hret thread rfl).2.2).append ?_
      · change stageAfter th e = .none
        unfold stageAfter
        split
        · rename_i hchecked
          cases hstage.symm.trans hchecked
        · rfl
      · intro x hx
        obtain rfl := List.mem_singleton.mp hx
        exact ⟨rfl, rfl⟩

/-! ### Every step -/

/-- **One step keeps the invariant** if it meets the condition. -/
theorem Named.step (h : s.Named m) (hs : TaskApi.step w m s i = some (o, t))
    (hi : s.StepClaimsApart m i) : t.Named m := by
  obtain ⟨th, hth, hmoves⟩ := step_moves hs
  obtain ⟨k, a⟩ := i
  have hget := creates_getElem? hth
  have hcond := (stepClaimsApart_iff hth).mp hi
  cases hmoves with
  | base hmay hact => exact h.afterBase hth hmay hact hcond
  | @quiet a infos threads lock hnodes hnames hthreads hlock hquiet =>
    have hname : (fun n => (infos n).strName) = fun n => (s.infos n).strName := funext hnames
    change Claims m infos.nodes.use (fun n => (infos n).strName) s.created
      (threads.map (·.toCreateThread))
    rw [hnodes, hname, hthreads]
    exact h
  | die hlive =>
    change Claims m _ _ _ ((s.threads.set k _).map (·.toCreateThread))
    rw [List.map_set]
    exact h.set hget (List.nil_sublist _) (List.nil_sublist _) fun args => CreateStage.noConfusion
  | @names a stage infos lock hnames hlock =>
    change Claims m infos.nodes.use (fun n => (infos n).strName) s.created
      ((s.threads.set k _).map (·.toCreateThread))
    rw [hnames.nodes, List.map_set]
    cases hnames with
    | @checked name priority hstage hcheck =>
      obtain ⟨taskName, rfl, hshort, hunused⟩ := skCheckTaskName_success hcheck
      exact h.check hget hstage rfl rfl hshort hunused (hcond hcheck)
    | failed hstage =>
      exact h.set hget (List.nil_sublist _) (List.Sublist.refl _) fun args => CreateStage.noConfusion
    | tested hpc hstage =>
      refine h.set hget ?_ (List.Sublist.refl _) fun args => CreateStage.noConfusion
      change (CreateStage.naming _).wanted.Sublist th.stage.wanted
      rw [hstage]
      exact List.Sublist.refl _
    | @skipped i pInfo taskPfn args hpc hstage huse =>
      -- a node that has been taken is in use
      have hmem : pInfo ∈ th.pc.reserves := by
        rw [hpc]
        exact List.mem_singleton_self pInfo
      have hmark : (s.infos pInfo).isUse = true :=
        h.use_of_reserves (List.mem_of_getElem? hget) hmem
      rw [huse] at hmark
      cases hmark
    | @named i pInfo taskPfn args hpc hstage =>
      have hmem : pInfo ∈ th.pc.reserves := by
        rw [hpc]
        exact List.mem_singleton_self pInfo
      have hshort : args.name.length < m := by
        refine (h.threads _ (List.mem_of_getElem? hget)).short _ ?_
        rw [hstage]
        exact List.mem_singleton_self _
      have hname : (fun n => (setNameThreadInfo m s.infos pInfo args.name n).strName) =
          Function.update (fun n => (s.infos n).strName) pInfo args.name := by
        funext n
        rw [strName_setNameThreadInfo hshort, Function.update_apply]
      rw [hname]
      exact h.store hget hstage hmem rfl rfl

theorem named_init (m n : ℕ) : (init n).Named m := by
  have hthread : ∀ th ∈ (init n).creates, th.stage = .none ∧ th.pc.reserves = [] := by
    intro th hth
    obtain ⟨th', hth', rfl⟩ := List.mem_map.mp hth
    obtain ⟨k, -, rfl⟩ := List.mem_map.mp hth'
    exact ⟨rfl, rfl⟩
  have hempty : Claims m (fun _ => false) (fun _ => []) (fun _ => false) [] := by
    refine ⟨?_, Slots.exclusive_nil _, fun th hth => absurd hth List.not_mem_nil⟩
    have hlive : live (fun _ => false) (fun _ => false) = ∅ := by
      refine Set.eq_empty_of_forall_notMem ?_
      rintro n ⟨-, huse, -⟩
      cases huse
    rw [hlive]
    exact apart_empty _
  exact hempty.append hthread

end TaskApi

/-- **When the names of tasks differ.** Take any number of threads that create, control and end tasks, and the
tasks they make, over any interleaving. If no name passes the check while another `sk_task_create` has
checked the same name and not yet stored it, and no step takes away the mark of a node that another
`sk_task_create` has taken, then in every state of the run no two nodes in use whose `sk_task_create` has
returned `SK_SUCCESS` have the same name. -/
theorem task_names_differ (w m n : ℕ) (steps : List (ℕ × ApiAct))
    (hclaims : StepMachine.Along (TaskApi.step w m) (TaskApi.StepClaimsApart m) (TaskApi.init n) steps) :
    StepMachine.Throughout (TaskApi.step w m) TaskApi.NamesDiffer (TaskApi.init n) steps := by
  refine StepMachine.throughout_of_along (TaskApi.step w m) (TaskApi.StepClaimsApart m)
    (TaskApi.Named m) TaskApi.NamesDiffer (TaskApi.named_init m n) (fun _ h => h.namesDiffer) ?_ hclaims
  intro s i o t hs hi hstep
  exact hs.step hstep hi

open TaskApi in
set_option maxRecDepth 4000 in
/-- The law at a run in which two tasks are created one after the other. -/
theorem task_names_differ_two :
    StepMachine.Throughout (TaskApi.step 32 60) TaskApi.NamesDiffer (TaskApi.init 2)
      (createSteps 0 [97] (some 5) 3 103 ++ createSteps 1 [98] (some 6) 4 104) := by
  refine task_names_differ 32 60 2 _ ?_
  iterate 22 refine StepMachine.along_cons ((stepClaimsApart_iff rfl).mpr (by
    first | exact trivial | exact fun _ h => False.elim h | exact fun _ => by decide)) rfl ?_
  trivial

open TaskApi in
set_option maxRecDepth 4000 in
/-- **Two tasks of one name.** Two threads check the same name, and both find it unused, before either has
named the node it takes. -/
theorem task_names_equal :
    ∃ os s, StepMachine.run (TaskApi.step 32 60) (TaskApi.init 2)
        ((0, .check (some [97]) 64) :: createSteps 1 [97] (some 6) 3 103 ++
          (createSteps 0 [97] (some 5) 4 104).tail) = some (os, s) ∧
      (s.infos 0).strName = [97] ∧ (s.infos 1).strName = [97] ∧ ¬ s.NamesDiffer := by
  refine ⟨_, _, rfl, rfl, rfl, ?_⟩
  intro h
  have heq := h 0 (by decide) 1 (by decide) rfl rfl rfl rfl rfl
  cases heq

end SmIpc.Os
