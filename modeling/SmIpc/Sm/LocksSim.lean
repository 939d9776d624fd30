import SmIpc.Sm.Places

/-! # The threads of the semaphores beside the system

A state of `Locks`, whose threads are preempted between any two instructions, and one of `Sys`, which takes
each section as one step.

* `Sim` relates the two: `Ticking` for `sm_ticker`, `At` for the other threads.
* `Sys.Matched` — the system has an answer to a step of the threads.
* `Locks.go_cases`, `Locks.call_cases`, `Locks.leave_cases` — what a step of the threads is.
* `Sim.move`, `Sim.commit`, `Sim.stutter` — what is left to show when one thread moves. -/

namespace SmIpc.Sm

/-! ## Tokens

The system takes the token of `sem_event` where the message is popped, so `sem_event` may be ahead of the
threads' by the tokens they have taken. -/

/-- The ring with more tokens in `sem_event`. -/
def Msgq.addTokens (q : Msgq) (n : ℕ) : Msgq := { q with semEvent := q.semEvent + n }

namespace Msgq

variable (q : Msgq) (n : ℕ)

theorem pushMessage_addTokens (hsm : Hsm) (message param1 param2 : UInt32) :
    pushMessage (q.addTokens n) hsm message param1 param2 =
      ((pushMessage q hsm message param1 param2).1,
        (pushMessage q hsm message param1 param2).2.addTokens n) := by
  by_cases hhsm : hsm = skInvalidHsm
  · rw [pushMessage, pushMessage, if_pos hhsm, if_pos hhsm]
  · by_cases hroom : q.head - q.tail ≠ 1 ∧ q.head - q.tail ≠ -(q.queueSize - 1)
    · unfold pushMessage addTokens
      rw [if_neg hhsm, if_neg hhsm, if_pos hroom, if_pos hroom, Nat.add_right_comm]
    · unfold pushMessage addTokens
      rw [if_neg hhsm, if_neg hhsm, if_neg hroom, if_neg hroom]

theorem popSection_addTokens :
    popSection (q.addTokens n) = ((popSection q).1, (popSection q).2.addTokens n) := by
  by_cases hempty : q.head = q.tail
  · simp [popSection, addTokens, hempty, Nat.add_right_comm]
  · simp [popSection, addTokens, hempty]

theorem searchLoop_addTokens (hit : Message → Bool) (fuel : ℕ) (i : ℤ) :
    searchLoop hit (q.addTokens n) fuel i = searchLoop hit q fuel i := by
  induction fuel generalizing i with
  | zero => rfl
  | succ fuel ih =>
    simp only [searchLoop, ih]
    rfl

theorem isMessageParam_addTokens (hsm : Hsm) (message param1 param2 : UInt32) :
    isMessageParam (q.addTokens n) hsm message param1 param2 = isMessageParam q hsm message param1 param2 :=
  searchLoop_addTokens q n _ _ _

theorem eraseMessage_addTokens (hsm : Hsm) :
    eraseMessage (q.addTokens n) hsm = (eraseMessage q hsm).addTokens n := rfl

end Msgq

/-- The next section is that of `pop_message`. -/
def popsNext : List Instr → Bool
  | .ring .pop :: _ => true
  | _ => false

/-- The thread has taken a token of `sem_event` and not yet the message. -/
def Worker.popping (w : Worker) : Bool := popsNext (core w.code)

theorem IsCall.not_popsNext {e : Bool} {i : Instr} (h : IsCall e i) {K : List Instr} :
    popsNext (i :: K) = false := by
  cases h <;> rfl

theorem TickerAt.not_popping {ticks ticks' : TickList} {pc : TickerPc} {w : Worker}
    (h : TickerAt ticks ticks' pc w) : w.popping = false := by
  unfold Worker.popping popsNext
  split
  · rename_i k hk
    exact absurd hk (h.core_ne k)
  · rfl

theorem Below.not_popsNext {tid : ℕ} {F : List Frame} {C : List Instr} (h : Below tid F C) :
    popsNext C = false := by
  rcases h.head with ⟨K, rfl⟩ | ⟨-, -, rfl⟩ <;> rfl

/-! ## The relation -/

/-- What of a window is in `smallwin_list`. -/
def Win.entry (w : Win) : Hsm × SmProc := (w.hsm, w.smProc)

/-- `sm_ticker` with the tick table, and `sem_tick_id`. -/
structure Ticking (ticks : TickList) (w : Worker) (S : Sys) : Prop where
  /-- Where it stands. -/
  pos : TickerAt ticks S.ticks S.ticker w
  /-- Between rounds the semaphore is free, unless `sm_destroy_tick` has kept it. -/
  free : S.ticker = .delay → (∀ tid, .blocked ∉ S.threads tid) → S.semTick = 1
  /-- In a round `sm_ticker` has it. -/
  busy : S.ticker ≠ .delay → S.semTick = 0

/-- **The threads `L` stand where the system `S` is**, and have called `express_message` only if `e` says
so. -/
structure Sim (e : Bool) (L : Locks) (S : Sys) : Prop where
  /-- What every run of the threads keeps. -/
  inv : L.Inv
  /-- What every run of the system keeps. -/
  wf : S.Wf
  /-- No freed node was read or freed. -/
  defined : S.undefined = false
  /-- `smallwin_list`. -/
  windows : L.shared.windows = S.windows.map Win.entry
  /-- The message ring, up to tokens that are taken. -/
  queue : S.q = L.shared.q.addTokens (L.threads.countP Worker.popping)
  /-- `sm_ticker`. -/
  ticker : ∃ w, L.threads[1]? = some w ∧ Ticking L.shared.ticks w S
  /-- The other threads. -/
  threads : ∀ tid w, tid ≠ 1 → L.threads[tid]? = some w → At e tid (S.view tid) w
  /-- Threads that are none of these. -/
  absent : ∀ tid, tid = 1 ∨ L.threads[tid]? = none → S.view tid = ⟨none, none, []⟩

/-- The message of an activation that reads `sm_proc`. -/
def SysEvent.entered? : SysEvent → Option Message
  | .entered m _ _ _ => some m
  | _ => none

/-- The step is one for threads that call `express_message` only if `e` says so. -/
def SysStep.Allowed (e : Bool) : SysStep → Prop
  | .express _ _ => e = true
  | _ => True

/-- The system answers a step of the threads, of which `v` is seen, and is then where they are. -/
def Sys.Matched (e : Bool) (S : Sys) (v : Option Message) (L : Locks) : Prop :=
  ∃ T, StepMachine.Answers Sys.step (SysStep.Allowed e) SysEvent.entered? S v T ∧ Sim e L T

/-- The instruction a step runs. -/
def Locks.next (s : Locks) : LockStep → Option Instr
  | .go tid _ => s.threads[tid]?.bind fun w => w.code.head?
  | .call _ _ | .leave _ => none

/-- The message `run_sm` reads `sm_proc` for. -/
def Locks.entering (s : Locks) (i : LockStep) : Option Message :=
  match s.next i with
  | some (.runSm m) => some m
  | _ => none

/-- `run_sm` reads, or `sm_destroy_smallwin` frees, a node that is not in the list. -/
def Locks.UsesFreed (s : Locks) (i : LockStep) : Prop :=
  match s.next i with
  | some (.runSm m) => s.shared.smProcAt m.hsm = none
  | some (.unlinkWin hsm) => s.shared.smProcAt hsm = none
  | _ => False

namespace Locks

variable {s t : Locks} {tid : ℕ} {answer : Answer} {o : Unit}

theorem entering_of_isSem {i : LockStep} {j : Instr} (hnext : s.next i = some j) (hj : j.isSem = true) :
    s.entering i = none := by
  rw [entering, hnext]
  cases j with
  | runSm m => cases hj
  | _ => rfl

/-- **A thread runs its next instruction**: one of a semaphore, which leaves the shared memory and what it
has of other semaphores, or another. -/
theorem go_cases (h : step s (.go tid answer) = some (o, t)) :
    ∃ w j k, s.threads[tid]? = some w ∧ w.code = j :: k ∧
      ((∃ value held, t = ⟨s.shared, value, s.threads.set tid ⟨k, held, w.result⟩⟩ ∧ Moves w.held held j ∧
          ∀ x, j = .semWait x → 0 < s.value x) ∨
        j.isSem = false ∧ ∃ sh r p, s.shared.exec w.result answer j = some (sh, r, p) ∧
          t = ⟨sh, s.value, s.threads.set tid ⟨p ++ k, w.held, r⟩⟩) := by
  simp only [step] at h
  split at h
  · cases h
  · rename_i w hw
    split at h
    · cases h
    · rename_i x k hcode
      split_ifs at h with hpos
      obtain ⟨-, rfl⟩ := Prod.mk.inj (Option.some.inj h)
      refine ⟨w, _, k, hw, hcode, .inl ⟨_, _, rfl, .inl ⟨x, rfl, rfl⟩, ?_⟩⟩
      intro y hy
      obtain rfl : x = y := by simpa using hy
      exact hpos
    · rename_i x k hcode
      obtain ⟨-, rfl⟩ := Prod.mk.inj (Option.some.inj h)
      refine ⟨w, _, k, hw, hcode, .inl ⟨_, _, rfl, .inr ⟨x, rfl, rfl⟩, ?_⟩⟩
      intro y hy
      cases hy
    · rename_i j k hwait hpost hcode
      obtain ⟨⟨sh, r, p⟩, he, hes⟩ := Option.map_eq_some_iff.mp h
      obtain ⟨-, rfl⟩ := Prod.mk.inj hes
      exact ⟨w, j, k, hw, hcode, .inr ⟨isSem_eq_false hwait hpost, sh, r, p, he, rfl⟩⟩

/-- A thread in its own code, or in a window procedure, makes a call. -/
theorem call_cases {c : Call} (h : step s (.call tid c) = some (o, t)) :
    ∃ w k, s.threads[tid]? = some w ∧ w.code = .user :: k ∧
      t = ⟨s.shared, s.value, s.threads.set tid ⟨c.code ++ w.code, w.held, w.result⟩⟩ := by
  simp only [step] at h
  split at h
  · cases h
  · rename_i w hw
    split at h
    · rename_i k hcode
      obtain ⟨-, rfl⟩ := Prod.mk.inj (Option.some.inj h)
      exact ⟨w, k, hw, hcode, rfl⟩
    · cases h

/-- It ends. -/
theorem leave_cases (h : step s (.leave tid) = some (o, t)) :
    ∃ w k, s.threads[tid]? = some w ∧ w.code = .user :: k ∧
      t = ⟨s.shared, s.value, s.threads.set tid ⟨k, w.held, w.result⟩⟩ := by
  simp only [step] at h
  split at h
  · cases h
  · rename_i w hw
    split at h
    · rename_i k hcode
      obtain ⟨-, rfl⟩ := Prod.mk.inj (Option.some.inj h)
      exact ⟨w, k, hw, hcode, rfl⟩
    · cases h

/-- A semaphore is held by one thread. -/
theorem Inv.holder_unique (h : s.Inv) {x : Sem} {tid tid' : ℕ} {w w' : Worker}
    (hw : s.threads[tid]? = some w) (hw' : s.threads[tid']? = some w') (hx : x ∈ w.held) (hx' : x ∈ w'.held) :
    tid = tid' := by
  have hle : s.held x ≤ 1 := by
    have := h.conserved x
    omega
  exact Semaphores.eq_of_holders_le_one hle hw hw' hx hx'

/-- A thread whose next instruction takes no semaphore is not stuck. -/
theorem Inv.ok_of_head (h : s.Inv) {tid : ℕ} {w : Worker} (hw : s.threads[tid]? = some w) {j : Instr}
    {k : List Instr} (hcode : w.code = j :: k) (hj : j.isSem = false) : Ok w.held (j :: k) := by
  rcases h.code w (List.mem_of_getElem? hw) with hok | ⟨-, k', hk'⟩
  · rwa [Worker.Ordered, hcode] at hok
  · obtain ⟨rfl, -⟩ := List.cons.inj (hcode.symm.trans hk')
    cases hj

end Locks

/-! ## Views -/

namespace Sys

variable {s t : Sys} {tid : ℕ}

theorem linking_eq_none (h : (s.view tid).linking = none) : s.creating.map Prod.fst ≠ some tid := by
  intro hsome
  obtain ⟨c, hc, rfl⟩ := Option.map_eq_some_iff.mp hsome
  simp [view, hc] at h

/-- A thread in its own code, or in a window procedure, can make a call. -/
theorem canCall {F : List Frame} {K : List Instr} {hand : Option Hand}
    (hview : s.view tid = ⟨hand, none, F⟩) (h : Below tid F (.user :: K)) : s.CanCall tid := by
  refine ⟨linking_eq_none (by rw [hview]), ?_⟩
  have hF : s.threads tid = F := congrArg View.stack hview
  rw [hF]
  generalize hC : Instr.user :: K = C at h
  cases h with
  | base =>
    intro htid
    rw [htid] at hC
    cases hC
  | proc _ _ => trivial

/-- A step that changes the stack of one thread, and the message in hand if that is the scheduler. -/
theorem view_stack {F : List Frame} (hthreads : t.threads = Function.update s.threads tid F)
    (hcreating : t.creating = s.creating) (hhand : tid ≠ 0 → t.hand = s.hand) :
    (∀ tid' ≠ tid, t.view tid' = s.view tid') ∧
      t.view tid = ⟨if tid = 0 then t.hand else none, (s.view tid).linking, F⟩ := by
  constructor
  · intro tid' hne
    rw [view, view, hthreads, hcreating, Function.update_of_ne hne]
    by_cases htid : tid' = 0
    · rw [hhand fun h => hne (htid.trans h.symm)]
    · rw [if_neg htid, if_neg htid]
  · rw [view, hthreads, hcreating, Function.update_self]
    rfl

/-- The same when the message in hand stays. -/
theorem view_stack_of_hand {F : List Frame} (hthreads : t.threads = Function.update s.threads tid F)
    (hcreating : t.creating = s.creating) (hhand : t.hand = s.hand) :
    (∀ tid' ≠ tid, t.view tid' = s.view tid') ∧
      t.view tid = ⟨(s.view tid).hand, (s.view tid).linking, F⟩ := by
  obtain ⟨hothers, hown⟩ := view_stack hthreads hcreating fun _ => hhand
  rw [hhand] at hown
  exact ⟨hothers, hown⟩

/-- A thread links a window, or is done with the one it has linked. -/
theorem view_creating (hthreads : t.threads = s.threads) (hhand : t.hand = s.hand)
    (hcreating : ∀ tid' ≠ tid, (t.creating.bind fun c => if c.1 = tid' then some c.2 else none) =
      s.creating.bind fun c => if c.1 = tid' then some c.2 else none) :
    ∀ tid' ≠ tid, t.view tid' = s.view tid' := by
  intro tid' hne
  rw [view, view, hthreads, hhand, hcreating tid' hne]

/-- A step of the system with what is seen of it. -/
theorem answers_of_act {e : Bool} {i : SysStep} {o : SysEvent} (hdef : s.undefined = false)
    (hact : s.act i = some (o, t)) (hnow : t.now = s.now) (hi : i.Allowed e) :
    StepMachine.Answers step (SysStep.Allowed e) SysEvent.entered? s o.entered? (tick t) ∧
      Acts s i o (tick t) := by
  have hstep : step s i = some (o, tick t) := by
    simp [step, hdef, hact, tick, hnow]
  exact ⟨.inr ⟨i, o, hi, hstep, rfl⟩, (step_cases hstep).2⟩

end Sys

/-! ## What one thread's move leaves to show -/

/-- The tick table and `sm_ticker` are not touched. -/
theorem Ticking.keep {S T : Sys} {tid : ℕ} {ticks : TickList} {w₁ : Worker} (h : Ticking ticks w₁ S)
    (hnot : .blocked ∉ S.threads tid) (hview : ∀ tid' ≠ tid, T.view tid' = S.view tid')
    (hticks : T.ticks = S.ticks) (hpc : T.ticker = S.ticker) (hsem : T.semTick = S.semTick) :
    Ticking ticks w₁ T := by
  refine ⟨?_, ?_, ?_⟩
  · rw [hticks, hpc]
    exact h.pos
  · rw [hpc, hsem]
    intro hdelay hall
    apply h.free hdelay
    intro tid'
    by_cases htid : tid' = tid
    · rw [htid]
      exact hnot
    · have hF : T.threads tid' = S.threads tid' := congrArg View.stack (hview tid' htid)
      rw [← hF]
      exact hall tid'
  · rw [hpc, hsem]
    exact h.busy

namespace Sim

variable {e : Bool} {L : Locks} {S T : Sys} {tid : ℕ} {w w' : Worker} {sh : Shared} {value : Sem → ℕ}

/-- `sm_proc` of a window, on both sides. -/
theorem smProcAt (h : Sim e L S) (hsm : Hsm) : L.shared.smProcAt hsm = (S.windowAt hsm).map Win.smProc := by
  rw [Shared.smProcAt, h.windows, List.find?_map, Option.map_map]
  rfl

/-- A node that is not freed is a window. -/
theorem exists_windowAt (h : Sim e L S) {hsm : Hsm} (hfree : ¬ L.shared.smProcAt hsm = none) :
    ∃ win, S.windowAt hsm = some win := by
  refine Option.ne_none_iff_exists'.mp fun hnone => hfree ?_
  rw [h.smProcAt, hnone]
  rfl

/-- A thread that is blocked in the system is stuck. -/
theorem stuck_of_blocked (h : Sim e L S) (hb : .blocked ∈ S.threads tid) :
    ∃ w, L.threads[tid]? = some w ∧ w.Stuck := by
  by_cases habs : tid = 1 ∨ L.threads[tid]? = none
  · have hF : S.threads tid = [] := congrArg View.stack (h.absent tid habs)
    rw [hF] at hb
    cases hb
  · obtain ⟨hne, hsome⟩ := not_or.mp habs
    obtain ⟨w, hw⟩ := Option.ne_none_iff_exists'.mp hsome
    refine ⟨w, hw, ?_⟩
    have hat := h.threads tid w hne hw
    generalize hv : S.view tid = v at hat
    have hF : S.threads tid = v.stack := congrArg View.stack hv
    rw [hF] at hb
    cases hat with
    | place hplace => exact absurd hb hplace.not_blocked
    | linked _ _ _ hbelow => exact absurd hb hbelow.not_blocked
    | blocked hstuck => exact hstuck

/-- The thread that is in `sm_create_smallwin` with a window holds `sem_system`. -/
theorem holder_of_creating (h : Sim e L S) {win : Win} (hc : S.creating = some (tid, win)) :
    ∃ w, L.threads[tid]? = some w ∧ .system ∈ w.held := by
  have hlink : (S.view tid).linking = some win := by simp [Sys.view, hc]
  by_cases habs : tid = 1 ∨ L.threads[tid]? = none
  · rw [h.absent tid habs] at hlink
    cases hlink
  · obtain ⟨hne, hsome⟩ := not_or.mp habs
    obtain ⟨w, hw⟩ := Option.ne_none_iff_exists'.mp hsome
    refine ⟨w, hw, ?_⟩
    have hat := h.threads tid w hne hw
    generalize S.view tid = v at hat hlink
    cases hat with
    | place _ => cases hlink
    | linked _ _ hheld _ => exact hheld
    | blocked _ => cases hlink

/-- Where a thread holds `sem_system` and has linked no window, no thread has. -/
theorem creating_none (h : Sim e L S) (hw : L.threads[tid]? = some w) (hsystem : .system ∈ w.held)
    (hlink : (S.view tid).linking = none) : S.creating = none := by
  cases hc : S.creating with
  | none => rfl
  | some c =>
    obtain ⟨tid', win⟩ := c
    obtain ⟨w', hw', hheld⟩ := h.holder_of_creating hc
    have htid : tid' = tid := h.inv.holder_unique hw' hw hheld hsystem
    simp [Sys.view, hc, htid] at hlink

/-- Where a thread holds `sem_tick_id` and is not blocked, no thread is. -/
theorem none_blocked (h : Sim e L S) (hw : L.threads[tid]? = some w) (htick : .tickId ∈ w.held)
    (hnot : .blocked ∉ S.threads tid) (tid' : ℕ) : .blocked ∉ S.threads tid' := by
  intro hb
  obtain ⟨w', hw', hstuck⟩ := h.stuck_of_blocked hb
  have hheld : Sem.tickId ∈ w'.held := by
    rw [hstuck.1]
    exact List.mem_singleton_self _
  obtain rfl := h.inv.holder_unique hw' hw hheld htick
  exact hnot hb

/-- Where a thread other than `sm_ticker` holds `sem_tick_id`, that one is between its rounds. -/
theorem between_rounds (h : Sim e L S) (hw : L.threads[tid]? = some w) (hne : tid ≠ 1)
    (htick : .tickId ∈ w.held) : S.ticker = .delay ∧ S.ticks = L.shared.ticks ∧
      ∃ w₁, L.threads[1]? = some w₁ ∧ ∀ new, TickerAt new new .delay w₁ := by
  obtain ⟨w₁, hw₁, hticking⟩ := h.ticker
  have hnot : Sem.tickId ∉ w₁.held := fun hheld => hne (h.inv.holder_unique hw hw₁ htick hheld)
  obtain ⟨hpc, hticks, hnew⟩ := hticking.pos.of_not_mem hnot
  exact ⟨hpc, hticks, w₁, hw₁, hnew⟩

/-- The tokens that are taken, when a thread moves that is not between token and message. -/
theorem tokens_set (hw : L.threads[tid]? = some w) (hpop : w'.popping = w.popping) :
    (L.threads.set tid w').countP Worker.popping = L.threads.countP Worker.popping := by
  have hset := ThreadPool.countP_set Worker.popping hw w'
  rw [hpop] at hset
  omega

/-- **A thread other than `sm_ticker` moves.** -/
theorem move (h : Sim e L S) (hw : L.threads[tid]? = some w) (hne : tid ≠ 1)
    (hinv : Locks.Inv ⟨sh, value, L.threads.set tid w'⟩) (hwf : T.Wf) (hdef : T.undefined = false)
    (hwin : sh.windows = T.windows.map Win.entry)
    (hqueue : T.q = sh.q.addTokens ((L.threads.set tid w').countP Worker.popping))
    (htick : ∀ w₁, L.threads[1]? = some w₁ → Ticking L.shared.ticks w₁ S → Ticking sh.ticks w₁ T)
    (hview : ∀ tid' ≠ tid, T.view tid' = S.view tid') (hat : At e tid (T.view tid) w') :
    Sim e ⟨sh, value, L.threads.set tid w'⟩ T := by
  have hlt : tid < L.threads.length := (List.getElem?_eq_some_iff.mp hw).1
  refine ⟨hinv, hwf, hdef, hwin, hqueue, ?_, ?_, ?_⟩
  · obtain ⟨w₁, hw₁, hticking⟩ := h.ticker
    refine ⟨w₁, ?_, htick w₁ hw₁ hticking⟩
    rw [List.getElem?_set_ne hne]
    exact hw₁
  · intro tid' v htid' hv
    by_cases htid : tid' = tid
    · subst htid
      rw [List.getElem?_set_self hlt] at hv
      obtain rfl := Option.some.inj hv
      exact hat
    · rw [List.getElem?_set_ne (Ne.symm htid)] at hv
      rw [hview tid' htid]
      exact h.threads tid' v htid' hv
  · intro tid' habs
    have htid : tid' ≠ tid := by
      rintro rfl
      rcases habs with habs | habs
      · exact hne habs
      · rw [List.getElem?_set_self hlt] at habs
        cases habs
    rw [List.getElem?_set_ne (Ne.symm htid)] at habs
    rw [hview tid' htid]
    exact h.absent tid' habs

/-- The thread's step is answered by one of the system, which may set a tick slot. -/
theorem commitTick (h : Sim e L S) (hw : L.threads[tid]? = some w) (hne : tid ≠ 1)
    (hinv : Locks.Inv ⟨sh, value, L.threads.set tid w'⟩) {i : SysStep} {o : SysEvent}
    (hact : S.act i = some (o, T)) (hi : i.Allowed e) (hnow : T.now = S.now) (hdef : T.undefined = false)
    (hwin : sh.windows = T.windows.map Win.entry)
    (hqueue : T.q = sh.q.addTokens ((L.threads.set tid w').countP Worker.popping))
    (htick : ∀ w₁, L.threads[1]? = some w₁ → Ticking L.shared.ticks w₁ S → Ticking sh.ticks w₁ T)
    (hview : ∀ tid' ≠ tid, T.view tid' = S.view tid') (hat : At e tid (T.view tid) w') :
    S.Matched e o.entered? ⟨sh, value, L.threads.set tid w'⟩ := by
  obtain ⟨hanswers, hacts⟩ := Sys.answers_of_act h.defined hact hnow hi
  refine ⟨T.tick, hanswers, h.move hw hne hinv (h.wf.acts hacts) hdef hwin hqueue ?_ hview hat⟩
  intro w₁ hw₁ hticking
  have hT := htick w₁ hw₁ hticking
  exact ⟨hT.pos, hT.free, hT.busy⟩

/-- The thread's step is answered by one of the system that leaves the ticks. -/
theorem commit (h : Sim e L S) (hw : L.threads[tid]? = some w) (hne : tid ≠ 1)
    (hinv : Locks.Inv ⟨sh, value, L.threads.set tid w'⟩) {i : SysStep} {o : SysEvent}
    (hact : S.act i = some (o, T)) (hi : i.Allowed e) (hnow : T.now = S.now) (hdef : T.undefined = false)
    (hwin : sh.windows = T.windows.map Win.entry)
    (hqueue : T.q = sh.q.addTokens ((L.threads.set tid w').countP Worker.popping))
    (hnot : .blocked ∉ S.threads tid) (hlist : sh.ticks = L.shared.ticks)
    (hticks : T.ticks = S.ticks ∧ T.ticker = S.ticker ∧ T.semTick = S.semTick)
    (hview : ∀ tid' ≠ tid, T.view tid' = S.view tid') (hat : At e tid (T.view tid) w') :
    S.Matched e o.entered? ⟨sh, value, L.threads.set tid w'⟩ := by
  refine h.commitTick hw hne hinv hact hi hnow hdef hwin hqueue ?_ hview hat
  intro w₁ _ hticking
  rw [hlist]
  exact hticking.keep hnot hview hticks.1 hticks.2.1 hticks.2.2

/-- The thread's step is answered by none. -/
theorem stutter (h : Sim e L S) (hw : L.threads[tid]? = some w) (hne : tid ≠ 1)
    (hinv : Locks.Inv ⟨sh, value, L.threads.set tid w'⟩) (hwin : sh.windows = L.shared.windows)
    (hticks : sh.ticks = L.shared.ticks)
    (hqueue : S.q = sh.q.addTokens ((L.threads.set tid w').countP Worker.popping))
    (hat : At e tid (S.view tid) w') :
    S.Matched e none ⟨sh, value, L.threads.set tid w'⟩ := by
  refine ⟨S, .inl ⟨rfl, rfl⟩, h.move hw hne hinv h.wf h.defined (hwin.trans h.windows) hqueue ?_
    (fun _ _ => rfl) hat⟩
  intro w₁ _ hticking
  rw [hticks]
  exact hticking

/-- A thread other than `sm_ticker` takes or releases a semaphore. -/
theorem sem (h : Sim e L S) (hw : L.threads[tid]? = some w) (hne : tid ≠ 1) {j : Instr} {k : List Instr}
    {held : List Sem} (hcode : w.code = j :: k)
    (hinv : Locks.Inv ⟨L.shared, value, L.threads.set tid ⟨k, held, w.result⟩⟩) (hj : Moves w.held held j)
    (hpos : ∀ x, j = .semWait x → 0 < L.value x) :
    S.Matched e none ⟨L.shared, value, L.threads.set tid ⟨k, held, w.result⟩⟩ := by
  have hcore : core w.code = core k := by
    rcases hj with ⟨x, rfl, -⟩ | ⟨x, rfl, -⟩ <;> rw [hcode] <;> rfl
  have hpop : Worker.popping ⟨k, held, w.result⟩ = w.popping := by
    rw [Worker.popping, Worker.popping, hcore]
  apply h.stutter hw hne hinv rfl rfl (by rw [tokens_set hw hpop]; exact h.queue)
  have hat := h.threads tid w hne hw
  generalize S.view tid = v at hat
  cases hat with
  | place hplace =>
    rw [hcore] at hplace
    exact .place hplace
  | linked hX hX' hheld hbelow =>
    obtain ⟨X', hrest, hk, hheld'⟩ := hX.moves rfl (hcode.symm.trans hX') hj hheld
    exact .linked hrest hk hheld' hbelow
  | blocked hstuck =>
    -- it waits for a semaphore that it holds itself
    obtain ⟨k', hk'⟩ := hstuck.2
    obtain ⟨rfl, -⟩ := List.cons.inj (hcode.symm.trans hk')
    have hzero := h.inv.value_of_stuck (List.mem_of_getElem? hw) hstuck
    have := hpos .tickId rfl
    omega

end Sim

end SmIpc.Sm
