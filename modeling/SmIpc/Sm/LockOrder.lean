import SmIpc.Lib.ThreadPool
import SmIpc.Sm.LockSteps

/-! # The order of the semaphores

Every path of the code takes `sem_tick_id` before `sem_system` before `message_queue.access`, and a
window procedure, or a thread in `wait_event`, holds none of them. `Ok` says so about the code a thread
has left to run and the semaphores it holds; only `sm_destroy_tick`, with its second `sk_sem_lock`,
leads out of it, to a thread that is `Stuck`. So no thread waits for ever in a circle
(`locks_deadlockFree`). -/

namespace SmIpc.Sm

/-- Code that is run with these semaphores held, last taken first. -/
def Ok : List Sem → List Instr → Prop
  | held, [] => held = []
  | held, .semWait x :: k => (∀ y ∈ held, y.rank < x.rank) ∧ Ok (x :: held) k
  | held, .semPost x :: k => ∃ rest, held = x :: rest ∧ Ok rest k
  | held, .ring _ :: k => (∃ rest, held = .access :: rest) ∧ Ok held k
  | held, .createWin _ :: k | held, .unlinkWin _ :: k => held = [.system] ∧ Ok held k
  | held, .slot _ :: k | held, .asked _ :: k | held, .restart _ :: k
  | held, .setXtick _ _ _ _ :: k => held = [.tickId] ∧ Ok held k
  -- the lock at the end of `sm_destroy_tick` never returns
  | held, .destroyTick _ :: k => held = [.tickId] ∧ ∃ k', k = .semWait .tickId :: k'
  -- everything else is run with no semaphore held
  | held, _ :: k => held = [] ∧ Ok held k

namespace Ok

variable {held : List Sem} {k : List Instr}

/-- A section of the ring can be entered with anything held but `access`. -/
theorem guarded (h : Ok held k) (hfree : ∀ y ∈ held, y.rank < Sem.access.rank) (op : RingOp) :
    Ok held (guarded op ++ k) :=
  ⟨hfree, ⟨held, rfl⟩, held, rfl, h⟩

theorem pushMessage (h : Ok held k) (hfree : ∀ y ∈ held, y.rank < Sem.access.rank) (m : Message) :
    Ok held (pushMessage.code m ++ k) := by
  unfold pushMessage.code
  split
  · exact h
  · exact h.guarded hfree _

/-- `send_message` can be called with anything held but `sem_system` and `access`. -/
theorem sendMessage (h : Ok held k) (hfree : ∀ y ∈ held, y.rank < Sem.system.rank) (m : Message) :
    Ok held (sendMessage.code m ++ k) := by
  rw [Sm.sendMessage.code, List.append_assoc]
  refine ⟨hfree, ?_⟩
  refine pushMessage (k := .semPost .system :: k) ⟨held, rfl, h⟩ ?_ m
  intro y hy
  rcases List.mem_cons.mp hy with rfl | hy
  · decide
  · exact (hfree y hy).trans (by decide)

/-- With no semaphore held there is nothing to compare. -/
theorem nil_below {x : Sem} : ∀ y ∈ ([] : List Sem), y.rank < x.rank := by simp

theorem defaultSm (h : Ok [] k) (m : Message) : Ok [] (defaultSm.code m ++ k) := by
  unfold Sm.defaultSm.code smDestroySmallwin.code
  split_ifs
  · exact h.guarded nil_below _
  · exact ⟨nil_below, rfl, [], rfl, h.guarded nil_below _⟩
  · exact h

/-- **The code of a call**, which is made with no semaphore held. -/
theorem call (h : Ok [] k) (c : Call) : Ok [] (c.code ++ k) := by
  cases c with
  | pushMessage m => exact h.pushMessage nil_below m
  | sendMessage m => exact h.sendMessage nil_below m
  | popMessage => exact ⟨rfl, h.guarded nil_below _⟩
  | isMessage hsm =>
    rw [Call.code, isMessage.code]
    split
    · exact h
    · exact h.guarded nil_below _
  | isMessageParam hsm message param1 param2 => exact h.guarded nil_below _
  | invalidateMessage message => exact h.guarded nil_below _
  | eraseMessage hsm => exact h.guarded nil_below _
  | eraseMessageType hsm message => exact h.guarded nil_below _
  | smCreateSmallwin smProc => exact ⟨nil_below, rfl, [], rfl, h⟩
  | expressMessage m =>
    rw [Call.code, expressMessage.code]
    split
    · exact h
    · exact ⟨rfl, h⟩
  | smSetXtick hsm n100msec param2 sysflag => exact ⟨nil_below, rfl, [], rfl, h⟩
  | smCreateTick hsm ms => exact ⟨nil_below, rfl, [], rfl, h⟩
  | smCreateSystick hsm n100msec => exact ⟨nil_below, rfl, [], rfl, h⟩
  | smDestroyTick htick => exact ⟨nil_below, rfl, k, rfl⟩

/-- **Unfolding an instruction keeps the order**; the body of `sm_destroy_tick` does not. -/
theorem unfolds {i : LockStep} {j : Instr} {p : List Instr} (h : Ok held (j :: k))
    (hu : Unfolds i j p) (hdestroy : ∀ htick, j ≠ .destroyTick htick) : Ok held (p ++ k) := by
  cases hu with
  | done j hwait hpost =>
    cases j with
    | semWait x => exact absurd rfl (hwait x)
    | semPost x => exact absurd rfl (hpost x)
    | destroyTick htick => exact absurd rfl (hdestroy htick)
    | _ => exact h.2
  | call tid c =>
    obtain ⟨rfl, hk⟩ := h
    rw [List.append_assoc]
    exact Ok.call (k := .user :: k) ⟨rfl, hk⟩ c
  | default m =>
    obtain ⟨rfl, hk⟩ := h
    exact hk.defaultSm m
  | proc m =>
    obtain ⟨rfl, hk⟩ := h
    exact ⟨rfl, hk.defaultSm m⟩
  | created smProc m =>
    obtain ⟨rfl, hk⟩ := h
    exact hk.pushMessage (by decide) m
  | scheduler =>
    obtain ⟨rfl, hk⟩ := h
    refine ⟨rfl, ?_⟩
    exact Ok.guarded (k := .popped :: .scheduler :: k) ⟨rfl, rfl, hk⟩ nil_below _
  | ticker =>
    obtain ⟨rfl, hk⟩ := h
    exact ⟨nil_below, rfl, [], rfl, rfl, hk⟩
  | due i hsm message param1 param2 =>
    obtain ⟨rfl, hk⟩ := h
    rw [List.append_assoc]
    exact Ok.guarded (k := .asked i :: k) ⟨rfl, hk⟩ (by decide) _
  | send i m =>
    obtain ⟨rfl, hk⟩ := h
    rw [List.append_assoc]
    exact Ok.sendMessage (k := .restart i :: k) ⟨rfl, hk⟩ (by decide) m
  | found | popped | next | queued | restart =>
    obtain ⟨rfl, hk⟩ := h
    exact ⟨rfl, hk⟩

end Ok

namespace Worker

/-- The thread's code takes the semaphores in order. -/
def Ordered (w : Worker) : Prop := Ok w.held w.code

/-- The thread is in the second `sk_sem_lock` of `sm_destroy_tick`. -/
def Stuck (w : Worker) : Prop := w.held = [.tickId] ∧ ∃ k, w.code = .semWait .tickId :: k

/-- The thread holds one of the semaphores, or is about to take one. -/
def Involved (w : Worker) : Prop := w.held ≠ [] ∨ w.waits.isSome

end Worker

namespace Locks

variable {s t : Locks}

/-- The times a semaphore is taken and not yet released. -/
def held (s : Locks) (x : Sem) : ℕ := Semaphores.holders Worker.held s.threads x

/-- **The invariant.** -/
structure Inv (s : Locks) : Prop where
  /-- Every thread takes the semaphores in order, or is stuck in `sm_destroy_tick`. -/
  code : ∀ w ∈ s.threads, w.Ordered ∨ w.Stuck
  /-- The value of a semaphore, and the times it is taken, are 1 together. -/
  conserved : ∀ x, s.value x + s.held x = 1
  /-- The ring is valid. -/
  valid : s.shared.q.Valid

/-- What the threads are at the start. -/
theorem init_threads {nqueue : ℕ} {mem : ℤ → Message} {n : ℕ} {w : Worker}
    (hw : w ∈ (Locks.init nqueue mem n).threads) :
    w = .start [.scheduler] ∨ w = .start [.ticker] ∨ w = .start [.user] := by
  simp only [Locks.init, List.mem_cons, List.mem_replicate] at hw
  rcases hw with rfl | rfl | ⟨-, rfl⟩
  · exact .inl rfl
  · exact .inr (.inl rfl)
  · exact .inr (.inr rfl)

theorem Inv.init {nqueue : ℕ} (hsize : nqueue ≤ 32766) (mem : ℤ → Message) (n : ℕ) :
    (Locks.init nqueue mem n).Inv := by
  constructor
  · intro w hw
    left
    rcases init_threads hw with rfl | rfl | rfl <;> exact ⟨rfl, rfl⟩
  · intro x
    rw [held, Semaphores.holders_eq_zero]
    · rfl
    · intro w hw
      rcases init_threads hw with rfl | rfl | rfl <;> exact List.not_mem_nil
  · exact Msgq.Valid.initMsgq (by omega) (by omega) mem

/-- A stuck thread holds the semaphore it waits for. -/
theorem Inv.value_of_stuck (h : s.Inv) {w : Worker} (hw : w ∈ s.threads) (hstuck : w.Stuck) :
    s.value .tickId = 0 := by
  have hcount := Semaphores.count_le_holders Worker.held hw Sem.tickId
  rw [hstuck.1, List.count_singleton_self] at hcount
  have hsum := h.conserved .tickId
  rw [held] at hsum
  omega

/-- A thread moves: what is left of the invariant to show. -/
theorem Inv.move (h : s.Inv) {tid : ℕ} {w w' : Worker} (hw : s.threads[tid]? = some w)
    (hcode : w'.Ordered ∨ w'.Stuck) {value : Sem → ℕ} {sh : Shared} (hv : sh.q.Valid)
    (hvalue : ∀ x, value x + w'.held.count x = s.value x + w.held.count x) :
    Inv ⟨sh, value, s.threads.set tid w'⟩ := by
  refine ⟨ThreadPool.forall_mem_set h.code tid hcode, ?_, hv⟩
  intro x
  have hset := Semaphores.holders_set Worker.held hw w' x
  have hsum := h.conserved x
  have hx := hvalue x
  simp only [held] at hsum ⊢
  omega

/-- Taking a free semaphore moves one count. -/
theorem count_lock {held : List Sem} {value : Sem → ℕ} {x : Sem} (hpos : 0 < value x) (y : Sem) :
    Function.update value x (value x - 1) y + (x :: held).count y = value y + held.count y := by
  by_cases hy : y = x
  · subst hy
    rw [Function.update_self, List.count_cons_self]
    omega
  · rw [Function.update_of_ne hy, List.count_cons_of_ne (Ne.symm hy)]

/-- Releasing the semaphore taken last moves it back. -/
theorem count_unlock {rest : List Sem} {value : Sem → ℕ} {x : Sem} (y : Sem) :
    Function.update value x (value x + 1) y + rest.count y = value y + (x :: rest).count y := by
  by_cases hy : y = x
  · subst hy
    rw [Function.update_self, List.count_cons_self]
    omega
  · rw [Function.update_of_ne hy, List.count_cons_of_ne (Ne.symm hy)]

/-- The step runs the body of `sm_destroy_tick`. -/
def Destroys (s : Locks) (i : LockStep) : Prop :=
  ∃ w htick k, s.threads[i.tid]? = some w ∧ w.code = .destroyTick htick :: k

/-- **One step of a thread keeps the invariant**, and the order of all threads unless it runs the body of
`sm_destroy_tick`. -/
theorem Inv.step (h : s.Inv) {i : LockStep} {o : Unit} (hs : Locks.step s i = some (o, t)) :
    t.Inv ∧ (¬ s.Destroys i → (∀ w ∈ s.threads, w.Ordered) → ∀ w ∈ t.threads, w.Ordered) := by
  obtain ⟨w, hw, hcases⟩ := step_cases hs
  have hmem := List.mem_of_getElem? hw
  rcases hcases with ⟨x, k, hcode, hpos, rfl⟩ | ⟨x, k, hcode, rfl⟩ |
    ⟨j, k, p, sh, r, hcode, hu, hvalid, rfl⟩
  · rcases h.code w hmem with hok | ⟨hheld, k', hk'⟩
    · have hord : Worker.Ordered ⟨k, x :: w.held, w.result⟩ := by
        rw [Worker.Ordered, hcode] at hok
        exact hok.2
      exact ⟨h.move hw (.inl hord) h.valid fun y => count_lock hpos y,
        fun _ hall => ThreadPool.forall_mem_set hall _ hord⟩
    · -- a stuck thread does not get the semaphore
      obtain ⟨hx, -⟩ := List.cons.inj (hcode.symm.trans hk')
      obtain rfl : x = .tickId := by injection hx
      have := h.value_of_stuck hmem ⟨hheld, k', hk'⟩
      omega
  · rcases h.code w hmem with hok | ⟨-, k', hk'⟩
    · rw [Worker.Ordered, hcode] at hok
      obtain ⟨rest, hheld, hk⟩ := hok
      have hord : Worker.Ordered ⟨k, w.held.erase x, w.result⟩ := by
        rw [hheld, Worker.Ordered, List.erase_cons_head]
        exact hk
      refine ⟨h.move hw (.inl hord) h.valid fun y => ?_,
        fun _ hall => ThreadPool.forall_mem_set hall _ hord⟩
      rw [hheld, List.erase_cons_head]
      exact count_unlock y
    · simp [hcode] at hk'
  · rcases h.code w hmem with hok | ⟨-, k', hk'⟩
    · rw [Worker.Ordered, hcode] at hok
      by_cases hdestroy : ∃ htick, j = .destroyTick htick
      · obtain ⟨htick, rfl⟩ := hdestroy
        obtain ⟨hheld, k', rfl⟩ := hok
        cases hu
        have hstuck : Worker.Stuck ⟨[] ++ .semWait .tickId :: k', w.held, r⟩ := ⟨hheld, k', rfl⟩
        refine ⟨h.move hw (.inr hstuck) (hvalid h.valid) fun y => rfl, ?_⟩
        intro hnot
        exact absurd ⟨w, htick, _, hw, hcode⟩ hnot
      · have hord : Worker.Ordered ⟨p ++ k, w.held, r⟩ :=
          hok.unfolds hu fun htick hj => hdestroy ⟨htick, hj⟩
        exact ⟨h.move hw (.inl hord) (hvalid h.valid) fun y => rfl,
          fun _ hall => ThreadPool.forall_mem_set hall _ hord⟩
    · obtain ⟨rfl, -⟩ := List.cons.inj (hcode.symm.trans hk')
      cases hu with
      | done _ hwait _ => exact absurd rfl (hwait .tickId)

/-! ## No deadlock -/

/-- The thread can take its next step. -/
def CanStep (s : Locks) (tid : ℕ) : Prop := ∃ i : LockStep, i.tid = tid ∧ (Locks.step s i).isSome

/-- Whenever a thread holds one of the semaphores or is about to take one, some such thread can take its
next step; and a thread in `wait_event` holds none of them. -/
def DeadlockFree (s : Locks) : Prop :=
  ((∃ w ∈ s.threads, w.Involved) →
    ∃ tid w, s.threads[tid]? = some w ∧ w.Involved ∧ s.CanStep tid) ∧
  ∀ w ∈ s.threads, ∀ k, w.code = .waitEvent :: k → w.held = []

/-- The step does not call `sm_destroy_tick`. -/
def CallsNoDestroy (_ : Locks) (i : LockStep) : Prop := ∀ tid htick, i ≠ .call tid (.smDestroyTick htick)

/-- A section of the ring ends. -/
theorem RingOp.exec_isSome {q : Msgq} (hv : q.Valid) (op : RingOp) : (op.exec q).isSome := by
  have hcount : CircularBuffer.count q.size q.head.toNat q.tail.toNat < q.queueSize.toNat :=
    CircularBuffer.count_lt hv.head_toNat_lt hv.tail_toNat_lt
  cases op with
  | isMessage hsm =>
    rw [RingOp.exec, Option.isSome_map, Sm.isMessage]
    split
    · rfl
    · exact Msgq.searchLoop_isSome hv _ hv.head_nonneg hv.head_lt hcount
  | isMessageParam hsm message param1 param2 =>
    rw [RingOp.exec, Option.isSome_map]
    exact Msgq.searchLoop_isSome hv _ hv.head_nonneg hv.head_lt hcount
  | _ => rfl

/-- An instruction that is run with a semaphore held does not block. -/
theorem Shared.exec_isSome {sh : Shared} (hv : sh.q.Valid) (r : MsgResult) {j : Instr}
    {k : List Instr} {held : List Sem} (hok : Ok held (j :: k)) (hheld : held ≠ [])
    (hwait : ∀ x, j ≠ .semWait x) (hpost : ∀ x, j ≠ .semPost x) :
    (sh.exec r ⟨none, []⟩ j).isSome := by
  cases j with
  | semWait x => exact absurd rfl (hwait x)
  | semPost x => exact absurd rfl (hpost x)
  | ring op =>
    rw [Shared.exec, Option.isSome_map]
    exact RingOp.exec_isSome hv op
  | createWin smProc => rfl
  | unlinkWin hsm =>
    rw [Shared.exec]
    split <;> rfl
  | slot n =>
    rw [Shared.exec]
    split_ifs <;> rfl
  | asked n => rfl
  | restart n => rfl
  | setXtick hsm n100msec param2 sysflag => rfl
  | destroyTick htick => rfl
  -- the others are run with no semaphore held
  | _ => exact absurd hok.1 hheld

/-- **A thread that holds a semaphore or is about to take one can go on**, unless the one it is about
to take is taken. -/
theorem Inv.canStep (h : s.Inv) {tid : ℕ} {w : Worker} (hw : s.threads[tid]? = some w)
    (hok : w.Ordered) (hinv : w.Involved) (hfree : ∀ x, w.waits = some x → 0 < s.value x) :
    s.CanStep tid := by
  refine ⟨.go tid ⟨none, []⟩, rfl, ?_⟩
  rw [Worker.Ordered] at hok
  rw [Worker.Involved, Worker.waits] at hinv
  rw [Worker.waits] at hfree
  simp only [Locks.step, hw]
  cases hcode : w.code with
  | nil =>
    rw [hcode] at hok hinv
    have hnil : w.held = [] := hok
    simp [hnil] at hinv
  | cons j k =>
    rw [hcode] at hok hinv hfree
    by_cases hwait : ∃ x, j = .semWait x
    · obtain ⟨x, rfl⟩ := hwait
      simp only [if_pos (hfree x rfl), Option.isSome_some]
    · by_cases hpost : ∃ x, j = .semPost x
      · obtain ⟨x, rfl⟩ := hpost
        rfl
      · have hheld : w.held ≠ [] := by
          rcases hinv with hheld | hwaits
          · exact hheld
          · split at hwaits
            · rename_i x _ heq
              exact absurd ⟨x, (List.cons.inj heq).1⟩ hwait
            · cases hwaits
        have hsome := Shared.exec_isSome h.valid w.result hok hheld (fun x hx => hwait ⟨x, hx⟩)
          fun x hx => hpost ⟨x, hx⟩
        split
        · rename_i heq
          cases heq
        · rename_i x _ heq
          exact absurd ⟨x, (List.cons.inj heq).1⟩ hwait
        · rename_i x _ heq
          exact absurd ⟨x, (List.cons.inj heq).1⟩ hpost
        · rename_i heq
          obtain ⟨rfl, rfl⟩ := List.cons.inj heq
          rw [Option.isSome_map]
          exact hsome

/-- **Ordered threads do not deadlock.** -/
theorem Inv.deadlockFree (h : s.Inv) (hord : ∀ w ∈ s.threads, w.Ordered) : s.DeadlockFree := by
  constructor
  · rintro ⟨w, hw, hinv⟩
    -- along the threads that hold what another waits for, the rank rises
    obtain ⟨w', hw', hinv', hfree⟩ := Semaphores.exists_unblocked Worker.waits Sem.rank 3
      (fun x => 0 < s.value x) (by intro x; cases x <;> decide)
      (by
        intro x hx
        have hsum := h.conserved x
        exact Semaphores.exists_holder (by rw [held] at hsum; omega))
      (by
        intro w hw x hx y hy
        have hok := hord w hw
        rw [Worker.Ordered] at hok
        rw [Worker.waits] at hx
        split at hx
        · rename_i x' k hcode
          obtain rfl := Option.some.inj hx
          rw [hcode] at hok
          exact hok.1 y hy
        · cases hx)
      hw hinv
    obtain ⟨tid, htid⟩ := List.mem_iff_getElem?.mp hw'
    exact ⟨tid, w', htid, hinv', h.canStep htid (hord w' hw') hinv' hfree⟩
  · intro w hw k hcode
    have hok := hord w hw
    rw [Worker.Ordered, hcode] at hok
    exact hok.1

/-- Without a call of `sm_destroy_tick` its body does not come into a thread's code. -/
theorem no_destroy_of_unfolds {i : LockStep} {j : Instr} {p : List Instr} (hu : Unfolds i j p)
    (hi : s.CallsNoDestroy i) (htick : ℤ) : .destroyTick htick ∉ p := by
  have hpush : ∀ m, Instr.destroyTick htick ∉ pushMessage.code m := by
    intro m
    unfold pushMessage.code
    split <;> simp [guarded]
  cases hu with
  | done j hwait hpost => exact List.not_mem_nil
  | call tid c h =>
    subst h
    cases c with
    | smDestroyTick htick' => exact absurd rfl (hi tid htick')
    | pushMessage m => simp [Call.code, hpush]
    | sendMessage m => simp [Call.code, sendMessage.code, hpush]
    | isMessage hsm =>
      rw [Call.code, isMessage.code]
      split <;> simp [guarded]
    | expressMessage m =>
      rw [Call.code, expressMessage.code]
      split <;> simp
    | popMessage | isMessageParam | invalidateMessage | eraseMessage | eraseMessageType =>
      simp [Call.code, popMessage.code, isMessageParam.code, invalidateMessage.code,
        eraseMessage.code, eraseMessageType.code, guarded]
    | smCreateSmallwin | smSetXtick | smCreateTick | smCreateSystick =>
      simp [Call.code, smCreateSmallwin.code, smCreateTick.code, smCreateSystick.code,
        smSetXtick.code]
  | default m | proc m =>
    unfold defaultSm.code smDestroySmallwin.code
    split_ifs <;> simp [eraseMessage.code, guarded]
  | created smProc m => exact hpush m
  | send n m => simp [sendMessage.code, hpush]
  | scheduler => simp [smallwinScheduler.code, popMessage.code, guarded]
  | ticker => simp [smTicker.code]
  | due n hsm message param1 param2 => simp [isMessageParam.code, guarded]
  | _ => simp

/-- What a run without `sm_destroy_tick` keeps. -/
structure Calm (s : Locks) : Prop where
  /-- The invariant. -/
  inv : s.Inv
  /-- Every thread takes the semaphores in order. -/
  ordered : ∀ w ∈ s.threads, w.Ordered
  /-- No thread has the body of `sm_destroy_tick` to run. -/
  no_destroy : ∀ w ∈ s.threads, ∀ htick, .destroyTick htick ∉ w.code

theorem Calm.init {nqueue : ℕ} (hsize : nqueue ≤ 32766) (mem : ℤ → Message) (n : ℕ) :
    (Locks.init nqueue mem n).Calm := by
  refine ⟨Inv.init hsize mem n, ?_, ?_⟩
  · intro w hw
    rcases init_threads hw with rfl | rfl | rfl <;> exact ⟨rfl, rfl⟩
  · intro w hw htick
    rcases init_threads hw with rfl | rfl | rfl <;> simp [Worker.start]

/-- **One step that does not call `sm_destroy_tick`.** -/
theorem Calm.step (h : s.Calm) {i : LockStep} (hi : s.CallsNoDestroy i) {o : Unit}
    (hs : Locks.step s i = some (o, t)) : t.Calm := by
  obtain ⟨hinv, hord⟩ := h.inv.step hs
  refine ⟨hinv, hord ?_ h.ordered, ?_⟩
  · rintro ⟨w, htick, k, hw, hcode⟩
    refine h.no_destroy w (List.mem_of_getElem? hw) htick ?_
    rw [hcode]
    exact List.mem_cons_self
  · obtain ⟨w, hw, hcases⟩ := step_cases hs
    have hnot := h.no_destroy w (List.mem_of_getElem? hw)
    rcases hcases with ⟨x, k, hcode, -, rfl⟩ | ⟨x, k, hcode, rfl⟩ |
      ⟨j, k, p, sh, r, hcode, hu, -, rfl⟩
    · refine ThreadPool.forall_mem_set h.no_destroy _ fun htick hmem => hnot htick ?_
      rw [hcode]
      exact List.mem_cons_of_mem _ hmem
    · refine ThreadPool.forall_mem_set h.no_destroy _ fun htick hmem => hnot htick ?_
      rw [hcode]
      exact List.mem_cons_of_mem _ hmem
    · refine ThreadPool.forall_mem_set h.no_destroy _ fun htick hmem => hnot htick ?_
      rw [hcode]
      rcases List.mem_append.mp hmem with hmem | hmem
      · exact absurd hmem (no_destroy_of_unfolds hu hi htick)
      · exact List.mem_cons_of_mem _ hmem

end Locks

/-- **The semaphores do not deadlock.** In every state any number of threads reach, in any interleaving
of all calls but `sm_destroy_tick`, with window procedures that make any of them: whenever a thread
holds `sem_tick_id`, `sem_system` or `message_queue.access`, or is about to take one, some such thread
can take its next step; and a thread in `wait_event` holds none of them. -/
theorem locks_deadlockFree (nqueue : ℕ) (hsize : nqueue ≤ 32766) (mem : ℤ → Message) (n : ℕ)
    (steps : List LockStep)
    (hcalls : StepMachine.Along Locks.step Locks.CallsNoDestroy (Locks.init nqueue mem n) steps)
    (os : List Unit) (s : Locks)
    (hrun : StepMachine.run Locks.step (Locks.init nqueue mem n) steps = some (os, s)) :
    s.DeadlockFree := by
  have hcalm : s.Calm :=
    StepMachine.run_induction_along Locks.step Locks.CallsNoDestroy (fun _ _ s => s.Calm)
      (Locks.Calm.init hsize mem n) (fun _ _ _ _ _ _ _ h hi hs => h.step hi hs) hcalls hrun
  exact hcalm.inv.deadlockFree hcalm.ordered

/-- A client is in `push_message` of `sm_create_smallwin` with `sem_system`, while another is in its own
`push_message` with `message_queue.access`. -/
theorem locks_deadlockFree_create : ∃ os s w,
    StepMachine.run Locks.step (Locks.init 8 (fun _ => ⟨0, 0, 0, 0⟩) 2)
      [.call 2 (.smCreateSmallwin none), .call 3 (.pushMessage ⟨7, 1, 0, 0⟩), .go 2 ⟨none, []⟩,
        .go 3 ⟨none, []⟩, .go 2 ⟨some 16, []⟩] = some (os, s) ∧
    s.threads[2]? = some w ∧ w.held = [.system] ∧ w.waits = some .access ∧ s.DeadlockFree :=
  ⟨_, _, _, rfl, rfl, rfl, rfl,
    locks_deadlockFree 8 (by decide) (fun _ => ⟨0, 0, 0, 0⟩) 2
      [.call 2 (.smCreateSmallwin none), .call 3 (.pushMessage ⟨7, 1, 0, 0⟩), .go 2 ⟨none, []⟩,
        .go 3 ⟨none, []⟩, .go 2 ⟨some 16, []⟩]
      (StepMachine.along_of_forall_mem _ (by simp [Locks.CallsNoDestroy]) _) _ _ rfl⟩

end SmIpc.Sm
