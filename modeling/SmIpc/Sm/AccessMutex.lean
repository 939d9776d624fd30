import SmIpc.Lib.ThreadPool
import SmIpc.Sm.LockSteps

/-! # Mutual exclusion of the message ring

Every section of `smmsg.c` stands between `sk_sem_lock(message_queue.access)` and the matching
`sk_sem_unlock`, and none of the functions looks at what `sk_sem_lock` returns. `AccessOk` is the shape
of a thread's code with regard to `access`: taken and released in turn, and held exactly in the
sections. So `access` is counted right, and the sections exclude each other, as long as no wait for it
is interrupted, and no longer (`access_exclusive`). -/

namespace SmIpc.Sm

/-- Code that is run with `access` taken `n` times and not released: it is taken only when it is not
held, it is held in the sections of the ring, and released after them. -/
def AccessOk : ℕ → List Instr → Prop
  | n, [] => n = 0
  | n, .semWait .access :: k => n = 0 ∧ AccessOk 1 k
  | n, .semPost .access :: k => n = 1 ∧ AccessOk 0 k
  | n, .ring _ :: k => n = 1 ∧ AccessOk 1 k
  | n, _ :: k => n = 0 ∧ AccessOk 0 k

namespace AccessOk

variable {k : List Instr}

theorem guarded (h : AccessOk 0 k) (op : RingOp) : AccessOk 0 (guarded op ++ k) :=
  ⟨rfl, rfl, rfl, h⟩

theorem pushMessage (h : AccessOk 0 k) (m : Message) : AccessOk 0 (pushMessage.code m ++ k) := by
  unfold pushMessage.code
  split
  · exact h
  · exact h.guarded _

theorem sendMessage (h : AccessOk 0 k) (m : Message) : AccessOk 0 (sendMessage.code m ++ k) := by
  rw [Sm.sendMessage.code, List.append_assoc]
  refine ⟨rfl, ?_⟩
  exact pushMessage (k := .semPost .system :: k) ⟨rfl, h⟩ m

theorem defaultSm (h : AccessOk 0 k) (m : Message) : AccessOk 0 (defaultSm.code m ++ k) := by
  unfold Sm.defaultSm.code smDestroySmallwin.code
  split_ifs
  · exact h.guarded _
  · exact ⟨rfl, rfl, rfl, h.guarded _⟩
  · exact h

/-- The code of a call. -/
theorem call (h : AccessOk 0 k) (c : Call) : AccessOk 0 (c.code ++ k) := by
  cases c with
  | pushMessage m => exact h.pushMessage m
  | sendMessage m => exact h.sendMessage m
  | popMessage => exact ⟨rfl, h.guarded _⟩
  | isMessage hsm =>
    rw [Call.code, isMessage.code]
    split
    · exact h
    · exact h.guarded _
  | isMessageParam hsm message param1 param2 => exact h.guarded _
  | invalidateMessage message => exact h.guarded _
  | eraseMessage hsm => exact h.guarded _
  | eraseMessageType hsm message => exact h.guarded _
  | smCreateSmallwin smProc => exact ⟨rfl, rfl, rfl, h⟩
  | expressMessage m =>
    rw [Call.code, expressMessage.code]
    split
    · exact h
    · exact ⟨rfl, h⟩
  | smSetXtick hsm n100msec param2 sysflag => exact ⟨rfl, rfl, rfl, h⟩
  | smCreateTick hsm ms => exact ⟨rfl, rfl, rfl, h⟩
  | smCreateSystick hsm n100msec => exact ⟨rfl, rfl, rfl, h⟩
  | smDestroyTick htick => exact ⟨rfl, rfl, rfl, h⟩

/-- **Unfolding an instruction keeps the shape of the code.** -/
theorem unfolds {n : ℕ} {i : LockStep} {j : Instr} {p : List Instr} (h : AccessOk n (j :: k))
    (hu : Unfolds i j p) :
    AccessOk n (p ++ k) := by
  cases hu with
  | done j hwait hpost =>
    cases j with
    | semWait x => exact absurd rfl (hwait x)
    | semPost x => exact absurd rfl (hpost x)
    | ring op =>
      obtain ⟨rfl, hk⟩ := h
      exact hk
    | _ =>
      obtain ⟨rfl, hk⟩ := h
      exact hk
  | call tid c =>
    obtain ⟨rfl, hk⟩ := h
    rw [List.append_assoc]
    exact AccessOk.call (k := .user :: k) ⟨rfl, hk⟩ c
  | default m =>
    obtain ⟨rfl, hk⟩ := h
    exact hk.defaultSm m
  | proc m =>
    obtain ⟨rfl, hk⟩ := h
    exact ⟨rfl, hk.defaultSm m⟩
  | created smProc m =>
    obtain ⟨rfl, hk⟩ := h
    exact hk.pushMessage m
  | scheduler =>
    obtain ⟨rfl, hk⟩ := h
    refine ⟨rfl, ?_⟩
    exact AccessOk.guarded (k := .popped :: .scheduler :: k) ⟨rfl, rfl, hk⟩ _
  | ticker =>
    obtain ⟨rfl, hk⟩ := h
    exact ⟨rfl, rfl, rfl, rfl, hk⟩
  | due i hsm message param1 param2 =>
    obtain ⟨rfl, hk⟩ := h
    rw [List.append_assoc]
    exact AccessOk.guarded (k := .asked i :: k) ⟨rfl, hk⟩ _
  | send i m =>
    obtain ⟨rfl, hk⟩ := h
    rw [List.append_assoc]
    exact AccessOk.sendMessage (k := .restart i :: k) ⟨rfl, hk⟩ m
  | found | popped | next | queued | restart =>
    obtain ⟨rfl, hk⟩ := h
    exact ⟨rfl, hk⟩

end AccessOk

namespace Locks

variable {s t : Locks}

/-- The times `access` is taken and not yet released. -/
def accessHeld (s : Locks) : ℕ := Semaphores.holders Worker.held s.threads .access

/-- Thread `tid` is between `sk_sem_lock(message_queue.access)` and the matching `sk_sem_unlock`. -/
def InAccess (s : Locks) (tid : ℕ) : Prop := ∃ w, s.threads[tid]? = some w ∧ .access ∈ w.held

/-- At most one thread is between `sk_sem_lock(message_queue.access)` and the matching `sk_sem_unlock`, and
the semaphore is at most 1. -/
def AccessExclusive (s : Locks) : Prop :=
  (∀ tid tid', s.InAccess tid → s.InAccess tid' → tid = tid') ∧ s.value .access ≤ 1

/-- The step interrupts no blocked wait for `access`. -/
def KeepsAccess (s : Locks) : LockStep ⊕ ℕ → Prop
  | .inl _ => True
  | .inr tid => ∀ w, s.threads[tid]? = some w → w.waits ≠ some .access

/-- **The invariant while no wait for `access` is interrupted.** -/
structure AccessInv (s : Locks) : Prop where
  /-- Every thread's code takes and releases `access` in turn. -/
  code : ∀ w ∈ s.threads, AccessOk (w.held.count .access) w.code
  /-- The value of `access`, and the times it is taken, are 1 together. -/
  conserved : s.value .access + s.accessHeld = 1

theorem AccessInv.init (nqueue : ℕ) (mem : ℤ → Message) (n : ℕ) :
    (Locks.init nqueue mem n).AccessInv := by
  have hheld : ∀ w ∈ (Locks.init nqueue mem n).threads, w.held = [] ∧ AccessOk 0 w.code := by
    intro w hw
    simp only [Locks.init, List.mem_cons, List.mem_replicate] at hw
    rcases hw with rfl | rfl | ⟨-, rfl⟩ <;> exact ⟨rfl, rfl, rfl⟩
  constructor
  · intro w hw
    obtain ⟨hnil, hcode⟩ := hheld w hw
    rw [hnil]
    exact hcode
  · rw [accessHeld, Semaphores.holders_eq_zero]
    · rfl
    · intro w hw
      rw [(hheld w hw).1]
      exact List.not_mem_nil

/-- With the counts right, the sections exclude each other. -/
theorem AccessInv.exclusive (h : s.AccessInv) : s.AccessExclusive := by
  have hsum := h.conserved
  constructor
  · rintro tid tid' ⟨w, hw, hin⟩ ⟨w', hw', hin'⟩
    refine Semaphores.eq_of_holders_le_one ?_ hw hw' hin hin'
    rw [accessHeld] at hsum
    omega
  · omega

/-- A thread moves: what is left of the invariant to show. -/
theorem AccessInv.move (h : s.AccessInv) {tid : ℕ} {w w' : Worker} (hw : s.threads[tid]? = some w)
    (hcode : AccessOk (w'.held.count .access) w'.code) {value : Sem → ℕ} (sh : Shared)
    (hvalue : value .access + w'.held.count .access = s.value .access + w.held.count .access) :
    AccessInv ⟨sh, value, s.threads.set tid w'⟩ := by
  refine ⟨ThreadPool.forall_mem_set h.code tid hcode, ?_⟩
  have hset := Semaphores.holders_set Worker.held hw w' .access
  have hsum := h.conserved
  simp only [accessHeld] at hsum ⊢
  omega

/-- **One step of a thread keeps the invariant.** -/
theorem AccessInv.step (h : s.AccessInv) {i : LockStep} {o : Unit}
    (hs : Locks.step s i = some (o, t)) : t.AccessInv := by
  obtain ⟨w, hw, hcases⟩ := step_cases hs
  have hok := h.code w (List.mem_of_getElem? hw)
  rcases hcases with ⟨x, k, hcode, hpos, rfl⟩ | ⟨x, k, hcode, rfl⟩ |
    ⟨j, k, p, sh, r, hcode, hu, -, rfl⟩
  · rw [hcode] at hok
    cases x with
    | access =>
      obtain ⟨hzero, hk⟩ := hok
      refine h.move hw ?_ s.shared ?_
      · rw [List.count_cons_self, hzero]
        exact hk
      · rw [List.count_cons_self, Function.update_self]
        omega
    | tickId | system =>
      obtain ⟨hzero, hk⟩ := hok
      refine h.move hw ?_ s.shared ?_
      · rw [List.count_cons_of_ne (by simp), hzero]
        exact hk
      · rw [List.count_cons_of_ne (by simp), Function.update_of_ne (by simp)]
  · rw [hcode] at hok
    cases x with
    | access =>
      obtain ⟨hone, hk⟩ := hok
      refine h.move hw ?_ s.shared ?_
      · rw [List.count_erase_self, hone]
        exact hk
      · rw [List.count_erase_self, Function.update_self]
        omega
    | tickId | system =>
      obtain ⟨hzero, hk⟩ := hok
      refine h.move hw ?_ s.shared ?_
      · rw [List.count_erase_of_ne (by simp), hzero]
        exact hk
      · rw [List.count_erase_of_ne (by simp), Function.update_of_ne (by simp)]
  · rw [hcode] at hok
    exact h.move hw (hok.unfolds hu) sh rfl

/-- **An interrupted wait.** One for another semaphore, or for `sem_event`, keeps the invariant; one for
`access` lets a second thread in. -/
theorem AccessInv.interrupt (h : s.AccessInv) {tid : ℕ} {o : Unit}
    (hs : s.interrupt tid = some (o, t)) :
    (s.KeepsAccess (.inr tid) → t.AccessInv) ∧ (¬ s.KeepsAccess (.inr tid) → ¬ t.AccessExclusive) := by
  obtain ⟨w, hw, hcases⟩ := interrupt_cases hs
  have hok := h.code w (List.mem_of_getElem? hw)
  have hkeeps : s.KeepsAccess (.inr tid) ↔ w.waits ≠ some .access := by
    constructor
    · intro hk
      exact hk w hw
    · intro hne w' hw'
      obtain rfl := Option.some.inj (hw.symm.trans hw')
      exact hne
  rw [hkeeps]
  rcases hcases with ⟨x, k, hcode, hzero, rfl⟩ | ⟨k, hcode, rfl⟩
  · have hwaits : w.waits = some x := by rw [Worker.waits, hcode]
    rw [hcode] at hok
    rw [hwaits]
    cases x with
    | access =>
      refine ⟨fun hne => absurd rfl hne, fun _ hex => ?_⟩
      -- the semaphore is 0 because another thread has taken it
      have hsum := h.conserved
      have hpos : 0 < Semaphores.holders Worker.held s.threads .access := by
        rw [accessHeld] at hsum
        omega
      obtain ⟨w', hmem, hin'⟩ := Semaphores.exists_holder hpos
      obtain ⟨tid', hw'⟩ := List.mem_iff_getElem?.mp hmem
      have hne : tid ≠ tid' := by
        rintro rfl
        obtain rfl := Option.some.inj (hw.symm.trans hw')
        exact absurd hok.1 (List.count_pos_iff.mpr hin').ne'
      have hlt : tid < s.threads.length := (List.getElem?_eq_some_iff.mp hw).1
      refine hne (hex.1 tid tid' ⟨_, List.getElem?_set_self hlt, List.mem_cons_self⟩ ⟨w', ?_, hin'⟩)
      exact (List.getElem?_set_ne hne).trans hw'
    | tickId | system =>
      obtain ⟨hcount, hk⟩ := hok
      refine ⟨fun _ => h.move hw ?_ s.shared ?_, fun hnot => absurd (by simp) hnot⟩
      · rw [List.count_cons_of_ne (by simp), hcount]
        exact hk
      · rw [List.count_cons_of_ne (by simp)]
  · have hwaits : w.waits = none := by rw [Worker.waits, hcode]
    rw [hcode] at hok
    rw [hwaits]
    obtain ⟨hcount, hk⟩ := hok
    refine ⟨fun _ => h.move hw ?_ s.shared rfl, fun hnot => absurd (by simp) hnot⟩
    rw [hcount]
    exact hk

end Locks

/-- **Mutual exclusion of the ring rests on every `sk_sem_lock` for `access`.** In every interleaving of
any number of threads, with any `sem_wait` calls interrupted: at most one thread at a time is in a
section of the ring, and `access` is at most 1, in every state reached, exactly when no blocked wait
for `access` is interrupted. -/
theorem access_exclusive (nqueue : ℕ) (mem : ℤ → Message) (n : ℕ) (steps : List (LockStep ⊕ ℕ))
    (os : List Unit) (s : Locks)
    (hrun : StepMachine.run Locks.stepOrFail (Locks.init nqueue mem n) steps = some (os, s)) :
    StepMachine.Throughout Locks.stepOrFail Locks.AccessExclusive (Locks.init nqueue mem n) steps ↔
      StepMachine.Along Locks.stepOrFail Locks.KeepsAccess (Locks.init nqueue mem n) steps := by
  refine StepMachine.throughout_iff_along_of Locks.stepOrFail Locks.KeepsAccess Locks.AccessInv
    Locks.AccessExclusive (Locks.AccessInv.init nqueue mem n) (fun _ h => h.exclusive) ?_ hrun
  intro s i o t h hs
  cases i with
  | inl i => exact ⟨fun _ => h.step hs, fun hnot => absurd trivial hnot⟩
  | inr tid => exact h.interrupt hs

/-- Two threads post; the wait of the second is not interrupted, it is just not over. -/
theorem access_exclusive_two_posts :
    StepMachine.Throughout Locks.stepOrFail Locks.AccessExclusive
      (Locks.init 8 (fun _ => ⟨0, 0, 0, 0⟩) 2)
      [.inl (.call 2 (.pushMessage ⟨7, 1, 0, 0⟩)), .inl (.call 3 (.pushMessage ⟨7, 2, 0, 0⟩)),
        .inl (.go 2 ⟨none, []⟩), .inl (.go 2 ⟨none, []⟩)] :=
  (access_exclusive 8 (fun _ => ⟨0, 0, 0, 0⟩) 2 _ _ _ rfl).mpr
    ⟨trivial, fun _ _ _ => ⟨trivial, fun _ _ _ => ⟨trivial, fun _ _ _ => ⟨trivial, fun _ _ _ =>
      trivial⟩⟩⟩⟩

/-- Two threads post, and the blocked wait of the second is interrupted: both are in their section at
once, and when both have left it the semaphore is at 2. -/
theorem access_overlap_interrupted :
    ∃ os s os' t,
      StepMachine.run Locks.stepOrFail (Locks.init 8 (fun _ => ⟨0, 0, 0, 0⟩) 2)
        [.inl (.call 2 (.pushMessage ⟨7, 1, 0, 0⟩)), .inl (.call 3 (.pushMessage ⟨7, 2, 0, 0⟩)),
          .inl (.go 2 ⟨none, []⟩), .inr 3] = some (os, s) ∧
      s.InAccess 2 ∧ s.InAccess 3 ∧
      StepMachine.run Locks.stepOrFail s
        [.inl (.go 2 ⟨none, []⟩), .inl (.go 3 ⟨none, []⟩), .inl (.go 3 ⟨none, []⟩),
          .inl (.go 2 ⟨none, []⟩)] = some (os', t) ∧
      t.value .access = 2 :=
  ⟨_, _, _, _, rfl, ⟨_, rfl, List.mem_cons_self⟩, ⟨_, rfl, List.mem_cons_self⟩, rfl, rfl⟩

end SmIpc.Sm
