import SmIpc.Sm.Locks

/-! # Steps of threads and their semaphores

What one step can do, said once (`step_cases`): it takes a semaphore, releases one, or puts other code
in the place of an instruction (`Unfolds`), which leaves the semaphores as they are. -/

namespace SmIpc.Sm

/-- The code an instruction that takes and releases no semaphore can leave in its place in step `i`. -/
inductive Unfolds (i : LockStep) : Instr → List Instr → Prop where
  /-- The instruction is done. -/
  | done (j : Instr) (hwait : ∀ x, j ≠ .semWait x) (hpost : ∀ x, j ≠ .semPost x) : Unfolds i j []
  /-- A call. -/
  | call (tid : ℕ) (c : Call) (h : i = .call tid c) : Unfolds i .user (c.code ++ [.user])
  /-- `sm_is_smallwin` has found the window. -/
  | found (m : Message) : Unfolds i (.isSmallwin m) [.runSm m]
  /-- `run_sm` without a window procedure. -/
  | default (m : Message) : Unfolds i (.runSm m) (defaultSm.code m)
  /-- `run_sm` with a window procedure. -/
  | proc (m : Message) : Unfolds i (.runSm m) (.user :: defaultSm.code m)
  /-- `sm_create_smallwin` has a node. -/
  | created (smProc : SmProc) (m : Message) : Unfolds i (.createWin smProc) (pushMessage.code m)
  /-- A round of `smallwin_scheduler`. -/
  | scheduler : Unfolds i .scheduler smallwinScheduler.code
  /-- `pop_message` returned a message. -/
  | popped (m : Message) : Unfolds i .popped [.isSmallwin m]
  /-- A round of `sm_ticker`. -/
  | ticker : Unfolds i .ticker smTicker.code
  /-- A slot that is free or not due. -/
  | next (n : ℕ) : Unfolds i (.slot n) [.slot (n + 1)]
  /-- A slot that is due. -/
  | due (n : ℕ) (hsm : Hsm) (message param1 param2 : UInt32) :
      Unfolds i (.slot n) (isMessageParam.code hsm message param1 param2 ++ [.asked n])
  /-- Its message is not queued. -/
  | send (n : ℕ) (m : Message) : Unfolds i (.asked n) (sendMessage.code m ++ [.restart n])
  /-- Its message is queued. -/
  | queued (n : ℕ) : Unfolds i (.asked n) [.restart n]
  /-- The end of a slot that was due. -/
  | restart (n : ℕ) : Unfolds i (.restart n) [.slot (n + 1)]

/-- A section of the ring keeps it valid. -/
theorem RingOp.exec_valid {q q' : Msgq} {op : RingOp} {r : MsgResult} (hv : q.Valid)
    (h : op.exec q = some (r, q')) : q'.Valid := by
  cases op with
  | push m =>
    simp only [RingOp.exec, Option.some.injEq, Prod.mk.injEq] at h
    obtain ⟨-, rfl⟩ := h
    by_cases hne : m.hsm = skInvalidHsm
    · rw [hne, Msgq.pushMessage_invalid]
      exact hv
    · obtain ⟨hok, hfull⟩ := Msgq.pushMessage_spec hv hne m.message m.param1 m.param2
      by_cases hroom : q.contents.length + 1 < q.size
      · obtain ⟨q', hq', hv', -⟩ := hok hroom
        rw [hq']
        exact hv'
      · rw [hfull hroom]
        exact hv
  | pop =>
    simp only [RingOp.exec, Option.some.injEq, Prod.mk.injEq] at h
    obtain ⟨-, rfl⟩ := h
    obtain ⟨hcons, hnil⟩ := Msgq.popSection_spec hv
    cases hc : q.contents with
    | nil =>
      rw [hnil hc]
      exact hv.semEvent _
    | cons m l =>
      obtain ⟨q', hq', hv', -⟩ := hcons m l hc
      rw [hq']
      exact hv'
  | isMessage hsm =>
    obtain ⟨v, -, hv'⟩ := Option.map_eq_some_iff.mp h
    obtain ⟨-, rfl⟩ := Prod.mk.inj hv'
    exact hv
  | isMessageParam hsm message param1 param2 =>
    obtain ⟨v, -, hv'⟩ := Option.map_eq_some_iff.mp h
    obtain ⟨-, rfl⟩ := Prod.mk.inj hv'
    exact hv
  | invalidateMessage message =>
    obtain ⟨-, rfl⟩ := Prod.mk.inj (Option.some.inj h)
    exact (Msgq.sweep_spec hv _ _).1
  | eraseMessage hsm =>
    obtain ⟨-, rfl⟩ := Prod.mk.inj (Option.some.inj h)
    exact (Msgq.sweep_spec hv _ _).1
  | eraseMessageType hsm message =>
    obtain ⟨-, rfl⟩ := Prod.mk.inj (Option.some.inj h)
    exact (Msgq.sweep_spec hv _ _).1

/-- **An instruction that takes and releases no semaphore** leaves the ring valid, and code that is
listed for it. -/
theorem Shared.exec_cases (i : LockStep) {sh sh' : Shared} {r r' : MsgResult} {answer : Answer} {j : Instr}
    {p : List Instr} (h : sh.exec r answer j = some (sh', r', p)) :
    Unfolds i j p ∧ (sh.q.Valid → sh'.q.Valid) := by
  cases j with
  | semWait x => cases h
  | semPost x => cases h
  | user => cases h
  | waitEvent =>
    obtain ⟨q, hq, he⟩ := Option.map_eq_some_iff.mp h
    simp only [Prod.mk.injEq] at he
    obtain ⟨rfl, rfl, rfl⟩ := he
    refine ⟨.done _ (by simp) (by simp), ?_⟩
    intro hv
    unfold Sm.waitEvent at hq
    split at hq
    · cases hq
    · obtain rfl := Option.some.inj hq
      exact hv.semEvent _
  | ring op =>
    obtain ⟨x, hx, he⟩ := Option.map_eq_some_iff.mp h
    simp only [Prod.mk.injEq] at he
    obtain ⟨rfl, rfl, rfl⟩ := he
    exact ⟨.done _ (by simp) (by simp), fun hv => RingOp.exec_valid hv hx⟩
  | isSmallwin m =>
    simp only [Shared.exec, Option.some.injEq, Prod.mk.injEq] at h
    obtain ⟨rfl, rfl, rfl⟩ := h
    refine ⟨?_, id⟩
    split
    · exact .found m
    · exact .done _ (by simp) (by simp)
  | runSm m =>
    simp only [Shared.exec] at h
    split_ifs at h <;> simp only [Option.some.injEq, Prod.mk.injEq] at h <;>
      obtain ⟨rfl, rfl, rfl⟩ := h
    · exact ⟨.done _ (by simp) (by simp), id⟩
    · exact ⟨.default m, id⟩
    · exact ⟨.proc m, id⟩
  | createWin smProc =>
    simp only [Shared.exec] at h
    split at h
    · simp only [Option.some.injEq, Prod.mk.injEq] at h
      obtain ⟨rfl, rfl, rfl⟩ := h
      exact ⟨.done _ (by simp) (by simp), id⟩
    · split_ifs at h
      simp only [Option.some.injEq, Prod.mk.injEq] at h
      obtain ⟨rfl, rfl, rfl⟩ := h
      exact ⟨.created smProc _, id⟩
  | unlinkWin hsm =>
    simp only [Shared.exec] at h
    split_ifs at h <;> simp only [Option.some.injEq, Prod.mk.injEq] at h <;>
      obtain ⟨rfl, rfl, rfl⟩ := h <;> exact ⟨.done _ (by simp) (by simp), id⟩
  | scheduler =>
    simp only [Shared.exec, Option.some.injEq, Prod.mk.injEq] at h
    obtain ⟨rfl, rfl, rfl⟩ := h
    exact ⟨.scheduler, id⟩
  | popped =>
    simp only [Shared.exec] at h
    split at h <;> simp only [Option.some.injEq, Prod.mk.injEq] at h <;>
      obtain ⟨rfl, rfl, rfl⟩ := h
    · exact ⟨.done _ (by simp) (by simp), id⟩
    · refine ⟨?_, id⟩
      split
      · exact .popped _
      · exact .done _ (by simp) (by simp)
  | ticker =>
    simp only [Shared.exec, Option.some.injEq, Prod.mk.injEq] at h
    obtain ⟨rfl, rfl, rfl⟩ := h
    exact ⟨.ticker, id⟩
  | slot n =>
    simp only [Shared.exec] at h
    split_ifs at h <;> simp only [Option.some.injEq, Prod.mk.injEq] at h <;>
      obtain ⟨rfl, rfl, rfl⟩ := h
    · exact ⟨.next n, id⟩
    · exact ⟨.due n _ _ _ _, id⟩
    · exact ⟨.next n, id⟩
    · exact ⟨.done _ (by simp) (by simp), id⟩
  | asked n =>
    simp only [Shared.exec, Option.some.injEq, Prod.mk.injEq] at h
    obtain ⟨rfl, rfl, rfl⟩ := h
    refine ⟨?_, id⟩
    split
    · exact .send n _
    · exact .queued n
  | restart n =>
    simp only [Shared.exec, Option.some.injEq, Prod.mk.injEq] at h
    obtain ⟨rfl, rfl, rfl⟩ := h
    exact ⟨.restart n, id⟩
  | setXtick hsm n100msec param2 sysflag =>
    simp only [Shared.exec, Option.some.injEq, Prod.mk.injEq] at h
    obtain ⟨rfl, rfl, rfl⟩ := h
    exact ⟨.done _ (by simp) (by simp), id⟩
  | destroyTick htick =>
    simp only [Shared.exec, Option.some.injEq, Prod.mk.injEq] at h
    obtain ⟨rfl, rfl, rfl⟩ := h
    exact ⟨.done _ (by simp) (by simp), id⟩

namespace Locks

variable {s t : Locks}

/-- **One step of one thread**: it takes a free semaphore, releases one, or unfolds an instruction. -/
theorem step_cases {i : LockStep} {o : Unit} (h : step s i = some (o, t)) :
    ∃ w, s.threads[i.tid]? = some w ∧
      ((∃ x k, w.code = .semWait x :: k ∧ 0 < s.value x ∧ t = s.lock i.tid w x k) ∨
        (∃ x k, w.code = .semPost x :: k ∧ t = s.unlock i.tid w x k) ∨
        ∃ j k p sh r, w.code = j :: k ∧ Unfolds i j p ∧ (s.shared.q.Valid → sh.q.Valid) ∧
          t = { s with
            shared := sh
            threads := s.threads.set i.tid ⟨p ++ k, w.held, r⟩ }) := by
  cases i with
  | go tid answer =>
    simp only [step] at h
    split at h
    · cases h
    · rename_i w hw
      refine ⟨w, hw, ?_⟩
      split at h
      · cases h
      · rename_i x k hcode
        split_ifs at h with hpos
        obtain ⟨-, rfl⟩ := Prod.mk.inj (Option.some.inj h)
        exact .inl ⟨x, k, hcode, hpos, rfl⟩
      · rename_i x k hcode
        obtain ⟨-, rfl⟩ := Prod.mk.inj (Option.some.inj h)
        exact .inr (.inl ⟨x, k, hcode, rfl⟩)
      · rename_i j k _ _ hcode
        obtain ⟨e, he, hes⟩ := Option.map_eq_some_iff.mp h
        obtain ⟨-, rfl⟩ := Prod.mk.inj hes
        obtain ⟨hu, hv⟩ := Shared.exec_cases (.go tid answer) he
        exact .inr (.inr ⟨j, k, e.2.2, e.1, e.2.1, hcode, hu, hv, rfl⟩)
  | call tid c =>
    simp only [step] at h
    split at h
    · cases h
    · rename_i w hw
      refine ⟨w, hw, ?_⟩
      split at h
      · rename_i k hcode
        obtain ⟨-, rfl⟩ := Prod.mk.inj (Option.some.inj h)
        refine .inr (.inr ⟨.user, k, c.code ++ [.user], s.shared, w.result, hcode,
          .call tid c rfl, id, ?_⟩)
        rw [hcode, List.append_assoc]
        rfl
      · cases h
  | leave tid =>
    simp only [step] at h
    split at h
    · cases h
    · rename_i w hw
      refine ⟨w, hw, ?_⟩
      split at h
      · rename_i k hcode
        obtain ⟨-, rfl⟩ := Prod.mk.inj (Option.some.inj h)
        exact .inr (.inr ⟨.user, k, [], s.shared, w.result, hcode, .done _ (by simp) (by simp), id,
          rfl⟩)
      · cases h

/-- **An interruption**: the thread goes on, as if with the semaphore it has not taken. -/
theorem interrupt_cases {tid : ℕ} {o : Unit} (h : s.interrupt tid = some (o, t)) :
    ∃ w, s.threads[tid]? = some w ∧
      ((∃ x k, w.code = .semWait x :: k ∧ s.value x = 0 ∧
          t = { s with threads := s.threads.set tid ⟨k, x :: w.held, w.result⟩ }) ∨
        ∃ k, w.code = .waitEvent :: k ∧
          t = { s with threads := s.threads.set tid ⟨k, w.held, w.result⟩ }) := by
  simp only [interrupt] at h
  split at h
  · cases h
  · rename_i w hw
    refine ⟨w, hw, ?_⟩
    split at h
    · rename_i x k hcode
      split_ifs at h with hzero
      obtain ⟨-, rfl⟩ := Prod.mk.inj (Option.some.inj h)
      exact .inl ⟨x, k, hcode, hzero, rfl⟩
    · rename_i k hcode
      split_ifs at h
      obtain ⟨-, rfl⟩ := Prod.mk.inj (Option.some.inj h)
      exact .inr ⟨k, hcode, rfl⟩
    · cases h

end Locks

end SmIpc.Sm
