import SmIpc.Sm.LocksThreads

/-! # The threads of the semaphores refine the system

Every run of `Locks` is matched by a run of `Sys`: a section counts where it touches the shared memory, and
every other instruction is answered by no step.

* `Sim.goTicker` — an instruction of `sm_ticker`.
* `Sim.step` — one step of a thread, which reads and frees no node that was freed.
* `locks_refine_system` — whole runs, with the messages handed to `run_sm`, in order. -/

namespace SmIpc.Sm

namespace Sim

variable {e : Bool} {L : Locks} {S T : Sys} {w w' : Worker} {tid : ℕ} {sh : Shared} {value : Sem → ℕ}

/-! ## `sm_ticker` -/

/-- **`sm_ticker` moves.** -/
theorem moveTicker (h : Sim e L S) (hw : L.threads[1]? = some w)
    (hinv : Locks.Inv ⟨sh, value, L.threads.set 1 w'⟩) (hwf : T.Wf) (hdef : T.undefined = false)
    (hwin : sh.windows = L.shared.windows ∧ T.windows = S.windows)
    (hqueue : T.q = sh.q.addTokens (L.threads.countP Worker.popping))
    (hview : ∀ tid, T.view tid = S.view tid) (htick : Ticking sh.ticks w' T) :
    Sim e ⟨sh, value, L.threads.set 1 w'⟩ T := by
  have hlt : 1 < L.threads.length := (List.getElem?_eq_some_iff.mp hw).1
  obtain ⟨w₁, hw₁, hticking⟩ := h.ticker
  obtain rfl := Option.some.inj (hw.symm.trans hw₁)
  have hpop : w'.popping = w.popping := htick.pos.not_popping.trans hticking.pos.not_popping.symm
  refine ⟨hinv, hwf, hdef, ?_, ?_, ⟨w', List.getElem?_set_self hlt, htick⟩, ?_, ?_⟩
  · rw [hwin.1, hwin.2, h.windows]
  · rw [tokens_set hw hpop]
    exact hqueue
  · intro tid v hne hv
    rw [List.getElem?_set_ne (Ne.symm hne)] at hv
    rw [hview tid]
    exact h.threads tid v hne hv
  · intro tid habs
    rw [hview tid]
    refine h.absent tid (habs.imp_right fun hnone => ?_)
    by_cases htid : 1 = tid
    · subst htid
      rw [List.getElem?_set_self hlt] at hnone
      cases hnone
    · rwa [List.getElem?_set_ne htid] at hnone

/-- The step of `sm_ticker` is answered by none. -/
theorem stutterTicker (h : Sim e L S) (hw : L.threads[1]? = some w)
    (hinv : Locks.Inv ⟨sh, value, L.threads.set 1 w'⟩) (hwin : sh.windows = L.shared.windows)
    (hqueue : sh.q = L.shared.q) (hpos : TickerAt sh.ticks S.ticks S.ticker w') :
    S.Matched e none ⟨sh, value, L.threads.set 1 w'⟩ := by
  obtain ⟨w₁, hw₁, hticking⟩ := h.ticker
  refine ⟨S, .inl ⟨rfl, rfl⟩, h.moveTicker hw hinv h.wf h.defined ⟨hwin, rfl⟩ ?_ (fun _ => rfl)
    ⟨hpos, hticking.free, hticking.busy⟩⟩
  rw [hqueue]
  exact h.queue

/-- The step of `sm_ticker` is answered by one of the system. -/
theorem commitTicker (h : Sim e L S) (hw : L.threads[1]? = some w)
    (hinv : Locks.Inv ⟨sh, value, L.threads.set 1 w'⟩) {i : SysStep} (hact : S.act i = some (.silent, T))
    (hi : i.Allowed e) (hnow : T.now = S.now) (hdef : T.undefined = false)
    (hwin : sh.windows = L.shared.windows ∧ T.windows = S.windows)
    (hqueue : T.q = sh.q.addTokens (L.threads.countP Worker.popping))
    (hview : ∀ tid, T.view tid = S.view tid) (htick : Ticking sh.ticks w' T) :
    S.Matched e none ⟨sh, value, L.threads.set 1 w'⟩ := by
  obtain ⟨hanswers, hacts⟩ := Sys.answers_of_act h.defined hact hnow hi
  exact ⟨T.tick, hanswers, h.moveTicker hw hinv (h.wf.acts hacts) hdef hwin hqueue hview
    ⟨htick.pos, htick.free, htick.busy⟩⟩

/-- `sm_ticker` takes or releases a semaphore. -/
theorem semTicker (h : Sim e L S) (hw : L.threads[1]? = some w) {j : Instr} {k : List Instr}
    {held : List Sem} (hcode : w.code = j :: k)
    (hinv : Locks.Inv ⟨L.shared, value, L.threads.set 1 ⟨k, held, w.result⟩⟩) (hj : Moves w.held held j)
    (hpos : ∀ x, j = .semWait x → 0 < L.value x) :
    S.Matched e none ⟨L.shared, value, L.threads.set 1 ⟨k, held, w.result⟩⟩ := by
  obtain ⟨w₁, hw₁, hticking⟩ := h.ticker
  obtain rfl := Option.some.inj (hw.symm.trans hw₁)
  rcases hticking.pos.moves hcode hj with hstay | ⟨hpc, rfl, rfl, hticks⟩ | ⟨hpc, rfl, rfl, hticks⟩
  · exact h.stutterTicker hw hinv rfl rfl hstay
  · -- a round begins: no thread is stuck with the semaphore
    have hnone : ∀ tid, .blocked ∉ S.threads tid := by
      intro tid hb
      obtain ⟨v, hv, hstuck⟩ := h.stuck_of_blocked hb
      have hzero := h.inv.value_of_stuck (List.mem_of_getElem? hv) hstuck
      have := hpos .tickId rfl
      omega
    have hsem : S.semTick = 1 := hticking.free hpc hnone
    have hheld : Sem.tickId ∈ held := by
      rcases hj with ⟨x, hx, rfl⟩ | ⟨x, hx, -⟩
      · obtain rfl : Sem.tickId = x := by simpa using hx
        exact List.mem_cons_self
      · cases hx
    have hact : S.act .tickStart =
        some (.silent, { S with ticker := .looking 0, semTick := S.semTick - 1 }) :=
      if_pos ⟨hpc, by omega⟩
    refine h.commitTicker hw hinv hact trivial rfl h.defined ⟨rfl, rfl⟩ h.queue (fun _ => rfl) ⟨?_, ?_, ?_⟩
    · exact .look hheld (Nat.zero_le _) rfl hticks
    · intro hdelay
      cases hdelay
    · exact fun _ => by simp [hsem]
  · have hsem : S.semTick = 0 := hticking.busy (by rw [hpc]; simp)
    have hact : S.act .tickEnd = some (.silent, { S with ticker := .delay, semTick := S.semTick + 1 }) :=
      if_pos hpc
    refine h.commitTicker hw hinv hact trivial rfl h.defined ⟨rfl, rfl⟩ h.queue (fun _ => rfl) ⟨?_, ?_, ?_⟩
    · exact .idle rfl hticks
    · exact fun _ _ => by simp [hsem]
    · exact fun hbusy => absurd rfl hbusy

/-- Inside a round nothing is said about the semaphore but that `sm_ticker` has it. -/
theorem inRound {ticks ticks' : TickList} (h : Ticking ticks w S) (hS : S.ticker ≠ .delay)
    (hT : T.ticker ≠ .delay) (hsem : T.semTick = S.semTick) (hpos : TickerAt ticks' T.ticks T.ticker w') :
    Ticking ticks' w' T :=
  ⟨hpos, fun hdelay => absurd hdelay hT, fun _ => hsem.trans (h.busy hS)⟩

/-- `sm_ticker` is done with a slot. -/
theorem tickPass (h : Sim e L S) (hw : L.threads[1]? = some w) {i : ℕ} (hpc : S.ticker = .looking i)
    (hi : i < smallwinNticks) {slot : TickMsg}
    (hlook : Sm.tickLook S.q (S.ticks i) i = some (some slot))
    (hinv : Locks.Inv ⟨sh, value, L.threads.set 1 w'⟩) (hwin : sh.windows = L.shared.windows)
    (hqueue : sh.q = L.shared.q)
    (hpos : TickerAt sh.ticks (Function.update S.ticks i slot) (.looking (i + 1)) w') :
    S.Matched e none ⟨sh, value, L.threads.set 1 w'⟩ := by
  obtain ⟨w₁, -, hticking⟩ := h.ticker
  have hact : S.act .tickLook = some (.silent, { S with
      ticks := Function.update S.ticks i slot
      ticker := .looking (i + 1) }) := by
    simp only [Sys.act, hpc, if_pos hi, hlook]
  refine h.commitTicker hw hinv hact trivial rfl h.defined ⟨hwin, rfl⟩ ?_ (fun _ => rfl)
    (inRound hticking (by rw [hpc]; simp) (by simp) rfl hpos)
  rw [hqueue]
  exact h.queue

/-- `sm_ticker` goes on to send. -/
theorem tickDue (h : Sim e L S) (hw : L.threads[1]? = some w) {i : ℕ} (hpc : S.ticker = .looking i)
    (hi : i < smallwinNticks) (hlook : Sm.tickLook S.q (S.ticks i) i = some none)
    (hinv : Locks.Inv ⟨L.shared, value, L.threads.set 1 w'⟩)
    (hpos : TickerAt L.shared.ticks S.ticks (.sending i) w') :
    S.Matched e none ⟨L.shared, value, L.threads.set 1 w'⟩ := by
  obtain ⟨w₁, -, hticking⟩ := h.ticker
  have hact : S.act .tickLook = some (.silent, { S with ticker := .sending i }) := by
    simp only [Sys.act, hpc, if_pos hi, hlook]
  exact h.commitTicker hw hinv hact trivial rfl h.defined ⟨rfl, rfl⟩ h.queue (fun _ => rfl)
    (inRound hticking (by rw [hpc]; simp) (by simp) rfl hpos)

/-- **One instruction of `sm_ticker`.** -/
theorem goTicker (h : Sim e L S) {answer : Answer} {o : Unit} {L' : Locks}
    (hs : Locks.step L (.go 1 answer) = some (o, L')) : S.Matched e (L.entering (.go 1 answer)) L' := by
  have hinv := (h.inv.step hs).1
  obtain ⟨w, j, k, hw, hcode, hcases⟩ := Locks.go_cases hs
  have hnext : L.next (.go 1 answer) = some j := by simp [Locks.next, hw, hcode]
  rcases hcases with ⟨value, held, rfl, hmoves, hpos⟩ | ⟨hj, sh, r, p, hexec, rfl⟩
  · rw [Locks.entering_of_isSem hnext hmoves.isSem]
    exact h.semTicker hw hcode hinv hmoves hpos
  · obtain ⟨w₁, hw₁, hticking⟩ := h.ticker
    obtain rfl := Option.some.inj (hw.symm.trans hw₁)
    have hpos := hticking.pos
    have hok := h.inv.ok_of_head hw hcode hj
    simp only [Locks.entering, hnext]
    generalize hpc : S.ticker = pc at hpos
    generalize hS : S.ticks = ticks' at hpos
    cases hpos with
    | idle hcode' hticks =>
      obtain ⟨rfl, rfl⟩ := List.cons.inj (hcode.symm.trans hcode')
      cases hexec
      exact h.stutterTicker hw hinv rfl rfl (by rw [hpc, hS]; exact .start rfl hticks)
    | start hcode' hticks =>
      obtain ⟨rfl, -⟩ := List.cons.inj (hcode.symm.trans hcode')
      cases hj
    | @look _ i hheld hi hcode' hticks =>
      obtain ⟨rfl, rfl⟩ := List.cons.inj (hcode.symm.trans hcode')
      rw [hticks] at hS
      by_cases hlt : i < smallwinNticks
      · simp only [Shared.exec, if_pos hlt] at hexec
        by_cases hhsm : (L.shared.ticks i).hsm = 0
        · rw [if_pos hhsm] at hexec
          cases hexec
          have hlook : Sm.tickLook S.q (S.ticks i) i = some (some (S.ticks i)) := by
            rw [Sm.tickLook, hS, if_pos hhsm]
          apply h.tickPass hw hpc hlt hlook hinv rfl rfl
          rw [Function.update_eq_self, hS]
          exact .look hheld hlt rfl rfl
        · rw [if_neg hhsm] at hexec
          by_cases hdue : (L.shared.ticks i).IsDue
          · rw [if_pos hdue] at hexec
            cases hexec
            apply h.stutterTicker hw hinv rfl rfl
            rw [hpc, hS]
            exact .ask (X := [.semWait .access]) hheld hlt (.wait (by decide) (.nil _)) hhsm hdue rfl rfl
          · rw [if_neg hdue] at hexec
            cases hexec
            have hlook : Sm.tickLook S.q (S.ticks i) i = some (some (S.ticks i).counted) := by
              rw [Sm.tickLook, hS, if_neg hhsm, if_neg hdue]
            apply h.tickPass hw hpc hlt hlook hinv rfl rfl
            rw [hS]
            exact .look hheld hlt rfl rfl
      · simp only [Shared.exec, if_neg hlt] at hexec
        cases hexec
        obtain rfl : i = smallwinNticks := by omega
        exact h.stutterTicker hw hinv rfl rfl (by rw [hpc, hS]; exact .finish hheld rfl rfl)
    | finish _ hcode' _ =>
      obtain ⟨rfl, -⟩ := List.cons.inj (hcode.symm.trans hcode')
      cases hj
    | @ask _ i X hheld hi hX hhsm hdue hcode' hticks =>
      obtain ⟨rfl, rfl⟩ := hX.at_next (hcode.symm.trans hcode') hj
      rw [hticks] at hS
      obtain ⟨⟨_, _⟩, hx, he⟩ := Option.map_eq_some_iff.mp hexec
      obtain ⟨v, hv, hxe⟩ := Option.map_eq_some_iff.mp hx
      cases hxe
      cases he
      have hlook : Sm.tickLook S.q (S.ticks i) i =
          if v = 0 then some none else some (some (L.shared.ticks i).restarted) := by
        rw [Sm.tickLook, hS, if_neg hhsm, if_pos hdue, h.queue, Msgq.isMessageParam_addTokens, hv]
      by_cases hv0 : v = 0
      · rw [if_pos hv0] at hlook
        exact h.tickDue hw hpc hi hlook hinv
          (.missing (X := [.semPost .access]) hheld hi (.post (by decide) (.nil _)) hhsm hv0 rfl hS)
      · rw [if_neg hv0] at hlook
        apply h.tickPass hw hpc hi hlook hinv rfl rfl
        rw [hS]
        exact .queued (X := [.semPost .access]) hheld hi (.post (by decide) (.nil _)) hv0 rfl rfl
    | @missing _ i X hheld hi hX hhsm hresult hcode' hticks =>
      obtain ⟨rfl, rfl⟩ := hX.at_next (hcode.symm.trans hcode') hj
      simp only [Shared.exec, if_pos hresult] at hexec
      cases hexec
      apply h.stutterTicker hw hinv rfl rfl
      rw [hpc, hS]
      refine .send (X := [.semWait .system, .semWait .access]) hheld hi
        (.wait (by decide) (.wait (by decide) (.nil _))) ?_ hticks
      rw [sendMessage.code, pushMessage.code, if_neg (by exact hhsm)]
      rfl
    | @queued _ i X hheld hi hX hresult hcode' hticks =>
      obtain ⟨rfl, rfl⟩ := hX.at_next (hcode.symm.trans hcode') hj
      simp only [Shared.exec, if_neg hresult] at hexec
      cases hexec
      exact h.stutterTicker hw hinv rfl rfl (by rw [hpc, hS]; exact .restart hheld hi (.nil _) rfl hticks)
    | @send _ i X hheld hi hX hcode' hticks =>
      obtain ⟨rfl, rfl⟩ := hX.at_next (hcode.symm.trans hcode') hj
      rw [hticks] at hS
      simp only [Shared.exec, RingOp.exec, Option.map_some, Option.some.injEq, Prod.mk.injEq] at hexec
      obtain ⟨rfl, rfl, rfl⟩ := hexec
      -- `send_message` holds `sem_system`
      have hsystem : Sem.system ∈ w.held := by
        obtain ⟨-, rest, hrest, rest', rfl, -⟩ := hok
        rw [hrest]
        exact List.mem_cons_of_mem _ List.mem_cons_self
      have hfree : S.creating = none := h.creating_none hw hsystem (by rw [h.absent 1 (.inl rfl)])
      have hact : S.act .tickSend = some (.silent,
          { S.post ((S.ticks i).message i) (.tick (S.registered i)) with
            ticks := Function.update S.ticks i (S.ticks i).restarted
            ticker := .looking (i + 1) }) := by
        simp only [Sys.act, hpc, if_pos hfree]
      refine h.commitTicker hw hinv hact trivial rfl h.defined ⟨rfl, rfl⟩ ?_ (fun _ => rfl)
        (inRound hticking (by rw [hpc]; simp) (by simp) rfl ?_)
      · rw [Sys.post, hS, h.queue, Msgq.pushMessage_addTokens]
      · show TickerAt _ (Function.update S.ticks i (S.ticks i).restarted) _ _
        rw [hS]
        exact .restart (X := [.semPost .access, .semPost .system]) hheld hi
          (.post (by decide) (.post (by decide) (.nil _))) rfl rfl
    | @restart _ i X hheld hi hX hcode' hticks =>
      obtain ⟨rfl, rfl⟩ := hX.at_next (hcode.symm.trans hcode') hj
      cases hexec
      exact h.stutterTicker hw hinv rfl rfl (by rw [hpc, hS]; exact .look hheld hi rfl hticks)

/-! ## Runs -/

/-- The start. -/
theorem init (mem : ℤ → Message) (n : ℕ) : Sim e (Locks.init smallwinNmsgq mem n) (Sys.init mem) := by
  have hview : ∀ tid, (Sys.init mem).view tid = ⟨none, none, []⟩ := by
    intro tid
    simp [Sys.view, Sys.init]
  have hpop : (Locks.init smallwinNmsgq mem n).threads.countP Worker.popping = 0 := by
    apply List.countP_eq_zero.mpr
    intro w hw
    rcases Locks.init_threads hw with rfl | rfl | rfl <;> simp [Worker.popping, Worker.start] <;> rfl
  refine ⟨Locks.Inv.init (by decide) mem n, Sys.Wf.init mem, rfl, rfl, by rw [hpop]; rfl, ?_, ?_, ?_⟩
  · exact ⟨_, rfl, .idle rfl rfl, fun _ _ => rfl, fun hbusy => absurd rfl hbusy⟩
  · intro tid w hne hw
    rw [hview tid]
    refine .place ?_
    rcases tid with _ | _ | tid
    · obtain rfl := Option.some.inj hw
      exact .rest .base
    · exact absurd rfl hne
    · have hmem : w ∈ List.replicate n (Worker.start [.user]) := List.mem_of_getElem? hw
      rw [List.eq_of_mem_replicate hmem]
      exact .rest .base
  · intro tid _
    exact hview tid

/-- **One step of a thread**, of which the calls are those of clients and no freed node is read or freed. -/
theorem step (h : Sim e L S) {i : LockStep} (hi : ∀ tid c, i = .call tid c → c.ByClients e)
    (hfree : ¬ L.UsesFreed i) {o : Unit} {L' : Locks} (hs : Locks.step L i = some (o, L')) :
    S.Matched e (L.entering i) L' := by
  have huser : ∀ {w k}, L.threads[1]? = some w → w.code ≠ .user :: k := by
    intro w k hw
    obtain ⟨w₁, hw₁, hticking⟩ := h.ticker
    obtain rfl := Option.some.inj (hw.symm.trans hw₁)
    intro hcode
    cases hticking.pos.ofTicker hcode
  cases i with
  | go tid answer =>
    by_cases htid : tid = 1
    · subst htid
      exact h.goTicker hs
    · exact h.goThread htid hfree hs
  | call tid c =>
    refine h.call ?_ (hi tid c rfl) hs
    rintro rfl
    obtain ⟨w, k, hw, hcode, -⟩ := Locks.call_cases hs
    exact huser hw hcode
  | leave tid =>
    refine h.leaves ?_ hs
    rintro rfl
    obtain ⟨w, k, hw, hcode, -⟩ := Locks.leave_cases hs
    exact huser hw hcode

end Sim

/-- A step of one thread, of which the message is seen that `run_sm` reads `sm_proc` for. -/
def Locks.observed : StepMachine Locks LockStep (Option Message) :=
  fun s i => (Locks.step s i).map fun r => (s.entering i, r.2)

/-- The calls of the step are those of clients, and it reads and frees no node that was freed. -/
def Locks.Regular (e : Bool) (s : Locks) (i : LockStep) : Prop :=
  (∀ tid c, i = .call tid c → c.ByClients e) ∧ ¬ s.UsesFreed i

/-- **The threads refine the system.** Take the threads as `run_smallwin` starts them, with any number of
clients that leave popping and erasing to the scheduler. Every run of them, preempted between any two
instructions, that reads and frees no freed node, is matched by a run of the system: it is no longer, calls
`express_message` only if the threads do, hands the same messages to `run_sm` in the same order, and ends in
a state with the same windows, the same ring and tick table, and every thread where it stands (`Sim`). -/
theorem locks_refine_system (e : Bool) (mem : ℤ → Message) (n : ℕ) (steps : List LockStep)
    (hregular : StepMachine.Along Locks.observed (Locks.Regular e) (Locks.init smallwinNmsgq mem n) steps)
    (os : List (Option Message)) (L : Locks)
    (hrun : StepMachine.run Locks.observed (Locks.init smallwinNmsgq mem n) steps = some (os, L)) :
    ∃ sysSteps es S, StepMachine.run Sys.step (Sys.init mem) sysSteps = some (es, S) ∧ Sim e L S ∧
      (∀ i ∈ sysSteps, SysStep.Allowed e i) ∧ sysSteps.length ≤ steps.length ∧
      es.filterMap SysEvent.entered? = os.filterMap id := by
  refine StepMachine.run_simulates Locks.observed Sys.step (Locks.Regular e) (SysStep.Allowed e) (Sim e) id
    SysEvent.entered? ?_ (Sim.init mem n) hregular hrun
  intro L S i o L' h hi hs
  obtain ⟨⟨u, L''⟩, hstep, he⟩ := Option.map_eq_some_iff.mp hs
  obtain ⟨rfl, rfl⟩ := Prod.mk.inj he
  exact h.step hi.1 hi.2 hstep

/-- A client in `sm_create_smallwin` is preempted before it gives `message_queue.access` back, when the
scheduler already has the token of its message. -/
theorem locks_refine_system_create : ∃ os L,
    StepMachine.run Locks.observed (Locks.init smallwinNmsgq (fun _ => ⟨0, 0, 0, 0⟩) 1)
      (.call 2 (.smCreateSmallwin none) :: .go 2 ⟨none, []⟩ :: .go 2 ⟨some 16, []⟩ ::
        (List.replicate 2 (.go 2 ⟨none, []⟩) ++ List.replicate 2 (.go 0 ⟨none, []⟩) ++
          .go 2 ⟨none, []⟩ :: List.replicate 6 (.go 0 ⟨none, []⟩))) = some (os, L) ∧
      os.filterMap id = [⟨16, smmCreate, 0, 0⟩] ∧
      ∃ sysSteps es S, StepMachine.run Sys.step (Sys.init fun _ => ⟨0, 0, 0, 0⟩) sysSteps = some (es, S) ∧
        Sim false L S ∧ es.filterMap SysEvent.entered? = [⟨16, smmCreate, 0, 0⟩] := by
  obtain ⟨os, L, hrun, hos⟩ : ∃ os L,
      StepMachine.run Locks.observed (Locks.init smallwinNmsgq (fun _ => ⟨0, 0, 0, 0⟩) 1)
        (.call 2 (.smCreateSmallwin none) :: .go 2 ⟨none, []⟩ :: .go 2 ⟨some 16, []⟩ ::
          (List.replicate 2 (.go 2 ⟨none, []⟩) ++ List.replicate 2 (.go 0 ⟨none, []⟩) ++
            .go 2 ⟨none, []⟩ :: List.replicate 6 (.go 0 ⟨none, []⟩))) = some (os, L) ∧
        os.filterMap id = [⟨16, smmCreate, 0, 0⟩] := ⟨_, _, rfl, rfl⟩
  refine ⟨os, L, hrun, hos, ?_⟩
  have hmatched := fun hregular => locks_refine_system false _ 1 _ hregular os L hrun
  obtain ⟨sysSteps, es, S, hsys, hsim, -, -, hes⟩ := hmatched (by
    refine StepMachine.along_cons ⟨?_, id⟩ rfl ?_
    · rintro tid c hc
      cases hc
      trivial
    iterate 12 refine StepMachine.along_cons ⟨fun _ _ hc => (nomatch hc), id⟩ rfl ?_
    refine StepMachine.along_cons ⟨fun _ _ hc => (nomatch hc), ?_⟩ rfl trivial
    exact fun hfreed => nomatch hfreed)
  exact ⟨sysSteps, es, S, hsys, hsim, hes.trans hos⟩

end SmIpc.Sm
