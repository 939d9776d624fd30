import SmIpc.Sm.LocksSim

/-! # Steps of the scheduler and of the clients

Each section of a thread other than `sm_ticker` is one step of the system, taken where the section touches
the shared memory; `Sim.goPlace` puts them together. -/

namespace SmIpc.Sm

namespace Sim

variable {e : Bool} {L : Locks} {S T : Sys} {tid : ℕ} {w w' : Worker} {sh : Shared} {value : Sem → ℕ}

/-! ### Calls of clients and window procedures -/

theorem hsm_ne_of_windowAt (h : Sim e L S) {hsm : Hsm} {win : Win} (hat : S.windowAt hsm = some win) :
    hsm ≠ skInvalidHsm := by
  obtain ⟨hmem, hhsm⟩ := Sys.mem_of_windowAt hat
  rw [← hhsm]
  exact h.wf.nonzero win hmem

section Threads

variable {k K : List Instr} {r : MsgResult} {F : List Frame} {m : Message} {held : List Sem}
variable (h : Sim e L S) (hne : tid ≠ 1) (hw : L.threads[tid]? = some w) (hpop : w.popping = false)
include h hne hw hpop

/-- The call a thread is in returns, or gets no further, without a trace. -/
theorem untouched {hand : Option Hand} {C : List Instr} (hv : S.view tid = ⟨hand, none, F⟩)
    (hcore : core w'.code = C) (hnext : popsNext C = false) (hplace : Place e tid hand F C w'.result)
    (hinv : Locks.Inv ⟨L.shared, value, L.threads.set tid w'⟩) :
    S.Matched e none ⟨L.shared, value, L.threads.set tid w'⟩ := by
  have hpop' : w'.popping = w.popping := by
    rw [hpop, Worker.popping, hcore]
    exact hnext
  apply h.stutter hw hne hinv rfl rfl (by rw [tokens_set hw hpop']; exact h.queue)
  rw [hv]
  exact .place (hcore ▸ hplace)

/-- `push_message`. -/
theorem push (hv : S.view tid = ⟨none, none, F⟩) (hbelow : Below tid F (.user :: K)) (hk : core k = .user :: K)
    (hinv : Locks.Inv ⟨{ L.shared with q := (Sm.pushMessage L.shared.q m.hsm m.message m.param1 m.param2).2 },
      value, L.threads.set tid ⟨k, held, r⟩⟩) :
    S.Matched e none ⟨{ L.shared with q := (Sm.pushMessage L.shared.q m.hsm m.message m.param1 m.param2).2 },
      value, L.threads.set tid ⟨k, held, r⟩⟩ := by
  have hpop' : Worker.popping ⟨k, held, r⟩ = w.popping := by
    rw [hpop, Worker.popping, hk]
    rfl
  have hF : S.threads tid = F := congrArg View.stack hv
  have hact : S.act (.push tid m) = some (.silent, S.post m .sender) := if_pos (Sys.canCall hv hbelow)
  refine h.commit hw hne hinv hact trivial rfl h.defined h.windows ?_ (hF ▸ hbelow.not_blocked) rfl
    ⟨rfl, rfl, rfl⟩ (fun _ _ => rfl) ?_
  · rw [tokens_set hw hpop', Sys.post, h.queue, Msgq.pushMessage_addTokens]
  · rw [show (S.post m .sender).view tid = S.view tid from rfl, hv]
    refine .place (.rest ?_)
    rw [hk]
    exact hbelow

/-- `sm_create_smallwin` links a window. -/
theorem createWin {a : Hsm} {smProc : SmProc} (hv : S.view tid = ⟨none, none, F⟩)
    (hbelow : Below tid F (.user :: K)) (hk : core k = .user :: K) (hheld : w.held = [.system])
    (ha : a ≠ skInvalidHsm) (hat : L.shared.smProcAt a = none)
    (hinv : Locks.Inv ⟨{ L.shared with windows := L.shared.windows ++ [(a, smProc)] }, value,
      L.threads.set tid ⟨pushMessage.code ⟨a, smmCreate, 0, 0⟩ ++ k, w.held, r⟩⟩) :
    S.Matched e none ⟨{ L.shared with windows := L.shared.windows ++ [(a, smProc)] }, value,
      L.threads.set tid ⟨pushMessage.code ⟨a, smmCreate, 0, 0⟩ ++ k, w.held, r⟩⟩ := by
  have hsystem : Sem.system ∈ w.held := by
    rw [hheld]
    exact List.mem_singleton_self _
  have hfree : S.creating = none := h.creating_none hw hsystem (by rw [hv])
  have hnew : S.windowAt a = none := by
    rw [h.smProcAt] at hat
    exact Option.map_eq_none_iff.mp hat
  have hF : S.threads tid = F := congrArg View.stack hv
  have hact : S.act (.createLink tid (some a) smProc) = some (.silent, { S with
      windows := S.windows ++ [⟨a, S.now, smProc⟩]
      creating := some (tid, ⟨a, S.now, smProc⟩) }) := by
    simp [Sys.act, Sys.canCall hv hbelow, hfree, ha, hnew]
  have hpop' : Worker.popping ⟨pushMessage.code ⟨a, smmCreate, 0, 0⟩ ++ k, w.held, r⟩ = w.popping := by
    rw [hpop, Worker.popping, core_append, core_pushMessage ha]
    rfl
  refine h.commit hw hne hinv hact trivial rfl h.defined ?_ ?_ (hF ▸ hbelow.not_blocked) rfl
    ⟨rfl, rfl, rfl⟩ ?_ ?_
  · rw [List.map_append, ← h.windows]
    rfl
  · rw [tokens_set hw hpop']
    exact h.queue
  · refine Sys.view_creating rfl rfl ?_
    intro tid' htid
    rw [hfree]
    exact if_neg (Ne.symm htid)
  · have hview : Sys.view { S with
        windows := S.windows ++ [⟨a, S.now, smProc⟩]
        creating := some (tid, ⟨a, S.now, smProc⟩) } tid = ⟨none, some ⟨a, S.now, smProc⟩, F⟩ := by
      rw [← show (S.view tid).hand = none by rw [hv], ← hF]
      simp [Sys.view]
    rw [hview]
    -- in `push_message`, before the section
    refine At.linked (X := [.semWait .access]) (R := .semPost .access :: k)
      (.wait (by decide) (.nil _)) ?_ hsystem ?_
    · rw [pushMessage.code, if_neg ha]
      rfl
    · rw [core_semPost, hk]
      exact hbelow

/-- `express_message` finds the window. -/
theorem express {win : Win} (he : e = true) (hv : S.view tid = ⟨none, none, F⟩)
    (hbelow : Below tid F (.user :: K)) (hk : core k = .user :: K) (hat : S.windowAt m.hsm = some win)
    (hinv : Locks.Inv ⟨L.shared, value, L.threads.set tid ⟨.runSm m :: k, held, r⟩⟩) :
    S.Matched e none ⟨L.shared, value, L.threads.set tid ⟨.runSm m :: k, held, r⟩⟩ := by
  have hF : S.threads tid = F := congrArg View.stack hv
  have hact : S.act (.express tid m) =
      some (.silent, S.setStack tid (.running m win.born .tested :: S.threads tid)) := by
    simp [Sys.act, Sys.canCall hv hbelow, hat]
  have hpop' : Worker.popping ⟨.runSm m :: k, held, r⟩ = w.popping := by
    rw [hpop]
    rfl
  obtain ⟨hothers, hown⟩ := Sys.view_stack_of_hand (s := S)
    (t := S.setStack tid (.running m win.born .tested :: S.threads tid)) rfl rfl rfl
  refine h.commit hw hne hinv hact he rfl h.defined h.windows ?_ (hF ▸ hbelow.not_blocked) rfl ⟨rfl, rfl, rfl⟩
    hothers ?_
  · rw [tokens_set hw hpop']
    exact h.queue
  · rw [hown, hv, hF]
    refine .place ?_
    rw [core_cons rfl, hk]
    exact .tested (h.hsm_ne_of_windowAt hat) hbelow

/-- `sm_set_xtick`. -/
theorem setXtick {hsm : Hsm} {n100msec param2 : UInt32} {sysflag : Int32} (hv : S.view tid = ⟨none, none, F⟩)
    (hbelow : Below tid F (.user :: K)) (hk : core k = .user :: K) (hheld : w.held = [.tickId])
    (hinv : Locks.Inv ⟨{ L.shared with
      ticks := (smSetXtick L.shared.ticks hsm n100msec param2 sysflag).2 }, value,
      L.threads.set tid ⟨k, held, r⟩⟩) :
    S.Matched e none ⟨{ L.shared with ticks := (smSetXtick L.shared.ticks hsm n100msec param2 sysflag).2 },
      value, L.threads.set tid ⟨k, held, r⟩⟩ := by
  have hF : S.threads tid = F := congrArg View.stack hv
  have htick : Sem.tickId ∈ w.held := by
    rw [hheld]
    exact List.mem_singleton_self _
  obtain ⟨hpc, hticks, w₁, hw₁, hnew⟩ := h.between_rounds hw hne htick
  have hnone := h.none_blocked hw htick (hF ▸ hbelow.not_blocked)
  have hsem : S.semTick = 1 := by
    obtain ⟨w₁, -, hticking⟩ := h.ticker
    exact hticking.free hpc hnone
  have hpop' : Worker.popping ⟨k, held, r⟩ = w.popping := by
    rw [hpop, Worker.popping, hk]
    rfl
  have hact : S.act (.setXtick tid hsm n100msec param2 sysflag) = some (.silent, { S with
      ticks := (smSetXtick S.ticks hsm n100msec param2 sysflag).2
      registered := _ }) := if_pos ⟨Sys.canCall hv hbelow, by omega⟩
  refine h.commitTick hw hne hinv hact trivial rfl h.defined h.windows ?_ ?_ (fun _ _ => rfl) ?_
  · rw [tokens_set hw hpop']
    exact h.queue
  · intro v hv₁ _
    obtain rfl := Option.some.inj (hw₁.symm.trans hv₁)
    refine ⟨?_, fun _ _ => hsem, fun hbusy => absurd hpc hbusy⟩
    show TickerAt _ (smSetXtick S.ticks hsm n100msec param2 sysflag).2 S.ticker _
    rw [hpc, hticks]
    exact hnew _
  · refine hv ▸ .place (.rest ?_)
    rw [hk]
    exact hbelow

/-- `sm_destroy_tick`, up to its second `sk_sem_lock`. -/
theorem destroyTick {htick : ℤ} (hv : S.view tid = ⟨none, none, F⟩) (hbelow : Below tid F (.user :: K))
    (hheld : w.held = [.tickId])
    (hinv : Locks.Inv ⟨{ L.shared with ticks := smDestroyTick L.shared.ticks htick }, value,
      L.threads.set tid ⟨.semWait .tickId :: k, w.held, r⟩⟩) (hk : core k = .user :: K) :
    S.Matched e none ⟨{ L.shared with ticks := smDestroyTick L.shared.ticks htick }, value,
      L.threads.set tid ⟨.semWait .tickId :: k, w.held, r⟩⟩ := by
  have hF : S.threads tid = F := congrArg View.stack hv
  have hmem : Sem.tickId ∈ w.held := by
    rw [hheld]
    exact List.mem_singleton_self _
  obtain ⟨hpc, hticks, w₁, hw₁, hnew⟩ := h.between_rounds hw hne hmem
  have hnone := h.none_blocked hw hmem (hF ▸ hbelow.not_blocked)
  have hsem : S.semTick = 1 := by
    obtain ⟨w₁, -, hticking⟩ := h.ticker
    exact hticking.free hpc hnone
  have hpop' : Worker.popping ⟨.semWait .tickId :: k, w.held, r⟩ = w.popping := by
    rw [hpop, Worker.popping, core_semWait, hk]
    rfl
  have hact : S.act (.destroyTick tid htick) = some (.silent,
      { S.setStack tid (.blocked :: S.threads tid) with
        ticks := smDestroyTick S.ticks htick
        semTick := S.semTick - 1 }) := if_pos ⟨Sys.canCall hv hbelow, by omega⟩
  obtain ⟨hothers, hown⟩ := Sys.view_stack_of_hand (s := S)
    (t := { S.setStack tid (.blocked :: S.threads tid) with
        ticks := smDestroyTick S.ticks htick
        semTick := S.semTick - 1 }) rfl rfl rfl
  refine h.commitTick hw hne hinv hact trivial rfl h.defined h.windows ?_ ?_ hothers ?_
  · rw [tokens_set hw hpop']
    exact h.queue
  · intro v hv₁ _
    obtain rfl := Option.some.inj (hw₁.symm.trans hv₁)
    refine ⟨?_, fun _ hall => ?_, fun hbusy => absurd hpc hbusy⟩
    · show TickerAt _ (smDestroyTick S.ticks htick) S.ticker _
      rw [hpc, hticks]
      exact hnew _
    · refine absurd ?_ (hall tid)
      show Frame.blocked ∈ Function.update S.threads tid (.blocked :: S.threads tid) tid
      rw [Function.update_self]
      exact List.mem_cons_self
  · rw [hown, hv]
    exact .blocked ⟨hheld, k, rfl⟩

end Threads

/-! ### Activations -/

section Activations

variable {k K : List Instr} {r : MsgResult} {F : List Frame} {m : Message} {born : ℕ}
variable (h : Sim e L S) (hne : tid ≠ 1) (hw : L.threads[tid]? = some w) (hpop : w.popping = false)
include h hne hw hpop

/-- A window procedure returns. -/
theorem leave (hv : S.view tid = ⟨none, none, .running m born .inProc :: F⟩) (hbelow : Below tid F K)
    (hk : core w'.code = closing m ++ K) (hpop' : w'.popping = false)
    (hinv : Locks.Inv ⟨L.shared, value, L.threads.set tid w'⟩) :
    S.Matched e none ⟨L.shared, value, L.threads.set tid w'⟩ := by
  have hF : S.threads tid = .running m born .inProc :: F := congrArg View.stack hv
  have hlink := Sys.linking_eq_none (s := S) (by rw [hv])
  have hact : S.act (.leave tid) = some (.silent, S.setStack tid (Sys.afterProc m born ++ F)) := by
    simp only [Sys.act, hF]
    exact if_neg hlink
  obtain ⟨hothers, hown⟩ := Sys.view_stack_of_hand (s := S)
    (t := S.setStack tid (Sys.afterProc m born ++ F)) rfl rfl rfl
  have hnot : Frame.blocked ∉ S.threads tid := by
    rw [hF]
    exact hbelow.not_blocked_cons _ _ _
  refine h.commit hw hne hinv hact trivial rfl h.defined h.windows ?_ hnot rfl ⟨rfl, rfl, rfl⟩ hothers ?_
  · rw [tokens_set hw (hpop'.trans hpop.symm)]
    exact h.queue
  · rw [hown, hv]
    refine .place ?_
    rw [hk]
    exact .afterProc hbelow m born

/-- `run_sm` of `express_message` reads `sm_proc`. -/
theorem enter {win : Win} (hv : S.view tid = ⟨none, none, .running m born .tested :: F⟩)
    (hbelow : Below tid F K) (hm : m.hsm ≠ skInvalidHsm) (hat : S.windowAt m.hsm = some win)
    (hk : core w'.code = (if win.smProc.isSome then .user :: closing m else closing m) ++ K)
    (hpop' : w'.popping = false) (hinv : Locks.Inv ⟨L.shared, value, L.threads.set tid w'⟩) :
    S.Matched e (some m) ⟨L.shared, value, L.threads.set tid w'⟩ := by
  have hF : S.threads tid = .running m born .tested :: F := congrArg View.stack hv
  have hact : S.act (.enter tid) = some (.entered m none born (some win),
      { S.setStack tid (Sys.afterRead m born (some win) ++ F) with undefined := false }) := by
    simp [Sys.act, hF, hat]
  obtain ⟨hothers, hown⟩ := Sys.view_stack_of_hand (s := S)
    (t := { S.setStack tid (Sys.afterRead m born (some win) ++ F) with undefined := false }) rfl rfl rfl
  have hnot : Frame.blocked ∉ S.threads tid := by
    rw [hF]
    exact hbelow.not_blocked_cons _ _ _
  refine h.commit hw hne hinv hact trivial rfl rfl h.windows ?_ hnot rfl ⟨rfl, rfl, rfl⟩ hothers ?_
  · rw [tokens_set hw (hpop'.trans hpop.symm)]
    exact h.queue
  · rw [hown, hv]
    refine .place ?_
    rw [hk]
    exact .afterRead hbelow hm born win

/-- `sm_destroy_smallwin` of `default_sm`. -/
theorem destroy {win : Win} (hv : S.view tid = ⟨none, none, .running m born .returned :: F⟩)
    (hbelow : Below tid F K) (hat : S.windowAt m.hsm = some win) (hheld : .system ∈ w.held)
    (hk : core w'.code = .ring (.eraseMessage m.hsm) :: K)
    (hinv : Locks.Inv ⟨{ L.shared with windows := L.shared.windows.filter fun w => w.1 ≠ m.hsm }, value,
      L.threads.set tid w'⟩) :
    S.Matched e none ⟨{ L.shared with windows := L.shared.windows.filter fun w => w.1 ≠ m.hsm }, value,
      L.threads.set tid w'⟩ := by
  have hF : S.threads tid = .running m born .returned :: F := congrArg View.stack hv
  have hfree : S.creating = none := h.creating_none hw hheld (by rw [hv])
  have hact : S.act (.destroy tid) = some (.destroyed m.hsm born (some win),
      { S.setStack tid (.running m born .destroyed :: F) with
        windows := S.windows.filter fun w => w.hsm ≠ m.hsm
        undefined := false }) := by
    simp [Sys.act, hF, hat, hfree]
  have hpop' : w'.popping = w.popping := by
    rw [hpop, Worker.popping, hk]
    rfl
  obtain ⟨hothers, hown⟩ := Sys.view_stack_of_hand (s := S)
    (t := { S.setStack tid (.running m born .destroyed :: F) with
        windows := S.windows.filter fun w => w.hsm ≠ m.hsm
        undefined := false }) rfl rfl rfl
  have hnot : Frame.blocked ∉ S.threads tid := by
    rw [hF]
    exact hbelow.not_blocked_cons _ _ _
  refine h.commit hw hne hinv hact trivial rfl rfl ?_ ?_ hnot rfl ⟨rfl, rfl, rfl⟩ hothers ?_
  · rw [h.windows, List.filter_map]
    rfl
  · rw [tokens_set hw hpop']
    exact h.queue
  · rw [hown, hv]
    refine .place ?_
    rw [hk]
    exact .destroyed hbelow

/-- `erase_message` of `default_sm`. -/
theorem erase (hv : S.view tid = ⟨none, none, .running m born .destroyed :: F⟩) (hbelow : Below tid F K)
    (hk : core w'.code = K)
    (hinv : Locks.Inv ⟨{ L.shared with q := Sm.eraseMessage L.shared.q m.hsm }, value,
      L.threads.set tid w'⟩) :
    S.Matched e none ⟨{ L.shared with q := Sm.eraseMessage L.shared.q m.hsm }, value,
      L.threads.set tid w'⟩ := by
  have hF : S.threads tid = .running m born .destroyed :: F := congrArg View.stack hv
  have hact : S.act (.erase tid) =
      some (.silent, { S.setStack tid F with q := Sm.eraseMessage S.q m.hsm }) := by
    simp [Sys.act, hF]
  have hpop' : w'.popping = w.popping := by
    rw [hpop, Worker.popping, hk]
    exact hbelow.not_popsNext
  obtain ⟨hothers, hown⟩ := Sys.view_stack_of_hand (s := S)
    (t := { S.setStack tid F with q := Sm.eraseMessage S.q m.hsm }) rfl rfl rfl
  have hnot : Frame.blocked ∉ S.threads tid := by
    rw [hF]
    exact hbelow.not_blocked_cons _ _ _
  refine h.commit hw hne hinv hact trivial rfl h.defined h.windows ?_ hnot rfl ⟨rfl, rfl, rfl⟩ hothers ?_
  · show Sm.eraseMessage S.q m.hsm = _
    rw [tokens_set hw hpop', h.queue, Msgq.eraseMessage_addTokens]
  · rw [hown, hv]
    refine .place ?_
    rw [hk]
    exact .rest hbelow

end Activations

/-! ### The scheduler, and the end of `sm_create_smallwin` -/

/-- A message comes with a value that is not 0. -/
theorem popSection_value (q : Msgq) : ∀ m, (popSection q).1.2 = some m → (popSection q).1.1 ≠ 0 := by
  intro m hm
  unfold popSection at hm ⊢
  split at hm
  · rename_i hne
    rw [if_pos hne]
    exact Int.one_ne_zero
  · cases hm

section Scheduler

variable {k K R : List Instr} {r : MsgResult} {F : List Frame} {m : Message}
variable (h : Sim e L S)
include h

/-- `wait_event` returns; the system still has the token. -/
theorem waitEvent (hw : L.threads[0]? = some w) (hv : S.view 0 = ⟨none, none, []⟩) (hpop : w.popping = false)
    (hk : core w'.code = [.ring .pop, .popped, .scheduler]) {q : Msgq}
    (hwait : Sm.waitEvent L.shared.q = some q)
    (hinv : Locks.Inv ⟨{ L.shared with q := q }, value, L.threads.set 0 w'⟩) :
    S.Matched e none ⟨{ L.shared with q := q }, value, L.threads.set 0 w'⟩ := by
  have hpop' : w'.popping = true := by
    rw [Worker.popping, hk]
    rfl
  have hset := ThreadPool.countP_set Worker.popping hw w'
  rw [hpop, hpop'] at hset
  have hq : L.shared.q.semEvent ≠ 0 ∧ q = { L.shared.q with semEvent := L.shared.q.semEvent - 1 } := by
    rw [Sm.waitEvent] at hwait
    split at hwait
    · cases hwait
    · rename_i hpos
      exact ⟨hpos, (Option.some.inj hwait).symm⟩
  obtain ⟨hpos, rfl⟩ := hq
  refine h.stutter hw (by decide) hinv rfl rfl ?_ ?_
  · have hcount : L.shared.q.semEvent + L.threads.countP Worker.popping =
        L.shared.q.semEvent - 1 + (L.threads.set 0 w').countP Worker.popping := by
      simp only [Bool.false_eq_true, if_false, if_true] at hset
      omega
    rw [h.queue, Msgq.addTokens, Msgq.addTokens, hcount]
  · rw [hv]
    refine .place ?_
    rw [hk]
    exact .popping rfl

/-- `pop_message` takes the message. -/
theorem pop (hw : L.threads[0]? = some w) (hv : S.view 0 = ⟨none, none, []⟩) (hpop : w.popping = true)
    (hk : core w'.code = [.popped, .scheduler])
    (hr : w'.result = ⟨(popSection L.shared.q).1.1, (popSection L.shared.q).1.2⟩)
    (hinv : Locks.Inv ⟨{ L.shared with q := (popSection L.shared.q).2 }, value, L.threads.set 0 w'⟩) :
    S.Matched e none ⟨{ L.shared with q := (popSection L.shared.q).2 }, value, L.threads.set 0 w'⟩ := by
  have hpop' : w'.popping = false := by
    rw [Worker.popping, hk]
    rfl
  have hset := ThreadPool.countP_set Worker.popping hw w'
  rw [hpop, hpop'] at hset
  simp only [Bool.false_eq_true, if_false, if_true, Nat.add_zero] at hset
  have hF : S.threads 0 = [] := congrArg View.stack hv
  have hhand : S.hand = none := congrArg View.hand hv
  -- the system takes the token here
  have hpopMessage : popMessage S.q = some ((popSection L.shared.q).1,
      (popSection L.shared.q).2.addTokens ((L.threads.set 0 w').countP Worker.popping)) := by
    have hwait : Sm.waitEvent S.q =
        some (L.shared.q.addTokens ((L.threads.set 0 w').countP Worker.popping)) := by
      rw [h.queue, Sm.waitEvent, Msgq.addTokens, Msgq.addTokens, ← hset]
      exact if_neg (by simp)
    rw [popMessage, hwait, Option.map_some, Msgq.popSection_addTokens]
  have hstay : S.threads = Function.update S.threads 0 [] := by rw [← hF, Function.update_eq_self]
  have hnot : Frame.blocked ∉ S.threads 0 := by
    rw [hF]
    exact List.not_mem_nil
  have hvalue := popSection_value L.shared.q
  generalize popSection L.shared.q = sec at hinv hr hpopMessage hvalue ⊢
  obtain ⟨⟨v, msg⟩, q⟩ := sec
  cases msg with
  | none =>
    have hact : S.act .pop = some (.silent, { S with
        q := q.addTokens ((L.threads.set 0 w').countP Worker.popping) }) := by
      simp [Sys.act, hhand, hF, hpopMessage]
    refine h.commit hw (by decide) hinv hact trivial rfl h.defined h.windows rfl hnot rfl ⟨rfl, rfl, rfl⟩
      (fun _ _ => rfl) ?_
    show At e 0 (S.view 0) w'
    rw [hv]
    refine .place ?_
    rw [hk]
    exact .dropped rfl fun m hm => by rw [hr] at hm; cases hm
  | some m =>
    have hact : S.act .pop = some (.popped m (S.posts.headD ⟨0, .sender⟩), { S with
        q := q.addTokens ((L.threads.set 0 w').countP Worker.popping)
        posts := S.posts.tail
        hand := if m.hsm = skInvalidHsm then none else some ⟨m, S.posts.headD ⟨0, .sender⟩, none⟩ }) := by
      simp [Sys.act, hhand, hF, hpopMessage]
    obtain ⟨hothers, hown⟩ := Sys.view_stack (s := S) (t := { S with
        q := q.addTokens ((L.threads.set 0 w').countP Worker.popping)
        posts := S.posts.tail
        hand := if m.hsm = skInvalidHsm then none else some ⟨m, S.posts.headD ⟨0, .sender⟩, none⟩ })
      hstay rfl fun hne => absurd rfl hne
    refine h.commit hw (by decide) hinv hact trivial rfl h.defined h.windows rfl hnot rfl ⟨rfl, rfl, rfl⟩
      hothers ?_
    rw [hown, hv, if_pos rfl]
    by_cases hm : m.hsm = skInvalidHsm
    · rw [if_pos hm]
      refine .place ?_
      rw [hk]
      refine .dropped rfl fun m' hm' => ?_
      rw [hr] at hm'
      exact Option.some.inj hm' ▸ hm
    · rw [if_neg hm]
      refine .place ?_
      rw [hk]
      refine .popped rfl hm ?_ (by rw [hr])
      rw [hr]
      exact hvalue m rfl

/-- `sm_is_smallwin` for the message in hand. -/
theorem test {p : Post} (hw : L.threads[0]? = some w) (hv : S.view 0 = ⟨some ⟨m, p, none⟩, none, []⟩)
    (hm : m.hsm ≠ skInvalidHsm) (hpop : w.popping = false)
    (hk : core w'.code = (if (S.windowAt m.hsm).isSome then [.runSm m] else []) ++ [.scheduler])
    (hinv : Locks.Inv ⟨L.shared, value, L.threads.set 0 w'⟩) :
    S.Matched e none ⟨L.shared, value, L.threads.set 0 w'⟩ := by
  have hF : S.threads 0 = [] := congrArg View.stack hv
  have hhand : S.hand = some ⟨m, p, none⟩ := congrArg View.hand hv
  have hpop' : w'.popping = w.popping := by
    rw [hpop, Worker.popping, hk]
    split <;> rfl
  have hact : S.act .test = some (.silent,
      { S with hand := (S.windowAt m.hsm).map fun w => ⟨m, p, some w.born⟩ }) := by
    simp [Sys.act, hhand]
  have hstay : S.threads = Function.update S.threads 0 [] := by rw [← hF, Function.update_eq_self]
  have hnot : Frame.blocked ∉ S.threads 0 := by
    rw [hF]
    exact List.not_mem_nil
  obtain ⟨hothers, hown⟩ := Sys.view_stack (s := S)
    (t := { S with hand := (S.windowAt m.hsm).map fun w => ⟨m, p, some w.born⟩ }) hstay rfl
    fun hne => absurd rfl hne
  refine h.commit hw (by decide) hinv hact trivial rfl h.defined h.windows ?_ hnot rfl
    ⟨rfl, rfl, rfl⟩ hothers ?_
  · rw [tokens_set hw hpop']
    exact h.queue
  · rw [hown, hv, if_pos rfl]
    refine .place ?_
    rw [hk]
    cases hat : S.windowAt m.hsm with
    | none => exact .rest .base
    | some win => exact .found rfl hm

/-- `run_sm` of the scheduler reads `sm_proc`. -/
theorem enterHand {p : Post} {born : ℕ} {win : Win} (hw : L.threads[0]? = some w)
    (hv : S.view 0 = ⟨some ⟨m, p, some born⟩, none, []⟩) (hm : m.hsm ≠ skInvalidHsm)
    (hat : S.windowAt m.hsm = some win) (hpop : w.popping = false)
    (hk : core w'.code = (if win.smProc.isSome then .user :: closing m else closing m) ++ [.scheduler])
    (hpop' : w'.popping = false) (hinv : Locks.Inv ⟨L.shared, value, L.threads.set 0 w'⟩) :
    S.Matched e (some m) ⟨L.shared, value, L.threads.set 0 w'⟩ := by
  have hF : S.threads 0 = [] := congrArg View.stack hv
  have hhand : S.hand = some ⟨m, p, some born⟩ := congrArg View.hand hv
  have hact : S.act .enterHand = some (.entered m (some p) born (some win),
      { S.setStack 0 (Sys.afterRead m born (some win) ++ []) with hand := none, undefined := false }) := by
    simp [Sys.act, hhand, hat]
  have hnot : Frame.blocked ∉ S.threads 0 := by
    rw [hF]
    exact List.not_mem_nil
  obtain ⟨hothers, hown⟩ := Sys.view_stack (s := S)
    (t := { S.setStack 0 (Sys.afterRead m born (some win) ++ []) with hand := none, undefined := false })
    rfl rfl fun hne => absurd rfl hne
  refine h.commit hw (by decide) hinv hact trivial rfl rfl h.windows ?_ hnot rfl ⟨rfl, rfl, rfl⟩ hothers ?_
  · rw [tokens_set hw (hpop'.trans hpop.symm)]
    exact h.queue
  · rw [hown, hv, if_pos rfl]
    refine .place ?_
    rw [hk]
    exact .afterRead .base hm born win

/-- `sm_create_smallwin` pushes its message. -/
theorem createPush {win : Win} {held : List Sem} (hw : L.threads[tid]? = some w) (hne : tid ≠ 1)
    (hv : S.view tid = ⟨none, some win, F⟩) (hpop : w.popping = false) (hbelow : Below tid F (core R))
    (hinv : Locks.Inv ⟨{ L.shared with q := (Sm.pushMessage L.shared.q win.hsm smmCreate 0 0).2 }, value,
      L.threads.set tid ⟨R, held, r⟩⟩) :
    S.Matched e none ⟨{ L.shared with q := (Sm.pushMessage L.shared.q win.hsm smmCreate 0 0).2 }, value,
      L.threads.set tid ⟨R, held, r⟩⟩ := by
  have hF : S.threads tid = F := congrArg View.stack hv
  have hpop' : Worker.popping ⟨R, held, r⟩ = w.popping := by
    rw [hpop]
    exact hbelow.not_popsNext
  have hcreating : S.creating = some (tid, win) := by
    have hlink : (S.view tid).linking = some win := by rw [hv]
    simp only [Sys.view, Option.bind_eq_some_iff, Option.ite_none_right_eq_some, Option.some.injEq] at hlink
    obtain ⟨c, hc, rfl, rfl⟩ := hlink
    exact hc
  have hact : S.act (.createPush tid) = some (.created win,
      { S.post (Sys.createMsg win) (.creation win.born) with creating := none }) := by
    simp [Sys.act, hcreating]
  refine h.commit hw hne hinv hact trivial rfl h.defined h.windows ?_ (hF ▸ hbelow.not_blocked) rfl
    ⟨rfl, rfl, rfl⟩ ?_ ?_
  · show (Sm.pushMessage S.q win.hsm smmCreate 0 0).2 = _
    rw [tokens_set hw hpop', h.queue, Msgq.pushMessage_addTokens]
  · refine Sys.view_creating rfl rfl ?_
    intro tid' htid
    rw [hcreating]
    exact (if_neg (Ne.symm htid)).symm
  · have hview : Sys.view { S.post (Sys.createMsg win) (.creation win.born) with creating := none } tid =
        ⟨none, none, F⟩ := by
      rw [← show (S.view tid).hand = none by rw [hv], ← hF]
      rfl
    rw [hview]
    exact .place (.rest hbelow)

end Scheduler

/-! ### One step of a thread other than `sm_ticker` -/

/-- What `run_sm` leaves of itself when it has read `sm_proc` of a window. -/
theorem exec_runSm (h : Sim e L S) {m : Message} {win : Win} (hm : m.hsm ≠ skInvalidHsm)
    (hat : S.windowAt m.hsm = some win) {r r' : MsgResult} {answer : Answer} {p : List Instr}
    (hexec : L.shared.exec r answer (.runSm m) = some (sh, r', p)) :
    sh = L.shared ∧ core p = if win.smProc.isSome then .user :: closing m else closing m := by
  have hproc : L.shared.smProcAt m.hsm = some win.smProc := by rw [h.smProcAt, hat]; rfl
  rw [Shared.exec, if_neg hm, hproc] at hexec
  cases hwin : win.smProc with
  | none =>
    rw [hwin, if_pos rfl] at hexec
    obtain ⟨rfl, -, rfl⟩ : L.shared = sh ∧ r = r' ∧ defaultSm.code m = p := by simpa using hexec
    exact ⟨rfl, core_defaultSm hm⟩
  | some f =>
    rw [hwin, if_neg (by simp)] at hexec
    obtain ⟨rfl, -, rfl⟩ : L.shared = sh ∧ r = r' ∧ .user :: defaultSm.code m = p := by simpa using hexec
    exact ⟨rfl, by rw [core_cons rfl, core_defaultSm hm]; rfl⟩

/-- What follows a window procedure is not a section of `pop_message`. -/
theorem not_popsNext_closing {F : List Frame} {K : List Instr} {m : Message} (hbelow : Below tid F K) :
    popsNext (closing m ++ K) = false := by
  unfold closing
  split
  · rfl
  · exact hbelow.not_popsNext

theorem not_popsNext_read {F : List Frame} {K : List Instr} {m : Message} (hbelow : Below tid F K)
    (b : Bool) : popsNext ((if b then .user :: closing m else closing m) ++ K) = false := by
  split
  · rfl
  · exact not_popsNext_closing hbelow

/-- **The instruction of a call.** -/
theorem goCall (h : Sim e L S) (hne : tid ≠ 1) (hw : L.threads[tid]? = some w) {j : Instr} {k p K : List Instr}
    {r : MsgResult} {answer : Answer} (hok : Ok w.held (j :: k)) (hK : core k = .user :: K)
    (hpop : w.popping = popsNext (j :: .user :: K)) (hexec : L.shared.exec w.result answer j = some (sh, r, p))
    (hinv : Locks.Inv ⟨sh, L.value, L.threads.set tid ⟨p ++ k, w.held, r⟩⟩) {F : List Frame}
    (hv : S.view tid = ⟨none, none, F⟩) (hi : IsCall e j) (hbelow : Below tid F (.user :: K)) :
    S.Matched e none ⟨sh, L.value, L.threads.set tid ⟨p ++ k, w.held, r⟩⟩ := by
  cases hi with
  | push m =>
    simp only [Shared.exec, RingOp.exec, Option.map_some, Option.some.injEq, Prod.mk.injEq] at hexec
    obtain ⟨rfl, rfl, rfl⟩ := hexec
    exact h.push hne hw hpop hv hbelow hK hinv
  | isMessage hsm =>
    obtain ⟨⟨_, _⟩, hx, he⟩ := Option.map_eq_some_iff.mp hexec
    obtain ⟨v, -, hxe⟩ := Option.map_eq_some_iff.mp hx
    cases hxe
    cases he
    exact h.untouched hne hw hpop hv hK rfl (.rest hbelow) hinv
  | isMessageParam hsm message param1 param2 =>
    obtain ⟨⟨_, _⟩, hx, he⟩ := Option.map_eq_some_iff.mp hexec
    obtain ⟨v, -, hxe⟩ := Option.map_eq_some_iff.mp hx
    cases hxe
    cases he
    exact h.untouched hne hw hpop hv hK rfl (.rest hbelow) hinv
  | createWin smProc =>
    rw [Shared.exec] at hexec
    cases hmalloc : answer.malloc with
    | none =>
      rw [hmalloc] at hexec
      cases hexec
      exact h.untouched hne hw hpop hv hK rfl (.rest hbelow) hinv
    | some a =>
      simp only [hmalloc] at hexec
      split at hexec
      · cases hexec
      · rename_i hnew
        obtain ⟨ha, hat⟩ := not_or.mp hnew
        cases hexec
        exact h.createWin hne hw hpop hv hbelow hK hok.1 ha (by simpa using hat) hinv
  | isSmallwin he m =>
    rw [Shared.exec, h.smProcAt] at hexec
    cases hat : S.windowAt m.hsm with
    | none =>
      rw [hat] at hexec
      cases hexec
      exact h.untouched hne hw hpop hv hK rfl (.rest hbelow) hinv
    | some win =>
      rw [hat] at hexec
      cases hexec
      exact h.express hne hw hpop he hv hbelow hK hat hinv
  | setXtick hsm n100msec param2 sysflag =>
    cases hexec
    exact h.setXtick hne hw hpop hv hbelow hK hok.1 hinv
  | destroyTick htick =>
    obtain ⟨hheld, k', rfl⟩ := hok
    cases hexec
    exact h.destroyTick hne hw hpop hv hbelow hheld hinv hK

/-- **A thread at one of the places runs an instruction.** -/
theorem goPlace (h : Sim e L S) (hne : tid ≠ 1) (hw : L.threads[tid]? = some w) {j : Instr} {k p : List Instr}
    {r : MsgResult} {answer : Answer} (hcode : w.code = j :: k) (hj : j.isSem = false)
    (hfree : ¬ L.UsesFreed (.go tid answer)) (hexec : L.shared.exec w.result answer j = some (sh, r, p))
    (hinv : Locks.Inv ⟨sh, L.value, L.threads.set tid ⟨p ++ k, w.held, r⟩⟩) {hand : Option Hand}
    {F : List Frame} (hv : S.view tid = ⟨hand, none, F⟩) (hplace : Place e tid hand F (core w.code) w.result) :
    S.Matched e (L.entering (.go tid answer)) ⟨sh, L.value, L.threads.set tid ⟨p ++ k, w.held, r⟩⟩ := by
  have hnext : L.next (.go tid answer) = some j := by simp [Locks.next, hw, hcode]
  have hok := h.inv.ok_of_head hw hcode hj
  have hcore : core w.code = j :: core k := by rw [hcode, core_cons hj]
  rw [hcore] at hplace
  generalize hK : core k = K at hplace hcore
  have hpop : w.popping = popsNext (j :: K) := by rw [Worker.popping, hcore]
  simp only [Locks.entering, hnext]
  simp only [Locks.UsesFreed, hnext] at hfree
  cases hplace with
  | rest hbelow =>
    rcases hbelow.head with ⟨K', hK'⟩ | ⟨rfl, rfl, hC⟩
    · obtain ⟨rfl, -⟩ := List.cons.inj hK'
      cases hexec
    · obtain ⟨rfl, rfl⟩ := List.cons.inj hC
      obtain ⟨rfl, rfl, rfl⟩ : L.shared = sh ∧ w.result = r ∧ smallwinScheduler.code = p := by
        simpa [Shared.exec] using hexec
      refine h.untouched hne hw hpop hv ?_ ?_ (.waiting rfl) hinv
      · rw [core_append, hK]
        rfl
      · rfl
  | call hi hbelow =>
    have hmatched := h.goCall hne hw hok hK hpop hexec hinv hv hi hbelow
    cases hi <;> exact hmatched
  | @tested m born F _ _ hm hbelow =>
    obtain ⟨win, hat⟩ := h.exists_windowAt hfree
    obtain ⟨rfl, hp⟩ := h.exec_runSm hm hat hexec
    have hk : core (p ++ k) = (if win.smProc.isSome then .user :: closing m else closing m) ++ K := by
      rw [core_append, hp, hK]
    refine h.enter hne hw hpop hv hbelow hm hat hk ?_ hinv
    rw [Worker.popping, hk]
    exact not_popsNext_read hbelow _
  | @returned m born F K _ hbelow =>
    obtain ⟨win, hat⟩ := h.exists_windowAt hfree
    simp only [Shared.exec, h.smProcAt, hat, Option.map_some, Option.isSome_some, if_true] at hexec
    cases hexec
    have hheld : Sem.system ∈ w.held := by
      rw [hok.1]
      exact List.mem_singleton_self _
    exact h.destroy hne hw hpop hv hbelow hat hheld hK hinv
  | @destroyed m born F K _ hbelow =>
    simp only [Shared.exec, RingOp.exec, Option.map_some, Option.some.injEq, Prod.mk.injEq] at hexec
    obtain ⟨rfl, rfl, rfl⟩ := hexec
    exact h.erase hne hw hpop hv hbelow hK hinv
  | waiting htid =>
    subst htid
    obtain ⟨q, hq, he⟩ := Option.map_eq_some_iff.mp hexec
    cases he
    exact h.waitEvent hw hv hpop hK hq hinv
  | popping htid =>
    subst htid
    simp only [Shared.exec, RingOp.exec, Option.map_some, Option.some.injEq, Prod.mk.injEq] at hexec
    obtain ⟨rfl, rfl, rfl⟩ := hexec
    exact h.pop hw hv hpop hK rfl hinv
  | dropped htid hdrop =>
    subst htid
    obtain ⟨rfl, rfl⟩ : L.shared = sh ∧ [] = p := by
      rw [Shared.exec] at hexec
      cases hmsg : w.result.message with
      | none =>
        rw [hmsg] at hexec
        cases hexec
        exact ⟨rfl, rfl⟩
      | some m =>
        simp only [hmsg, if_neg fun hn : w.result.value ≠ 0 ∧ m.hsm ≠ skInvalidHsm => hn.2 (hdrop m hmsg)]
          at hexec
        cases hexec
        exact ⟨rfl, rfl⟩
    exact h.untouched hne hw hpop hv hK rfl (.rest .base) hinv
  | popped htid hm hvalue hmsg =>
    subst htid
    simp only [Shared.exec, hmsg, if_pos (And.intro hvalue hm)] at hexec
    cases hexec
    refine h.untouched hne hw hpop hv ?_ ?_ (.testing rfl hm) hinv
    · rw [core_append, hK]
      rfl
    · rfl
  | @testing _ m p' htid hm =>
    subst htid
    rw [Shared.exec, h.smProcAt, Option.isSome_map] at hexec
    cases hexec
    refine h.test hw hv hm hpop ?_ hinv
    rw [core_append, hK]
    split <;> rfl
  | @found _ m p' born htid hm =>
    subst htid
    obtain ⟨win, hat⟩ := h.exists_windowAt hfree
    obtain ⟨rfl, hp⟩ := h.exec_runSm hm hat hexec
    have hk : core (p ++ k) =
        (if win.smProc.isSome then .user :: closing m else closing m) ++ [.scheduler] := by
      rw [core_append, hp, hK]
    refine h.enterHand hw hv hm hat hpop hk ?_ hinv
    rw [Worker.popping, hk]
    exact not_popsNext_read (.base : Below 0 [] [.scheduler]) _

/-- **One instruction of a thread other than `sm_ticker`.** -/
theorem goThread (h : Sim e L S) (hne : tid ≠ 1) {answer : Answer} {o : Unit} {L' : Locks}
    (hfree : ¬ L.UsesFreed (.go tid answer)) (hs : Locks.step L (.go tid answer) = some (o, L')) :
    S.Matched e (L.entering (.go tid answer)) L' := by
  have hinv := (h.inv.step hs).1
  obtain ⟨w, j, k, hw, hcode, hcases⟩ := Locks.go_cases hs
  have hnext : L.next (.go tid answer) = some j := by simp [Locks.next, hw, hcode]
  rcases hcases with ⟨value, held, rfl, hmoves, hpos⟩ | ⟨hj, sh, r, p, hexec, rfl⟩
  · rw [Locks.entering_of_isSem hnext hmoves.isSem]
    exact h.sem hw hne hcode hinv hmoves hpos
  · have hat := h.threads tid w hne hw
    generalize hv : S.view tid = v at hat
    cases hat with
    | place hplace => exact h.goPlace hne hw hcode hj hfree hexec hinv hv hplace
    | linked hX hX' hheld hbelow =>
      obtain ⟨rfl, rfl⟩ := hX.at_next (hcode.symm.trans hX') hj
      have hseen : L.entering (.go tid answer) = none := by rw [Locks.entering, hnext]
      have hpop : w.popping = false := by rw [Worker.popping, hcode]; rfl
      simp only [Shared.exec, RingOp.exec, Option.map_some, Option.some.injEq, Prod.mk.injEq] at hexec
      obtain ⟨rfl, rfl, rfl⟩ := hexec
      rw [hseen]
      exact h.createPush hw hne hv hpop hbelow hinv
    | blocked hstuck =>
      obtain ⟨k', hk'⟩ := hstuck.2
      obtain ⟨rfl, -⟩ := List.cons.inj (hcode.symm.trans hk')
      cases hj

/-- A client or a window procedure makes a call. -/
theorem call (h : Sim e L S) (hne : tid ≠ 1) {c : Call} (hc : c.ByClients e) {o : Unit} {L' : Locks}
    (hs : Locks.step L (.call tid c) = some (o, L')) : S.Matched e none L' := by
  have hinv := (h.inv.step hs).1
  obtain ⟨w, k, hw, hcode, rfl⟩ := Locks.call_cases hs
  have hcore : core w.code = .user :: core k := by rw [hcode, core_cons rfl]
  have hat := h.threads tid w hne hw
  generalize hv : S.view tid = v at hat
  cases hat with
  | @place hand F _ hplace =>
    have hpop : w.popping = false := by rw [Worker.popping, hcore]; rfl
    have hcore' : core (c.code ++ w.code) = core c.code ++ .user :: core k := by rw [core_append, hcore]
    rw [hcore] at hplace
    generalize core k = K at hplace hcore'
    cases hplace with
    | rest hbelow =>
      rcases core_call hc with hnil | ⟨i, hi, hcall⟩
      · rw [hnil] at hcore'
        exact h.untouched hne hw hpop hv hcore' rfl (.rest hbelow) hinv
      · rw [hcall] at hcore'
        exact h.untouched hne hw hpop hv hcore' hi.not_popsNext (.call hi hbelow) hinv
    | call hi _ => cases hi
  | linked hX hX' _ _ =>
    obtain ⟨hj, -⟩ := hX.at_next (hcode.symm.trans hX') rfl
    cases hj
  | blocked hstuck =>
    obtain ⟨k', hk'⟩ := hstuck.2
    cases hcode.symm.trans hk'

/-- A window procedure returns, or a client ends. -/
theorem leaves (h : Sim e L S) (hne : tid ≠ 1) {o : Unit} {L' : Locks}
    (hs : Locks.step L (.leave tid) = some (o, L')) : S.Matched e none L' := by
  have hinv := (h.inv.step hs).1
  obtain ⟨w, k, hw, hcode, rfl⟩ := Locks.leave_cases hs
  have hcore : core w.code = .user :: core k := by rw [hcode, core_cons rfl]
  have hat := h.threads tid w hne hw
  generalize hv : S.view tid = v at hat
  cases hat with
  | @place hand F _ hplace =>
    have hpop : w.popping = false := by rw [Worker.popping, hcore]; rfl
    rw [hcore] at hplace
    generalize hK : core k = K at hplace
    cases hplace with
    | rest hbelow =>
      generalize hC : Instr.user :: K = C at hbelow
      cases hbelow with
      | base =>
        obtain rfl : K = [] := by
          unfold baseCode at hC
          split at hC
          · cases hC
          · exact (List.cons.inj hC).2
        exact h.untouched hne hw hpop hv hK rfl .ended hinv
      | proc hm hbelow =>
        obtain ⟨-, rfl⟩ := List.cons.inj hC
        refine h.leave hne hw hpop hv hbelow hK ?_ hinv
        rw [Worker.popping, hK]
        exact not_popsNext_closing hbelow
    | call hi _ => cases hi
  | linked hX hX' _ _ =>
    obtain ⟨hj, -⟩ := hX.at_next (hcode.symm.trans hX') rfl
    cases hj
  | blocked hstuck =>
    obtain ⟨k', hk'⟩ := hstuck.2
    cases hcode.symm.trans hk'

end Sim

end SmIpc.Sm
