import SmIpc.Sm.LocksRefine

/-! # No freed node without `express_message`

A node of `smallwin_list` is freed by `default_sm` only, in an activation of `run_sm`, and `run_sm` reads the
node it was found for without another look. Where nobody calls `express_message`, only the scheduler has
activations, one at a time, and no node is freed between its test and its use. `Sys.Solo` says so of the
system, and `no_freed_without_express` carries it over to threads that are preempted between any two
instructions; `freed_with_express` is what one call can do. -/

namespace SmIpc.Sm

namespace Sys

/-- The scheduler's stack: at most one activation, whose window is in the list until it is destroyed. -/
inductive SoloStack (s : Sys) : List Frame → Prop
  /-- No activation. -/
  | idle : SoloStack s []
  /-- In a window procedure. -/
  | inProc {m : Message} {born : ℕ} (hat : (s.windowAt m.hsm).isSome) :
      SoloStack s [.running m born .inProc]
  /-- In one that is stuck in `sm_destroy_tick`. -/
  | blocked {m : Message} {born : ℕ} (hat : (s.windowAt m.hsm).isSome) :
      SoloStack s [.blocked, .running m born .inProc]
  /-- Before `sm_destroy_smallwin`. -/
  | returned {m : Message} {born : ℕ} (hat : (s.windowAt m.hsm).isSome) :
      SoloStack s [.running m born .returned]
  /-- Before `erase_message`. -/
  | destroyed {m : Message} {born : ℕ} : SoloStack s [.running m born .destroyed]

/-- **Only the scheduler has activations.** -/
structure Solo (s : Sys) : Prop where
  /-- The other threads have none. -/
  clients : ∀ tid, tid ≠ 0 → ∀ f ∈ s.threads tid, f = .blocked
  /-- The scheduler has one at a time. -/
  scheduler : SoloStack s (s.threads 0)
  /-- With a message in hand it has none, and the window it has found is in the list. -/
  hand : ∀ x, s.hand = some x → s.threads 0 = [] ∧ (x.tested.isSome → (s.windowAt x.m.hsm).isSome)

variable {s t : Sys} {i : SysStep} {o : SysEvent}

theorem SoloStack.mono {F : List Frame} (h : SoloStack s F)
    (hat : ∀ hsm, (s.windowAt hsm).isSome → (t.windowAt hsm).isSome) : SoloStack t F := by
  cases h with
  | idle => exact .idle
  | inProc h => exact .inProc (hat _ h)
  | blocked h => exact .blocked (hat _ h)
  | returned h => exact .returned (hat _ h)
  | destroyed => exact .destroyed

/-- A step that changes neither a stack nor the hand, and removes no window. -/
theorem Solo.mono (h : s.Solo) (hthreads : t.threads = s.threads) (hhand : t.hand = s.hand)
    (hat : ∀ hsm, (s.windowAt hsm).isSome → (t.windowAt hsm).isSome) : t.Solo := by
  refine ⟨hthreads ▸ h.clients, ?_, ?_⟩
  · rw [hthreads]
    exact h.scheduler.mono hat
  · intro x hx
    obtain ⟨hidle, htested⟩ := h.hand x (hhand ▸ hx)
    exact ⟨by rw [hthreads, hidle], fun hsome => hat _ (htested hsome)⟩

/-- The scheduler's stack changes, and it has no message in hand. -/
theorem Solo.setScheduler (h : s.Solo) {F : List Frame} (hthreads : t.threads = Function.update s.threads 0 F)
    (hhand : t.hand = none) (hstack : SoloStack t F) : t.Solo := by
  refine ⟨?_, ?_, ?_⟩
  · intro tid htid
    rw [hthreads, Function.update_of_ne htid]
    exact h.clients tid htid
  · rw [hthreads, Function.update_self]
    exact hstack
  · intro x hx
    rw [hhand] at hx
    cases hx

/-- A thread with an activation is the scheduler, with no message in hand. -/
theorem Solo.eq_zero (h : s.Solo) {tid : ℕ} {m : Message} {born : ℕ} {pc : RunPc} {rest : List Frame}
    (hstack : s.threads tid = .running m born pc :: rest) : tid = 0 ∧ s.hand = none := by
  have htid : tid = 0 := by
    by_contra hne
    cases h.clients tid hne (.running m born pc) (hstack ▸ List.mem_cons_self)
  refine ⟨htid, ?_⟩
  cases hhand : s.hand with
  | none => rfl
  | some x =>
    have hidle := (h.hand x hhand).1
    rw [← htid, hstack] at hidle
    cases hidle

/-- The scheduler's stack when a window procedure has returned. -/
theorem SoloStack.afterProc {m : Message} (born : ℕ) (hat : (t.windowAt m.hsm).isSome) :
    SoloStack t (Sys.afterProc m born) := by
  unfold Sys.afterProc
  split
  · exact .returned hat
  · exact .idle

/-- The scheduler's stack after a read of `sm_proc`. -/
theorem SoloStack.afterRead {m : Message} (born : ℕ) {win : Win} (hat : (t.windowAt m.hsm).isSome) :
    SoloStack t (Sys.afterRead m born (some win)) := by
  show SoloStack t (if win.smProc.isSome then [.running m born .inProc] else Sys.afterProc m born)
  split
  · exact .inProc hat
  · exact .afterProc born hat

/-- Before the first message. -/
theorem Solo.init (mem : ℤ → Message) : (Sys.init mem).Solo := by
  refine ⟨fun _ _ _ hf => absurd hf List.not_mem_nil, .idle, ?_⟩
  rintro _ ⟨⟩

/-- **One step without `express_message`** keeps the activations to the scheduler, and reads and frees no
freed node. -/
theorem Solo.acts (h : s.Solo) (hi : i.Allowed false) (ha : Acts s i o t) : t.Solo := by
  cases ha with
  | popEmpty _ => exact h.mono rfl rfl fun _ => id
  | pop _ hidle _ =>
    refine ⟨h.clients, h.scheduler.mono fun _ => id, ?_⟩
    intro x hx
    refine ⟨hidle, fun hsome => ?_⟩
    -- the message has not been tested
    simp only [tick] at hx
    split_ifs at hx
    cases hx
    cases hsome
  | @test m p hhand =>
    refine ⟨h.clients, h.scheduler.mono fun _ => id, ?_⟩
    intro x hx
    refine ⟨(h.hand _ hhand).1, fun _ => ?_⟩
    obtain ⟨win, hwin, rfl⟩ := Option.map_eq_some_iff.mp hx
    exact Option.isSome_of_eq_some hwin
  | @enterHand m p born hhand =>
    have hat := (h.hand _ hhand).2 rfl
    obtain ⟨win, hwin⟩ := Option.isSome_iff_exists.mp hat
    rw [hwin]
    exact h.setScheduler rfl rfl (.afterRead born hat)
  | expressNone | express => cases hi
  | @enter tid m born rest hstack =>
    obtain ⟨rfl, -⟩ := h.eq_zero hstack
    have hsolo := h.scheduler
    rw [hstack] at hsolo
    cases hsolo
  | @leave tid m born rest hstack =>
    obtain ⟨rfl, hhand⟩ := h.eq_zero hstack
    have hsolo := h.scheduler
    rw [hstack] at hsolo
    cases hsolo with
    | @inProc _ _ hat =>
      refine h.setScheduler ?_ hhand (.afterProc born hat)
      rw [List.append_nil]
      rfl
  | @destroy tid m born rest hstack _ =>
    obtain ⟨rfl, hhand⟩ := h.eq_zero hstack
    have hsolo := h.scheduler
    rw [hstack] at hsolo
    cases hsolo with
    | returned hat => exact h.setScheduler rfl hhand .destroyed
  | @erase tid m born rest hstack =>
    obtain ⟨rfl, hhand⟩ := h.eq_zero hstack
    have hsolo := h.scheduler
    rw [hstack] at hsolo
    cases hsolo with
    | destroyed => exact h.setScheduler rfl hhand .idle
  | createLink _ _ _ _ =>
    refine h.mono rfl rfl fun hsm hsome => ?_
    show (List.find? _ (s.windows ++ _)).isSome
    rw [List.find?_append]
    rw [windowAt] at hsome
    obtain ⟨win, hwin⟩ := Option.isSome_iff_exists.mp hsome
    rw [hwin]
    rfl
  | @destroyTick tid htick hcall _ =>
    by_cases htid : tid = 0
    · subst htid
      obtain ⟨-, hstack⟩ := hcall
      have hsolo := h.scheduler
      -- the scheduler makes calls from a window procedure only
      cases hF : s.threads 0 with
      | nil =>
        rw [hF] at hstack
        exact absurd rfl hstack
      | cons f rest =>
        rw [hF] at hsolo hstack
        cases hsolo with
        | @inProc m born hat =>
          have hhand := (h.eq_zero hF).2
          exact h.setScheduler (F := [.blocked, .running m born .inProc]) rfl hhand (.blocked hat)
        | blocked | returned | destroyed => cases hstack
    · have hothers : Function.update s.threads tid (.blocked :: s.threads tid) 0 = s.threads 0 :=
        Function.update_of_ne (Ne.symm htid) _ _
      refine ⟨?_, ?_, ?_⟩
      · intro tid' hne f hf
        by_cases heq : tid' = tid
        · subst heq
          have hmem : f ∈ Frame.blocked :: s.threads tid' := by
            simpa [tick, setStack] using hf
          rcases List.mem_cons.mp hmem with rfl | hf'
          · rfl
          · exact h.clients tid' hne f hf'
        · have hmem : f ∈ s.threads tid' := by
            simpa [tick, setStack, Function.update_of_ne heq] using hf
          exact h.clients tid' hne f hmem
      · show SoloStack _ (Function.update s.threads tid (.blocked :: s.threads tid) 0)
        rw [hothers]
        exact h.scheduler.mono fun _ => id
      · intro x hx
        obtain ⟨hidle, htested⟩ := h.hand x hx
        exact ⟨hothers.trans hidle, htested⟩
  | _ => exact h.mono rfl rfl fun _ => id

end Sys

/-- An activation at one of the places that read or free a node is in the system. -/
theorem Sim.activation {e : Bool} {L : Locks} {S : Sys} (h : Sim e L S) {tid : ℕ} {w : Worker}
    (hw : L.threads[tid]? = some w) {j : Instr} {k : List Instr} (hcode : w.code = j :: k) :
    (∀ m, j = .runSm m → (∃ born F, S.threads tid = .running m born .tested :: F) ∨
        ∃ p born, S.hand = some ⟨m, p, some born⟩) ∧
      ∀ hsm, j = .unlinkWin hsm → ∃ m born F, hsm = m.hsm ∧ S.threads tid = .running m born .returned :: F := by
  by_cases htid : tid = 1
  · subst htid
    obtain ⟨w₁, hw₁, hticking⟩ := h.ticker
    obtain rfl := Option.some.inj (hw.symm.trans hw₁)
    have hticker := hticking.pos.ofTicker hcode
    constructor
    · rintro m rfl
      cases hticker
    · rintro hsm rfl
      cases hticker
  · have hat := h.threads tid w htid hw
    generalize hv : S.view tid = v at hat
    have hF : S.threads tid = v.stack := congrArg View.stack hv
    cases hat with
    | @place hand F _ hplace =>
      constructor
      · rintro m rfl
        rw [hcode, core_cons rfl] at hplace
        generalize core k = K at hplace
        cases hplace with
        | rest hbelow =>
          rcases hbelow.head with ⟨K', hK'⟩ | ⟨-, -, hC⟩
          · cases hK'
          · cases hC
        | call hi _ => cases hi
        | tested _ _ => exact .inl ⟨_, _, hF⟩
        | found htid _ =>
          subst htid
          exact .inr ⟨_, _, congrArg View.hand hv⟩
      · rintro hsm rfl
        rw [hcode, core_cons rfl] at hplace
        generalize core k = K at hplace
        generalize hj : Instr.unlinkWin hsm = j at hplace
        cases hplace with
        | rest hbelow =>
          rcases hbelow.head with ⟨K', hK'⟩ | ⟨-, -, hC⟩
          · obtain ⟨rfl, -⟩ := List.cons.inj hK'
            cases hj
          · obtain ⟨rfl, -⟩ := List.cons.inj hC
            cases hj
        | call hi _ =>
          subst hj
          cases hi
        | returned _ =>
          cases hj
          exact ⟨_, _, _, rfl, hF⟩
        | _ => cases hj
    | linked hX hX' _ _ =>
      constructor
      · rintro m rfl
        cases (hX.at_next (hcode.symm.trans hX') rfl).1
      · rintro hsm rfl
        cases (hX.at_next (hcode.symm.trans hX') rfl).1
    | blocked hstuck =>
      obtain ⟨k', hk'⟩ := hstuck.2
      obtain ⟨rfl, -⟩ := List.cons.inj (hcode.symm.trans hk')
      constructor
      · rintro m ⟨⟩
      · rintro hsm ⟨⟩

/-- **The threads use no freed node** where only the scheduler has activations in the system. -/
theorem Sim.not_usesFreed {e : Bool} {L : Locks} {S : Sys} (h : Sim e L S) (hsolo : S.Solo) (i : LockStep) :
    ¬ L.UsesFreed i := by
  intro hfreed
  cases hnext : L.next i with
  | none => simp [Locks.UsesFreed, hnext] at hfreed
  | some j =>
    rw [Locks.UsesFreed, hnext] at hfreed
    obtain ⟨tid, w, k, hw, hcode⟩ : ∃ (tid : ℕ) (w : Worker) (k : List Instr),
        L.threads[tid]? = some w ∧ w.code = j :: k := by
      cases i with
      | call _ _ | leave _ => cases hnext
      | go tid answer =>
        obtain ⟨w, hw, hhead⟩ := Option.bind_eq_some_iff.mp hnext
        obtain ⟨k, hcode⟩ := List.head?_eq_some_iff.mp hhead
        exact ⟨tid, w, k, hw, hcode⟩
    obtain ⟨hread, hfree⟩ := h.activation hw hcode
    cases j with
    | runSm m =>
      have hgone : (S.windowAt m.hsm).map Win.smProc = none := (h.smProcAt m.hsm).symm.trans hfreed
      rcases hread m rfl with ⟨born, F, hstack⟩ | ⟨p, born, hhand⟩
      · obtain ⟨rfl, -⟩ := hsolo.eq_zero hstack
        have hown := hsolo.scheduler
        rw [hstack] at hown
        cases hown
      · have hat := (hsolo.hand _ hhand).2 rfl
        rw [Option.map_eq_none_iff.mp hgone] at hat
        cases hat
    | unlinkWin hsm =>
      obtain ⟨m, born, F, rfl, hstack⟩ := hfree hsm rfl
      have hgone : (S.windowAt m.hsm).map Win.smProc = none := (h.smProcAt m.hsm).symm.trans hfreed
      obtain ⟨rfl, -⟩ := hsolo.eq_zero hstack
      have hown := hsolo.scheduler
      rw [hstack] at hown
      cases hown with
      | returned hat =>
        rw [Option.map_eq_none_iff.mp hgone] at hat
        cases hat
    | _ => exact hfreed

/-- **Without `express_message` no freed node is used.** Take the threads as `run_smallwin` starts them, with
any number of clients that, like the window procedures, call neither `express_message` nor what pops or erases
messages, nor `sm_is_smallwin`, which is no `Call`. In no state that any interleaving of their instructions
reaches is `run_sm` about to read, or `sm_destroy_smallwin` to free, a node that was freed. -/
theorem no_freed_without_express (mem : ℤ → Message) (n : ℕ) (steps : List LockStep)
    (hcalls : ∀ i ∈ steps, ∀ tid c, i = .call tid c → c.ByClients false) (os : List Unit) (L : Locks)
    (hrun : StepMachine.run Locks.step (Locks.init smallwinNmsgq mem n) steps = some (os, L)) (i : LockStep) :
    ¬ L.UsesFreed i := by
  have hall : ∃ S, Sim false L S ∧ S.Solo := by
    refine StepMachine.run_induction_along Locks.step
      (fun _ i => ∀ tid c, i = .call tid c → c.ByClients false) (fun _ _ L => ∃ S, Sim false L S ∧ S.Solo)
      ⟨Sys.init mem, Sim.init mem n, ?_⟩ ?_
      (StepMachine.along_of_forall_mem Locks.step (fun i hi _ => hcalls i hi) _) hrun
    · exact .init mem
    · rintro is os L i o L' - ⟨S, h, hsolo⟩ hi hs
      obtain ⟨T, hanswers, hT⟩ := h.step hi (h.not_usesFreed hsolo i) hs
      refine ⟨T, hT, ?_⟩
      rcases hanswers with ⟨rfl, -⟩ | ⟨j, o, hallowed, hstep, -⟩
      · exact hsolo
      · exact hsolo.acts hallowed (Sys.step_cases hstep).2
  obtain ⟨S, h, hsolo⟩ := hall
  exact h.not_usesFreed hsolo i

/-- The rule where the scheduler is about to read `sm_proc` of a window. -/
theorem no_freed_without_express_create : ∃ os L,
    StepMachine.run Locks.step (Locks.init smallwinNmsgq (fun _ => ⟨0, 0, 0, 0⟩) 1)
      (.call 2 (.smCreateSmallwin none) :: .go 2 ⟨none, []⟩ :: .go 2 ⟨some 16, []⟩ ::
        (List.replicate 3 (.go 2 ⟨none, []⟩) ++ List.replicate 7 (.go 0 ⟨none, []⟩))) = some (os, L) ∧
      L.next (.go 0 ⟨none, []⟩) = some (.runSm ⟨16, smmCreate, 0, 0⟩) ∧
      ¬ L.UsesFreed (.go 0 ⟨none, []⟩) := by
  obtain ⟨os, L, hrun, hnext⟩ : ∃ os L,
      StepMachine.run Locks.step (Locks.init smallwinNmsgq (fun _ => ⟨0, 0, 0, 0⟩) 1)
        (.call 2 (.smCreateSmallwin none) :: .go 2 ⟨none, []⟩ :: .go 2 ⟨some 16, []⟩ ::
          (List.replicate 3 (.go 2 ⟨none, []⟩) ++ List.replicate 7 (.go 0 ⟨none, []⟩))) = some (os, L) ∧
        L.next (.go 0 ⟨none, []⟩) = some (.runSm ⟨16, smmCreate, 0, 0⟩) := ⟨_, _, rfl, rfl⟩
  refine ⟨os, L, hrun, hnext, no_freed_without_express _ 1 _ ?_ os L hrun _⟩
  simp [Call.ByClients]

/-- **What `express_message` can do.** A window is created. One client's `express_message` for it has passed
`sm_is_smallwin` when another's hands it `SMM_CLOSE`, which frees the node the first is about to read. -/
theorem freed_with_express : ∃ os L,
    StepMachine.run Locks.step (Locks.init smallwinNmsgq (fun _ => ⟨0, 0, 0, 0⟩) 2)
      (.call 2 (.smCreateSmallwin none) :: .go 2 ⟨none, []⟩ :: .go 2 ⟨some 16, []⟩ ::
        (List.replicate 4 (.go 2 ⟨none, []⟩) ++
          [.call 2 (.expressMessage ⟨16, smmTick, 0, 0⟩), .go 2 ⟨none, []⟩,
            .call 3 (.expressMessage ⟨16, smmClose, 0, 0⟩)] ++
          List.replicate 4 (.go 3 ⟨none, []⟩))) = some (os, L) ∧
      L.UsesFreed (.go 2 ⟨none, []⟩) :=
  ⟨_, _, rfl, rfl⟩

end SmIpc.Sm
