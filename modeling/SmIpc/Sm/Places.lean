import SmIpc.Sm.LockOrder
import SmIpc.Sm.SystemSteps

/-! # Where a thread of the semaphores stands in the system

The threads of `Locks` stop between any two instructions, the system of `Sys` between the stretches of code
no other thread can be seen to enter. This file relates the two for one thread.

* **`core`** — code without its semaphores: `sk_sem_lock` and `sk_sem_unlock` change nothing else.
* **`Below`** — the code below a call, for the activations on a thread's stack.
* **`Place`** — what is left of a thread's code, for its stack and the message the scheduler has in hand.
* **`At`** — a thread; one in `sm_create_smallwin` holds `sem_system`, and one behind `sm_destroy_tick` is
  stuck.
* **`TickerAt`** — `sm_ticker`, with the tick table of either side. -/

namespace SmIpc.Sm

/-- `sk_sem_lock` or `sk_sem_unlock`. -/
def Instr.isSem : Instr → Bool
  | .semWait _ | .semPost _ => true
  | _ => false

/-- Code without its semaphores. -/
def core (code : List Instr) : List Instr := code.filter fun i => !i.isSem

@[simp] theorem core_nil : core [] = [] := rfl

@[simp] theorem core_semWait (x : Sem) (k : List Instr) : core (.semWait x :: k) = core k := rfl

@[simp] theorem core_semPost (x : Sem) (k : List Instr) : core (.semPost x :: k) = core k := rfl

theorem core_cons {i : Instr} (h : i.isSem = false) (k : List Instr) : core (i :: k) = i :: core k :=
  List.filter_cons_of_pos (by simp [h])

@[simp] theorem core_append (k l : List Instr) : core (k ++ l) = core k ++ core l := List.filter_append _ _

/-- An instruction that is not a semaphore's stays. -/
theorem isSem_eq_false {i : Instr} (hwait : ∀ x, i ≠ .semWait x) (hpost : ∀ x, i ≠ .semPost x) :
    i.isSem = false := by
  cases i with
  | semWait x => exact absurd rfl (hwait x)
  | semPost x => exact absurd rfl (hpost x)
  | _ => rfl

/-- A section of the ring is one instruction. -/
@[simp] theorem core_guarded (op : RingOp) : core (guarded op) = [.ring op] := rfl

theorem core_pushMessage {m : Message} (h : m.hsm ≠ skInvalidHsm) :
    core (pushMessage.code m) = [.ring (.push m)] := by
  rw [pushMessage.code, if_neg h]
  rfl

/-- What `default_sm` does to a window: it ends it on `SMM_CLOSE`. -/
def closing (m : Message) : List Instr :=
  if m.message = smmClose then [.unlinkWin m.hsm, .ring (.eraseMessage m.hsm)] else []

theorem core_defaultSm {m : Message} (h : m.hsm ≠ skInvalidHsm) : core (defaultSm.code m) = closing m := by
  rw [defaultSm.code, closing, smDestroySmallwin.code, if_neg h]
  split <;> rfl

/-- What a call of a client or a window procedure does between its semaphores; `e` says whether they call
`express_message`. -/
inductive IsCall (e : Bool) : Instr → Prop
  /-- `push_message` or `send_message`. -/
  | push (m : Message) : IsCall e (.ring (.push m))
  /-- `is_message`. -/
  | isMessage (hsm : Hsm) : IsCall e (.ring (.isMessage hsm))
  /-- `is_message_param`. -/
  | isMessageParam (hsm : Hsm) (message param1 param2 : UInt32) :
      IsCall e (.ring (.isMessageParam hsm message param1 param2))
  /-- `sm_create_smallwin`. -/
  | createWin (smProc : SmProc) : IsCall e (.createWin smProc)
  /-- `express_message`. -/
  | isSmallwin (he : e = true) (m : Message) : IsCall e (.isSmallwin m)
  /-- `sm_set_xtick`. -/
  | setXtick (hsm : Hsm) (n100msec param2 : UInt32) (sysflag : Int32) :
      IsCall e (.setXtick hsm n100msec param2 sysflag)
  /-- `sm_destroy_tick`. -/
  | destroyTick (htick : ℤ) : IsCall e (.destroyTick htick)

/-- The calls clients and window procedures make: the queue is popped and erased by the scheduler only. -/
def Call.ByClients (e : Bool) : Call → Prop
  | .popMessage | .invalidateMessage _ | .eraseMessage _ | .eraseMessageType _ _ => False
  | .expressMessage _ => e = true
  | _ => True

/-- **A call is one instruction between semaphores**, or none when it is refused at once. -/
theorem core_call {e : Bool} {c : Call} (h : c.ByClients e) :
    core c.code = [] ∨ ∃ i, IsCall e i ∧ core c.code = [i] := by
  cases c with
  | pushMessage m =>
    by_cases hm : m.hsm = skInvalidHsm
    · left
      rw [Call.code, pushMessage.code, if_pos hm, core_nil]
    · exact .inr ⟨_, .push m, core_pushMessage hm⟩
  | sendMessage m =>
    by_cases hm : m.hsm = skInvalidHsm
    · left
      rw [Call.code, sendMessage.code, pushMessage.code, if_pos hm]
      rfl
    · right
      refine ⟨_, .push m, ?_⟩
      rw [Call.code, sendMessage.code, core_append, core_semWait, core_pushMessage hm]
      rfl
  | isMessage hsm =>
    rw [Call.code, isMessage.code]
    split
    · exact .inl rfl
    · exact .inr ⟨_, .isMessage hsm, rfl⟩
  | isMessageParam hsm message param1 param2 => exact .inr ⟨_, .isMessageParam hsm message param1 param2, rfl⟩
  | smCreateSmallwin smProc => exact .inr ⟨_, .createWin smProc, rfl⟩
  | expressMessage m =>
    rw [Call.code, expressMessage.code]
    split
    · exact .inl rfl
    · exact .inr ⟨_, .isSmallwin h m, rfl⟩
  | smSetXtick hsm n100msec param2 sysflag => exact .inr ⟨_, .setXtick hsm n100msec param2 sysflag, rfl⟩
  | smCreateTick hsm ms => exact .inr ⟨_, .setXtick hsm ms 0 0, rfl⟩
  | smCreateSystick hsm n100msec => exact .inr ⟨_, .setXtick hsm n100msec 0 1, rfl⟩
  | smDestroyTick htick => exact .inr ⟨_, .destroyTick htick, rfl⟩
  | popMessage | invalidateMessage | eraseMessage | eraseMessageType => exact absurd h id

/-! ## Places -/

/-- The code of a thread outside all calls: the loop of the scheduler, or a client's own. -/
def baseCode (tid : ℕ) : List Instr := if tid = 0 then [.scheduler] else [.user]

/-- The code a thread goes on with when its innermost call returns, for the window procedures on its
stack. -/
inductive Below (tid : ℕ) : List Frame → List Instr → Prop
  /-- In no procedure. -/
  | base : Below tid [] (baseCode tid)
  /-- In a window procedure. -/
  | proc {m : Message} {born : ℕ} {F : List Frame} {K : List Instr} (hm : m.hsm ≠ skInvalidHsm)
      (h : Below tid F K) : Below tid (.running m born .inProc :: F) (.user :: (closing m ++ K))

/-- **Where a thread stands**: the message the scheduler has in hand (for thread 0), the thread's stack, its
code without the semaphores and what the last section of the ring returned. -/
inductive Place (e : Bool) (tid : ℕ) : Option Hand → List Frame → List Instr → MsgResult → Prop
  /-- Outside all calls, or in a window procedure. -/
  | rest {F : List Frame} {C : List Instr} {r : MsgResult} (h : Below tid F C) : Place e tid none F C r
  /-- A client that has ended. -/
  | ended {r : MsgResult} : Place e tid none [] [] r
  /-- In a call. -/
  | call {F : List Frame} {K : List Instr} {i : Instr} {r : MsgResult} (hi : IsCall e i)
      (h : Below tid F (.user :: K)) : Place e tid none F (i :: .user :: K) r
  /-- In `run_sm`, before the read of `sm_proc`. -/
  | tested {m : Message} {born : ℕ} {F : List Frame} {K : List Instr} {r : MsgResult}
      (hm : m.hsm ≠ skInvalidHsm) (h : Below tid F K) :
      Place e tid none (.running m born .tested :: F) (.runSm m :: K) r
  /-- In `default_sm`, before `sm_destroy_smallwin`. -/
  | returned {m : Message} {born : ℕ} {F : List Frame} {K : List Instr} {r : MsgResult} (h : Below tid F K) :
      Place e tid none (.running m born .returned :: F)
        (.unlinkWin m.hsm :: .ring (.eraseMessage m.hsm) :: K) r
  /-- In `default_sm`, before `erase_message`. -/
  | destroyed {m : Message} {born : ℕ} {F : List Frame} {K : List Instr} {r : MsgResult} (h : Below tid F K) :
      Place e tid none (.running m born .destroyed :: F) (.ring (.eraseMessage m.hsm) :: K) r
  /-- The scheduler in `pop_message`, before `wait_event` returns. -/
  | waiting {r : MsgResult} (htid : tid = 0) :
      Place e tid none [] [.waitEvent, .ring .pop, .popped, .scheduler] r
  /-- The scheduler in `pop_message`, with a token of `sem_event`. -/
  | popping {r : MsgResult} (htid : tid = 0) : Place e tid none [] [.ring .pop, .popped, .scheduler] r
  /-- The scheduler has popped nothing it goes on with. -/
  | dropped {r : MsgResult} (htid : tid = 0) (h : ∀ m, r.message = some m → m.hsm = skInvalidHsm) :
      Place e tid none [] [.popped, .scheduler] r
  /-- The scheduler has popped a message. -/
  | popped {r : MsgResult} {m : Message} {p : Post} (htid : tid = 0) (hm : m.hsm ≠ skInvalidHsm)
      (hvalue : r.value ≠ 0) (h : r.message = some m) :
      Place e tid (some ⟨m, p, none⟩) [] [.popped, .scheduler] r
  /-- The scheduler is in `sm_is_smallwin`. -/
  | testing {r : MsgResult} {m : Message} {p : Post} (htid : tid = 0) (hm : m.hsm ≠ skInvalidHsm) :
      Place e tid (some ⟨m, p, none⟩) [] [.isSmallwin m, .scheduler] r
  /-- The scheduler has found the window of the message. -/
  | found {r : MsgResult} {m : Message} {p : Post} {born : ℕ} (htid : tid = 0) (hm : m.hsm ≠ skInvalidHsm) :
      Place e tid (some ⟨m, p, some born⟩) [] [.runSm m, .scheduler] r

namespace Below

variable {tid : ℕ} {F : List Frame} {C K : List Instr}

/-- No thread is below a call in `sm_destroy_tick`. -/
theorem not_blocked (h : Below tid F C) : .blocked ∉ F := by
  induction h with
  | base => exact List.not_mem_nil
  | proc _ _ ih =>
    intro hmem
    rcases List.mem_cons.mp hmem with heq | hmem
    · cases heq
    · exact ih hmem

/-- Nor is it there with one more activation. -/
theorem not_blocked_cons (h : Below tid F C) (m : Message) (born : ℕ) (pc : RunPc) :
    .blocked ∉ Frame.running m born pc :: F :=
  List.not_mem_cons_of_ne_of_not_mem (by simp) h.not_blocked

/-- Such code starts in the thread's own code or in the scheduler's. -/
theorem head (h : Below tid F C) : (∃ K, C = .user :: K) ∨ tid = 0 ∧ F = [] ∧ C = [.scheduler] := by
  cases h with
  | base =>
    by_cases htid : tid = 0
    · exact .inr ⟨htid, rfl, by rw [baseCode, if_pos htid]⟩
    · exact .inl ⟨[], by rw [baseCode, if_neg htid]⟩
  | proc _ _ => exact .inl ⟨_, rfl⟩

end Below

namespace Place

variable {e : Bool} {tid : ℕ} {hand : Option Hand} {F : List Frame} {C : List Instr} {r : MsgResult}

/-- No such thread is stuck behind `sm_destroy_tick`. -/
theorem not_blocked (h : Place e tid hand F C r) : .blocked ∉ F := by
  cases h with
  | rest h | call _ h => exact h.not_blocked
  | tested _ h | returned h | destroyed h => exact h.not_blocked_cons _ _ _
  | _ => exact List.not_mem_nil

end Place

/-- A window procedure returns, or there is none. -/
theorem Place.afterProc {e : Bool} {tid : ℕ} {F : List Frame} {K : List Instr} {r : MsgResult}
    (h : Below tid F K) (m : Message) (born : ℕ) : Place e tid none (Sys.afterProc m born ++ F) (closing m ++ K) r := by
  unfold Sys.afterProc closing
  split
  · exact .returned h
  · exact .rest h

/-- `run_sm` has read `sm_proc` of a window. -/
theorem Place.afterRead {e : Bool} {tid : ℕ} {F : List Frame} {K : List Instr} {r : MsgResult}
    (h : Below tid F K) {m : Message} (hm : m.hsm ≠ skInvalidHsm) (born : ℕ) (win : Win) :
    Place e tid none (Sys.afterRead m born (some win) ++ F)
      ((if win.smProc.isSome then .user :: closing m else closing m) ++ K) r := by
  by_cases hproc : win.smProc.isSome
  · simp only [Sys.afterRead, hproc, if_true]
    exact .rest (.proc hm h)
  · simp only [Sys.afterRead, hproc, Bool.false_eq_true, if_false]
    exact .afterProc h m born

/-! ## Threads -/

/-- What the state of the system says about one thread. -/
structure View where
  /-- The message in hand, for the scheduler. -/
  hand : Option Hand
  /-- The window it has linked in `sm_create_smallwin` and not yet pushed the message for. -/
  linking : Option Win
  /-- Its stack. -/
  stack : List Frame

/-- What the state of the system says about thread `tid`. -/
def Sys.view (s : Sys) (tid : ℕ) : View where
  hand := if tid = 0 then s.hand else none
  linking := s.creating.bind fun c => if c.1 = tid then some c.2 else none
  stack := s.threads tid

/-- `sk_sem_lock` and `sk_sem_unlock` calls for other semaphores than `x`. -/
def SemsBut (x : Sem) (X : List Instr) : Prop := ∀ i ∈ X, ∃ y ≠ x, i = .semWait y ∨ i = .semPost y

theorem SemsBut.nil (x : Sem) : SemsBut x [] := fun _ h => absurd h List.not_mem_nil

theorem SemsBut.wait {x y : Sem} {X : List Instr} (hne : y ≠ x) (h : SemsBut x X) :
    SemsBut x (.semWait y :: X) :=
  List.forall_mem_cons.mpr ⟨⟨y, hne, .inl rfl⟩, h⟩

theorem SemsBut.post {x y : Sem} {X : List Instr} (hne : y ≠ x) (h : SemsBut x X) :
    SemsBut x (.semPost y :: X) :=
  List.forall_mem_cons.mpr ⟨⟨y, hne, .inr rfl⟩, h⟩

theorem SemsBut.core_eq {x : Sem} {X : List Instr} (h : SemsBut x X) : core X = [] := by
  induction X with
  | nil => rfl
  | cons i X ih =>
    obtain ⟨⟨y, -, hi⟩, hX⟩ := List.forall_mem_cons.mp h
    rcases hi with rfl | rfl
    · exact ih hX
    · exact ih hX

/-- What a thread holds after `sk_sem_lock` or `sk_sem_unlock`. -/
def Moves (held held' : List Sem) (j : Instr) : Prop :=
  (∃ x, j = .semWait x ∧ held' = x :: held) ∨ ∃ x, j = .semPost x ∧ held' = held.erase x

theorem Moves.isSem {held held' : List Sem} {j : Instr} (h : Moves held held' j) : j.isSem = true := by
  rcases h with ⟨x, rfl, -⟩ | ⟨x, rfl, -⟩ <;> rfl

/-- Calls for other semaphores than `x`, up to the next instruction: after one of them the thread still has
`x`. -/
theorem SemsBut.moves {x : Sem} {X R k : List Instr} {i j : Instr} {held held' : List Sem} (h : SemsBut x X)
    (hi : i.isSem = false) (hcode : j :: k = X ++ i :: R) (hj : Moves held held' j) (hx : x ∈ held) :
    ∃ X', SemsBut x X' ∧ k = X' ++ i :: R ∧ x ∈ held' := by
  cases X with
  | nil =>
    obtain ⟨rfl, -⟩ := List.cons.inj hcode
    rw [hj.isSem] at hi
    cases hi
  | cons i' X =>
    obtain ⟨rfl, rfl⟩ := List.cons.inj hcode
    obtain ⟨⟨y, hy, hji⟩, hX⟩ := List.forall_mem_cons.mp h
    refine ⟨X, hX, rfl, ?_⟩
    rcases hj with ⟨z, rfl, rfl⟩ | ⟨z, rfl, rfl⟩
    · exact List.mem_cons_of_mem z hx
    · obtain rfl : z = y := by simpa using hji
      exact (List.mem_erase_of_ne (Ne.symm hy)).mpr hx

/-- Past these calls the thread is at the next instruction. -/
theorem SemsBut.at_next {x : Sem} {X R k : List Instr} {i j : Instr} (h : SemsBut x X)
    (hcode : j :: k = X ++ i :: R) (hj : j.isSem = false) : j = i ∧ k = R := by
  cases X with
  | nil => exact List.cons.inj hcode
  | cons i' X =>
    obtain ⟨rfl, -⟩ := List.cons.inj hcode
    obtain ⟨⟨y, -, hji⟩, -⟩ := List.forall_mem_cons.mp h
    rcases hji with rfl | rfl <;> cases hj

/-- **A thread other than `sm_ticker`.** -/
inductive At (e : Bool) (tid : ℕ) : View → Worker → Prop
  /-- It stands at one of the places. -/
  | place {hand : Option Hand} {F : List Frame} {w : Worker}
      (h : Place e tid hand F (core w.code) w.result) : At e tid ⟨hand, none, F⟩ w
  /-- It is in `sm_create_smallwin` and has linked a window; it holds `sem_system`. -/
  | linked {win : Win} {F : List Frame} {w : Worker} {X R : List Instr} (hX : SemsBut .system X)
      (hcode : w.code = X ++ .ring (.push (Sys.createMsg win)) :: R) (hheld : .system ∈ w.held)
      (h : Below tid F (core R)) : At e tid ⟨none, some win, F⟩ w
  /-- It is stuck behind `sm_destroy_tick`. -/
  | blocked {F : List Frame} {w : Worker} (h : w.Stuck) : At e tid ⟨none, none, .blocked :: F⟩ w

/-- The end of a round of `sm_ticker`. -/
def endRound : List Instr := [.semPost .tickId, .ticker]

/-- **`sm_ticker`**, with `tick_list` as it is and as the system has it. -/
inductive TickerAt (ticks ticks' : TickList) : TickerPc → Worker → Prop
  /-- Before a round. -/
  | idle {w : Worker} (hcode : w.code = [.ticker]) (hticks : ticks' = ticks) :
      TickerAt ticks ticks' .delay w
  /-- About to take `sem_tick_id`. -/
  | start {w : Worker} (hcode : w.code = smTicker.code) (hticks : ticks' = ticks) :
      TickerAt ticks ticks' .delay w
  /-- At the head of the loop over the slots. -/
  | look {w : Worker} {i : ℕ} (hheld : .tickId ∈ w.held) (hi : i ≤ smallwinNticks)
      (hcode : w.code = .slot i :: endRound) (hticks : ticks' = ticks) :
      TickerAt ticks ticks' (.looking i) w
  /-- After the loop. -/
  | finish {w : Worker} (hheld : .tickId ∈ w.held) (hcode : w.code = endRound) (hticks : ticks' = ticks) :
      TickerAt ticks ticks' (.looking smallwinNticks) w
  /-- In `is_message_param` for a slot that is due. -/
  | ask {w : Worker} {i : ℕ} {X : List Instr} (hheld : .tickId ∈ w.held) (hi : i < smallwinNticks)
      (hX : SemsBut .tickId X) (hhsm : (ticks i).hsm ≠ 0) (hdue : (ticks i).IsDue)
      (hcode : w.code = X ++ .ring (.isMessageParam (ticks i).hsm smmTick (UInt32.ofNat (i + 1))
        (ticks i).count) :: .semPost .access :: .asked i :: endRound) (hticks : ticks' = ticks) :
      TickerAt ticks ticks' (.looking i) w
  /-- Its message is not queued. -/
  | missing {w : Worker} {i : ℕ} {X : List Instr} (hheld : .tickId ∈ w.held) (hi : i < smallwinNticks)
      (hX : SemsBut .tickId X) (hhsm : (ticks i).hsm ≠ 0) (hresult : w.result.value = 0)
      (hcode : w.code = X ++ .asked i :: endRound) (hticks : ticks' = ticks) :
      TickerAt ticks ticks' (.sending i) w
  /-- Its message is queued. -/
  | queued {w : Worker} {i : ℕ} {X : List Instr} (hheld : .tickId ∈ w.held) (hi : i < smallwinNticks)
      (hX : SemsBut .tickId X) (hresult : w.result.value ≠ 0)
      (hcode : w.code = X ++ .asked i :: endRound)
      (hticks : ticks' = Function.update ticks i (ticks i).restarted) :
      TickerAt ticks ticks' (.looking (i + 1)) w
  /-- In `send_message`. -/
  | send {w : Worker} {i : ℕ} {X : List Instr} (hheld : .tickId ∈ w.held) (hi : i < smallwinNticks)
      (hX : SemsBut .tickId X)
      (hcode : w.code = X ++ .ring (.push ((ticks i).message i)) :: .semPost .access :: .semPost .system ::
        .restart i :: endRound) (hticks : ticks' = ticks) : TickerAt ticks ticks' (.sending i) w
  /-- At the end of a slot that was due. -/
  | restart {w : Worker} {i : ℕ} {X : List Instr} (hheld : .tickId ∈ w.held) (hi : i < smallwinNticks)
      (hX : SemsBut .tickId X) (hcode : w.code = X ++ .restart i :: endRound)
      (hticks : ticks' = Function.update ticks i (ticks i).restarted) :
      TickerAt ticks ticks' (.looking (i + 1)) w

/-- Between rounds `sm_ticker` does not hold `sem_tick_id`, and both sides have the same table, whichever it
is. -/
theorem TickerAt.of_not_mem {ticks ticks' : TickList} {pc : TickerPc} {w : Worker}
    (h : TickerAt ticks ticks' pc w) (hheld : .tickId ∉ w.held) :
    pc = .delay ∧ ticks' = ticks ∧ ∀ new, TickerAt new new .delay w := by
  cases h with
  | idle hcode hticks => exact ⟨rfl, hticks, fun new => .idle hcode rfl⟩
  | start hcode hticks => exact ⟨rfl, hticks, fun new => .start hcode rfl⟩
  | look h | finish h | ask h | missing h | queued h | send h | restart h => exact absurd h hheld

/-- An instruction of `sm_ticker` or of the functions it calls. -/
def Instr.ofTicker : Instr → Bool
  | .semWait _ | .semPost _ | .ring _ | .ticker | .slot _ | .asked _ | .restart _ => true
  | _ => false

/-- `sm_ticker` runs no window procedure, and ends none. -/
theorem TickerAt.ofTicker {ticks ticks' : TickList} {pc : TickerPc} {w : Worker}
    (h : TickerAt ticks ticks' pc w) {j : Instr} {k : List Instr} (hw : w.code = j :: k) :
    j.ofTicker = true := by
  have hsems : ∀ {X R : List Instr} {i : Instr}, SemsBut .tickId X → w.code = X ++ i :: R →
      i.ofTicker = true → j.ofTicker = true := by
    intro X R i hX hcode hi
    cases hj : j.isSem with
    | true =>
      cases j with
      | semWait x | semPost x => rfl
      | _ => cases hj
    | false =>
      rw [(hX.at_next (hw.symm.trans hcode) hj).1]
      exact hi
  cases h with
  | idle hcode | start hcode | look _ _ hcode | finish _ hcode =>
    rw [(List.cons.inj (hw.symm.trans hcode)).1]
    rfl
  | ask _ _ hX _ _ hcode | missing _ _ hX _ _ hcode | queued _ _ hX _ hcode | send _ _ hX hcode
  | restart _ _ hX hcode => exact hsems hX hcode rfl

/-- It pops no message. -/
theorem TickerAt.core_ne {ticks ticks' : TickList} {pc : TickerPc} {w : Worker}
    (h : TickerAt ticks ticks' pc w) (k : List Instr) : core w.code ≠ .ring .pop :: k := by
  have hsems : ∀ {X R : List Instr} {i : Instr}, SemsBut .tickId X → w.code = X ++ i :: R → i.isSem = false →
      i ≠ .ring .pop → core w.code ≠ .ring .pop :: k := by
    intro X R i hX hcode hi hne hpop
    rw [hcode, core_append, hX.core_eq, core_cons hi] at hpop
    exact hne (List.cons.inj hpop).1
  cases h with
  | idle hcode | start hcode | look _ _ hcode | finish _ hcode =>
    rw [hcode]
    exact fun heq => nomatch heq
  | ask _ _ hX _ _ hcode | missing _ _ hX _ _ hcode | queued _ _ hX _ hcode | send _ _ hX hcode
  | restart _ _ hX hcode => exact hsems hX hcode rfl (by simp)

/-- **`sm_ticker` takes or releases a semaphore**: it stays where it is, unless that begins or ends a
round. -/
theorem TickerAt.moves {ticks ticks' : TickList} {pc : TickerPc} {w : Worker}
    (h : TickerAt ticks ticks' pc w) {j : Instr} {k : List Instr} {held : List Sem} (hw : w.code = j :: k)
    (hj : Moves w.held held j) :
    TickerAt ticks ticks' pc ⟨k, held, w.result⟩ ∨
      (pc = .delay ∧ j = .semWait .tickId ∧ k = .slot 0 :: endRound ∧ ticks' = ticks) ∨
      pc = .looking smallwinNticks ∧ j = .semPost .tickId ∧ k = [.ticker] ∧ ticks' = ticks := by
  have hsem := hj.isSem
  cases h with
  | idle hcode hticks =>
    obtain ⟨rfl, -⟩ := List.cons.inj (hw.symm.trans hcode)
    cases hsem
  | start hcode hticks =>
    obtain ⟨rfl, rfl⟩ := List.cons.inj (hw.symm.trans hcode)
    exact .inr (.inl ⟨rfl, rfl, rfl, hticks⟩)
  | look _ _ hcode hticks =>
    obtain ⟨rfl, -⟩ := List.cons.inj (hw.symm.trans hcode)
    cases hsem
  | finish _ hcode hticks =>
    obtain ⟨rfl, rfl⟩ := List.cons.inj (hw.symm.trans hcode)
    exact .inr (.inr ⟨rfl, rfl, rfl, hticks⟩)
  | ask hheld hi hX hhsm hdue hcode hticks =>
    obtain ⟨X', hX', rfl, hheld'⟩ := hX.moves rfl (hw.symm.trans hcode) hj hheld
    exact .inl (.ask hheld' hi hX' hhsm hdue rfl hticks)
  | missing hheld hi hX hhsm hresult hcode hticks =>
    obtain ⟨X', hX', rfl, hheld'⟩ := hX.moves rfl (hw.symm.trans hcode) hj hheld
    exact .inl (.missing hheld' hi hX' hhsm hresult rfl hticks)
  | queued hheld hi hX hresult hcode hticks =>
    obtain ⟨X', hX', rfl, hheld'⟩ := hX.moves rfl (hw.symm.trans hcode) hj hheld
    exact .inl (.queued hheld' hi hX' hresult rfl hticks)
  | send hheld hi hX hcode hticks =>
    obtain ⟨X', hX', rfl, hheld'⟩ := hX.moves rfl (hw.symm.trans hcode) hj hheld
    exact .inl (.send hheld' hi hX' rfl hticks)
  | restart hheld hi hX hcode hticks =>
    obtain ⟨X', hX', rfl, hheld'⟩ := hX.moves rfl (hw.symm.trans hcode) hj hheld
    exact .inl (.restart hheld' hi hX' rfl hticks)

end SmIpc.Sm
