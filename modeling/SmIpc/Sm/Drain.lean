import SmIpc.Sm.SystemSteps

/-! # The scheduler left to itself

What `smallwin_scheduler` does with the queued messages when no other thread moves and the window procedures
make no calls.

* `dispatch` says it as a function of the windows and the messages: a message is handed to its window if it
  has one, and one that gets `SMM_CLOSE` is gone for the messages after it.
* `Sys.Tokens` — the value of `sem_event` is the number of queued messages, in every reachable state, so
  that the scheduler waits exactly when there are none.
* `Sys.Stage` says where the scheduler stands in such a run, what is still to be handed out, and how many
  steps this takes at most.
* `scheduler_drains` — every such run hands out a first part of `dispatch`, and ends, with all of it handed
  out and the queue empty. -/

namespace SmIpc.Sm

/-! ## What is handed out -/

/-- The windows after one was handed a message. -/
def closed (windows : List Win) (m : Message) : List Win :=
  if m.message = smmClose then windows.filter fun w => w.hsm ≠ m.hsm else windows

/-- The messages handed to windows, oldest first. -/
def dispatch : List Win → List Message → List Message
  | _, [] => []
  | windows, m :: ms =>
      if ∃ w ∈ windows, w.hsm = m.hsm then m :: dispatch (closed windows m) ms
      else dispatch windows ms

/-- A message without a window is dropped. -/
theorem dispatch_cons_of_not {windows : List Win} {m : Message} (h : ∀ w ∈ windows, w.hsm ≠ m.hsm)
    (ms : List Message) : dispatch windows (m :: ms) = dispatch windows ms := by
  rw [dispatch, if_neg]
  rintro ⟨w, hw, hhsm⟩
  exact h w hw hhsm

theorem dispatch_cons_of_mem {windows : List Win} {m : Message} {w : Win} (hw : w ∈ windows)
    (hhsm : w.hsm = m.hsm) (ms : List Message) :
    dispatch windows (m :: ms) = m :: dispatch (closed windows m) ms := by
  rw [dispatch, if_pos ⟨w, hw, hhsm⟩]

theorem mem_of_mem_closed {windows : List Win} {m : Message} {w : Win} (h : w ∈ closed windows m) :
    w ∈ windows := by
  rw [closed] at h
  split at h
  · exact List.mem_of_mem_filter h
  · exact h

/-- Blanking the messages for a handle without a window is not seen. -/
theorem dispatch_erase {windows : List Win} {hsm : Hsm} (hgone : ∀ w ∈ windows, w.hsm ≠ hsm)
    (hnull : ∀ w ∈ windows, w.hsm ≠ skInvalidHsm) (ms : List Message) :
    dispatch windows (ms.map fun m => if m.hsm = hsm then blankAll m else m) = dispatch windows ms := by
  induction ms generalizing windows with
  | nil => rfl
  | cons m ms ih =>
    rw [List.map_cons]
    by_cases hhit : m.hsm = hsm
    · -- blank or not, it has no window
      rw [if_pos hhit, dispatch_cons_of_not hnull,
        dispatch_cons_of_not fun w hw heq => hgone w hw (heq.trans hhit), ih hgone hnull]
    · rw [if_neg hhit, dispatch, dispatch]
      split
      · congr 1
        exact ih (fun w hw => hgone w (mem_of_mem_closed hw)) fun w hw => hnull w (mem_of_mem_closed hw)
      · exact ih hgone hnull

/-! ## The value of `sem_event` -/

namespace Msgq

variable {q : Msgq}

/-- **`pop_message` when `sem_event` counts the queued messages**: it blocks if there are none, and takes the
oldest otherwise. -/
theorem popMessage_spec (h : q.Valid) (htokens : q.semEvent = q.contents.length) :
    (q.contents = [] → popMessage q = none) ∧
      ∀ m l, q.contents = m :: l → ∃ q', popMessage q = some ((1, some m), q') ∧
        q'.contents = l ∧ q'.semEvent = l.length := by
  constructor
  · intro hnil
    rw [popMessage, waitEvent, if_pos (by rw [htokens, hnil]; rfl)]
    rfl
  · intro m l hc
    rw [hc, List.length_cons] at htokens
    obtain ⟨hcons, -⟩ := popSection_spec (h.semEvent (q.semEvent - 1))
    rw [contents_semEvent] at hcons
    obtain ⟨q', hq', -, hl, -, he⟩ := hcons m l hc
    refine ⟨q', ?_, hl, ?_⟩
    · rw [popMessage, waitEvent, if_neg (by omega), Option.map_some, hq']
    · rw [he]
      show q.semEvent - 1 = l.length
      omega

end Msgq

namespace Sys

variable {s t : Sys} {i : SysStep} {o : SysEvent}

/-- `sem_event` counts the queued messages. -/
def Tokens (s : Sys) : Prop := s.q.semEvent = s.q.contents.length

/-- A push posts `sem_event` if it is accepted. -/
theorem Tokens.post (h : s.Tokens) (hq : QueueWf s.q s.posts) (m : Message) (origin : Origin) :
    (s.post m origin).Tokens := by
  have hpush : (pushMessage s.q m.hsm m.message m.param1 m.param2).2.semEvent =
      (pushMessage s.q m.hsm m.message m.param1 m.param2).2.contents.length := by
    by_cases hne : m.hsm = skInvalidHsm
    · rw [hne, Msgq.pushMessage_invalid]
      exact h
    · obtain ⟨hok, hfull⟩ := Msgq.pushMessage_spec hq.valid hne m.message m.param1 m.param2
      by_cases hroom : s.q.contents.length + 1 < s.q.size
      · obtain ⟨q', hq', -, hc, -, he⟩ := hok hroom
        rw [hq', hc, he, List.length_append, List.length_singleton, h]
      · rw [hfull hroom]
        exact h
  exact hpush

/-- **One step keeps it.** -/
theorem Tokens.acts (h : s.Tokens) (hwf : s.Wf) (ha : Acts s i o t) : t.Tokens := by
  have hq := hwf.queue
  obtain ⟨hblocks, htakes⟩ := Msgq.popMessage_spec hwf.valid h
  cases ha with
  | popEmpty hpop =>
    cases hc : s.q.contents with
    | nil =>
      rw [hblocks hc] at hpop
      cases hpop
    | cons m l =>
      obtain ⟨q', hq', -⟩ := htakes m l hc
      rw [hq'] at hpop
      cases hpop
  | pop _ _ hpop =>
    cases hc : s.q.contents with
    | nil =>
      rw [hblocks hc] at hpop
      cases hpop
    | cons m l =>
      obtain ⟨q', hq', hl, he⟩ := htakes m l hc
      rw [hq'] at hpop
      cases hpop
      exact he.trans (congrArg List.length hl).symm
  | @erase tid m born rest _ =>
    have hlen := congrArg List.length (Msgq.sweep_spec hwf.valid (fun m' => m'.hsm = m.hsm) blankAll).2
    rw [List.length_map] at hlen
    exact h.trans hlen.symm
  | @createPush tid w _ => exact h.post hq (createMsg w) (.creation w.born)
  | @push tid m _ => exact h.post hq m .sender
  | @send tid m _ _ => exact h.post hq m .sender
  | @tickSend i _ _ => exact h.post hq ((s.ticks i).message i) (.tick (s.registered i))
  | _ => exact h

/-- Every reachable state has it. -/
theorem Tokens.run {mem : ℤ → Message} {steps : List SysStep} {es : List SysEvent}
    (hrun : StepMachine.run step (Sys.init mem) steps = some (es, s)) : s.Tokens := by
  refine (StepMachine.run_induction step (fun _ _ s => s.Wf ∧ s.Tokens) ⟨Wf.init mem, ?_⟩ ?_ hrun).2
  · exact congrArg List.length (Msgq.contents_initMsgq smallwinNmsgq mem).symm
  · rintro is os u i o t - ⟨hwf, htokens⟩ hs
    have ha := (step_cases hs).2
    exact ⟨hwf.acts ha, htokens.acts hwf ha⟩

end Sys

/-! ## The run of the scheduler -/

/-- The steps of the scheduler. -/
def SysStep.IsScheduler : SysStep → Prop
  | .pop | .test | .enterHand => True
  | .leave tid | .destroy tid | .erase tid => tid = 0
  | _ => False

/-- The message an event hands to a window, if the scheduler had it in hand. -/
def SysEvent.handed : SysEvent → List Message
  | .entered m (some _) _ (some _) => [m]
  | _ => []

namespace Sys

/-- The scheduler is at its `pop_message`, and no message is queued. -/
def Drained (s : Sys) : Prop := s.hand = none ∧ s.threads 0 = [] ∧ s.q.contents = []

/-- Where the scheduler stands when nothing else moves, with the messages that are still to be handed
out and the steps that this takes at most. -/
inductive Stage (s : Sys) : List Message → ℕ → Prop
  /-- At its `pop_message`. -/
  | idle (hhand : s.hand = none) (hstack : s.threads 0 = []) :
      Stage s (dispatch s.windows s.q.contents) (6 * s.q.contents.length)
  /-- Before `sm_is_smallwin`. -/
  | popped {m : Message} {p : Post} (hhand : s.hand = some ⟨m, p, none⟩) (hstack : s.threads 0 = []) :
      Stage s (dispatch s.windows (m :: s.q.contents)) (6 * s.q.contents.length + 5)
  /-- Before the read of `sm_proc`. -/
  | tested {m : Message} {p : Post} {w : Win} (hhand : s.hand = some ⟨m, p, some w.born⟩)
      (hstack : s.threads 0 = []) (hat : s.windowAt m.hsm = some w) :
      Stage s (m :: dispatch (closed s.windows m) s.q.contents) (6 * s.q.contents.length + 4)
  /-- In the window procedure. -/
  | inProc {m : Message} {w : Win} (hhand : s.hand = none)
      (hstack : s.threads 0 = [.running m w.born .inProc]) (hat : s.windowAt m.hsm = some w) :
      Stage s (dispatch (closed s.windows m) s.q.contents) (6 * s.q.contents.length + 3)
  /-- Before `sm_destroy_smallwin`. -/
  | returned {m : Message} {w : Win} (hhand : s.hand = none)
      (hstack : s.threads 0 = [.running m w.born .returned]) (hat : s.windowAt m.hsm = some w)
      (hclose : m.message = smmClose) :
      Stage s (dispatch (closed s.windows m) s.q.contents) (6 * s.q.contents.length + 2)
  /-- Before `erase_message`. -/
  | destroyed {m : Message} {born : ℕ} (hhand : s.hand = none)
      (hstack : s.threads 0 = [.running m born .destroyed]) (hat : s.windowAt m.hsm = none) :
      Stage s (dispatch s.windows s.q.contents) (6 * s.q.contents.length + 1)

/-- The system while only the scheduler moves. -/
structure Undisturbed (s : Sys) (todo : List Message) (left : ℕ) : Prop where
  /-- What every run keeps. -/
  wf : s.Wf
  /-- `sem_event` counts the queued messages. -/
  tokens : s.Tokens
  /-- No thread is in `sm_create_smallwin`. -/
  free : s.creating = none
  /-- No freed node was read. -/
  defined : s.undefined = false
  /-- Where the scheduler stands. -/
  stage : Stage s todo left

/-- What a message that was handed to a window leaves to do, at the return of the procedure. -/
theorem stage_afterProc {m : Message} {w : Win} (hhand : s.hand = none)
    (hstack : s.threads 0 = afterProc m w.born) (hat : s.windowAt m.hsm = some w) :
    ∃ left ≤ 6 * s.q.contents.length + 2,
      Stage s (dispatch (closed s.windows m) s.q.contents) left := by
  by_cases hclose : m.message = smmClose
  · rw [afterProc, if_pos hclose] at hstack
    exact ⟨_, Nat.le_refl _, .returned hhand hstack hat hclose⟩
  · rw [afterProc, if_neg hclose] at hstack
    refine ⟨6 * s.q.contents.length, Nat.le_add_right _ _, ?_⟩
    rw [closed, if_neg hclose]
    exact .idle hhand hstack

namespace Stage

variable {todo : List Message} {left : ℕ}

/-- What is left to do after a step that put this out. -/
def After (s : Sys) (o : SysEvent) (todo : List Message) (left : ℕ) : Prop :=
  ∃ todo' left', Stage s todo' left' ∧ left' < left ∧ todo = o.handed ++ todo'

/-- The message in hand has no window if it is for the null handle. -/
theorem pop (h : Stage s todo left) (hwf : s.Wf) (htokens : s.Tokens) {v : ℤ} {m : Message} {q : Msgq}
    {p : Post} (hhand : s.hand = none) (hidle : s.threads 0 = [])
    (hpop : popMessage s.q = some ((v, some m), q)) (hq : t.q = q) (hwin : t.windows = s.windows)
    (hstack : t.threads = s.threads)
    (ht : t.hand = if m.hsm = skInvalidHsm then none else some ⟨m, p, none⟩) :
    After t (.popped m p) todo left := by
  obtain ⟨hblocks, htakes⟩ := Msgq.popMessage_spec hwf.valid htokens
  cases h with
  | idle _ _ =>
    cases hc : s.q.contents with
    | nil =>
      rw [hblocks hc] at hpop
      cases hpop
    | cons m' l =>
      obtain ⟨q', hq', hl, -⟩ := htakes m' l hc
      rw [hq'] at hpop
      cases hpop
      rw [← hwin, ← hl, ← hq, List.length_cons]
      by_cases hnull : m.hsm = skInvalidHsm
      · rw [if_pos hnull] at ht
        refine ⟨_, _, .idle ht (hstack ▸ hidle), by omega, dispatch_cons_of_not ?_ _⟩
        intro w hw
        rw [hnull]
        exact hwf.nonzero w (hwin ▸ hw)
      · rw [if_neg hnull] at ht
        exact ⟨_, _, .popped ht (hstack ▸ hidle), by omega, rfl⟩
  | popped hhand' _ | tested hhand' _ _ => cases hhand.symm.trans hhand'
  | inProc _ hstack' _ | returned _ hstack' _ _ | destroyed _ hstack' _ => cases hidle.symm.trans hstack'

theorem test (h : Stage s todo left) {m : Message} {p : Post} (hhand : s.hand = some ⟨m, p, none⟩) :
    After (Sys.tick { s with hand := (s.windowAt m.hsm).map fun w => ⟨m, p, some w.born⟩ }) .silent
      todo left := by
  cases h with
  | @popped m' p' hhand' hidle =>
    obtain ⟨rfl, rfl⟩ : m' = m ∧ p' = p := by
      rw [hhand] at hhand'
      cases hhand'
      exact ⟨rfl, rfl⟩
    cases hat : s.windowAt m'.hsm with
    | none =>
      -- the message is dropped
      refine ⟨_, _, .idle rfl hidle, ?_, dispatch_cons_of_not (windowAt_eq_none hat) _⟩
      exact Nat.lt_add_of_pos_right (by decide)
    | some w =>
      obtain ⟨hw, hhsm⟩ := mem_of_windowAt hat
      refine ⟨_, _, .tested rfl hidle hat, ?_, dispatch_cons_of_mem hw hhsm _⟩
      exact Nat.lt_succ_self _
  | idle hhand' _ | tested hhand' _ _ | inProc hhand' _ _ | returned hhand' _ _ _
  | destroyed hhand' _ _ => cases hhand.symm.trans hhand'

theorem enterHand (h : Stage s todo left) {m : Message} {p : Post} {born : ℕ}
    (hhand : s.hand = some ⟨m, p, some born⟩) :
    After (Sys.tick { s.setStack 0 (afterRead m born (s.windowAt m.hsm)) with
        hand := none
        undefined := (s.windowAt m.hsm).isNone })
      (.entered m (some p) born (s.windowAt m.hsm)) todo left := by
  cases h with
  | @tested m' p' w hhand' hidle hat =>
    obtain ⟨rfl, rfl, rfl⟩ : m' = m ∧ p' = p ∧ w.born = born := by
      rw [hhand] at hhand'
      cases hhand'
      exact ⟨rfl, rfl, rfl⟩
    rw [hat]
    by_cases hproc : w.smProc.isSome
    · refine ⟨_, _, .inProc rfl ?_ hat, Nat.lt_succ_self _, rfl⟩
      simp [Sys.tick, setStack, afterRead, hproc]
    · obtain ⟨left', hle, hstage⟩ := stage_afterProc
        (s := Sys.tick { s.setStack 0 (afterRead m' w.born (some w)) with hand := none, undefined := false })
        rfl (by simp [Sys.tick, setStack, afterRead, hproc]) hat
      exact ⟨_, left', hstage, Nat.lt_of_le_of_lt hle (Nat.add_lt_add_left (by decide) _), rfl⟩
  | idle hhand' _ | popped hhand' _ | inProc hhand' _ _ | returned hhand' _ _ _
  | destroyed hhand' _ _ => cases hhand.symm.trans hhand'

/-- The procedure of the window returns. -/
theorem leave (h : Stage s todo left) {m : Message} {born : ℕ} {rest : List Frame}
    (hstack : s.threads 0 = .running m born .inProc :: rest) :
    After (Sys.tick (s.setStack 0 (afterProc m born ++ rest))) .silent todo left := by
  cases h with
  | @inProc m' w hhand hstack' hat =>
    obtain ⟨rfl, rfl, rfl⟩ : m' = m ∧ w.born = born ∧ [] = rest := by
      cases hstack.symm.trans hstack'
      exact ⟨rfl, rfl, rfl⟩
    obtain ⟨left', hle, hstage⟩ := stage_afterProc
      (s := Sys.tick (s.setStack 0 (afterProc m' w.born ++ []))) hhand
      (by simp [Sys.tick, setStack]) hat
    exact ⟨_, left', hstage, Nat.lt_of_le_of_lt hle (Nat.lt_succ_self _), rfl⟩
  | idle _ hstack' | popped _ hstack' | tested _ hstack' _ | returned _ hstack' _ _
  | destroyed _ hstack' _ => cases hstack.symm.trans hstack'

/-- The window is gone, and with it the messages for it. -/
theorem destroy (h : Stage s todo left) {m : Message} {born : ℕ} {rest : List Frame}
    (hstack : s.threads 0 = .running m born .returned :: rest) :
    After (Sys.tick { s.setStack 0 (.running m born .destroyed :: rest) with
        windows := s.windows.filter fun w => w.hsm ≠ m.hsm
        undefined := (s.windowAt m.hsm).isNone })
      (.destroyed m.hsm born (s.windowAt m.hsm)) todo left := by
  cases h with
  | @returned m' w hhand hstack' hat hclose =>
    obtain ⟨rfl, rfl, rfl⟩ : m' = m ∧ w.born = born ∧ [] = rest := by
      cases hstack.symm.trans hstack'
      exact ⟨rfl, rfl, rfl⟩
    refine ⟨_, _, @Stage.destroyed _ m' w.born hhand ?_ ?_, Nat.lt_succ_self _, ?_⟩
    · simp [Sys.tick, setStack]
    · refine List.find?_eq_none.mpr ?_
      intro v hv
      simpa using (List.mem_filter.mp hv).2
    · rw [closed, if_pos hclose]
      rfl
  | idle _ hstack' | popped _ hstack' | tested _ hstack' _ | inProc _ hstack' _
  | destroyed _ hstack' _ => cases hstack.symm.trans hstack'

theorem erase (h : Stage s todo left) (hwf : s.Wf) {m : Message} {born : ℕ} {rest : List Frame}
    (hstack : s.threads 0 = .running m born .destroyed :: rest) :
    After (Sys.tick { s.setStack 0 rest with q := eraseMessage s.q m.hsm }) .silent todo left := by
  cases h with
  | @destroyed m' born' hhand hstack' hat =>
    obtain ⟨rfl, rfl, rfl⟩ : m' = m ∧ born' = born ∧ [] = rest := by
      cases hstack.symm.trans hstack'
      exact ⟨rfl, rfl, rfl⟩
    have hc := (Msgq.sweep_spec hwf.valid (fun m'' => m''.hsm = m'.hsm) blankAll).2
    have hidle := Stage.idle (s := Sys.tick { s.setStack 0 [] with q := eraseMessage s.q m'.hsm })
      hhand (by simp [Sys.tick, setStack])
    refine ⟨_, _, hidle, ?_, ?_⟩
    · show 6 * (sweep _ _ _).contents.length < _
      rw [hc, List.length_map]
      exact Nat.lt_succ_self _
    · show _ = dispatch s.windows (sweep _ _ _).contents
      rw [hc]
      simpa using (dispatch_erase (windowAt_eq_none hat) hwf.nonzero s.q.contents).symm
  | idle _ hstack' | popped _ hstack' | tested _ hstack' _ | inProc _ hstack' _
  | returned _ hstack' _ _ => cases hstack.symm.trans hstack'

/-- **One step of the scheduler** hands out the first of what is still to be handed out, or nothing, and
leaves less to do. -/
theorem acts (h : Stage s todo left) (hwf : s.Wf) (htokens : s.Tokens) (hi : i.IsScheduler)
    (ha : Acts s i o t) : After t o todo left := by
  cases ha with
  | popEmpty hpop =>
    obtain ⟨hblocks, htakes⟩ := Msgq.popMessage_spec hwf.valid htokens
    cases hc : s.q.contents with
    | nil =>
      rw [hblocks hc] at hpop
      cases hpop
    | cons m l =>
      obtain ⟨q', hq', -⟩ := htakes m l hc
      rw [hq'] at hpop
      cases hpop
  | pop hhand hidle hpop => exact h.pop hwf htokens hhand hidle hpop rfl rfl rfl rfl
  | test hhand => exact h.test hhand
  | enterHand hhand => exact h.enterHand hhand
  | @leave tid m born rest hstack =>
    obtain rfl : tid = 0 := hi
    exact h.leave hstack
  | @destroy tid m born rest hstack _ =>
    obtain rfl : tid = 0 := hi
    exact h.destroy hstack
  | @erase tid m born rest hstack =>
    obtain rfl : tid = 0 := hi
    exact h.erase hwf hstack
  | _ => cases hi

/-- **The scheduler is never stuck with something to do**: where none of its steps can be taken, everything
was handed out. -/
theorem rest (h : Stage s todo left) (hwf : s.Wf) (htokens : s.Tokens) (hfree : s.creating = none)
    (hdef : s.undefined = false) (hrest : ∀ i : SysStep, i.IsScheduler → step s i = none) :
    todo = [] ∧ s.Drained := by
  have hact : ∀ i : SysStep, i.IsScheduler → s.act i = none := by
    intro i hi
    have hi := hrest i hi
    rw [step, hdef, if_neg (by decide)] at hi
    exact Option.map_eq_none_iff.mp hi
  cases h with
  | idle hhand hstack =>
    cases hc : s.q.contents with
    | nil => exact ⟨rfl, hhand, hstack, hc⟩
    | cons m l =>
      obtain ⟨q', hq', -⟩ := (Msgq.popMessage_spec hwf.valid htokens).2 m l hc
      have hpop := hact .pop trivial
      simp only [act, hhand, hstack, hq', and_self, if_true] at hpop
      cases hpop
  | popped hhand _ =>
    have htest := hact .test trivial
    simp only [act, hhand] at htest
    cases htest
  | tested hhand _ _ =>
    have henter := hact .enterHand trivial
    simp only [act, hhand] at henter
    cases henter
  | inProc _ hstack _ =>
    have hleave := hact (.leave 0) rfl
    simp only [act, hstack, hfree, Option.map_none] at hleave
    cases hleave
  | returned _ hstack _ _ =>
    have hdestroy := hact (.destroy 0) rfl
    simp only [act, hstack, hfree, if_true] at hdestroy
    cases hdestroy
  | destroyed _ hstack _ =>
    have herase := hact (.erase 0) rfl
    simp only [act, hstack] at herase
    cases herase

end Stage

/-- No step of the scheduler starts a call of `sm_create_smallwin`. -/
theorem creating_acts (hi : i.IsScheduler) (ha : Acts s i o t) : t.creating = s.creating := by
  cases ha with
  | createPush _ => cases hi
  | createLink _ _ _ _ => cases hi
  | _ => rfl

/-- No step of the scheduler reads a freed node. -/
theorem Undisturbed.undefined_acts {todo : List Message} {left : ℕ} (h : s.Undisturbed todo left)
    (hi : i.IsScheduler) (ha : Acts s i o t) : t.undefined = false := by
  have hstage := h.stage
  cases ha with
  | @enterHand m p born hhand =>
    cases hstage with
    | tested hhand' _ hat =>
      cases hhand.symm.trans hhand'
      show (s.windowAt _).isNone = false
      rw [hat]
      rfl
    | idle hhand' _ | popped hhand' _ | inProc hhand' _ _ | returned hhand' _ _ _
    | destroyed hhand' _ _ => cases hhand.symm.trans hhand'
  | @destroy tid m born rest hstack _ =>
    obtain rfl : tid = 0 := hi
    cases hstage with
    | returned _ hstack' hat _ =>
      cases hstack.symm.trans hstack'
      show (s.windowAt _).isNone = false
      rw [hat]
      rfl
    | idle _ hstack' | popped _ hstack' | tested _ hstack' _ | inProc _ hstack' _
    | destroyed _ hstack' _ => cases hstack.symm.trans hstack'
  | enter _ => cases hi
  | _ => exact h.defined

/-- **One step of the scheduler alone.** -/
theorem Undisturbed.step {todo : List Message} {left : ℕ} (h : s.Undisturbed todo left) (hi : i.IsScheduler)
    (hs : step s i = some (o, t)) :
    ∃ todo' left', t.Undisturbed todo' left' ∧ left' < left ∧ todo = o.handed ++ todo' := by
  have ha := (step_cases hs).2
  obtain ⟨todo', left', hstage, hlt, htodo⟩ := h.stage.acts h.wf h.tokens hi ha
  have hfree := (creating_acts hi ha).trans h.free
  exact ⟨todo', left', ⟨h.wf.acts ha, h.tokens.acts h.wf ha, hfree, h.undefined_acts hi ha, hstage⟩,
    hlt, htodo⟩

end Sys

/-- **The scheduler drains the queue.** When any run has left the scheduler at its `pop_message`, and
nothing but the scheduler moves from there, it takes at most six steps for each queued message, reads no
freed node, and hands out messages as `dispatch` says. It stops only when all of these are handed out and
the queue is empty, and some such run gets there. -/
theorem scheduler_drains (mem : ℤ → Message) (steps : List SysStep) (es : List SysEvent) (s : Sys)
    (hrun : StepMachine.run Sys.step (Sys.init mem) steps = some (es, s)) (hdef : s.undefined = false)
    (hfree : s.creating = none) (hhand : s.hand = none) (hidle : s.threads 0 = []) :
    (∀ own os t, (∀ i ∈ own, SysStep.IsScheduler i) → StepMachine.run Sys.step s own = some (os, t) →
      own.length ≤ 6 * s.q.contents.length ∧ t.undefined = false ∧
        os.flatMap SysEvent.handed <+: dispatch s.windows s.q.contents ∧
        ((∀ i : SysStep, i.IsScheduler → Sys.step t i = none) →
          os.flatMap SysEvent.handed = dispatch s.windows s.q.contents ∧ t.Drained)) ∧
      ∃ own os t, (∀ i ∈ own, SysStep.IsScheduler i) ∧ StepMachine.run Sys.step s own = some (os, t) ∧
        os.flatMap SysEvent.handed = dispatch s.windows s.q.contents ∧ t.Drained := by
  have hundisturbed : s.Undisturbed (dispatch s.windows s.q.contents) (6 * s.q.contents.length) :=
    ⟨Sys.Wf.run hrun, Sys.Tokens.run hrun, hfree, hdef, .idle hhand hidle⟩
  have hstep : ∀ s i o t todo n, Sys.Undisturbed s todo n → SysStep.IsScheduler i →
      Sys.step s i = some (o, t) → ∃ todo' n', t.Undisturbed todo' n' ∧ n' < n ∧ todo = o.handed ++ todo' :=
    fun s i o t todo n h hi hs => h.step hi hs
  have hall : ∀ own os t, (∀ i ∈ own, SysStep.IsScheduler i) →
      StepMachine.run Sys.step s own = some (os, t) →
      own.length ≤ 6 * s.q.contents.length ∧ t.undefined = false ∧
        os.flatMap SysEvent.handed <+: dispatch s.windows s.q.contents ∧
        ((∀ i : SysStep, i.IsScheduler → Sys.step t i = none) →
          os.flatMap SysEvent.handed = dispatch s.windows s.q.contents ∧ t.Drained) := by
    intro own os t hown hr
    obtain ⟨todo, left, ht, hle, htodo⟩ := StepMachine.run_countdown hstep hundisturbed hown hr
    refine ⟨by omega, ht.defined, ⟨todo, htodo.symm⟩, ?_⟩
    intro hrest
    obtain ⟨rfl, hdrained⟩ := ht.stage.rest ht.wf ht.tokens ht.free ht.defined hrest
    exact ⟨by rw [htodo, List.append_nil], hdrained⟩
  refine ⟨hall, ?_⟩
  obtain ⟨own, os, t, hown, hr, hrest⟩ := StepMachine.exists_run_rest hstep hundisturbed
  exact ⟨own, os, t, hown, hr, (hall own os t hown hr).2.2.2 hrest⟩

/-- The rule for a window that gets its `SMM_CREATE`, an `SMM_CLOSE`, and a message after it. -/
theorem scheduler_drains_close : ∃ es s,
    StepMachine.run Sys.step (Sys.init fun _ => ⟨0, 0, 0, 0⟩)
        [.createLink 1 (some 64) (some 1), .createPush 1, .push 1 ⟨64, smmClose, 0, 0⟩,
          .push 1 ⟨64, smmTick, 0, 0⟩] = some (es, s) ∧
      ∃ own os t, (∀ i ∈ own, SysStep.IsScheduler i) ∧ StepMachine.run Sys.step s own = some (os, t) ∧
        os.flatMap SysEvent.handed = [⟨64, smmCreate, 0, 0⟩, ⟨64, smmClose, 0, 0⟩] ∧ t.Drained := by
  obtain ⟨es, s, hrun, hdef, hfree, hhand, hidle, hall⟩ : ∃ es s,
      StepMachine.run Sys.step (Sys.init fun _ => ⟨0, 0, 0, 0⟩)
          [.createLink 1 (some 64) (some 1), .createPush 1, .push 1 ⟨64, smmClose, 0, 0⟩,
            .push 1 ⟨64, smmTick, 0, 0⟩] = some (es, s) ∧
        s.undefined = false ∧ s.creating = none ∧ s.hand = none ∧ s.threads 0 = [] ∧
        dispatch s.windows s.q.contents = [⟨64, smmCreate, 0, 0⟩, ⟨64, smmClose, 0, 0⟩] :=
    ⟨_, _, rfl, rfl, rfl, rfl, rfl, by decide⟩
  obtain ⟨own, os, t, hown, hr, hos, ht⟩ := (scheduler_drains _ _ es s hrun hdef hfree hhand hidle).2
  exact ⟨es, s, hrun, own, os, t, hown, hr, hos.trans hall, ht⟩

end SmIpc.Sm
