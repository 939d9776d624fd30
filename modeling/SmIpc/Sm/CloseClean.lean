import SmIpc.Sm.Delivery

/-! # What a close leaves behind

`default_sm` unlinks a window that is closed and erases its messages; it does not look at `tick_list`. So
when `run_sm` is done with `SMM_CLOSE`, the window is out of the list and no queued message names it,
and a tick slot names it exactly if it did when the window procedure had returned and nobody has given
it to `sm_destroy_tick` since (`close_cleans`). -/

namespace SmIpc.Sm

/-- The step sets a tick for the window. -/
def SysStep.RegistersFor (hsm : Hsm) : SysStep → Prop
  | .setXtick _ hsm' _ _ _ => hsm' = hsm
  | _ => False

namespace Sys

variable {s t : Sys} {i : SysStep} {o : SysEvent}

/-- **Nothing is left of a window**: it is not in `smallwin_list`, and no queued message and no slot of
`tick_list` carries its handle. -/
structure CleanOf (s : Sys) (w : Win) : Prop where
  /-- `smallwin_list`. -/
  windows : w ∉ s.windows
  /-- The ring. -/
  messages : ∀ m ∈ s.q.contents, m.hsm ≠ w.hsm
  /-- `tick_list`. -/
  ticks : ∀ i < smallwinNticks, (s.ticks i).hsm ≠ w.hsm

/-- The scheduler has a message in hand only outside every activation. -/
def HandIdle (s : Sys) : Prop := s.hand ≠ none → s.threads 0 = []

theorem HandIdle.setStack (h : s.HandIdle) {tid : ℕ} {stack : List Frame}
    (htid : tid = 0 → s.threads 0 ≠ []) : (s.setStack tid stack).HandIdle := by
  intro hhand
  have hidle := h hhand
  have hne : 0 ≠ tid := fun heq => htid heq.symm hidle
  rw [Sys.setStack]
  simp only [Function.update_of_ne hne]
  exact hidle

/-- A thread that can make a call is not the scheduler outside its activations. -/
theorem CanCall.ne_nil {tid : ℕ} (h : s.CanCall tid) : tid = 0 → s.threads 0 ≠ [] := by
  rintro rfl hnil
  have := h.2
  rw [hnil] at this
  exact this rfl

/-- A thread in `default_sm` makes no call. -/
theorem not_canCall {tid : ℕ} {m : Message} {born : ℕ} {rest : List Frame}
    (hstack : s.threads tid = .running m born .destroyed :: rest) : ¬ s.CanCall tid := by
  intro h
  have := h.2
  rw [hstack] at this
  exact this

theorem HandIdle.acts (h : s.HandIdle) (ha : Acts s i o t) : t.HandIdle := by
  cases ha with
  | pop _ hidle _ => exact fun _ => hidle
  | test hhand => exact fun _ => h (by simp [hhand])
  | enterHand hhand => exact fun hne => absurd rfl hne
  | express hcall _ => exact h.setStack hcall.ne_nil
  | enter hstack =>
    exact h.setStack fun heq hnil => by simp [heq, hnil] at hstack
  | leave hstack =>
    exact h.setStack fun heq hnil => by simp [heq, hnil] at hstack
  | destroy hstack _ =>
    exact h.setStack fun heq hnil => by simp [heq, hnil] at hstack
  | erase hstack =>
    exact h.setStack fun heq hnil => by simp [heq, hnil] at hstack
  | destroyTick hcall _ => exact h.setStack hcall.ne_nil
  | _ => exact h

/-- **A thread in `default_sm` stays there** until it erases the messages. -/
theorem stack_acts (h : s.HandIdle) (ha : Acts s i o t) {tid : ℕ} {m : Message} {born : ℕ}
    {rest : List Frame} (hstack : s.threads tid = .running m born .destroyed :: rest)
    (hi : i ≠ .erase tid) : t.threads tid = .running m born .destroyed :: rest := by
  -- a stack that another thread changes is another one
  have hother : ∀ {tid' : ℕ} {stack : List Frame}, tid ≠ tid' →
      (s.setStack tid' stack).threads tid = .running m born .destroyed :: rest := by
    intro tid' stack hne
    rw [Sys.setStack]
    simp only [Function.update_of_ne hne]
    exact hstack
  cases ha with
  | enterHand hhand =>
    refine hother ?_
    rintro rfl
    rw [h (by simp [hhand])] at hstack
    cases hstack
  | express hcall _ => exact hother fun heq => not_canCall hstack (heq ▸ hcall)
  | enter hstack' => exact hother fun heq => by simp [← heq, hstack] at hstack'
  | leave hstack' => exact hother fun heq => by simp [← heq, hstack] at hstack'
  | destroy hstack' _ => exact hother fun heq => by simp [← heq, hstack] at hstack'
  | @erase tid' _ _ _ _ => exact hother fun heq => hi (by rw [heq])
  | destroyTick hcall _ => exact hother fun heq => not_canCall hstack (heq ▸ hcall)
  | _ => exact hstack

/-- **What one step does to the slots of a window**: only `sm_destroy_tick` takes one away, and without a
registration there is no new one. -/
theorem slot_acts (ha : Acts s i o t) {hsm : Hsm} (hne : hsm ≠ skInvalidHsm)
    (hreg : ¬ i.RegistersFor hsm) {n : ℕ} (hn : n < smallwinNticks) :
    (t.ticks n).hsm = hsm ↔
      (s.ticks n).hsm = hsm ∧ ∀ tid, i ≠ .destroyTick tid (n + 1) := by
  cases ha with
  | @setXtick tid hsm' n100msec param2 sysflag j _ _ hslot =>
    have hfree := (freeTickLoop_spec hslot).1
    by_cases hj : n = j
    · subst hj
      simp only [tick, Function.update_self]
      constructor
      · intro heq
        exact absurd heq hreg
      · rintro ⟨heq, -⟩
        exact absurd (heq.symm.trans hfree) hne
    · simp [tick, Function.update_of_ne hj]
  | @destroyTick tid htick _ _ =>
    by_cases hslot : htick = n + 1
    · subst hslot
      have hrange : (0 : ℤ) < n + 1 ∧ (n + 1 : ℤ) ≤ smallwinNticks := by omega
      have hidx : ((n : ℤ) + 1 - 1).toNat = n := by omega
      simp only [tick, smDestroyTick, if_pos hrange, hidx, Function.update_self]
      constructor
      · intro heq
        exact absurd heq.symm hne
      · rintro ⟨-, hnot⟩
        exact absurd rfl (hnot tid)
    · simp [tick, smDestroyTick_of_ne hslot, hslot]
  | @tickPass j slot _ hlook => simp [tick, hsm_update (hsm_tickLook hlook)]
  | @tickSend j _ _ => simp [tick, hsm_update (s.ticks j).hsm_restarted]
  | _ => simp [tick, Sys.post, Sys.setStack]

/-- A window that is out of the list does not come back: a new one is linked later. -/
theorem not_mem_acts (ha : Acts s i o t) {w : Win} (hw : w ∉ s.windows) (hborn : w.born < s.now) :
    w ∉ t.windows ∧ w.born < t.now := by
  have hnow : w.born < s.now + 1 := by omega
  cases ha with
  | createLink _ _ _ _ =>
    refine ⟨?_, hnow⟩
    intro hmem
    rcases List.mem_append.mp hmem with hmem | hmem
    · exact hw hmem
    · rw [List.mem_singleton.mp hmem] at hborn
      exact Nat.lt_irrefl _ hborn
  | destroy _ _ => exact ⟨fun hmem => hw (List.mem_of_mem_filter hmem), hnow⟩
  | _ => exact ⟨hw, hnow⟩

/-- What holds of a window between `sm_destroy_smallwin` and `erase_message` of its close by thread
`tid`; `s₁` is the state after the first. -/
structure Closing (w : Win) (tid : ℕ) (s₁ : Sys) (mid : List SysStep) (s : Sys) : Prop where
  /-- The facts every run keeps. -/
  wf : s.Wf
  /-- The scheduler's message in hand. -/
  hand : s.HandIdle
  /-- The thread is about to call `erase_message`. -/
  stack : ∃ m born rest, m.hsm = w.hsm ∧ s.threads tid = .running m born .destroyed :: rest
  /-- The window is out of the list, and not younger than the state. -/
  gone : w ∉ s.windows ∧ w.born < s.now
  /-- Its slots are those it had that were not given to `sm_destroy_tick`. -/
  slots : ∀ n < smallwinNticks, (s.ticks n).hsm = w.hsm ↔
    (s₁.ticks n).hsm = w.hsm ∧ ∀ tid', .destroyTick tid' (n + 1) ∉ mid

/-- **The start of the close**: the window was in the list, its slots are as they were, and what is left
to do is `erase_message`. -/
theorem Closing.start (hwf : s.Wf) (hhand : s.HandIdle) {tid born : ℕ} {w : Win}
    (ha : Acts s (.destroy tid) (.destroyed w.hsm born (some w)) t) :
    w ∈ s.windows ∧ t.ticks = s.ticks ∧ Closing w tid t [] t := by
  have hwf' := hwf.acts ha
  have hhand' := hhand.acts ha
  generalize ho : SysEvent.destroyed w.hsm born (some w) = o at ha
  cases ha with
  | @destroy _ m born' rest hstack _ =>
    obtain ⟨hm, -, hat⟩ : w.hsm = m.hsm ∧ born = born' ∧ some w = s.windowAt m.hsm := by
      simpa using ho
    obtain ⟨hw, -⟩ := mem_of_windowAt hat.symm
    refine ⟨hw, rfl, hwf', hhand', ⟨m, born', rest, hm.symm, ?_⟩, ⟨?_, ?_⟩, ?_⟩
    · simp [tick, Sys.setStack]
    · intro hmem
      exact absurd hm (mem_filter_windows.mp hmem).2
    · have := hwf.born_lt w hw
      show w.born < s.now + 1
      omega
    · simp

/-- **One step of another thread.** -/
theorem Closing.acts {w : Win} {tid : ℕ} {s₁ : Sys} {mid : List SysStep}
    (h : Closing w tid s₁ mid s) (hne : w.hsm ≠ skInvalidHsm) (hi : i ≠ .erase tid)
    (hreg : ¬ i.RegistersFor w.hsm) (ha : Acts s i o t) : Closing w tid s₁ (mid ++ [i]) t := by
  obtain ⟨m, born, rest, hm, hstack⟩ := h.stack
  refine ⟨h.wf.acts ha, h.hand.acts ha, ⟨m, born, rest, hm, stack_acts h.hand ha hstack hi⟩,
    not_mem_acts ha h.gone.1 h.gone.2, ?_⟩
  intro n hn
  rw [slot_acts ha hne hreg hn, h.slots n hn, and_assoc]
  refine and_congr_right fun _ => ?_
  constructor
  · rintro ⟨hmid, hlast⟩ tid' hmem
    rcases List.mem_append.mp hmem with hmem | hmem
    · exact hmid tid' hmem
    · exact hlast tid' (List.mem_singleton.mp hmem).symm
  · intro hall
    refine ⟨fun tid' hmem => hall tid' (List.mem_append_left _ hmem), fun tid' heq => ?_⟩
    exact hall tid' (List.mem_append_right _ (heq ▸ List.mem_singleton_self _))

/-- **The end of the close**: erasing the messages leaves the window's slots and nothing else. -/
theorem Closing.erase {w : Win} {tid : ℕ} {s₁ : Sys} {mid : List SysStep}
    (h : Closing w tid s₁ mid s) (hne : w.hsm ≠ skInvalidHsm) (ha : Acts s (.erase tid) o t) :
    t.CleanOf w ↔
      ∀ n < smallwinNticks, (s₁.ticks n).hsm = w.hsm → ∃ tid', .destroyTick tid' (n + 1) ∈ mid := by
  obtain ⟨m, born, rest, hm, hstack⟩ := h.stack
  cases ha with
  | @erase _ m' born' rest' hstack' =>
    obtain ⟨heq, -⟩ := List.cons.inj (hstack.symm.trans hstack')
    obtain ⟨rfl, -, -⟩ : m = m' ∧ born = born' ∧ RunPc.destroyed = .destroyed := by
      simpa using heq
    have hslots : ∀ n < smallwinNticks, ((s.ticks n).hsm ≠ w.hsm ↔
        ((s₁.ticks n).hsm = w.hsm → ∃ tid', .destroyTick tid' (n + 1) ∈ mid)) := by
      intro n hn
      rw [Ne, h.slots n hn]
      push Not
      rfl
    constructor
    · intro hclean n hn
      exact (hslots n hn).mp (hclean.ticks n hn)
    · intro hall
      refine ⟨h.gone.1, ?_, fun n hn => (hslots n hn).mpr (hall n hn)⟩
      intro m' hm'
      -- every message that is left was not for the window, or is blank
      have hcontents : m' ∈ (eraseMessage s.q m.hsm).contents := hm'
      obtain ⟨-, hc⟩ := Msgq.sweep_spec h.wf.valid (fun m' => m'.hsm = m.hsm) blankAll
      rw [eraseMessage, hc] at hcontents
      obtain ⟨m'', -, rfl⟩ := List.mem_map.mp hcontents
      rw [← hm]
      split
      · rw [hm]
        exact hne.symm
      · rename_i hhit
        simpa using hhit

end Sys

/-- **A close cleans up after its window exactly when no tick slot was left to it.** In every run, for a
live window `w` whose `SMM_CLOSE` thread `tid` handles: let `s` be the state in which its procedure has
returned, `mid` what happens, until the thread calls `erase_message`, between the two calls of
`default_sm`, with no tick set for `w`. When `run_sm` is done, `w` is not in `smallwin_list` and no
queued message or tick slot carries its handle, if and only if every slot that carries it in `s` is
given to `sm_destroy_tick` in `mid`. -/
theorem close_cleans (mem : ℤ → Message) (before : List SysStep) (es₀ : List SysEvent) (s : Sys)
    (hrun : StepMachine.run Sys.step (Sys.init mem) before = some (es₀, s)) (tid born : ℕ) (w : Win)
    (s₁ : Sys) (hdestroy : Sys.step s (.destroy tid) = some (.destroyed w.hsm born (some w), s₁))
    (mid : List SysStep) (es₁ : List SysEvent) (s₂ : Sys)
    (hmid : StepMachine.run Sys.step s₁ mid = some (es₁, s₂))
    (hother : ∀ i ∈ mid, i ≠ .erase tid ∧ ¬ i.RegistersFor w.hsm) (o : SysEvent) (t : Sys)
    (herase : Sys.step s₂ (.erase tid) = some (o, t)) :
    t.CleanOf w ↔
      ∀ n < smallwinNticks, (s.ticks n).hsm = w.hsm → ∃ tid', .destroyTick tid' (n + 1) ∈ mid := by
  have hwf : s.Wf := Sys.Wf.run hrun
  have hhand : s.HandIdle := StepMachine.run_induction Sys.step (fun _ _ s => s.HandIdle)
    (fun hne => absurd rfl hne) (fun _ _ _ _ _ _ _ h hs => h.acts (Sys.step_cases hs).2) hrun
  obtain ⟨hw, hticks, hstart⟩ := Sys.Closing.start hwf hhand (Sys.step_cases hdestroy).2
  have hne := hwf.nonzero w hw
  have hclosing : Sys.Closing w tid s₁ mid s₂ :=
    StepMachine.run_induction_along Sys.step (fun _ i => i ≠ .erase tid ∧ ¬ i.RegistersFor w.hsm)
      (fun mid _ s => Sys.Closing w tid s₁ mid s) hstart
      (fun _ _ _ _ _ _ _ h hC hs => h.acts hne hC.1 hC.2 (Sys.step_cases hs).2)
      (StepMachine.along_of_forall_mem _ (fun i hi _ => hother i hi) _) hmid
  have hend := hclosing.erase hne (Sys.step_cases herase).2
  rwa [hticks] at hend

/-- A window without a tick is closed. -/
theorem close_cleans_no_tick :
    ∃ es s s₁ o t, StepMachine.run Sys.step (Sys.init fun _ => ⟨0, 0, 0, 0⟩)
        [.createLink 1 (some 64) (some 1), .createPush 1, .express 1 ⟨64, smmClose, 0, 0⟩, .enter 1,
          .leave 1] = some (es, s) ∧
      Sys.step s (.destroy 1) = some (.destroyed 64 0 (some ⟨64, 0, some 1⟩), s₁) ∧
      Sys.step s₁ (.erase 1) = some (o, t) ∧ t.CleanOf ⟨64, 0, some 1⟩ := by
  obtain ⟨es, s, s₁, o, t, hrun, hdestroy, herase, hticks⟩ :
      ∃ es s s₁ o t, StepMachine.run Sys.step (Sys.init fun _ => ⟨0, 0, 0, 0⟩)
          [.createLink 1 (some 64) (some 1), .createPush 1, .express 1 ⟨64, smmClose, 0, 0⟩,
            .enter 1, .leave 1] = some (es, s) ∧
        Sys.step s (.destroy 1) = some (.destroyed 64 0 (some ⟨64, 0, some 1⟩), s₁) ∧
        Sys.step s₁ (.erase 1) = some (o, t) ∧ ∀ n, (s.ticks n).hsm = 0 :=
    ⟨_, _, _, _, _, rfl, rfl, Sys.step_eraseArray rfl rfl, fun _ => rfl⟩
  refine ⟨es, s, s₁, o, t, hrun, hdestroy, herase, ?_⟩
  refine (close_cleans (fun _ => ⟨0, 0, 0, 0⟩) _ es s hrun 1 0 ⟨64, 0, some 1⟩ s₁ hdestroy [] [] s₁
    rfl (by simp) o t herase).mpr ?_
  intro n _ hslot
  -- no slot was ever set
  rw [hticks] at hslot
  exact absurd hslot (by decide)

/-- **A closed window keeps its tick.** A window sets a tick and is closed by the thread that created it,
with no other thread about: its slot is still there when `run_sm` is done. -/
theorem close_leaves_tick :
    ∃ es s s₁ o t, StepMachine.run Sys.step (Sys.init fun _ => ⟨0, 0, 0, 0⟩)
        [.createLink 1 (some 64) (some 1), .createPush 1, .setXtick 1 64 500 0 0,
          .express 1 ⟨64, smmClose, 0, 0⟩, .enter 1, .leave 1] = some (es, s) ∧
      Sys.step s (.destroy 1) = some (.destroyed 64 0 (some ⟨64, 0, some 1⟩), s₁) ∧
      Sys.step s₁ (.erase 1) = some (o, t) ∧ (t.ticks 0).hsm = 64 ∧
      ¬ t.CleanOf ⟨64, 0, some 1⟩ := by
  refine ⟨_, _, _, _, _, rfl, rfl, Sys.step_eraseArray rfl rfl, rfl, ?_⟩
  intro hclean
  exact hclean.ticks 0 (by decide) rfl

end SmIpc.Sm
