import SmIpc.Sm.SystemSteps

/-! # Deliveries to a window

A handle is an address, and `malloc` hands addresses out again, so a message delivered to a window may
have been meant for an earlier window at its address. Closing a window erases the queued messages for
it, but not the tick slots that name it, and not what is posted to its handle afterwards.

* `Sys.HandleUnused` is the condition that a window is linked only at an address nothing names any more:
  no queued message, not the message in hand, and no tick slot.
* `Sys.Fresh` is the invariant: whatever names the address of a window in the list is younger than it.
* `deliveries_fresh` — in every run that meets the condition, a message delivered to a window was posted
  after the window was linked, and if it is a tick, for a slot set after that. Without it, a tick of
  a closed window reaches a later one (`tick_outlives_window`). -/

namespace SmIpc.Sm

/-- The message was posted after the time, and if it is a tick, for a slot set after it. -/
def Post.After (p : Post) (born : ℕ) : Prop :=
  born < p.time ∧ ∀ registered, p.origin = .tick registered → born < registered

/-- **What should be seen**: a queued message handed to a window is younger than the window. -/
def SysEvent.DeliveredOk : SysEvent → Prop
  | .entered _ (some p) _ (some w) => p.After w.born
  | _ => True

namespace Sys

/-- **The condition on a step**: a window is linked only at an address that no queued message, no
message in hand and no tick slot names. -/
def HandleUnused (s : Sys) : SysStep → Prop
  | .createLink _ (some a) _ =>
      (∀ e ∈ s.entries, e.1.hsm ≠ a) ∧ (∀ h, s.hand = some h → h.m.hsm ≠ a) ∧
        ∀ i, (s.ticks i).hsm ≠ a
  | _ => True

/-- Whatever names the address of a window in the list is younger than the window. -/
structure Fresh (s : Sys) : Prop where
  /-- The queued messages. -/
  entries : ∀ e ∈ s.entries, ∀ w ∈ s.windows, w.hsm = e.1.hsm → e.2.After w.born
  /-- The message the scheduler has in hand. -/
  hand : ∀ h, s.hand = some h → ∀ w ∈ s.windows, w.hsm = h.m.hsm → h.post.After w.born
  /-- The tick slots. -/
  ticks : ∀ i, ∀ w ∈ s.windows, w.hsm = (s.ticks i).hsm → w.born < s.registered i

variable {s t : Sys} {i : SysStep} {o : SysEvent}

/-- A push keeps the queued messages young, if a tick is for a slot set after the windows it names. -/
theorem Fresh.post (h : s.Fresh) (hwf : s.Wf) (m : Message) (origin : Origin)
    (horigin : ∀ r, origin = .tick r → ∀ w ∈ s.windows, w.hsm = m.hsm → w.born < r) :
    ∀ e ∈ (s.post m origin).entries, ∀ w ∈ s.windows, w.hsm = e.1.hsm → e.2.After w.born := by
  intro e he w hw hhsm
  -- a refused message leaves the queue; an accepted one was posted now
  rcases (post_cases hwf.queue m origin).2 with ⟨-, -, hentries⟩ | ⟨-, hentries⟩
  · rw [hentries] at he
    rcases List.mem_append.mp he with he | he
    · exact h.entries e he w hw hhsm
    · obtain rfl := List.mem_singleton.mp he
      exact ⟨hwf.born_lt w hw, fun r hr => horigin r hr w hw hhsm⟩
  · rw [hentries] at he
    exact h.entries e he w hw hhsm

/-- **One step that meets the condition keeps the invariant.** -/
theorem Fresh.acts (h : s.Fresh) (hwf : s.Wf) (hcond : s.HandleUnused i) (ha : Acts s i o t) :
    t.Fresh := by
  cases ha with
  | popEmpty hpop =>
    obtain ⟨-, hc⟩ := popEmpty_contents hwf.queue hpop
    refine ⟨fun e he => h.entries e ?_, h.hand, h.ticks⟩
    rw [Sys.entries, ← hc]
    exact he
  | pop _ _ hpop =>
    obtain ⟨-, hentries⟩ := pop_entries hwf.queue hpop
    refine ⟨fun e he => h.entries e ?_, ?_, h.ticks⟩
    · rw [hentries]
      exact List.mem_cons_of_mem _ he
    · intro k hk
      simp only [tick] at hk
      split at hk
      · cases hk
      · obtain rfl := Option.some.inj hk
        exact h.entries (_, _) (by rw [hentries]; exact List.mem_cons_self)
  | test hhand =>
    refine ⟨h.entries, fun k hk w hw hhsm => ?_, h.ticks⟩
    obtain ⟨v, -, rfl⟩ := Option.map_eq_some_iff.mp hk
    exact h.hand ⟨_, _, none⟩ hhand w hw hhsm
  | enterHand _ => exact ⟨h.entries, fun k hk => (by cases hk), h.ticks⟩
  | @destroy tid m born rest hstack hfree =>
    have hsub : ∀ w ∈ s.windows.filter fun w => w.hsm ≠ m.hsm, w ∈ s.windows := fun w hw =>
      (mem_filter_windows.mp hw).1
    exact ⟨fun e he w hw => h.entries e he w (hsub w hw),
      fun k hk w hw => h.hand k hk w (hsub w hw), fun j w hw => h.ticks j w (hsub w hw)⟩
  | @erase tid m born rest hstack =>
    refine ⟨fun e he w hw hhsm => ?_, h.hand, h.ticks⟩
    obtain ⟨-, hentries⟩ := erase_entries hwf.queue m.hsm
    rw [Sys.entries] at he
    simp only [tick, setStack] at he
    rw [hentries] at he
    obtain ⟨e', he', rfl⟩ := List.mem_map.mp he
    -- an erased message names the null handle, which no window has
    by_cases hhit : e'.1.hsm = m.hsm
    · rw [if_pos hhit] at hhsm
      exact absurd hhsm (hwf.nonzero w hw)
    · rw [if_neg hhit] at hhsm
      exact h.entries e' he' w hw hhsm
  | @createLink tid a smProc hcall hfree ha hat =>
    -- the new window shares its address with nothing that could reach it
    obtain ⟨hentries, hhand, hticks⟩ := hcond
    refine ⟨fun e he w hw hhsm => ?_, fun k hk w hw hhsm => ?_, fun j w hw hhsm => ?_⟩ <;>
      rcases List.mem_append.mp hw with hw | hw
    · exact h.entries e he w hw hhsm
    · rw [List.mem_singleton.mp hw] at hhsm
      exact absurd hhsm.symm (hentries e he)
    · exact h.hand k hk w hw hhsm
    · rw [List.mem_singleton.mp hw] at hhsm
      exact absurd hhsm.symm (hhand k hk)
    · exact h.ticks j w hw hhsm
    · rw [List.mem_singleton.mp hw] at hhsm
      exact absurd hhsm.symm (hticks j)
  | createPush _ =>
    exact ⟨h.post hwf _ _ fun r hr => (by cases hr), h.hand, h.ticks⟩
  | push _ => exact ⟨h.post hwf _ _ fun r hr => (by cases hr), h.hand, h.ticks⟩
  | send _ _ => exact ⟨h.post hwf _ _ fun r hr => (by cases hr), h.hand, h.ticks⟩
  | @setXtick tid hsm n100msec param2 sysflag j hcall hsem hslot =>
    refine ⟨h.entries, h.hand, ?_⟩
    intro k w hw hhsm
    by_cases hk : k = j
    · subst hk
      simp only [tick, Function.update_self]
      exact hwf.born_lt w hw
    · simp only [tick, Function.update_of_ne hk] at hhsm ⊢
      exact h.ticks k w hw hhsm
  | @destroyTick tid htick hcall hsem =>
    refine ⟨h.entries, h.hand, fun k w hw hhsm => h.ticks k w hw ?_⟩
    simp only [tick, setStack] at hhsm
    -- a freed slot names the null handle, which no window has
    rcases smDestroyTick_apply s.ticks htick k with heq | heq
    · rwa [heq] at hhsm
    · rw [heq] at hhsm
      exact absurd hhsm (hwf.nonzero w hw)
  | @tickPass j slot hpc hlook =>
    refine ⟨h.entries, h.hand, fun k w hw hhsm => h.ticks k w hw ?_⟩
    exact hhsm.trans (hsm_update (hsm_tickLook hlook) k)
  | @tickSend j hpc hfree =>
    refine ⟨h.post hwf _ _ fun r hr w hw hhsm => ?_, h.hand, fun k w hw hhsm => h.ticks k w hw ?_⟩
    · obtain rfl := Origin.tick.inj hr
      exact h.ticks j w hw hhsm
    · exact hhsm.trans (hsm_update (s.ticks j).hsm_restarted k)
  | _ => exact ⟨h.entries, h.hand, h.ticks⟩

/-- **What a step lets be seen is as it should be**, from a state where the invariant holds. -/
theorem Fresh.deliveredOk (h : s.Fresh) (ha : Acts s i o t) : o.DeliveredOk := by
  cases ha with
  | @enterHand m p born hhand =>
    cases hat : s.windowAt m.hsm with
    | none => trivial
    | some w =>
      obtain ⟨hw, hhsm⟩ := mem_of_windowAt hat
      exact h.hand _ hhand w hw hhsm
  | _ => trivial

end Sys

/-- **Deliveries reach the window they are for.** In every run whose steps meet the condition — a window
is linked only at an address that nothing names any more — every queued message the scheduler hands to
a window was posted after that window was linked, and if it is a tick, for a slot set after that. -/
theorem deliveries_fresh (mem : ℤ → Message) (steps : List SysStep) (es : List SysEvent) (s : Sys)
    (hcond : StepMachine.Along Sys.step Sys.HandleUnused (Sys.init mem) steps)
    (hrun : StepMachine.run Sys.step (Sys.init mem) steps = some (es, s)) :
    ∀ e ∈ es, e.DeliveredOk := by
  refine (StepMachine.run_safe_along Sys.step Sys.HandleUnused (fun s => s.Wf ∧ s.Fresh)
    SysEvent.DeliveredOk ⟨Sys.Wf.init mem, ?_⟩ ?_ hcond hrun).2
  · refine ⟨?_, ?_, ?_⟩
    · intro e he w hw
      simp [Sys.init] at hw
    · intro k hk
      simp [Sys.init] at hk
    · intro j w hw
      simp [Sys.init] at hw
  · rintro u i o t ⟨hwf, hfresh⟩ hC hs
    have ha := (Sys.step_cases hs).2
    exact ⟨⟨hwf.acts ha, hfresh.acts hwf hC ha⟩, hfresh.deliveredOk ha⟩

/-- The law at a window that is created and is handed its `SMM_CREATE`. -/
theorem deliveries_fresh_create :
    SysEvent.DeliveredOk (.entered ⟨64, smmCreate, 0, 0⟩ (some ⟨1, .creation 0⟩) 0
      (some ⟨64, 0, some 1⟩)) := by
  obtain ⟨es, s, hrun, hlast⟩ : ∃ es s,
      StepMachine.run Sys.step (Sys.init fun _ => ⟨0, 0, 0, 0⟩)
          [.createLink 1 (some 64) (some 1), .createPush 1, .pop, .test, .enterHand] = some (es, s) ∧
        es.getLast? = some (.entered ⟨64, smmCreate, 0, 0⟩ (some ⟨1, .creation 0⟩) 0
          (some ⟨64, 0, some 1⟩)) := ⟨_, _, rfl, rfl⟩
  refine deliveries_fresh (fun _ => ⟨0, 0, 0, 0⟩) _ es s ?_ hrun _ (List.mem_of_getLast? hlast)
  have hunused : (Sys.init fun _ => ⟨0, 0, 0, 0⟩).HandleUnused
      (.createLink 1 (some 64) (some 1)) := by
    refine ⟨?_, fun h hh => (by cases hh), ?_⟩
    · intro e he
      simp [Sys.entries, Sys.init] at he
    · intro i
      show (0 : UInt32) ≠ 64
      decide
  refine StepMachine.along_cons hunused rfl ?_
  iterate 3 refine StepMachine.along_cons trivial rfl ?_
  exact StepMachine.along_cons trivial rfl trivial

/-- **A tick outlives its window.** A window sets a tick and is closed: its messages are erased, but the
slot still names it. `malloc` hands its address out for a new window, and the tick, set for the
closed window, is delivered to the new one. -/
theorem tick_outlives_window :
    ∃ es s, StepMachine.run Sys.step (Sys.init fun _ => ⟨0, 0, 0, 0⟩)
        ([.createLink 1 (some 64) (some 1), .createPush 1, .setXtick 1 64 100 0 0,
          .express 1 ⟨64, smmClose, 0, 0⟩, .enter 1, .leave 1, .destroy 1] ++
        .erase 1 :: ([.createLink 1 (some 64) (some 1), .createPush 1, .tickStart] ++
          List.replicate 32 .tickLook ++ [.tickEnd, .tickStart, .tickLook, .tickSend, .pop, .pop,
            .test, .enterHand, .leave 0, .pop, .test, .enterHand])) = some (es, s) ∧
      es.getLast? = some (.entered ⟨64, smmTick, 1, 1⟩ (some ⟨46, .tick 2⟩) 8
        (some ⟨64, 8, some 1⟩)) ∧
      ¬ ∀ e ∈ es, e.DeliveredOk := by
  refine StepMachine.run_getLast_not
    (StepMachine.run_append_cons rfl (Sys.step_eraseArray rfl rfl) rfl) rfl ?_
  intro hok
  -- the slot was set at 2, the window linked at 8
  have hage : 8 < 2 := hok.2 2 rfl
  exact absurd hage (by decide)

end SmIpc.Sm
