import SmIpc.Sm.SystemSteps

/-! # Activations and the windows they are for

An activation of `run_sm` is made for a window that `sm_is_smallwin` found in the list. Until it has read
`sm_proc`, and if it carries `SMM_CLOSE` until it has destroyed the window, it needs that window to be
there (`RunPc.Needs`). Nothing in the code sees to it: the window can be destroyed by another
activation in between, from inside its own procedure or from another thread.

* `Sys.ClosesAlone` is the condition that no window is destroyed while another activation needs it.
* `Sys.Anchored` is the invariant: every activation that needs its window has it in the list.
* `activations_anchored` — in every run that meets the condition, `sm_proc` is read and windows are
  destroyed only while they are in the list, and each is freed at most once. Without it, a window can
  be freed twice (`close_in_close_frees_twice`). -/

namespace SmIpc.Sm

/-- The activation has yet to read `sm_proc` of its window, or to destroy it. -/
def RunPc.Needs (m : Message) : RunPc → Prop
  | .tested => True
  | .inProc => m.message = smmClose
  | .returned => True
  | .destroyed => False

/-- The call stack entry is an activation that needs the window at the address. -/
def Frame.Needs (hsm : Hsm) : Frame → Prop
  | .running m _ pc => m.hsm = hsm ∧ pc.Needs m
  | .blocked => False

/-- The window linked at `born` is in the list, at this address. -/
def Listed (windows : List Win) (hsm : Hsm) (born : ℕ) : Prop :=
  ∃ w ∈ windows, w.hsm = hsm ∧ w.born = born

/-- A window that is not at the address stays when the one at the address is destroyed. -/
theorem Listed.filter {windows : List Win} {hsm hsm' : Hsm} {born : ℕ}
    (h : Listed windows hsm born) (hne : hsm ≠ hsm') :
    Listed (windows.filter fun w => w.hsm ≠ hsm') hsm born := by
  obtain ⟨w, hw, rfl, rfl⟩ := h
  exact ⟨w, by simp [hw, hne], rfl, rfl⟩

/-- A window stays when another is linked. -/
theorem Listed.append {windows : List Win} {hsm : Hsm} {born : ℕ} (h : Listed windows hsm born)
    (w : Win) : Listed (windows ++ [w]) hsm born := by
  obtain ⟨v, hv, hh, hb⟩ := h
  exact ⟨v, List.mem_append_left _ hv, hh, hb⟩

/-- If the activation needs its window, it is in the list. -/
def Frame.Anchored (windows : List Win) : Frame → Prop
  | .running m born pc => pc.Needs m → Listed windows m.hsm born
  | .blocked => True

/-- The message in hand, once its window is found, has it in the list. -/
def Hand.Anchored (windows : List Win) (h : Hand) : Prop :=
  ∀ born, h.tested = some born → Listed windows h.m.hsm born

/-- **What should be seen**: `sm_proc` is read, and a window destroyed, while the window the activation
is for is in the list. -/
def SysEvent.WindowOk : SysEvent → Prop
  | .entered _ _ born win => ∃ w, win = some w ∧ w.born = born
  | .destroyed _ born win => ∃ w, win = some w ∧ w.born = born
  | _ => True

/-- The windows that were unlinked and freed, in order. -/
def freed (es : List SysEvent) : List Win :=
  es.filterMap fun
    | .destroyed _ _ win => win
    | _ => none

namespace Sys

/-- **The condition on a step**: `default_sm` destroys a window only when no other activation needs it,
on any thread and at any depth, and the message in hand is not about to be handed to it. -/
def ClosesAlone (s : Sys) : SysStep → Prop
  | .destroy tid =>
      match s.threads tid with
      | .running m _ .returned :: rest =>
          (∀ tid', ∀ f ∈ (s.setStack tid rest).threads tid', ¬ f.Needs m.hsm) ∧
            ∀ h, s.hand = some h → h.tested ≠ none → h.m.hsm ≠ m.hsm
      | _ => True
  | _ => True

/-- Every activation that needs its window has it in the list. -/
structure Anchored (s : Sys) : Prop where
  /-- The activations on the call stacks. -/
  frames : ∀ tid, ∀ f ∈ s.threads tid, f.Anchored s.windows
  /-- The message the scheduler has in hand. -/
  hand : ∀ h, s.hand = some h → h.Anchored s.windows

variable {s t : Sys} {i : SysStep} {o : SysEvent}

/-- The window an activation needs is the one at its handle. -/
theorem windowAt_of_listed (hwf : s.Wf) {hsm : Hsm} {born : ℕ} (h : Listed s.windows hsm born) :
    ∃ w, s.windowAt hsm = some w ∧ w.born = born := by
  obtain ⟨w, hw, rfl, rfl⟩ := h
  exact ⟨w, hwf.windowAt_eq hw, rfl⟩

/-- What an activation that read `sm_proc`, or whose procedure returned, leaves on the stack needs the
window no more than the activation did. -/
theorem anchored_afterProc {windows : List Win} {m : Message} {born : ℕ}
    (h : m.message = smmClose → Listed windows m.hsm born) :
    ∀ f ∈ afterProc m born, f.Anchored windows := by
  intro f hf
  rw [afterProc] at hf
  split at hf
  · rename_i hclose
    rw [List.mem_singleton.mp hf]
    exact fun _ => h hclose
  · simp at hf

theorem anchored_afterRead {windows : List Win} {m : Message} {born : ℕ} {win : Option Win}
    (h : Listed windows m.hsm born) : ∀ f ∈ afterRead m born win, f.Anchored windows := by
  intro f hf
  cases win with
  | none => simp [afterRead] at hf
  | some w =>
    simp only [afterRead] at hf
    split at hf
    · rw [List.mem_singleton.mp hf]
      exact fun _ => h
    · exact anchored_afterProc (fun _ => h) f hf

/-- A step that leaves the windows and the hand, and replaces one stack. -/
theorem Anchored.setStack (h : s.Anchored) {tid : ℕ} {stack : List Frame}
    (hstack : ∀ f ∈ stack, f.Anchored s.windows) : (s.setStack tid stack).Anchored :=
  ⟨forall_setStack (P := fun f => f.Anchored s.windows) h.frames hstack, h.hand⟩

/-- **One step that meets the condition keeps the invariant.** -/
theorem Anchored.acts (h : s.Anchored) (hcond : s.ClosesAlone i) (ha : Acts s i o t) :
    t.Anchored := by
  cases ha with
  | pop _ _ _ =>
    refine ⟨h.frames, ?_⟩
    intro k hk born hb
    simp only [tick] at hk
    split at hk
    · cases hk
    · obtain rfl := Option.some.inj hk
      cases hb
  | test hhand =>
    refine ⟨h.frames, ?_⟩
    intro k hk born hb
    obtain ⟨w, hat, rfl⟩ := Option.map_eq_some_iff.mp hk
    obtain ⟨hw, hhsm⟩ := mem_of_windowAt hat
    exact ⟨w, hw, hhsm, Option.some.inj hb⟩
  | enterHand hhand =>
    have hlisted := h.hand _ hhand _ rfl
    exact ⟨(h.setStack (anchored_afterRead hlisted)).frames, fun k hk => by cases hk⟩
  | @express tid m w hcall hat =>
    obtain ⟨hw, hhsm⟩ := mem_of_windowAt hat
    refine ⟨(h.setStack fun f hf => ?_).frames, h.hand⟩
    rcases List.mem_cons.mp hf with rfl | hf
    · exact fun _ => ⟨w, hw, hhsm, rfl⟩
    · exact h.frames tid f hf
  | @enter tid m born rest hstack =>
    have hlisted := h.frames tid (.running m born .tested) (by simp [hstack]) trivial
    refine ⟨(h.setStack fun f hf => ?_).frames, h.hand⟩
    rcases List.mem_append.mp hf with hf | hf
    · exact anchored_afterRead hlisted f hf
    · exact h.frames tid f (by simp [hstack, hf])
  | @leave tid m born rest hstack =>
    have hlisted := h.frames tid (.running m born .inProc) (by simp [hstack])
    refine ⟨(h.setStack fun f hf => ?_).frames, h.hand⟩
    rcases List.mem_append.mp hf with hf | hf
    · exact anchored_afterProc hlisted f hf
    · exact h.frames tid f (by simp [hstack, hf])
  | @destroy tid m born rest hstack hfree =>
    simp only [ClosesAlone, hstack] at hcond
    obtain ⟨hothers, hhand⟩ := hcond
    -- no other activation needs the window, so its removal concerns none of them
    have hkeep : ∀ tid', ∀ f ∈ (s.setStack tid rest).threads tid',
        f.Anchored (s.windows.filter fun w => w.hsm ≠ m.hsm) := by
      intro tid' f hf
      have hold : f.Anchored s.windows :=
        forall_setStack (P := fun f => f.Anchored s.windows) h.frames
          (fun g hg => h.frames tid g (by simp [hstack, hg])) tid' f hf
      cases f with
      | blocked => trivial
      | running m' born' pc =>
        intro hneeds
        -- an activation with the same handle would need the window being destroyed
        exact (hold hneeds).filter fun heq => hothers tid' _ hf ⟨heq, hneeds⟩
    refine ⟨?_, ?_⟩
    · intro tid'
      show ∀ f ∈ Function.update s.threads tid _ tid', _
      by_cases htid : tid' = tid
      · subst htid
        rw [Function.update_self]
        intro f hf
        rcases List.mem_cons.mp hf with rfl | hf
        · exact fun hneeds => hneeds.elim
        · exact hkeep tid' f (by simp [Sys.setStack, hf])
      · rw [Function.update_of_ne htid]
        exact fun f hf => hkeep tid' f (by simpa [Sys.setStack, Function.update_of_ne htid] using hf)
    · intro k hk born' hb
      exact (h.hand k hk born' hb).filter (hhand k hk (by simp [hb]))
  | @erase tid m born rest hstack =>
    exact ⟨(h.setStack fun f hf => h.frames tid f (by simp [hstack, hf])).frames, h.hand⟩
  | createLink _ _ _ _ =>
    refine ⟨fun tid f hf => ?_, fun k hk born hb => (h.hand k hk born hb).append _⟩
    have hold := h.frames tid f hf
    cases f with
    | blocked => trivial
    | running m born pc => exact fun hneeds => (hold hneeds).append _
  | @destroyTick tid htick hcall hsem =>
    refine ⟨(h.setStack fun f hf => ?_).frames, h.hand⟩
    rcases List.mem_cons.mp hf with rfl | hf
    · trivial
    · exact h.frames tid f hf
  | _ => exact ⟨h.frames, h.hand⟩

/-- **What a step lets be seen is as it should be**, from a state where the invariant holds. -/
theorem Anchored.windowOk (h : s.Anchored) (hwf : s.Wf) (ha : Acts s i o t) : o.WindowOk := by
  cases ha with
  | enterHand hhand => exact windowAt_of_listed hwf (h.hand _ hhand _ rfl)
  | @enter tid m born rest hstack =>
    exact windowAt_of_listed hwf (h.frames tid (.running m born .tested) (by simp [hstack]) trivial)
  | @destroy tid m born rest hstack _ =>
    exact windowAt_of_listed hwf
      (h.frames tid (.running m born .returned) (by simp [hstack]) trivial)
  | _ => trivial

/-- The windows freed so far are different, were linked in the past and are not in the list. -/
structure FreedOnce (es : List SysEvent) (s : Sys) : Prop where
  /-- None was freed twice. -/
  nodup : (freed es).Nodup
  /-- Each was linked in the past. -/
  born_lt : ∀ w ∈ freed es, w.born < s.now
  /-- None is in the list. -/
  not_mem : ∀ w ∈ freed es, w ∉ s.windows

/-- A step that frees nothing and links nothing. -/
theorem FreedOnce.of_same {es : List SysEvent} (h : FreedOnce es s) (ho : freed [o] = [])
    (htw : t.windows = s.windows) (htn : t.now = s.now + 1) : FreedOnce (es ++ [o]) t := by
  have hfreed : freed (es ++ [o]) = freed es := by
    rw [freed, List.filterMap_append]
    exact (congrArg (freed es ++ ·) ho).trans (List.append_nil _)
  refine ⟨hfreed ▸ h.nodup, ?_, ?_⟩
  · intro w hw
    rw [htn]
    exact Nat.lt_succ_of_lt (h.born_lt w (hfreed ▸ hw))
  · intro w hw
    rw [htw]
    exact h.not_mem w (hfreed ▸ hw)

/-- **One step keeps `FreedOnce`.** -/
theorem FreedOnce.acts {es : List SysEvent} (h : FreedOnce es s) (hwf : s.Wf)
    (ha : Acts s i o t) : FreedOnce (es ++ [o]) t := by
  cases ha with
  | @destroy tid m born rest hstack hfree =>
    have hfreed : freed (es ++ [.destroyed m.hsm born (s.windowAt m.hsm)]) =
        freed es ++ (s.windowAt m.hsm).toList := by
      rw [freed, List.filterMap_append]
      cases s.windowAt m.hsm <;> rfl
    have hnew : ∀ w ∈ (s.windowAt m.hsm).toList, w ∈ s.windows ∧ w.hsm = m.hsm := fun w hw =>
      mem_of_windowAt (Option.mem_toList.mp hw)
    refine ⟨?_, ?_, ?_⟩
    · rw [hfreed]
      refine List.nodup_append.mpr ⟨h.nodup, ?_, ?_⟩
      · cases s.windowAt m.hsm <;> simp
      · intro v hv w hw hvw
        -- the window freed now is in the list, and those freed before are not
        exact h.not_mem v hv (hvw ▸ (hnew w hw).1)
    · intro w hw
      rw [hfreed] at hw
      apply Nat.lt_succ_of_lt
      rcases List.mem_append.mp hw with hw | hw
      · exact h.born_lt w hw
      · exact hwf.born_lt w (hnew w hw).1
    · intro w hw
      rw [hfreed] at hw
      intro hmem
      obtain ⟨hmem, hne⟩ := mem_filter_windows.mp hmem
      rcases List.mem_append.mp hw with hw | hw
      · exact h.not_mem w hw hmem
      · exact hne (hnew w hw).2
  | createLink _ _ _ _ =>
    have hfreed : freed (es ++ [.silent]) = freed es := by simp [freed]
    refine ⟨hfreed ▸ h.nodup, ?_, ?_⟩
    · intro w hw
      exact Nat.lt_succ_of_lt (h.born_lt w (hfreed ▸ hw))
    · intro w hw hmem
      rw [hfreed] at hw
      rcases List.mem_append.mp hmem with hmem | hmem
      · exact h.not_mem w hw hmem
      · -- a window freed before was linked before this one
        have := h.born_lt w hw
        rw [List.mem_singleton.mp hmem] at this
        exact Nat.lt_irrefl _ this
  | _ => exact h.of_same rfl rfl rfl

end Sys

/-- **Activations and their windows.** In every run whose steps meet the condition — no window is
destroyed while another activation needs it — `run_sm` reads `sm_proc`, and `default_sm` destroys,
only while the window the activation is for is in the list, and no window is freed twice. -/
theorem activations_anchored (mem : ℤ → Message) (steps : List SysStep) (es : List SysEvent)
    (s : Sys) (hcond : StepMachine.Along Sys.step Sys.ClosesAlone (Sys.init mem) steps)
    (hrun : StepMachine.run Sys.step (Sys.init mem) steps = some (es, s)) :
    (∀ e ∈ es, e.WindowOk) ∧ (freed es).Nodup := by
  have hgood : s.Wf ∧ s.Anchored ∧ (∀ e ∈ es, e.WindowOk) ∧ Sys.FreedOnce es s := by
    refine StepMachine.run_induction_along Sys.step Sys.ClosesAlone
      (fun _ es s => s.Wf ∧ s.Anchored ∧ (∀ e ∈ es, e.WindowOk) ∧ Sys.FreedOnce es s) ?_ ?_ hcond hrun
    · refine ⟨Sys.Wf.init mem, ⟨?_, ?_⟩, ?_, ?_⟩
      · intro tid f hf
        simp [Sys.init] at hf
      · intro h hh
        simp [Sys.init] at hh
      · intro e he
        simp at he
      · exact ⟨List.nodup_nil, fun w hw => by simp [freed] at hw, fun w hw => by simp [freed] at hw⟩
    · rintro is os u i o t - ⟨hwf, hanch, hok, hfreed⟩ hC hs
      have ha := (Sys.step_cases hs).2
      refine ⟨hwf.acts ha, hanch.acts hC ha, fun e he => ?_, hfreed.acts hwf ha⟩
      rcases List.mem_append.mp he with he | he
      · exact hok e he
      · rw [List.mem_singleton.mp he]
        exact hanch.windowOk hwf ha
  exact ⟨hgood.2.2.1, hgood.2.2.2.nodup⟩

/-- The law at a window that is created, closed by a message expressed to it, and freed. -/
theorem activations_anchored_close :
    let w : Win := ⟨64, 0, some 1⟩
    let es : List SysEvent := [.silent, .created w, .silent, .entered ⟨64, smmClose, 0, 0⟩ none 0 (some w),
      .silent, .destroyed 64 0 (some w), .silent]
    (∀ e ∈ es, e.WindowOk) ∧ (freed es).Nodup := by
  obtain ⟨es, s, hrun, rfl⟩ : ∃ es s,
      StepMachine.run Sys.step (Sys.init fun _ => ⟨0, 0, 0, 0⟩)
          [.createLink 1 (some 64) (some 1), .createPush 1, .express 1 ⟨64, smmClose, 0, 0⟩,
            .enter 1, .leave 1, .destroy 1, .erase 1] = some (es, s) ∧
        es = [.silent, .created ⟨64, 0, some 1⟩, .silent,
          .entered ⟨64, smmClose, 0, 0⟩ none 0 (some ⟨64, 0, some 1⟩), .silent,
          .destroyed 64 0 (some ⟨64, 0, some 1⟩), .silent] := ⟨_, _, rfl, rfl⟩
  refine activations_anchored (fun _ => ⟨0, 0, 0, 0⟩) _ _ s ?_ hrun
  iterate 5 refine StepMachine.along_cons trivial rfl ?_
  refine StepMachine.along_cons ⟨fun tid' f hf => ?_, fun h hh => by cases hh⟩ rfl
    (StepMachine.along_cons trivial rfl trivial)
  by_cases htid : tid' = 1
  · subst htid
    exact absurd hf List.not_mem_nil
  · simp [Sys.setStack, Sys.post, Sys.init] at hf

/-- **A window can be freed twice.** The procedure of a window that is handed `SMM_CLOSE` expresses
`SMM_CLOSE` to its own window, once. The inner activation destroys the window; the outer one goes on
to destroy it again, though it is no longer in the list. -/
theorem close_in_close_frees_twice :
    ∃ es s, StepMachine.run Sys.step (Sys.init fun _ => ⟨0, 0, 0, 0⟩)
        [.createLink 1 (some 64) (some 1), .createPush 1, .express 1 ⟨64, smmClose, 0, 0⟩,
          .enter 1, .express 1 ⟨64, smmClose, 0, 0⟩, .enter 1, .leave 1, .destroy 1, .erase 1,
          .leave 1, .destroy 1] = some (es, s) ∧
      SysEvent.destroyed 64 0 none ∈ es ∧ ¬ ∀ e ∈ es, e.WindowOk := by
  refine ⟨_, _, rfl, List.mem_of_getLast? rfl, ?_⟩
  intro hok
  -- the last destruction found no window at the handle
  obtain ⟨w, hw, -⟩ := hok (.destroyed 64 0 none) (List.mem_of_getLast? rfl)
  cases hw

end SmIpc.Sm
