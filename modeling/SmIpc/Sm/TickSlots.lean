import SmIpc.Sm.MessageSearch
import SmIpc.Sm.SystemSteps

/-! # What the steps do to a tick slot

`sm_create_tick` and `sm_create_systick` as registrations, the two ways `sm_ticker` leaves a slot it looks
at, and the fact that slots are registered only between two passes: `sm_set_xtick` and a pass both hold
`sem_tick_id`. -/

namespace SmIpc.Sm

/-- `sm_create_tick`. -/
def SysStep.createTick (tid : ℕ) (hsm : Hsm) (ms : UInt32) : SysStep := .setXtick tid hsm ms 0 0

/-- `sm_create_systick`. -/
def SysStep.createSystick (tid : ℕ) (hsm : Hsm) (n100msec : UInt32) : SysStep :=
  .setXtick tid hsm n100msec 0 1

/-- **A slot `sm_ticker` passes** without a send has restarted if it was due, and has counted if not. -/
theorem tickLook_pass {q : Msgq} {slot slot' : TickMsg} {i : ℕ} (hne : slot.hsm ≠ 0)
    (h : tickLook q slot i = some (some slot')) :
    slot' = if slot.IsDue then slot.restarted else slot.counted := by
  rw [tickLook, if_neg hne] at h
  split at h
  · rename_i hdue
    split at h
    · cases h
    · split at h
      · cases h
      · cases h
        rw [if_pos hdue]
  · rename_i hdue
    cases h
    rw [if_neg hdue]

/-- **A slot `sm_ticker` goes on to send for** is taken and due, and the search has found nothing. -/
theorem tickLook_due {q : Msgq} {slot : TickMsg} {i : ℕ} (h : tickLook q slot i = some none) :
    slot.hsm ≠ 0 ∧ slot.IsDue ∧
      isMessageParam q slot.hsm smmTick (UInt32.ofNat (i + 1)) slot.count = some 0 := by
  rw [tickLook] at h
  split at h
  · cases h
  · rename_i hne
    split at h
    · rename_i hdue
      split at h
      · cases h
      · rename_i found hfound
        split at h
        · rename_i hzero
          exact ⟨hne, hdue, by rw [hfound, hzero]⟩
        · cases h
    · cases h

/-- A free slot is passed as it is. -/
theorem tickLook_free {q : Msgq} {slot slot' : TickMsg} {i : ℕ} (hfree : slot.hsm = 0)
    (h : tickLook q slot i = some (some slot')) : slot' = slot := by
  rw [tickLook, if_pos hfree] at h
  cases h
  rfl

/-- A free slot stays free. -/
theorem hsm_smDestroyTick_of_free {ticks : TickList} {k : ℕ} (h : (ticks k).hsm = skInvalidHsm)
    (htick : ℤ) : (smDestroyTick ticks htick k).hsm = skInvalidHsm := by
  rcases smDestroyTick_apply ticks htick k with heq | heq
  · rw [heq, h]
  · rw [heq]
    rfl

namespace Sys

variable {s t : Sys} {i : SysStep} {o : SysEvent}

/-- `sem_tick_id` is at most 1, and 0 while a pass is in progress. -/
structure TickExcl (s : Sys) : Prop where
  /-- At most one thread holds it. -/
  le_one : s.semTick ≤ 1
  /-- A pass holds it. -/
  pass : s.ticker ≠ .delay → s.semTick = 0

theorem TickExcl.acts (h : s.TickExcl) (ha : Acts s i o t) : t.TickExcl := by
  obtain ⟨hle, hpass⟩ := h
  cases ha with
  | setXtick _ hsem _ => exact ⟨hle, hpass⟩
  | destroyTick _ hsem =>
    refine ⟨Nat.le_trans (Nat.sub_le _ _) hle, fun hpc => ?_⟩
    exact absurd (hpass hpc) (by omega)
  | tickStart hpc hsem =>
    refine ⟨Nat.le_trans (Nat.sub_le _ _) hle, fun _ => ?_⟩
    show s.semTick - 1 = 0
    omega
  | tickPass hpc _ => exact ⟨hle, fun _ => hpass (by rw [hpc]; simp)⟩
  | tickDue hpc _ => exact ⟨hle, fun _ => hpass (by rw [hpc]; simp)⟩
  | tickSend hpc _ => exact ⟨hle, fun _ => hpass (by rw [hpc]; simp)⟩
  | tickEnd hpc =>
    have hzero : s.semTick = 0 := hpass (by rw [hpc]; simp)
    refine ⟨?_, fun hne => absurd rfl hne⟩
    show s.semTick + 1 ≤ 1
    omega
  | _ => exact ⟨hle, hpass⟩

/-- **Every run** keeps the passes exclusive. -/
theorem TickExcl.run {mem : ℤ → Message} {steps : List SysStep} {es : List SysEvent}
    (hrun : StepMachine.run step (Sys.init mem) steps = some (es, s)) : s.TickExcl :=
  StepMachine.run_induction step (fun _ _ s => s.TickExcl)
    ⟨Nat.le_refl 1, fun hne => absurd rfl hne⟩
    (fun _ _ _ _ _ _ _ h hs => h.acts (step_cases hs).2) hrun

/-- **A registration** that finds slot `j` free, between two passes. -/
theorem TickExcl.register (h : s.TickExcl) {tid j : ℕ} {hsm : Hsm} {n100msec param2 : UInt32}
    {sysflag : Int32} (hslot : freeTick s.ticks = some j)
    (hs : step s (.setXtick tid hsm n100msec param2 sysflag) = some (o, t)) :
    j < smallwinNticks ∧ (s.ticks j).hsm = 0 ∧ s.ticker = .delay ∧ t = tick { s with
      ticks := Function.update s.ticks j ⟨hsm, n100msec, 0, param2, sysflag⟩
      registered := Function.update s.registered j s.now } := by
  obtain ⟨-, ha⟩ := step_cases hs
  cases ha with
  | setFull _ hfull =>
    rw [hslot] at hfull
    cases hfull
  | setXtick hcall hsem hslot' =>
    obtain rfl := Option.some.inj (hslot.symm.trans hslot')
    obtain ⟨hfree, hlt⟩ := freeTickLoop_spec hslot
    refine ⟨by omega, hfree, ?_, rfl⟩
    by_contra hpc
    have := h.pass hpc
    omega

end Sys

end SmIpc.Sm
