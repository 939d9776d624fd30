import SmIpc.Sm.SystemSteps
import SmIpc.Sm.WindowList

/-! # The windows of the system are the list in memory

The system keeps `smallwin_list` as the list of its windows, and looks for a window by its address.
`windows_represented` connects this with the code: the windows of every reachable state are what some
sequence of `sm_create_smallwin` and `sm_destroy_smallwin` calls leaves in memory as a doubly linked
list, and `sm_is_smallwin` on that memory answers as `Sys.windowAt` does. -/

namespace SmIpc.Sm

namespace Sys

variable {s t : Sys} {i : SysStep} {o : SysEvent}

/-- The addresses of the windows, oldest first. -/
def addresses (s : Sys) : List Hsm := s.windows.map Win.hsm

/-- What a step does to the addresses: nothing, or what one call does. -/
theorem addresses_acts (hwf : s.Wf) (ha : Acts s i o t) :
    t.addresses = s.addresses ∨ ∃ c r, WinCall.live s.addresses c = some (r, t.addresses) := by
  cases ha with
  | @createLink tid a smProc _ _ _ hat =>
    have hnew : a ∉ s.addresses := fun hmem => by
      obtain ⟨w, hw, hhsm⟩ := List.mem_map.mp hmem
      exact windowAt_eq_none hat w hw hhsm
    refine Or.inr ⟨.create (some a) 0 0 none smProc, some a, ?_⟩
    rw [WinCall.live, if_neg hnew]
    simp [addresses, tick]
  | @destroy tid m born rest _ _ =>
    have hfilter : (s.windows.filter fun w => w.hsm ≠ m.hsm).map Win.hsm =
        s.addresses.erase m.hsm := by
      rw [addresses, hwf.addrs.erase_eq_filter, List.filter_map]
      congr 1
      refine List.filter_congr ?_
      intro w _
      by_cases hw : w.hsm = m.hsm <;> simp [hw]
    by_cases hmem : m.hsm ∈ s.addresses
    · refine Or.inr ⟨.destroy m.hsm, none, ?_⟩
      rw [WinCall.live, if_pos hmem]
      exact congrArg (fun l => some (none, l)) hfilter.symm
    · left
      show (s.windows.filter fun w => w.hsm ≠ m.hsm).map Win.hsm = s.addresses
      rw [hfilter, List.erase_of_not_mem hmem]
  | _ => exact Or.inl rfl

/-- The windows of a reachable state are the live windows of some sequence of calls. -/
theorem addresses_run {mem : ℤ → Message} {steps : List SysStep} {es : List SysEvent}
    (hrun : StepMachine.run step (Sys.init mem) steps = some (es, s)) :
    ∃ calls os, calls.length ≤ steps.length ∧
      StepMachine.run WinCall.live [] calls = some (os, s.addresses) := by
  refine (StepMachine.run_induction step
    (fun is _ s => s.Wf ∧ ∃ calls os, calls.length ≤ is.length ∧
      StepMachine.run WinCall.live [] calls = some (os, s.addresses)) ?_ ?_ hrun).2
  · exact ⟨Wf.init mem, [], [], Nat.le_refl _, rfl⟩
  · rintro is os u i o t - ⟨hwf, calls, rs, hlen, hlive⟩ hs
    have ha := (step_cases hs).2
    refine ⟨hwf.acts ha, ?_⟩
    rw [List.length_append, List.length_singleton]
    rcases addresses_acts hwf ha with heq | ⟨c, r, hc⟩
    · exact ⟨calls, rs, by omega, by rw [heq, hlive]⟩
    · refine ⟨calls ++ [c], rs ++ [r], by simpa using hlen, ?_⟩
      exact (StepMachine.run_snoc _ _ _ _ _ _).mpr ⟨u.addresses, rs, r, hlive, hc, rfl⟩

/-- **The windows of the system are the list in memory.** For every reachable state there is a memory,
left by calls of the code from an empty list, that holds its windows as a doubly linked list, and
`sm_is_smallwin` finds a handle in it exactly when the system finds a window there. -/
theorem windows_represented {mem : ℤ → Message} {steps : List SysStep} {es : List SysEvent}
    (hrun : StepMachine.run step (Sys.init mem) steps = some (es, s)) {fuel : ℕ}
    (hfuel : steps.length ≤ fuel) :
    ∃ calls os w q, StepMachine.run (WinCall.exec id fuel) (Windows.empty Hsm, s.q) calls =
        some (os, w, q) ∧ w.Holds s.addresses ∧
      ∀ hsm, smIsSmallwin fuel w (some hsm) = some (s.windowAt hsm).isSome := by
  obtain ⟨calls, os, hlen, hlive⟩ := addresses_run hrun
  -- the same calls, on the list in memory
  obtain ⟨hlen', w, q, hexec, hholds⟩ := WinCall.run_holds id fuel s.q
    (Windows.Holds.empty (A := Hsm)) (by simpa using Nat.le_trans hlen hfuel) hlive
  refine ⟨calls, os, w, q, hexec, hholds, ?_⟩
  intro hsm
  rw [hholds.isSmallwin (by simp at hlen'; omega)]
  congr 1
  rw [Bool.eq_iff_iff, decide_eq_true_iff]
  constructor
  · rintro ⟨a, hmem, ha⟩
    obtain rfl := Option.some.inj ha
    obtain ⟨v, hv, rfl⟩ := List.mem_map.mp hmem
    rw [(Wf.run hrun).windowAt_eq hv, Option.isSome_some]
  · intro hsome
    obtain ⟨v, hv⟩ := Option.isSome_iff_exists.mp hsome
    obtain ⟨hmem, rfl⟩ := mem_of_windowAt hv
    exact ⟨v.hsm, List.mem_map_of_mem hmem, rfl⟩

end Sys

end SmIpc.Sm
