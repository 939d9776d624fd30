import SmIpc.Os.Event

/-! # Waits and sets of an event, counted

Any number of threads that call `sk_event_set`, `sk_event_reset` and `sk_event_wait`, the last with 0 as
its flag. The signalled state is then a token: a set puts it there, a reset takes it away, and a wait
that succeeds consumes it.

* `waitStep_state` — a step of a wait either takes the state from 1 to 0 and returns `SK_SUCCESS`, or
  leaves it alone and returns something else, or nothing.
* `event_waits_le_sets` — so there are no more successful waits than sets, and one if the event was
  created set. -/

namespace SmIpc.Os

namespace EventStep

/-- The step is one of a call of `sk_event_wait`. -/
def isWait : EventStep → Bool
  | wait .. | timeOut _ | spurious _ | resume _ => true
  | set .. | reset _ => false

/-- The step is a call of `sk_event_set`. -/
def isSet : EventStep → Bool
  | set .. => true
  | _ => false

end EventStep

/-- A step that ends a wait with `SK_SUCCESS`. -/
def waitSucceeds (i : EventStep) (o : EventOut) : Bool := i.isWait && o = .returned .success

namespace EventSys

/-- The token of an event: there is one while it is signalled. -/
def tokens (s : EventSys) : ℕ := if s.state = 1 then 1 else 0

variable {w eventId : ℕ} {s t : EventSys} {i : EventStep} {o : EventOut}

/-- A wait that resets the event leaves it unset. -/
@[simp] theorem stateAfterWait_zero : stateAfterWait 0 = 0 := rfl

/-- The loop of a wait that resets the event: it takes the state from 1 to 0, or waits. -/
theorem eventWaitLoop_zero (state : UInt8) :
    eventWaitLoop state 0 = if state = 1 then some (.success, 0) else none := by
  rw [eventWaitLoop, stateAfterWait_zero, ite_not]

/-- **What a step of a wait does to the state**, if the waits pass 0 as their flag: it takes it from 1 to 0
where it returns `SK_SUCCESS`, and leaves it alone everywhere else. -/
theorem waitStep_state (hall : ∀ pc ∈ s.threads, pc.Resets) (hi : i.Resets) (hwait : i.isWait)
    (h : step w eventId s i = some (o, t)) :
    (o = .returned .success ∧ s.state = 1 ∧ t.state = 0) ∨
      (o ≠ .returned .success ∧ t.state = s.state) := by
  cases i with
  | wait tid isAutoReset timeoutMs =>
    obtain rfl : isAutoReset = 0 := hi
    rw [step, call, eventWaitLoop_zero] at h
    split at h
    · split at h
      · by_cases hset : s.state = 1
        · rw [if_pos hset] at h
          cases h
          exact .inl ⟨rfl, hset, rfl⟩
        · rw [if_neg hset] at h
          cases h
          exact .inr ⟨by decide, rfl⟩
      · cases h
        exact .inr ⟨by decide, rfl⟩
    · cases h
  | timeOut tid =>
    simp only [step] at h
    split at h <;> cases h
    exact .inr ⟨by decide, rfl⟩
  | spurious tid =>
    simp only [step] at h
    split at h <;> cases h
    exact .inr ⟨by decide, rfl⟩
  | resume tid =>
    simp only [step] at h
    split at h
    · rename_i isAutoReset timed timedOut htid
      obtain rfl : isAutoReset = 0 := hall _ (List.mem_of_getElem? htid)
      split at h
      · cases h
        exact .inr ⟨by decide, rfl⟩
      · rw [eventWaitLoop_zero] at h
        by_cases hset : s.state = 1
        · rw [if_pos hset] at h
          cases h
          exact .inl ⟨rfl, hset, rfl⟩
        · rw [if_neg hset] at h
          cases h
          exact .inr ⟨by decide, rfl⟩
    · cases h
  | set | reset => cases hwait

/-- **One step's account**: a successful wait takes the token, and only a set puts it there. -/
theorem tokens_step (hall : ∀ pc ∈ s.threads, pc.Resets) (hi : i.Resets)
    (h : step w eventId s i = some (o, t)) :
    t.tokens + (if waitSucceeds i o then 1 else 0) ≤ s.tokens + (if i.isSet then 1 else 0) := by
  have hle : t.tokens ≤ 1 := by
    rw [tokens]
    split <;> decide
  cases hwait : i.isWait with
  | true =>
    rcases waitStep_state hall hi hwait h with ⟨rfl, hset, hunset⟩ | ⟨ho, hsame⟩
    · have hs : s.tokens = 1 := by rw [tokens, if_pos hset]
      have ht : t.tokens = 0 := by rw [tokens, hunset, if_neg (by decide)]
      rw [hs, ht, Nat.zero_add, waitSucceeds, hwait]
      exact Nat.le_add_right 1 _
    · have hts : t.tokens = s.tokens := by rw [tokens, hsame, tokens]
      rw [hts, waitSucceeds, hwait, decide_eq_false ho]
      exact Nat.le_add_right _ _
  | false =>
    rw [waitSucceeds, hwait]
    cases i with
    | set tid woken => exact Nat.le_trans hle (Nat.le_add_left _ _)
    | reset tid =>
      obtain ⟨-, rfl | hbody⟩ := call_cases h
      · exact Nat.le_refl _
      · cases hbody
        exact Nat.zero_le _
    | wait | timeOut | spurious | resume => cases hwait

end EventSys

/-- **A successful wait consumes one set.** Whatever the threads do with an event, as long as every wait
passes 0 as its flag: in every state reached, a step of a wait returns `SK_SUCCESS` only where it takes
the state from 1 to 0, and leaves the state alone otherwise, as where it returns `SK_ERROR_TIMEOUT`; and
no more waits have succeeded than the event has been set, with its creation. -/
theorem event_waits_le_sets (w eventId initIsSet n : ℕ) (steps : List EventStep)
    (hflag : ∀ i ∈ steps, i.Resets) (os : List EventOut) (s : EventSys)
    (hrun : StepMachine.run (EventSys.step w eventId) (EventSys.init initIsSet n) steps =
      some (os, s)) :
    (∀ i o t, i.Resets → i.isWait → EventSys.step w eventId s i = some (o, t) →
      (o = .returned .success → s.state = 1 ∧ t.state = 0) ∧
      (o ≠ .returned .success → t.state = s.state)) ∧
    ((steps.zip os).countP fun io => waitSucceeds io.1 io.2) ≤
      ((steps.zip os).countP fun io => io.1.isSet) + (if initIsSet ≠ 0 then 1 else 0) := by
  have hinit : (∀ pc ∈ (EventSys.init initIsSet n).threads, pc.Resets) ∧
      (EventSys.init initIsSet n).tokens + 0 ≤ 0 + (if initIsSet ≠ 0 then 1 else 0) := by
    constructor
    · intro pc hpc
      rw [List.eq_of_mem_replicate hpc]
      trivial
    · rw [EventSys.tokens, EventSys.init, eventState]
      split
      · exact Nat.le_refl 1
      · exact Nat.le_refl 0
  have hflags := StepMachine.along_of_forall_mem (EventSys.step w eventId)
    (C := fun _ i => i.Resets) (fun i hi _ => hflag i hi) (EventSys.init initIsSet n)
  obtain ⟨hall, hcount⟩ := StepMachine.run_induction_counts (EventSys.step w eventId)
    (fun _ i => i.Resets) waitSucceeds (fun i _ => i.isSet)
    (fun waits sets s => (∀ pc ∈ s.threads, pc.Resets) ∧
      s.tokens + waits ≤ sets + (if initIsSet ≠ 0 then 1 else 0))
    (by
      rintro waits sets s i o t ⟨hall, hle⟩ hi h
      have hstep := EventSys.tokens_step hall hi h
      exact ⟨EventSys.resets_acts hall hi (EventSys.step_cases h), by omega⟩)
    hinit hflags hrun
  constructor
  · intro i o t hi hwait h
    rcases EventSys.waitStep_state hall hi hwait h with ⟨ho, hset, hunset⟩ | ⟨ho, hsame⟩
    · exact ⟨fun _ => ⟨hset, hunset⟩, fun hne => absurd ho hne⟩
    · exact ⟨fun heq => absurd heq ho, fun _ => hsame⟩
  · omega

/-- Two threads wait, one set releases one of them, and a third wait overtakes it. -/
theorem event_waits_le_sets_overtaken :
    let steps : List EventStep :=
      [.wait 0 0 100, .wait 1 0 skTimeoutInfinity, .set 2 (some 1), .wait 2 0 0, .resume 1]
    let os : List EventOut := [.silent, .silent, .returned .success, .returned .success, .silent]
    ((steps.zip os).countP fun io => waitSucceeds io.1 io.2) ≤
      ((steps.zip os).countP fun io => io.1.isSet) + (if 0 ≠ 0 then 1 else 0) :=
  (event_waits_le_sets 64 4096 0 3
    [.wait 0 0 100, .wait 1 0 skTimeoutInfinity, .set 2 (some 1), .wait 2 0 0, .resume 1] (by decide)
    [.silent, .silent, .returned .success, .returned .success, .silent] _ rfl).2

end SmIpc.Os
