import Mathlib.Algebra.Order.Ring.Int
import SmIpc.Os.TickTask

/-! # Callbacks and the time a ticker was to wait

A pass takes one elapsed time off every started ticker, measured from `OldUTCTime`. Where the task waited
with a finite `uTimeout`, that reading is from before the wait, and a ticker started during the wait
pays for the whole of it; and elapsed times rounded up add to each other.

* `TickEvent.NotEarly` — a callback comes no earlier than the period less 1 ms after the ticker was last
  started or called back.
* `TickSys.OnTime` is the condition on a step: a ticker that is due was charged only from readings at
  which it was running, and at most 1 ms too much by rounding.
* `ticks_notEarly` — in every run that meets the condition, no callback is early; one that does not can
  call back at once (`started_in_wait_fires_early`). -/

namespace SmIpc.Os

/-- **What should be seen**: a callback comes no earlier than the period less 1 ms after the ticker
was last started or called back. -/
def TickEvent.NotEarly : TickEvent → Prop
  | .called _ _ _ since uTimeout time => since + 1000 * uTimeout ≤ time + 1000
  | _ => True

/-- The account says that a ticker about to be called back had its time: no charge was measured from a
reading older than its start, and the charges together are at most 1 ms over. -/
def TickAccount.OnTime (a : TickAccount) : Prop := a.stale = false ∧ a.gain ≤ 1000

instance (a : TickAccount) : Decidable a.OnTime := inferInstanceAs (Decidable (_ ∧ _))

/-- **The condition on a step**: if it calls a ticker back, the charges the ticker got since it was last
started or called back, with that of this pass, were measured from readings at which it was running
and are together at most 1 ms over the time that went by. -/
def TickSys.OnTime (s : TickSys) : TickStep → Prop
  | .handle =>
      match s.pc with
      | .handling i elapsed _ pass =>
          (s.tickers i).IsDue elapsed → ((s.account i).charged s.oldUTCTime pass elapsed).OnTime
      | _ => True
  | _ => True

/-- **One charge is never too much**: a ticker that was running at the reading of the first pass that
charges it meets the condition in that pass. -/
theorem onTime_first_charge (w : ℕ) {clock old pass : ℕ} (h₁ : clock ≤ old) (h₂ : old ≤ pass) :
    ((TickAccount.start clock).charged old pass
      (internalElapsedTime w (gettimeofday old) (gettimeofday pass))).OnTime := by
  have helapsed := elapsed_lt_distance w h₂
  rw [TickAccount.charged, if_pos (show (TickAccount.start clock).since ≤ old from h₁)]
  refine ⟨rfl, ?_⟩
  show (0 : ℤ) + TickAccount.rounding old pass _ ≤ 1000
  rw [TickAccount.rounding]
  omega

/-! ## The accounts are kept -/

/-- What the passes took off a ticker is covered by the time from its start up to `upto`, and what
the account says they took too much. -/
structure TickAccount.Covers (a : TickAccount) (k : TickerElement) (upto clock : ℕ) : Prop where
  /-- The ticker was started in the past. -/
  since_le : a.since ≤ clock
  /-- It has no more than its period to go. -/
  remaining_le : k.uTimeRemaining ≤ k.uTimeout
  /-- What was taken off. -/
  taken : a.stale = false →
    1000 * ((k.uTimeout : ℤ) - k.uTimeRemaining) ≤ (upto : ℤ) - a.since + a.gain

namespace TickAccount

variable {a : TickAccount} {k : TickerElement} {upto clock old pass elapsed : ℕ}

/-- More time covers what less does. -/
theorem Covers.mono (h : a.Covers k upto clock) {upto' clock' : ℕ} (h₁ : upto ≤ upto')
    (h₂ : clock ≤ clock') : a.Covers k upto' clock' := by
  refine ⟨h.since_le.trans h₂, h.remaining_le, ?_⟩
  intro hstale
  have := h.taken hstale
  omega

/-- Only the times of the ticker matter. -/
theorem Covers.congr (h : a.Covers k upto clock) {k' : TickerElement}
    (h₁ : k'.uTimeout = k.uTimeout) (h₂ : k'.uTimeRemaining = k.uTimeRemaining) :
    a.Covers k' upto clock := by
  refine ⟨h.since_le, ?_, ?_⟩
  · rw [h₁, h₂]
    exact h.remaining_le
  · intro hstale
    rw [h₁, h₂]
    exact h.taken hstale

/-- A ticker with its whole period to go. -/
theorem covers_start (hk : k.uTimeRemaining = k.uTimeout) {upto : ℕ} (h : clock ≤ upto) :
    (start clock).Covers k upto clock := by
  refine ⟨le_refl _, hk.le, ?_⟩
  intro _
  show 1000 * ((k.uTimeout : ℤ) - k.uTimeRemaining) ≤ upto - clock + 0
  omega

/-- **A charge is covered** by the time up to the pass: the ticker was running from the reading on, or
nothing was taken off. -/
theorem Covers.charge (h : a.Covers k (max a.since old) clock) (hpass : pass ≤ clock)
    (hstale : (a.charged old pass elapsed).stale = false) :
    1000 * ((k.uTimeout : ℤ) - k.uTimeRemaining + elapsed)
      ≤ (clock : ℤ) - a.since + (a.charged old pass elapsed).gain := by
  by_cases hold : a.since ≤ old
  · -- the ticker ran from the reading on, and the account takes up the rounding
    rw [charged, if_pos hold] at hstale ⊢
    have htaken := h.taken hstale
    rw [max_eq_right hold] at htaken
    simp only [rounding]
    omega
  · -- the ticker was started after the reading, so it is not stale only if nothing was taken off
    rw [charged, if_neg hold] at hstale ⊢
    obtain ⟨hstale, helapsed⟩ : a.stale = false ∧ elapsed = 0 := by simpa using hstale
    have htaken := h.taken hstale
    rw [max_eq_left (Nat.le_of_not_le hold)] at htaken
    have hsince := h.since_le
    dsimp only
    omega

/-- A charge that is covered leaves the ticker covered. -/
theorem Covers.charged (h : a.Covers k (max a.since old) clock) (hpass : pass ≤ clock)
    (hnot : elapsed < k.uTimeRemaining) :
    (a.charged old pass elapsed).Covers { k with uTimeRemaining := k.uTimeRemaining - elapsed } clock
      clock := by
  have hsince : (a.charged old pass elapsed).since = a.since := by
    rw [TickAccount.charged]
    split <;> rfl
  refine ⟨hsince ▸ h.since_le, (Nat.sub_le _ _).trans h.remaining_le, ?_⟩
  intro hstale
  have hcharge := h.charge hpass hstale
  rw [hsince]
  simp only [Nat.cast_sub hnot.le]
  omega

/-- **A callback that the condition allows is not early.** -/
theorem Covers.notEarly (h : a.Covers k (max a.since old) clock) (hpass : pass ≤ clock)
    (hdue : k.uTimeRemaining ≤ elapsed) (hon : (a.charged old pass elapsed).OnTime) :
    a.since + 1000 * k.uTimeout ≤ clock + 1000 := by
  have hcharge := h.charge hpass hon.1
  have hgain := hon.2
  omega

end TickAccount

namespace TickSys

/-- Up to where ticker `i` was charged: up to the clock if the pass in progress has charged it, or the
next one will be measured from a later reading. -/
def chargedUpto (s : TickSys) (i : ℕ) : ℕ :=
  match s.pc with
  | .top => s.clock
  | .handling j _ _ _ => if i < j then s.clock else max (s.account i).since s.oldUTCTime
  | _ => max (s.account i).since s.oldUTCTime

/-- The pass in progress, if there is one, was begun in the past. -/
def PassLe (clock : ℕ) : TaskPc → Prop
  | .handling _ _ _ pass => pass ≤ clock
  | _ => True

/-- The account of every started ticker covers what the passes took off it. -/
structure Charged (s : TickSys) : Prop where
  /-- The reading is from the past. -/
  old_le : s.oldUTCTime ≤ s.clock
  /-- So is the pass in progress. -/
  pass_le : PassLe s.clock s.pc
  /-- The tickers. -/
  covers : ∀ i, (s.tickers i).IsStarted →
    (s.account i).Covers (s.tickers i) (s.chargedUpto i) s.clock

variable {w : ℕ} {s t : TickSys} {i : TickStep} {o : TickEvent}

/-- A step of the task that moves neither the clock nor a ticker, and after which the tickers may count
on no less time. -/
theorem Charged.move (h : s.Charged) {pc : TaskPc} {old callbackSem uTimeout : ℕ}
    (hold : old ≤ s.clock)
    (hpass : PassLe s.clock pc)
    (hupto : ∀ i, (s.account i).since ≤ s.clock → s.chargedUpto i ≤
      chargedUpto { s with oldUTCTime := old, callbackSem, uTimeout, pc } i) :
    Charged { s with oldUTCTime := old, callbackSem, uTimeout, pc } :=
  ⟨hold, hpass, fun i hi => (h.covers i hi).mono (hupto i (h.covers i hi).since_le) (le_refl _)⟩

/-- Outside a pass the time up to the reading is charged. -/
theorem le_chargedUpto (hpc : s.pc.holdsTable = false) (hold : s.oldUTCTime ≤ s.clock) (i : ℕ)
    (hsince : (s.account i).since ≤ s.clock) :
    max (s.account i).since s.oldUTCTime ≤ s.chargedUpto i := by
  rw [chargedUpto]
  split
  · exact max_le hsince hold
  · rename_i heq
    rw [heq] at hpc
    cases hpc
  · exact le_refl _

/-- **A section keeps the accounts**: a ticker is started with its whole period to go, and the others
keep what they had. -/
theorem Charged.section (h : s.Charged) (hfree : s.pc.holdsTable = false) {pc : TickPc}
    {call : TickCall} {r : SectionEnd} (hr : call.section s.tickers pc = some r) (tid : ℕ) :
    (s.afterSection tid r).Charged := by
  refine ⟨h.old_le, h.pass_le, ?_⟩
  intro i hi
  rcases section_started hr i hi with ⟨hstarts, hwhole⟩ | ⟨hnot, hwas, htimeout, hremaining⟩
  · -- the section is one of `sk_tick_start` for this ticker
    have haccount : (s.afterSection tid r).account i = .start s.clock := by
      simp only [afterSection, hstarts, startAccount_self]
    have hsince : ((s.afterSection tid r).account i).since = s.clock := by rw [haccount]; rfl
    have hupto := le_chargedUpto (s := s.afterSection tid r) hfree h.old_le i hsince.le
    rw [hsince] at hupto
    rw [haccount]
    exact TickAccount.covers_start hwhole ((le_max_left _ _).trans hupto)
  · have haccount : (s.afterSection tid r).account i = s.account i := startAccount_of_ne hnot
    have hupto : (s.afterSection tid r).chargedUpto i = s.chargedUpto i := by
      simp only [chargedUpto, haccount]
      rfl
    rw [haccount, hupto]
    exact (h.covers i hwas).congr htimeout hremaining

/-- The ticker the pass has come to is charged up to the reading. -/
theorem Charged.covers_handling (h : s.Charged) {j elapsed shortest pass : ℕ}
    (hpc : s.pc = .handling j elapsed shortest pass) (hj : (s.tickers j).IsStarted) :
    (s.account j).Covers (s.tickers j) (max (s.account j).since s.oldUTCTime) s.clock := by
  have hcov := h.covers j hj
  simpa only [chargedUpto, hpc, lt_irrefl, if_false] using hcov

/-- **A round of the pass keeps the accounts.** -/
theorem Charged.handle (h : s.Charged) {j elapsed shortest pass : ℕ}
    (hpc : s.pc = .handling j elapsed shortest pass) :
    (s.handleTicker j elapsed shortest pass).2.Charged := by
  have hpass : pass ≤ s.clock := by simpa only [hpc, PassLe] using h.pass_le
  refine ⟨h.old_le, hpass, ?_⟩
  intro i hi
  by_cases hij : i = j
  · subst hij
    have hupto : (s.handleTicker i elapsed shortest pass).2.chargedUpto i = s.clock :=
      if_pos (Nat.lt_succ_self i)
    rw [hupto]
    simp only [handleTicker, Function.update_self] at hi ⊢
    rw [TickerElement.handled] at hi ⊢
    by_cases hstarted : (s.tickers i).IsStarted
    · have hcov := h.covers_handling hpc hstarted
      by_cases hdue : (s.tickers i).uTimeRemaining ≤ elapsed
      · -- called back: its account starts anew, whether it goes on or not
        rw [if_pos hstarted, if_pos hdue, handledAccount, if_pos ⟨hstarted, hdue⟩]
        exact TickAccount.covers_start rfl (le_refl _)
      · rw [if_pos hstarted, if_neg hdue, handledAccount, if_neg fun hd => hdue hd.2,
          if_pos hstarted]
        exact hcov.charged hpass (not_le.mp hdue)
    · rw [if_neg hstarted] at hi
      exact absurd hi hstarted
  · -- another ticker: the pass has gone past it now exactly if it had before
    simp only [handleTicker, Function.update_of_ne hij] at hi ⊢
    have hcov := h.covers i hi
    rw [chargedUpto, hpc] at hcov
    have hlt : i < j + 1 ↔ i < j := by omega
    simpa only [chargedUpto, Function.update_of_ne hij, hlt] using hcov

/-- **One step keeps the accounts.** -/
theorem Charged.acts (h : s.Charged) (ha : TickActs w s i o t) : t.Charged := by
  cases ha with
  | call hfree hsection => exact h.section hfree hsection _
  | readOld hpc =>
    refine h.move (le_refl _) trivial ?_
    intro i hsince
    simp only [chargedUpto, hpc]
    exact le_max_right _ _
  | lock hpc =>
    refine h.move h.old_le trivial ?_
    intro i hsince
    simp only [chargedUpto, hpc]
    exact le_refl _
  | wake hpc hsem =>
    refine h.move h.old_le trivial ?_
    intro i hsince
    simp only [chargedUpto, hpc]
    exact le_refl _
  | interrupt hpc =>
    refine h.move h.old_le trivial ?_
    intro i hsince
    simp only [chargedUpto, hpc]
    exact le_refl _
  | reread hpc hnext =>
    -- a second reading is a later one, so the tickers may count on more time
    have hold : s.oldUTCTime ≤ (if s.uTimeout = skTimeoutInfinity then s.clock else s.oldUTCTime) := by
      split
      · exact h.old_le
      · exact le_refl _
    have hclock : (if s.uTimeout = skTimeoutInfinity then s.clock else s.oldUTCTime) ≤ s.clock := by
      split
      · exact le_refl _
      · exact h.old_le
    split at hnext <;> subst hnext
    · refine h.move hclock trivial ?_
      intro i hsince
      simp only [chargedUpto, hpc]
      exact max_le_max (le_refl _) hold
    · refine h.move hclock trivial ?_
      intro i hsince
      simp only [chargedUpto, hpc]
      exact max_le hsince h.old_le
  | passStart hpc =>
    refine h.move h.old_le (le_refl s.clock) ?_
    intro i hsince
    simp only [chargedUpto, hpc, Nat.not_lt_zero, if_false]
    exact le_refl _
  | passFail hpc =>
    refine h.move h.old_le trivial ?_
    intro i hsince
    simp only [chargedUpto, hpc]
    exact max_le hsince h.old_le
  | handle hpc hi => exact h.handle hpc
  | passEnd hpc hi =>
    -- the next pass will measure from a reading still to come
    refine h.move h.old_le trivial ?_
    intro i hsince
    simp only [chargedUpto, hpc]
    split
    · exact le_refl _
    · exact max_le hsince h.old_le
  | advance d =>
    have hpass : PassLe (s.clock + d) s.pc := by
      have := h.pass_le
      unfold PassLe at this ⊢
      split at this
      · omega
      · trivial
    refine ⟨h.old_le.trans (Nat.le_add_right _ _), hpass, ?_⟩
    intro i hi
    refine (h.covers i hi).mono ?_ (Nat.le_add_right _ _)
    simp only [chargedUpto]
    split
    · exact Nat.le_add_right _ _
    · split
      · exact Nat.le_add_right _ _
      · exact le_refl _
    · exact le_refl _

/-- **What a step that meets the condition lets be seen** is not early. -/
theorem Charged.notEarly (h : s.Charged) (hcond : s.OnTime i) (ha : TickActs w s i o t) :
    o.NotEarly := by
  cases ha with
  | @call tid call pc r hfree hsection =>
    -- only the task calls back
    cases hevent : r.event with
    | called j pfn param since uTimeout time =>
      exact absurd hevent (section_event hsection j pfn param since uTimeout time)
    | _ => trivial
  | @handle j elapsed shortest pass hpc hj =>
    simp only [OnTime, hpc] at hcond
    simp only [handleTicker]
    split
    · rename_i hdue
      have hcov := h.covers_handling hpc hdue.1
      have hpass : pass ≤ s.clock := by simpa only [hpc, PassLe] using h.pass_le
      exact hcov.notEarly hpass hdue.2 (hcond hdue)
    · trivial
  | _ => trivial

theorem Charged.init (n : ℕ) : (init n).Charged :=
  ⟨le_refl _, trivial, fun _ hi => TickerState.noConfusion hi⟩

end TickSys

/-- **No callback is early.** In every run of the task, the threads and a clock that does not go back, if
every ticker that is due was charged only from readings at which it was running, and at most 1 ms too
much by rounding, then every callback comes no earlier than the period less 1 ms after the ticker was
last started or called back. -/
theorem ticks_notEarly (w n : ℕ) (steps : List TickStep) (es : List TickEvent) (s : TickSys)
    (hcond : StepMachine.Along (TickSys.step w) TickSys.OnTime (TickSys.init n) steps)
    (hrun : StepMachine.run (TickSys.step w) (TickSys.init n) steps = some (es, s)) :
    ∀ e ∈ es, e.NotEarly := by
  refine (StepMachine.run_safe_along (TickSys.step w) TickSys.OnTime TickSys.Charged
    TickEvent.NotEarly (.init n) ?_ hcond hrun).2
  intro u i o t hcharged hC hs
  have ha := TickSys.step_acts hs
  exact ⟨hcharged.acts ha, hcharged.notEarly hC ha⟩

/-- The law at a ticker of 100 ms that is started at 0 and called back by the pass at 100 ms. -/
theorem ticks_notEarly_first : TickEvent.NotEarly (.called 0 7 9 0 100 100000) := by
  -- `uTimeout` is infinite at the first wait, so the reading is taken again after it
  obtain ⟨es, s, hrun, hlast⟩ : ∃ es s,
      StepMachine.run (TickSys.step 64) (TickSys.init 1)
          [.call 0 (.create 7 9), .call 0 .store, .call 0 (.set 0 .perio 100), .call 0 (.start 0),
            .readOld, .lock, .wake, .reread, .advance 100000, .passStart, .handle] = some (es, s) ∧
        es.getLast? = some (.called 0 7 9 0 100 100000) := ⟨_, _, rfl, rfl⟩
  refine ticks_notEarly 64 1 _ es s ?_ hrun _ (List.mem_of_getLast? hlast)
  iterate 10 refine StepMachine.along_cons trivial rfl ?_
  exact StepMachine.along_cons (fun _ => onTime_first_charge 64 (le_refl 0) (Nat.zero_le _)) rfl
    trivial

/-- **A ticker started in a wait fires at once.** One ticker of 1000 ms runs, and the task has made its
first pass and waits. After 500 ms a second ticker, of 400 ms, is started: the pass it wakes charges it the
500 ms of the wait and calls it back in the microsecond it was started. -/
theorem started_in_wait_fires_early :
    ∃ es s, StepMachine.run (TickSys.step 64) (TickSys.init 1)
        ([.call 0 (.create 7 9), .call 0 .store, .call 0 (.set 0 .perio 1000), .call 0 (.start 0),
            .readOld, .lock, .wake, .reread, .passStart] ++ List.replicate 25 .handle ++
          [.passEnd, .readOld, .lock, .advance 500000, .call 0 (.create 8 9), .call 0 .store,
            .call 0 (.set 1 .perio 400), .call 0 (.start 1), .wake, .reread, .passStart, .handle,
            .handle]) = some (es, s) ∧
      es.getLast? = some (.called 1 8 9 500000 400 500000) ∧ ¬ ∀ e ∈ es, e.NotEarly := by
  refine StepMachine.run_getLast_not rfl rfl ?_
  intro hok
  have hlate : 500000 + 1000 * 400 ≤ 500000 + 1000 := hok
  exact absurd hlate (by decide)

end SmIpc.Os
