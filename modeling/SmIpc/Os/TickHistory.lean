import Mathlib.Algebra.BigOperators.Group.Finset.Basic
import Mathlib.Algebra.BigOperators.Group.Finset.Piecewise
import SmIpc.Os.TickTable

/-! # A ticker and its history

What was done to a ticker so far, as a list of `TickAct`, against what the table says about it.

* `TickAct.Exists`, `TickAct.LastSet`, `TickAct.OneShot` and `TickAct.Running` read a history: the
  ticker was reserved and not released since, its latest `sk_tick_set` gave it this type and period,
  that type is one-shot, it was started and neither stopped nor fired as a one-shot since.
* `SlotInv` is the invariant between the history of a ticker and its element of the table, kept by
  everything that can be done to a ticker (`SlotInv.step`).
* `tickTable_history` — in every run: the slots in use are those reserved and not released; a ticker
  that is set or started has the type and period of its latest `sk_tick_set`, and no more to go than
  that; and it is called back at most once as a one-shot without being started again. -/

namespace SmIpc.Os

open History (Since about)

/-! ## Reading a history -/

namespace TickAct

/-- The ticker was reserved, and not released since. -/
def Exists : List TickAct → Prop := Since (· = .reserved) fun _ e => e = .released

/-- The latest `sk_tick_set` since the latest reservation gave the ticker this type and period. -/
def LastSet (tickType : TickType) (tickTimeMs : ℕ) : List TickAct → Prop :=
  Since (· = .configured tickType tickTimeMs) fun _ e =>
    e = .reserved ∨ ∃ ty ms, e = .configured ty ms

/-- The configuration of the ticker is one-shot. -/
def OneShot (log : List TickAct) : Prop := ∃ tickTimeMs, LastSet .single tickTimeMs log

/-- The ticker was started, and neither stopped, nor released, nor called back as a one-shot since. -/
def Running : List TickAct → Prop :=
  Since (· = .started) fun before e =>
    e = .stopped ∨ e = .released ∨ e = .called ∧ OneShot before

/-- A stretch of a history, after what is before it, has at most one callback made while the
configuration of the ticker is one-shot. -/
def OneShotOnce (before mid : List TickAct) : Prop :=
  ∀ a b c, mid = a ++ .called :: (b ++ .called :: c) →
    ¬ (OneShot (before ++ a) ∧ OneShot (before ++ a ++ .called :: b))

variable {log : List TickAct} {e : TickAct}

@[simp] theorem not_exists_nil : ¬ Exists [] := History.not_since_nil

@[simp] theorem not_lastSet_nil {tickType : TickType} {tickTimeMs : ℕ} :
    ¬ LastSet tickType tickTimeMs [] := History.not_since_nil

@[simp] theorem not_running_nil : ¬ Running [] := History.not_since_nil

@[simp] theorem exists_snoc : Exists (log ++ [e]) ↔ e = .reserved ∨ Exists log ∧ e ≠ .released :=
  History.since_snoc

@[simp] theorem lastSet_snoc {tickType : TickType} {tickTimeMs : ℕ} :
    LastSet tickType tickTimeMs (log ++ [e]) ↔
      e = .configured tickType tickTimeMs ∨
        LastSet tickType tickTimeMs log ∧ ¬ (e = .reserved ∨ ∃ ty ms, e = .configured ty ms) :=
  History.since_snoc

@[simp] theorem running_snoc :
    Running (log ++ [e]) ↔
      e = .started ∨
        Running log ∧ ¬ (e = .stopped ∨ e = .released ∨ e = .called ∧ OneShot log) :=
  History.since_snoc

end TickAct

/-! ## What a pass does to one ticker -/

namespace TickerElement

variable {k : TickerElement} {uElapsedTime : ℕ}

/-- A ticker that is called back. -/
theorem handled_of_isDue (h : k.IsDue uElapsedTime) :
    k.handled uElapsedTime =
      { k with
        tickerState := if k.bOneShot ≠ 0 then .set else .started
        uTimeRemaining := k.uTimeout } := by
  have hstarted : k.tickerState = .started := h.1
  rw [handled, if_pos h.1, if_pos h.2, hstarted]

/-- A ticker that is not called back keeps all but the time it has to go, and has no more of that. -/
theorem handled_of_not_isDue (h : ¬ k.IsDue uElapsedTime) :
    ∃ m ≤ k.uTimeRemaining, k.handled uElapsedTime = { k with uTimeRemaining := m } := by
  rw [handled]
  by_cases hstarted : k.IsStarted
  · rw [if_pos hstarted, if_neg fun hle => h ⟨hstarted, hle⟩]
    exact ⟨_, Nat.sub_le _ _, rfl⟩
  · rw [if_neg hstarted]
    exact ⟨_, Nat.le_refl _, rfl⟩

end TickerElement

/-! ## The invariant -/

/-- **What the history of a ticker and its element in the table have to do with each other.** -/
structure SlotInv (log : List TickAct) (k : TickerElement) : Prop where
  /-- It is in use exactly if it exists. -/
  exists_iff : k.tickerState ≠ .free ↔ TickAct.Exists log
  /-- A started ticker runs. -/
  running : k.tickerState = .started → TickAct.Running log
  /-- A ticker that was never set does not. -/
  notRunning : k.tickerState = .free ∨ k.tickerState = .created → ¬ TickAct.Running log
  /-- It has the type and the period it was last given. -/
  lastSet : ∀ ty ms, TickAct.LastSet ty ms log → k.bOneShot = ty.toU8 ∧ k.uTimeout = ms
  /-- A ticker that is set or started was given a type and a period. -/
  configured : k.tickerState = .set ∨ k.tickerState = .started → ∃ ty ms, TickAct.LastSet ty ms log
  /-- Its time to go is no more than its period. -/
  remaining : k.tickerState = .set ∨ k.tickerState = .started → k.uTimeRemaining ≤ k.uTimeout
  /-- It was reserved once more than released while it is in use, and as often otherwise. -/
  counts : log.count .reserved =
    log.count .released + if k.tickerState = .free then 0 else 1
  /-- It ran whenever it was called back. -/
  called : ∀ before after, log = before ++ .called :: after → TickAct.Running before

namespace SlotInv

variable {log : List TickAct} {k k' : TickerElement}

theorem init (i : ℕ) : SlotInv [] (KalTickers.init i) := by
  constructor <;> simp [KalTickers.init]

/-- A change of fields the history does not speak of. -/
theorem congr (h : SlotInv log k) (hstate : k'.tickerState = k.tickerState)
    (htype : k'.bOneShot = k.bOneShot) (htimeout : k'.uTimeout = k.uTimeout)
    (hremaining : k'.uTimeRemaining ≤ k.uTimeRemaining) : SlotInv log k' := by
  refine ⟨?_, ?_, ?_, ?_, ?_, ?_, ?_, h.called⟩
  · rw [hstate]
    exact h.exists_iff
  · rw [hstate]
    exact h.running
  · rw [hstate]
    exact h.notRunning
  · rw [htype, htimeout]
    exact h.lastSet
  · rw [hstate]
    exact h.configured
  · rw [hstate, htimeout]
    exact fun hset => Nat.le_trans hremaining (h.remaining hset)
  · rw [hstate]
    exact h.counts

/-- The callbacks of a longer history, if what is new is no callback or the ticker ran. -/
theorem called_snoc (h : SlotInv log k) {e : TickAct} (he : e = .called → TickAct.Running log)
    (before after : List TickAct) (heq : log ++ [e] = before ++ .called :: after) :
    TickAct.Running before := by
  rcases List.eq_nil_or_concat after with rfl | ⟨after', x, rfl⟩
  · obtain ⟨rfl, hlast⟩ := List.append_inj' heq rfl
    exact he (by simpa using hlast)
  · rw [List.concat_eq_append, ← List.cons_append, ← List.append_assoc] at heq
    exact h.called before after' (List.append_inj' heq rfl).1

/-- The flag of a ticker that is set or started says whether it is a one-shot. -/
theorem oneShot_iff (h : SlotInv log k) (hset : k.tickerState = .set ∨ k.tickerState = .started) :
    TickAct.OneShot log ↔ k.bOneShot ≠ 0 := by
  constructor
  · rintro ⟨ms, hlast⟩
    rw [(h.lastSet .single ms hlast).1]
    decide
  · intro hflag
    obtain ⟨ty, ms, hlast⟩ := h.configured hset
    rw [(h.lastSet ty ms hlast).1] at hflag
    cases ty with
    | perio => exact absurd rfl hflag
    | single => exact ⟨ms, hlast⟩

/-- A ticker that is set or started, is started, stopped or called back, and gets its whole period to
go. -/
theorem rewound (h : SlotInv log k) (hset : k.tickerState = .set ∨ k.tickerState = .started)
    {e : TickAct} (he : e = .started ∨ e = .stopped ∨ e = .called) {state : TickerState}
    (hstate : state = .set ∨ state = .started)
    (hrun : state = .started → TickAct.Running (log ++ [e]))
    (hcalled : e = .called → TickAct.Running log) :
    SlotInv (log ++ [e]) { k with tickerState := state, uTimeRemaining := k.uTimeout } := by
  have hused : k.tickerState ≠ .free := by rcases hset with hs | hs <;> simp [hs]
  have hused' : state ≠ .free := by rcases hstate with rfl | rfl <;> simp
  have hexists := h.exists_iff.mp hused
  have hcounts := h.counts
  rw [if_neg hused] at hcounts
  obtain ⟨ty, ms, hlast⟩ := h.configured hset
  -- such an event is none that the type, the period and the counts depend on
  have hother : e ≠ .reserved ∧ e ≠ .released ∧ ∀ ty ms, e ≠ .configured ty ms := by
    rcases he with rfl | rfl | rfl <;> simp
  refine ⟨?_, hrun, ?_, ?_, ?_, fun _ => Nat.le_refl _, ?_, h.called_snoc hcalled⟩
  · simpa [hexists, hother] using hused'
  · rintro (rfl | rfl) <;> simp at hstate
  · simpa [hother] using h.lastSet
  · exact fun _ => ⟨ty, ms, by simpa [hother] using hlast⟩
  · rw [if_neg hused', List.count_append, List.count_append, List.count_singleton,
      List.count_singleton, if_neg (by simpa using hother.1), if_neg (by simpa using hother.2.1)]
    exact hcounts

/-- **Everything that can be done to a ticker keeps the invariant**, with what is seen added to the
history. -/
theorem step (h : SlotInv log k) {act : Option TickAct} (hs : SlotStep k act k') :
    SlotInv (log ++ act.toList) k' := by
  cases hs with
  | refl =>
    rw [Option.toList_none, List.append_nil]
    exact h
  | store =>
    rw [Option.toList_none, List.append_nil]
    exact h.congr rfl rfl rfl (Nat.le_refl _)
  | count hdue =>
    obtain ⟨m, hm, heq⟩ := TickerElement.handled_of_not_isDue hdue
    rw [Option.toList_none, List.append_nil, heq]
    exact h.congr rfl rfl rfl hm
  | reserve hfree =>
    have hcounts := h.counts
    rw [if_pos hfree] at hcounts
    refine ⟨?_, ?_, ?_, ?_, ?_, ?_, ?_, h.called_snoc fun he => (by cases he)⟩
    · simp
    · simp
    · simpa using h.notRunning (.inl hfree)
    · simp
    · simp
    · simp
    · simpa [List.count_append] using hcounts
  | release hused =>
    have hcounts := h.counts
    rw [if_neg hused] at hcounts
    refine ⟨?_, ?_, ?_, ?_, ?_, ?_, ?_, h.called_snoc fun he => (by cases he)⟩
    · simp
    · simp
    · simp
    · simpa using h.lastSet
    · simp
    · simp
    · simpa [List.count_append] using hcounts
  | configure hused ty ms =>
    have hcounts := h.counts
    rw [if_neg hused] at hcounts
    refine ⟨?_, ?_, ?_, ?_, ?_, ?_, ?_, h.called_snoc fun he => (by cases he)⟩
    · simpa using h.exists_iff.mp hused
    · simp
    · simp
    · intro ty' ms' hlast
      obtain ⟨rfl, rfl⟩ : ty = ty' ∧ ms = ms' := by simpa using hlast
      exact ⟨rfl, rfl⟩
    · exact fun _ => ⟨ty, ms, by simp⟩
    · exact fun _ => Nat.le_refl _
    · simpa [List.count_append] using hcounts
  | start hset => exact h.rewound hset (.inl rfl) (.inr rfl) (fun _ => by simp) (by simp)
  | stop hstarted =>
    exact h.rewound (.inr hstarted) (.inr (.inl rfl)) (.inl rfl) (by simp) (by simp)
  | stopIdle hidle =>
    refine ⟨?_, ?_, ?_, ?_, ?_, h.remaining, ?_, h.called_snoc fun he => (by cases he)⟩
    · simpa using h.exists_iff
    · exact fun hstarted => absurd hstarted hidle
    · simp
    · simpa using h.lastSet
    · simpa using h.configured
    · simpa [List.count_append] using h.counts
  | call hdue =>
    have hstarted : k.tickerState = .started := hdue.1
    have hshot := h.oneShot_iff (.inr hstarted)
    rw [TickerElement.handled_of_isDue hdue]
    refine h.rewound (.inr hstarted) (.inr (.inr rfl)) ?_ ?_ fun _ => h.running hstarted
    · split
      · exact .inl rfl
      · exact .inr rfl
    · -- a ticker that is still started is periodic, so this was no one-shot callback
      intro hafter
      have hperiodic : ¬ TickAct.OneShot log := by
        rw [hshot]
        intro hflag
        simp [hflag] at hafter
      simpa [hperiodic] using h.running hstarted

/-- **Between two starts a one-shot is called back at most once.** -/
theorem oneShotOnce (h : SlotInv log k) {before mid after : List TickAct}
    (heq : log = before ++ (mid ++ after)) (hmid : .started ∉ mid) :
    TickAct.OneShotOnce before mid := by
  rintro a b c rfl ⟨hshot, -⟩
  -- at the second callback the ticker ran, so it was started after the first
  have hrun : TickAct.Running ((before ++ a) ++ .called :: b) :=
    h.called _ (c ++ after) (by simp [heq])
  obtain ⟨x, hx, rfl⟩ := hrun.mem_after (.inr (.inr ⟨rfl, hshot⟩)) (by simp)
  exact hmid (by simp [hx])

end SlotInv

/-! ## Runs -/

/-- The number of slots of the table in use. -/
def KalTickers.used (tickers : KalTickers) : ℕ :=
  ((Finset.range maxTicksNum).filter fun i => (tickers i).tickerState ≠ .free).card

/-- An act about tickers of the table only is done as often as it is done to them, one by one. -/
theorem countP_eq_sum {acts : List (ℕ × TickAct)} {act : TickAct}
    (h : ∀ i, (i, act) ∈ acts → i < maxTicksNum) :
    acts.countP (·.2 = act) = ∑ i ∈ Finset.range maxTicksNum, (about i acts).count act := by
  induction acts with
  | nil => simp
  | cons a acts ih =>
    obtain ⟨j, e⟩ := a
    have hrest := ih fun i hi => h i (List.mem_cons_of_mem _ hi)
    simp only [History.about_cons, List.count_append, Finset.sum_add_distrib, ← hrest]
    by_cases he : e = act
    · subst he
      have hj : j < maxTicksNum := h j List.mem_cons_self
      have hone : ∀ i, (if j = i then [e] else ([] : List TickAct)).count e = if j = i then 1 else 0 := by
        intro i
        split <;> simp
      simp only [hone, Finset.sum_ite_eq, Finset.mem_range, if_pos hj]
      rw [List.countP_cons_of_pos (by simp), Nat.add_comm]
    · have hnone : ∀ i, (if j = i then [e] else ([] : List TickAct)).count act = 0 := by
        intro i
        split <;> simp [he]
      simp only [hnone, Finset.sum_const_zero, Nat.zero_add]
      exact List.countP_cons_of_neg (by simp [he])

/-- Only tickers of the table are reserved and released. -/
theorem TickTable.acts_lt {s t : TickTable} {i : TableStep} {acts : List (ℕ × TickAct)}
    (h : TickTable.step s i = some (acts, t)) {j : ℕ} {act : TickAct} (hmem : (j, act) ∈ acts)
    (hact : act = .reserved ∨ act = .released) : j < maxTicksNum := by
  cases i with
  | pass uElapsedTime =>
    cases h
    obtain ⟨c, -, heq⟩ := List.mem_map.mp hmem
    cases heq
    simp at hact
  | call tid call =>
    simp only [TickTable.step] at h
    split at h
    · cases h
    · rename_i pc hpc
      obtain ⟨r, hsection, heq⟩ := Option.map_eq_some_iff.mp h
      cases heq
      unfold TickCall.acts at hmem
      split at hmem
      · -- `sk_tick_create` reserves a slot it found in the table
        simp only [tickFindFreeTableAndLock] at hmem
        cases hfind : freeTickerLoop s.tickers maxTicksNum 0 with
        | none => simp [hfind] at hmem
        | some i =>
          obtain ⟨rfl, -⟩ : j = i ∧ act = .reserved := by simpa [hfind] using hmem
          have := (freeTickerLoop_spec hfind).2
          omega
      · rename_i tickId
        split at hmem
        · rename_i hok
          obtain ⟨rfl, -⟩ : j = tickId ∧ act = .released := by simpa using hmem
          -- `sk_tick_destroy` refuses an id outside the table
          by_contra hge
          rw [skTickDestroy, if_neg hge] at hok
          cases hok
        · cases hmem
      all_goals first
        | (split at hmem
           · obtain ⟨-, rfl⟩ := Prod.mk.inj (List.mem_singleton.mp hmem)
             simp at hact
           · cases hmem)
        | cases hmem

/-- What a run keeps of every ticker. -/
def TickTable.Good (acts : List (ℕ × TickAct)) (s : TickTable) : Prop :=
  (∀ i, SlotInv (about i acts) (s.tickers i)) ∧
    ∀ i act, (i, act) ∈ acts → act = .reserved ∨ act = .released → i < maxTicksNum

/-- **Every run keeps the invariant** of every ticker. -/
theorem TickTable.run_good {n : ℕ} {steps : List TableStep} {logs : List (List (ℕ × TickAct))}
    {s : TickTable}
    (hrun : StepMachine.run TickTable.step (TickTable.init n) steps = some (logs, s)) :
    TickTable.Good logs.flatten s := by
  refine StepMachine.run_induction TickTable.step
    (fun _ logs s => TickTable.Good logs.flatten s) ?_ ?_ hrun
  · exact ⟨SlotInv.init, fun i act h => absurd h List.not_mem_nil⟩
  · rintro steps logs s i acts t - ⟨hslots, hids⟩ hs
    rw [List.flatten_append, List.flatten_singleton]
    refine ⟨?_, ?_⟩
    · intro j
      obtain ⟨act, habout, hslot⟩ := TickTable.step_slot hs j
      rw [History.about_append, habout]
      exact (hslots j).step hslot
    · intro j act hmem hact
      rcases List.mem_append.mp hmem with hmem | hmem
      · exact hids j act hmem hact
      · exact TickTable.acts_lt hs hmem hact

/-- **The table and its history, over every interleaving** of calls with any ids and of passes. In every
reachable state: the slots in use are those reserved by `sk_tick_create` less those given back by
`sk_tick_destroy`; every ticker that is set or started was given a type and a period since it was
reserved, has the latest ones, and has no more time to go than its period; and in a stretch of its
history without a start there is at most one callback to it while it is a one-shot. -/
theorem tickTable_history (n : ℕ) (steps : List TableStep) (logs : List (List (ℕ × TickAct)))
    (s : TickTable)
    (hrun : StepMachine.run TickTable.step (TickTable.init n) steps = some (logs, s)) :
    s.tickers.used + logs.flatten.countP (·.2 = .released) =
        logs.flatten.countP (·.2 = .reserved) ∧
      (∀ i, (s.tickers i).tickerState = .set ∨ (s.tickers i).tickerState = .started →
        (s.tickers i).uTimeRemaining ≤ (s.tickers i).uTimeout ∧
          ∃ ty, (s.tickers i).bOneShot = ty.toU8 ∧
            TickAct.LastSet ty (s.tickers i).uTimeout (about i logs.flatten)) ∧
      ∀ i before mid after, about i logs.flatten = before ++ (mid ++ after) → .started ∉ mid →
        TickAct.OneShotOnce before mid := by
  obtain ⟨hslots, hids⟩ := TickTable.run_good hrun
  refine ⟨?_, ?_, ?_⟩
  · rw [countP_eq_sum fun i h => hids i _ h (.inl rfl), countP_eq_sum fun i h => hids i _ h (.inr rfl),
      KalTickers.used, Finset.card_filter, ← Finset.sum_add_distrib]
    refine Finset.sum_congr rfl ?_
    intro i _
    rw [(hslots i).counts, Nat.add_comm]
    congr 1
    split <;> simp_all
  · intro i hset
    obtain ⟨ty, ms, hlast⟩ := (hslots i).configured hset
    obtain ⟨hty, rfl⟩ := (hslots i).lastSet ty ms hlast
    exact ⟨(hslots i).remaining hset, ty, hty, hlast⟩
  · intro i before mid after heq hmid
    exact (hslots i).oneShotOnce heq hmid

/-- A one-shot of 100 ms that is started and called back by a pass: one slot is in use, and the ticker is
set again. -/
theorem tickTable_history_oneShot :
    ∃ s, StepMachine.run TickTable.step (TickTable.init 1)
        [.call 0 (.create 7 9), .call 0 .store, .call 0 (.set 0 .single 100), .call 0 (.start 0),
          .pass 100] =
        some ([[(0, .reserved)], [], [(0, .configured .single 100)], [(0, .started)],
          [(0, .called)]], s) ∧
      s.tickers.used = 1 ∧ (s.tickers 0).uTimeRemaining ≤ (s.tickers 0).uTimeout := by
  refine ⟨_, rfl, ?_⟩
  obtain ⟨hused, hset, -⟩ := tickTable_history 1
    [.call 0 (.create 7 9), .call 0 .store, .call 0 (.set 0 .single 100), .call 0 (.start 0),
      .pass 100] _ _ rfl
  exact ⟨hused, (hset 0 (.inl rfl)).1⟩

end SmIpc.Os
