import SmIpc.Sm.TickSlots

/-! # Ticks waiting in the message queue

Before it sends, `sm_ticker` searches the message queue for the tick with the slot's current count; what
it sends carries the slot's `param2` instead, where that is not 0. So whether the search recognises a
tick that is still waiting depends on the registration.

* `Sys.waiting` lists the ticks of one registration that are queued; `waiting_acts` says what a step does
  to them.
* `Recognised` is the condition on the registration: what is sent carries the count at which the slot is
  due.
* `Backlog` is the invariant, and `Recognised.noBacklog` the result: at most one tick of such a registration
  waits. -/

namespace SmIpc.Sm

/-- The period has passed at a count, as `sm_ticker` tests it. -/
def DueAt (n100msec count : UInt32) : Prop := n100msec ≤ count * timeTick

instance (n100msec count : UInt32) : Decidable (DueAt n100msec count) :=
  inferInstanceAs (Decidable (_ ≤ _))

/-- The count at which a slot that counts from 1 is due. -/
structure FirstDue (n100msec count : UInt32) : Prop where
  /-- It is not 0. -/
  ne_zero : count ≠ 0
  /-- The slot is due. -/
  due : DueAt n100msec count
  /-- It was not due before. -/
  first : ∀ c, c ≠ 0 → c < count → ¬ DueAt n100msec c

/-- There is one such count. -/
theorem FirstDue.unique {n100msec c c' : UInt32} (h : FirstDue n100msec c)
    (h' : FirstDue n100msec c') : c = c' := by
  rcases Nat.lt_trichotomy c.toNat c'.toNat with hlt | heq | hgt
  · exact absurd h.due (h'.first c h.ne_zero (UInt32.lt_iff_toNat_lt.mpr hlt))
  · exact UInt32.toNat_inj.mp heq
  · exact absurd h'.due (h.first c' h'.ne_zero (UInt32.lt_iff_toNat_lt.mpr hgt))

/-- The search recognises the ticks of a registration with these parameters: with `param2` 0 they carry
the count, which is the same each time unless the period is 0; otherwise `param2` is that count. -/
def Recognised (n100msec param2 : UInt32) : Prop :=
  if param2 = 0 then n100msec ≠ 0 else ∀ count, FirstDue n100msec count → count = param2

/-- Only the period 0 has passed at count 0. -/
theorem dueAt_zero {n100msec : UInt32} : DueAt n100msec 0 ↔ n100msec = 0 := by
  rw [DueAt, UInt32.zero_mul, UInt32.le_iff_toNat_le, UInt32.toNat_zero, Nat.le_zero,
    ← UInt32.toNat_inj, UInt32.toNat_zero]

/-- The period 0 has passed at every count. -/
theorem dueAt_of_zero (count : UInt32) : DueAt 0 count := by
  rw [DueAt, UInt32.le_iff_toNat_le]
  exact Nat.zero_le _

/-- A count that is not 0 is not below 1. -/
theorem not_lt_one {c : UInt32} (hc : c ≠ 0) : ¬ c < 1 := by
  intro hlt
  have h₁ : c.toNat < 1 := UInt32.lt_iff_toNat_lt.mp hlt
  exact hc (UInt32.toNat_inj.mp (by rw [UInt32.toNat_zero]; omega))

/-- A count below the next one is below this one or is it, also where the next one wraps. -/
theorem lt_or_eq_of_lt_add_one {c count : UInt32} (h : c < count + 1) : c < count ∨ c = count := by
  have hadd : (count + 1).toNat = (count.toNat + 1) % 2 ^ 32 := UInt32.toNat_add count 1
  have hlt : c.toNat < (count.toNat + 1) % 2 ^ 32 := hadd ▸ UInt32.lt_iff_toNat_lt.mp h
  have hmod := Nat.mod_le (count.toNat + 1) (2 ^ 32)
  rcases Nat.lt_or_ge c.toNat count.toNat with hlt' | hge
  · exact .inl (UInt32.lt_iff_toNat_lt.mpr hlt')
  · exact .inr (UInt32.toNat_inj.mp (by omega))

/-! ## What a step does to the waiting ticks -/

namespace Sys

variable {s t : Sys} {i : SysStep} {o : SysEvent} {r : ℕ}

/-- The queued ticks that `sm_ticker` posted for the registration made at time `r`. -/
def waiting (s : Sys) (r : ℕ) : List (Message × Post) :=
  s.entries.filter fun e => e.1.message = smmTick ∧ e.2.origin = .tick r

theorem mem_waiting {e : Message × Post} :
    e ∈ s.waiting r ↔ e ∈ s.entries ∧ e.1.message = smmTick ∧ e.2.origin = .tick r := by
  rw [waiting, List.mem_filter, decide_eq_true_eq]

/-- The queue is what the waiting ticks depend on. -/
theorem waiting_of_entries {t : Sys} (h : t.entries = s.entries) : t.waiting r = s.waiting r := by
  rw [waiting, waiting, h]

/-- A push by anyone else adds no tick of the registration. -/
theorem waiting_post_of_ne (hwf : s.Wf) (m : Message) (origin : Origin) (hne : origin ≠ .tick r) :
    (s.post m origin).waiting r = s.waiting r := by
  rcases (post_cases hwf.queue m origin).2 with ⟨-, -, hentries⟩ | ⟨-, hentries⟩
  · rw [waiting, hentries, List.filter_append]
    simp [waiting, hne]
  · exact waiting_of_entries hentries

/-- A push of `sm_ticker` for the registration adds a tick if it is accepted. -/
theorem waiting_post_tick (hwf : s.Wf) {m : Message} (hm : m.message = smmTick) :
    (s.post m (.tick r)).waiting r = s.waiting r ∨
      m.hsm ≠ skInvalidHsm ∧
        (s.post m (.tick r)).waiting r = s.waiting r ++ [(m, ⟨s.now, .tick r⟩)] := by
  rcases (post_cases hwf.queue m (.tick r)).2 with ⟨hne, -, hentries⟩ | ⟨-, hentries⟩
  · right
    refine ⟨hne, ?_⟩
    rw [waiting, hentries, List.filter_append]
    simp [waiting, hm]
  · exact .inl (waiting_of_entries hentries)

/-- Erasing the messages of a window leaves some of the waiting ticks. -/
theorem waiting_erase (hwf : s.Wf) {t : Sys} {hsm : Hsm} (hq : t.q = eraseMessage s.q hsm)
    (hposts : t.posts = s.posts) : (t.waiting r).Sublist (s.waiting r) := by
  have hentries : t.entries = s.entries.map fun e =>
      (if e.1.hsm = hsm then blankAll e.1 else e.1, e.2) := by
    rw [entries, hq, hposts]
    exact (erase_entries hwf.queue hsm).2
  rw [waiting, waiting, hentries]
  induction s.entries with
  | nil => exact List.Sublist.refl _
  | cons e l ih =>
    simp only [List.map_cons, List.filter_cons]
    by_cases hhit : e.1.hsm = hsm
    · -- a blank is no tick
      have hblank : ¬ (blankAll e.1).message = smmTick := by simp [blankAll, smmInvalidmsg, smmTick]
      rw [if_neg (by simp [hhit, hblank])]
      split
      · exact ih.cons e
      · exact ih
    · simp only [hhit, if_false]
      split
      · exact ih.cons_cons e
      · exact ih

/-- **What one step does to the waiting ticks of a registration**: some may go, or `sm_ticker` sends one
more. -/
theorem waiting_acts (hwf : s.Wf) (ha : Acts s i o t) (r : ℕ) :
    (t.waiting r).Sublist (s.waiting r) ∨
      ∃ k, i = .tickSend ∧ s.ticker = .sending k ∧ s.registered k = r ∧ (s.ticks k).hsm ≠ skInvalidHsm ∧
        t.waiting r = s.waiting r ++ [((s.ticks k).message k, ⟨s.now, .tick r⟩)] := by
  have hsame : ∀ {l : List (Message × Post)}, l = s.waiting r → l.Sublist (s.waiting r) :=
    fun h => h ▸ List.Sublist.refl _
  cases ha with
  | popEmpty hpop =>
    obtain ⟨-, hc⟩ := popEmpty_contents hwf.queue hpop
    refine .inl (hsame (waiting_of_entries ?_))
    rw [entries, entries, ← hc]
    rfl
  | pop _ _ hpop =>
    obtain ⟨-, hentries⟩ := pop_entries hwf.queue hpop
    refine .inl (List.Sublist.filter _ ?_)
    rw [hentries]
    exact List.sublist_cons_self _ _
  | erase => exact .inl (waiting_erase hwf rfl rfl)
  | createPush => exact .inl (hsame (waiting_post_of_ne hwf _ (.creation _) (by simp)))
  | push => exact .inl (hsame (waiting_post_of_ne hwf _ .sender (by simp)))
  | send => exact .inl (hsame (waiting_post_of_ne hwf _ .sender (by simp)))
  | @tickSend k hpc _ =>
    by_cases hr : s.registered k = r
    · subst hr
      have hm : ((s.ticks k).message k).message = smmTick := rfl
      rcases waiting_post_tick hwf hm with heq | ⟨hne, hnew⟩
      · exact .inl (hsame heq)
      · exact .inr ⟨k, rfl, hpc, rfl, hne, hnew⟩
    · exact .inl (hsame (waiting_post_of_ne hwf _ (.tick _) (by simpa using hr)))
  | _ => exact .inl (List.Sublist.refl _)

/-! ## When things were registered -/

/-- Slots in use were registered in the past, and so were the slots the queued ticks are from. -/
structure TickTimes (s : Sys) : Prop where
  /-- The slots. -/
  slots : ∀ k, (s.ticks k).hsm ≠ skInvalidHsm → s.registered k < s.now
  /-- The queued ticks. -/
  ticks : ∀ r, s.waiting r ≠ [] → r < s.now

theorem TickTimes.acts (h : s.TickTimes) (hwf : s.Wf) (ha : Acts s i o t) : t.TickTimes := by
  have hnow : t.now = s.now + 1 := by cases ha <;> rfl
  constructor
  · intro k hk
    rw [hnow]
    refine Nat.lt_succ_of_le ?_
    cases ha with
    | @setXtick _ _ _ _ _ j =>
      by_cases hkj : k = j
      · subst hkj
        exact Nat.le_of_eq (Function.update_self ..)
      · simp only [tick, Function.update_of_ne hkj] at hk ⊢
        exact Nat.le_of_lt (h.slots k hk)
    | destroyTick =>
      refine Nat.le_of_lt (h.slots k fun hzero => hk ?_)
      exact hsm_smDestroyTick_of_free hzero _
    | tickPass _ hlook =>
      exact Nat.le_of_lt (h.slots k (hsm_update (hsm_tickLook hlook) k ▸ hk))
    | @tickSend j =>
      exact Nat.le_of_lt (h.slots k (hsm_update (s.ticks j).hsm_restarted k ▸ hk))
    | _ => exact Nat.le_of_lt (h.slots k hk)
  · intro r hr
    rw [hnow]
    rcases waiting_acts hwf ha r with hsub | ⟨k, -, -, rfl, hne, -⟩
    · refine Nat.lt_succ_of_lt (h.ticks r fun hnil => hr ?_)
      rwa [hnil, List.sublist_nil] at hsub
    · exact Nat.lt_succ_of_lt (h.slots k hne)

end Sys

/-! ## The invariant -/

/-- What holds of the registration of slot `j` at time `r`, for a window, with these parameters. -/
structure Backlog (j r : ℕ) (hsm : Hsm) (n100msec param2 : UInt32) (s : Sys) : Prop where
  /-- The registration is over. -/
  past : r < s.now
  /-- No other slot in use was registered then. -/
  others : ∀ k, k ≠ j → s.registered k = r → (s.ticks k).hsm = skInvalidHsm
  /-- The slot has the parameters, for as long as it is not registered anew. -/
  slot : s.registered j = r → (s.ticks j).n100msec = n100msec ∧ (s.ticks j).param2 = param2 ∧
    ((s.ticks j).hsm = skInvalidHsm ∨ (s.ticks j).hsm = hsm)
  /-- The slot has not been due since it counts from 1. -/
  climb : s.registered j = r → ∀ c, c ≠ 0 → c < (s.ticks j).count → ¬ DueAt n100msec c
  /-- A tick that waits is for the slot, and carries the count at which it is due. -/
  msgs : ∀ e ∈ s.waiting r, e.1 = ⟨hsm, smmTick, UInt32.ofNat (j + 1), e.1.param2⟩ ∧
    ∀ c, FirstDue n100msec c → e.1.param2 = c
  /-- A slot of period 0 that has sent has counted. -/
  counted : s.waiting r ≠ [] → s.registered j = r → n100msec = 0 → (s.ticks j).count ≠ 0
  /-- While the slot is sent for, it is due, and none of its ticks waits. -/
  sending : s.ticker = .sending j → s.registered j = r →
    DueAt n100msec (s.ticks j).count ∧ s.waiting r = []
  /-- At most one tick waits. -/
  le_one : (s.waiting r).length ≤ 1

namespace Backlog

variable {j r : ℕ} {hsm : Hsm} {n100msec param2 : UInt32} {s t : Sys} {i : SysStep} {o : SysEvent}

/-- A step that leaves the slot alone, or frees it, adds no tick, and does not turn to sending for the
slot. -/
theorem of_sublist (h : Backlog j r hsm n100msec param2 s)
    (hsub : (t.waiting r).Sublist (s.waiting r)) (hnow : s.now ≤ t.now)
    (hothers : ∀ k, k ≠ j → t.registered k = r → (t.ticks k).hsm = skInvalidHsm)
    (hslot : t.registered j = r → s.registered j = r ∧
      (t.ticks j = s.ticks j ∨ t.ticks j = { s.ticks j with hsm := 0 }))
    (hpc : t.ticker = .sending j → s.ticker = .sending j) :
    Backlog j r hsm n100msec param2 t := by
  have hnil : s.waiting r = [] → t.waiting r = [] := fun hnil => by rwa [hnil, List.sublist_nil] at hsub
  have hcount : t.registered j = r → (t.ticks j).count = (s.ticks j).count := fun hr => by
    rcases (hslot hr).2 with heq | heq <;> rw [heq]
  constructor
  · exact Nat.lt_of_lt_of_le h.past hnow
  · exact hothers
  · intro hr
    obtain ⟨hr', heq⟩ := hslot hr
    obtain ⟨hn, hp, hhsm⟩ := h.slot hr'
    rcases heq with heq | heq
    · rw [heq]
      exact ⟨hn, hp, hhsm⟩
    · rw [heq]
      exact ⟨hn, hp, .inl rfl⟩
  · intro hr
    rw [hcount hr]
    exact h.climb (hslot hr).1
  · exact fun e he => h.msgs e (hsub.subset he)
  · intro hne hr
    rw [hcount hr]
    exact h.counted (fun hs => hne (hnil hs)) (hslot hr).1
  · intro hsend hr
    obtain ⟨hdue, hs⟩ := h.sending (hpc hsend) (hslot hr).1
    rw [hcount hr]
    exact ⟨hdue, hnil hs⟩
  · exact Nat.le_trans hsub.length_le h.le_one

/-- The slot is due at the count it would be found with, where a tick of it waits. -/
theorem firstDue (h : Backlog j r hsm n100msec param2 s) (hr : s.registered j = r)
    (hdue : DueAt n100msec (s.ticks j).count) (hzero : n100msec = 0 → (s.ticks j).count ≠ 0) :
    FirstDue n100msec (s.ticks j).count where
  ne_zero := by
    intro heq
    rw [heq] at hdue
    exact hzero (dueAt_zero.mp hdue) heq
  due := hdue
  first := h.climb hr

/-- **Where the search finds nothing, no tick of the registration waits.** -/
theorem waiting_eq_nil (h : Backlog j r hsm n100msec param2 s) (hwf : s.Wf)
    (hr : s.registered j = r)
    (hlook : tickLook s.q (s.ticks j) j = some none) : s.waiting r = [] := by
  obtain ⟨hne, hdue, hsearch⟩ := tickLook_due hlook
  obtain ⟨hn, -, hhsm⟩ := h.slot hr
  have hhsm : (s.ticks j).hsm = hsm := hhsm.resolve_left hne
  have hdue : DueAt n100msec (s.ticks j).count := hn ▸ hdue
  by_contra hwait
  obtain ⟨e, he⟩ := List.exists_mem_of_ne_nil _ hwait
  obtain ⟨hm, hparam⟩ := h.msgs e he
  -- the waiting tick carries the count the search looks for
  have hfirst := h.firstDue hr hdue (h.counted hwait hr)
  rw [hparam _ hfirst] at hm
  have hmem : e.1 ∈ s.q.contents := (List.of_mem_zip (Sys.mem_waiting.mp he).1).1
  rw [Msgq.isMessageParam_eq hwf.valid, hhsm, ← hm, if_pos hmem] at hsearch
  exact absurd (Option.some.inj hsearch) (by decide)

/-- What is sent for the slot carries the count at which it is due. -/
theorem message_eq (h : Backlog j r hsm n100msec param2 s) (hrec : Recognised n100msec param2)
    (hr : s.registered j = r) (hdue : DueAt n100msec (s.ticks j).count)
    (hne : (s.ticks j).hsm ≠ skInvalidHsm) :
    (s.ticks j).message j =
        ⟨hsm, smmTick, UInt32.ofNat (j + 1), ((s.ticks j).message j).param2⟩ ∧
      ∀ c, FirstDue n100msec c → ((s.ticks j).message j).param2 = c := by
  obtain ⟨hn, hp, hhsm⟩ := h.slot hr
  refine ⟨by rw [TickMsg.message, hhsm.resolve_left hne], ?_⟩
  intro c hc
  rw [Recognised] at hrec
  rw [TickMsg.message, hp]
  split at hrec
  · rename_i hzero
    -- the slot's period is not 0, so it is due only after it has counted
    have hfirst := h.firstDue hr hdue fun heq => absurd heq hrec
    rw [if_pos hzero]
    exact hfirst.unique hc
  · rename_i hzero
    rw [if_neg hzero]
    exact (hrec c hc).symm

/-- `sm_ticker` counts the slot, or finds its tick in the queue and restarts it. -/
theorem pass (h : Backlog j r hsm n100msec param2 s) :
    Backlog j r hsm n100msec param2
      (Sys.tick { s with
        ticks := Function.update s.ticks j
          (if (s.ticks j).IsDue then (s.ticks j).restarted else (s.ticks j).counted)
        ticker := .looking (j + 1) }) := by
  constructor
  · exact Nat.lt_succ_of_lt h.past
  · intro k hk hr
    simp only [Sys.tick, Function.update_of_ne hk]
    exact h.others k hk hr
  · intro hr
    simp only [Sys.tick, Function.update_self]
    split
    · exact h.slot hr
    · exact h.slot hr
  · intro hr c hc
    simp only [Sys.tick, Function.update_self]
    split
    · exact fun hlt => absurd hlt (not_lt_one hc)
    · rename_i hdue
      -- the slot has been looked at with this count now, and was not due
      have hnot : ¬ DueAt n100msec (s.ticks j).count := by
        rw [← (h.slot hr).1]
        exact hdue
      intro hlt
      rcases lt_or_eq_of_lt_add_one hlt with hlt | rfl
      · exact h.climb hr c hc hlt
      · exact hnot
  · exact h.msgs
  · intro _ hr hzero
    simp only [Sys.tick, Function.update_self]
    split
    · show (1 : UInt32) ≠ 0
      decide
    · rename_i hdue
      have hdue' : DueAt (s.ticks j).n100msec (s.ticks j).count := by
        rw [(h.slot hr).1, hzero]
        exact dueAt_of_zero _
      exact absurd hdue' hdue
  · intro hsend
    cases hsend
  · exact h.le_one

/-- `sm_ticker` has sent for the slot and restarts it: the new tick is the only one that waits, if it was
queued at all. -/
theorem restart (h : Backlog j r hsm n100msec param2 s) (hrec : Recognised n100msec param2)
    (hpc : s.ticker = .sending j) (hpast : r < t.now) (hreg : t.registered = s.registered)
    (hticks : t.ticks = Function.update s.ticks j (s.ticks j).restarted)
    (hpc' : t.ticker ≠ .sending j)
    (hwait : (t.waiting r).Sublist (s.waiting r) ∨ s.registered j = r ∧
      (s.ticks j).hsm ≠ skInvalidHsm ∧ t.waiting r = s.waiting r ++
        [((s.ticks j).message j, ⟨s.now, .tick r⟩)]) :
    Backlog j r hsm n100msec param2 t := by
  have hself : t.ticks j = (s.ticks j).restarted := by rw [hticks, Function.update_self]
  constructor
  · exact hpast
  · intro k hk hr
    rw [hticks, Function.update_of_ne hk]
    exact h.others k hk (hreg ▸ hr)
  · intro hr
    rw [hself]
    exact h.slot (hreg ▸ hr)
  · intro hr c hc
    rw [hself]
    exact fun hlt => absurd hlt (not_lt_one hc)
  · rcases hwait with hsub | ⟨hr, hne, hnew⟩
    · exact fun e he => h.msgs e (hsub.subset he)
    · obtain ⟨hdue, hnil⟩ := h.sending hpc hr
      intro e he
      rw [hnew, hnil, List.nil_append, List.mem_singleton] at he
      subst he
      exact h.message_eq hrec hr hdue hne
  · intro _ _ _
    rw [hself]
    show (1 : UInt32) ≠ 0
    decide
  · exact fun hsend => absurd hsend hpc'
  · rcases hwait with hsub | ⟨hr, -, hnew⟩
    · exact Nat.le_trans hsub.length_le h.le_one
    · rw [hnew, (h.sending hpc hr).2]
      exact Nat.le_refl 1

/-- **One step keeps the invariant**, for a registration whose ticks are recognised. -/
theorem acts (h : Backlog j r hsm n100msec param2 s) (hwf : s.Wf)
    (hrec : Recognised n100msec param2) (ha : Sys.Acts s i o t) :
    Backlog j r hsm n100msec param2 t := by
  have hwait := Sys.waiting_acts hwf ha r
  have hsub : i ≠ .tickSend → (t.waiting r).Sublist (s.waiting r) := fun hi =>
    hwait.resolve_right fun ⟨_, heq, _⟩ => hi heq
  have hnow : s.now ≤ s.now + 1 := Nat.le_succ _
  cases ha with
  | @setXtick tid hsm' n' p' f' k hcall hsem hslot =>
    have hnew : r ≠ s.now := Nat.ne_of_lt h.past
    refine h.of_sublist (hsub (by simp)) hnow ?_ ?_ id
    · intro k' hk' hr'
      by_cases hkk : k' = k
      · subst hkk
        exact absurd (hr'.symm.trans (Function.update_self ..)) hnew
      · simp only [Sys.tick, Function.update_of_ne hkk] at hr' ⊢
        exact h.others k' hk' hr'
    · intro hr'
      by_cases hjk : j = k
      · subst hjk
        exact absurd (hr'.symm.trans (Function.update_self ..)) hnew
      · simp only [Sys.tick, Function.update_of_ne hjk] at hr' ⊢
        exact ⟨hr', .inl trivial⟩
  | @destroyTick tid htick hcall hsem =>
    refine h.of_sublist (hsub (by simp)) hnow ?_ ?_ id
    · intro k hk hr'
      exact hsm_smDestroyTick_of_free (h.others k hk hr') htick
    · exact fun hr' => ⟨hr', smDestroyTick_apply _ _ _⟩
  | tickStart hpc hsem =>
    exact h.of_sublist (hsub (by simp)) hnow h.others (fun hr' => ⟨hr', .inl rfl⟩)
      (fun hsend => by cases hsend)
  | tickEnd hpc =>
    exact h.of_sublist (hsub (by simp)) hnow h.others (fun hr' => ⟨hr', .inl rfl⟩)
      (fun hsend => by cases hsend)
  | @tickPass k slot hpc hlook =>
    have hothers : ∀ k', k' ≠ j → s.registered k' = r →
        (Function.update s.ticks k slot k').hsm = skInvalidHsm := fun k' hk' hr' => by
      rw [hsm_update (hsm_tickLook hlook)]
      exact h.others k' hk' hr'
    by_cases hkj : k = j
    · subst hkj
      by_cases hfree : (s.ticks k).hsm = skInvalidHsm
      · obtain rfl := tickLook_free hfree hlook
        exact h.of_sublist (hsub (by simp)) hnow hothers
          (fun hr' => ⟨hr', .inl (Function.update_self ..)⟩) (fun hsend => by cases hsend)
      · obtain rfl := tickLook_pass hfree hlook
        exact h.pass
    · refine h.of_sublist (hsub (by simp)) hnow hothers (fun hr' => ⟨hr', .inl ?_⟩)
        (fun hsend => by cases hsend)
      exact Function.update_of_ne (Ne.symm hkj) _ _
  | @tickDue k hpc hlook =>
    by_cases hkj : k = j
    · subst hkj
      have hlookdue := (tickLook_due hlook).2.1
      exact
        { past := Nat.lt_succ_of_lt h.past
          others := h.others
          slot := h.slot
          climb := h.climb
          msgs := h.msgs
          counted := h.counted
          sending := fun _ hr => ⟨(h.slot hr).1 ▸ hlookdue, h.waiting_eq_nil hwf hr hlook⟩
          le_one := h.le_one }
    · refine h.of_sublist (hsub (by simp)) hnow h.others (fun hr' => ⟨hr', .inl rfl⟩) ?_
      exact fun hsend => absurd (TickerPc.sending.inj hsend) hkj
  | @tickSend k hpc hfree =>
    have hothers : ∀ k', k' ≠ j → s.registered k' = r →
        (Function.update s.ticks k (s.ticks k).restarted k').hsm = skInvalidHsm :=
      fun k' hk' hr' => by
        rw [hsm_update (s.ticks k).hsm_restarted]
        exact h.others k' hk' hr'
    by_cases hkj : k = j
    · subst hkj
      refine h.restart hrec hpc (Nat.lt_succ_of_lt h.past) rfl rfl (by simp [Sys.tick]) ?_
      rcases hwait with hsub | ⟨k', -, hpc', hr, hne, hnew⟩
      · exact .inl hsub
      · obtain rfl : k = k' := TickerPc.sending.inj (hpc.symm.trans hpc')
        exact .inr ⟨hr, hne, hnew⟩
    · have hsub' := hwait.resolve_right fun ⟨k', _, hpc', hr, hne, _⟩ => by
        -- a slot in use that was registered then would be slot `j`
        obtain rfl : k = k' := TickerPc.sending.inj (hpc.symm.trans hpc')
        exact hne (h.others k hkj hr)
      refine h.of_sublist hsub' hnow hothers (fun hr' => ⟨hr', .inl ?_⟩) (fun hsend => by cases hsend)
      exact Function.update_of_ne (Ne.symm hkj) _ _
  | _ => exact h.of_sublist (hsub (by simp)) hnow h.others (fun hr' => ⟨hr', .inl rfl⟩) id

end Backlog

/-! ## The result -/

/-- At the registration nothing waits. -/
theorem Backlog.register {s : Sys} (hexcl : s.TickExcl) (htimes : s.TickTimes) {tid j : ℕ} {hsm : Hsm}
    {n100msec param2 : UInt32} {sysflag : Int32} {o : SysEvent} {t : Sys}
    (hslot : freeTick s.ticks = some j)
    (hs : Sys.step s (.setXtick tid hsm n100msec param2 sysflag) = some (o, t)) :
    Backlog j s.now hsm n100msec param2 t := by
  obtain ⟨-, -, hpc, rfl⟩ := hexcl.register hslot hs
  have hnil : s.waiting s.now = [] := by
    by_contra hne
    exact Nat.lt_irrefl _ (htimes.ticks s.now hne)
  constructor
  · exact Nat.lt_succ_self _
  · intro k hk hr
    simp only [Sys.tick, Function.update_of_ne hk] at hr ⊢
    by_contra hne
    have := htimes.slots k hne
    omega
  · intro _
    simp only [Sys.tick, Function.update_self]
    exact ⟨trivial, trivial, .inr trivial⟩
  · intro _ c _ hlt
    simp only [Sys.tick, Function.update_self] at hlt
    exact absurd (UInt32.lt_iff_toNat_lt.mp hlt) (Nat.not_lt_zero _)
  · intro e he
    have he' : e ∈ s.waiting s.now := he
    rw [hnil] at he'
    cases he'
  · exact fun hne => absurd hnil hne
  · intro hsend
    have hpc' : TickerPc.delay = .sending j := hpc.symm.trans hsend
    cases hpc'
  · exact Nat.le_trans (Nat.le_of_eq (congrArg List.length hnil)) (Nat.zero_le 1)

/-- In no run, whatever else happens, do two ticks wait that `sm_ticker` has posted for one registration with
these parameters. -/
def NoBacklog (n100msec param2 : UInt32) : Prop :=
  ∀ (mem : ℤ → Message) (before after : List SysStep) (tid j : ℕ) (hsm : Hsm) (sysflag : Int32)
    (es es' : List SysEvent) (o : SysEvent) (s t u : Sys),
    StepMachine.run Sys.step (Sys.init mem) before = some (es, s) → freeTick s.ticks = some j →
    Sys.step s (.setXtick tid hsm n100msec param2 sysflag) = some (o, t) →
    StepMachine.run Sys.step t after = some (es', u) → (u.waiting s.now).length ≤ 1

/-- **A tick that is recognised has no backlog**, whatever the other threads, slots and windows do. -/
theorem Recognised.noBacklog {n100msec param2 : UInt32} (hrec : Recognised n100msec param2) :
    NoBacklog n100msec param2 := by
  intro mem before after tid j hsm sysflag es es' o s t u hbefore hslot hset hafter
  have hwf := Sys.Wf.run hbefore
  have htimes : s.TickTimes := by
    refine (StepMachine.run_induction Sys.step (fun _ _ s => s.Wf ∧ s.TickTimes) ?_ ?_ hbefore).2
    · refine ⟨Sys.Wf.init mem, ⟨fun k hk => absurd rfl hk, fun r hr => absurd ?_ hr⟩⟩
      simp [Sys.waiting, Sys.entries, Sys.init]
    · rintro _ _ s i o t - ⟨hwf, h⟩ hs
      have ha := (Sys.step_cases hs).2
      exact ⟨hwf.acts ha, h.acts hwf ha⟩
  have hinv : u.Wf ∧ Backlog j s.now hsm n100msec param2 u := by
    refine StepMachine.run_induction Sys.step
      (fun _ _ u => u.Wf ∧ Backlog j s.now hsm n100msec param2 u) ?_ ?_ hafter
    · exact ⟨hwf.acts (Sys.step_cases hset).2,
        .register (Sys.TickExcl.run hbefore) htimes hslot hset⟩
    · rintro _ _ u i o u' - ⟨hwf, h⟩ hs
      have ha := (Sys.step_cases hs).2
      exact ⟨hwf.acts ha, h.acts hwf hrec ha⟩
  exact hinv.2.le_one

end SmIpc.Sm
