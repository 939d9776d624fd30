import SmIpc.Sm.SystemSteps

/-! # The `SMM_CREATE` of a window

`sm_create_smallwin` links the window, pushes `SMM_CREATE` and returns the handle whatever the push
returned; closing a window frees its node before it erases its messages.

* `Sys.CreateClear` is the condition: a window is linked at an address no queued message and no message
  in hand names; nothing is pushed to it past `sem_system` before its `SMM_CREATE`; and that is pushed
  when the ring is not full and no thread is about to erase the messages of an earlier window there.
* `CreateStage` — where the `SMM_CREATE` of a window in the list stands, from the link on: nothing for
  the window yet, first in the queue among the messages for it, in the scheduler's hand, or delivered.
* `creations_kept` — in every run that meets the condition, the `SMM_CREATE` is queued when the call
  returns, stays until it is popped or the window is destroyed, and is the first queued message
  delivered to the window. Without it, an erase can wipe it out (`create_erased`). -/

namespace SmIpc.Sm

open Sys (createMsg)

/-- The call stack entry is about to erase the messages for the address. -/
def Frame.Erases (hsm : Hsm) : Frame → Prop
  | .running m _ .destroyed => m.hsm = hsm
  | _ => False

/-- The window was destroyed. -/
def Gone (es : List SysEvent) (w : Win) : Prop :=
  ∃ hsm born, SysEvent.destroyed hsm born (some w) ∈ es

/-- The scheduler popped the window's `SMM_CREATE`. -/
def CreatePopped (es : List SysEvent) (w : Win) : Prop :=
  ∃ p : Post, p.origin = .creation w.born ∧ SysEvent.popped (createMsg w) p ∈ es

/-- The window's `SMM_CREATE` was handed to it. -/
def CreateDelivered (es : List SysEvent) (w : Win) : Prop :=
  ∃ (p : Post) (born : ℕ), p.origin = .creation w.born ∧
    SysEvent.entered (createMsg w) (some p) born (some w) ∈ es

/-- **What should be seen**: the first queued message handed to a window is its `SMM_CREATE`. -/
def FirstIsCreate (es : List SysEvent) : Prop :=
  ∀ before m p born w after, es = before ++ .entered m (some p) born (some w) :: after →
    (m = createMsg w ∧ p.origin = .creation w.born) ∨ CreateDelivered before w

/-- An event at the end of a longer log was there before or is the new one. -/
theorem split_snoc {es before after : List SysEvent} {o e : SysEvent}
    (h : es ++ [o] = before ++ e :: after) :
    (es = before ∧ e = o ∧ after = []) ∨ ∃ after', after = after' ++ [o] ∧ es = before ++ e :: after' := by
  rcases List.eq_nil_or_concat after with rfl | ⟨after', x, rfl⟩
  · obtain ⟨h₁, h₂⟩ := List.append_inj' h rfl
    exact Or.inl ⟨h₁, (List.singleton_inj.mp h₂).symm, rfl⟩
  · rw [List.concat_eq_append, ← List.cons_append, ← List.append_assoc] at h
    obtain ⟨h₁, h₂⟩ := List.append_inj' h rfl
    obtain rfl := List.singleton_inj.mp h₂
    exact Or.inr ⟨after', List.concat_eq_append, h₁⟩

namespace Sys

/-- **The condition on a step.** -/
def CreateClear (s : Sys) : SysStep → Prop
  | .createLink _ (some a) _ =>
      (∀ e ∈ s.entries, e.1.hsm ≠ a) ∧ ∀ h, s.hand = some h → h.m.hsm ≠ a
  | .push _ m => ∀ tid w, s.creating = some (tid, w) → m.hsm ≠ w.hsm
  | .createPush _ => ∀ tid w, s.creating = some (tid, w) →
      getNmessage s.q < smallwinNmsgq ∧ ∀ tid', ∀ f ∈ s.threads tid', ¬ f.Erases w.hsm
  | _ => True

/-- `sm_create_smallwin` is not at work on the window. -/
def Complete (s : Sys) (w : Win) : Prop := ∀ tid, s.creating ≠ some (tid, w)

/-- The window's `SMM_CREATE` is queued. -/
def CreateQueued (s : Sys) (w : Win) : Prop :=
  ∃ p : Post, p.origin = .creation w.born ∧ (createMsg w, p) ∈ s.entries

variable {s t : Sys} {i : SysStep} {o : SysEvent} {es : List SysEvent} {w : Win}

/-- What the threads and `sm_create_smallwin` keep. -/
structure Quiet (s : Sys) : Prop where
  /-- The new window is in the list. -/
  creating_mem : ∀ tid w, s.creating = some (tid, w) → w ∈ s.windows
  /-- No thread is about to erase the messages of a complete window. -/
  erases : ∀ w ∈ s.windows, s.Complete w → ∀ tid, ∀ f ∈ s.threads tid, ¬ f.Erases w.hsm

theorem not_erases_afterProc (m : Message) (born : ℕ) (hsm : Hsm) :
    ∀ f ∈ afterProc m born, ¬ f.Erases hsm := by
  intro f hf
  rw [afterProc] at hf
  split at hf
  · rw [List.mem_singleton.mp hf]
    exact id
  · simp at hf

theorem not_erases_afterRead (m : Message) (born : ℕ) (win : Option Win) (hsm : Hsm) :
    ∀ f ∈ afterRead m born win, ¬ f.Erases hsm := by
  intro f hf
  cases win with
  | none => simp [afterRead] at hf
  | some w =>
    simp only [afterRead] at hf
    split at hf
    · rw [List.mem_singleton.mp hf]
      exact id
    · exact not_erases_afterProc m born hsm f hf

/-- A step that replaces one stack by one with nothing new to erase. -/
theorem Quiet.setStack (h : s.Quiet) (tid : ℕ) (stack : List Frame)
    (hstack : ∀ hsm, ∀ f ∈ stack, f.Erases hsm → f ∈ s.threads tid) : (s.setStack tid stack).Quiet := by
  refine ⟨h.creating_mem, ?_⟩
  intro w hw hc
  exact forall_setStack (P := fun f => ¬ f.Erases w.hsm) (h.erases w hw hc) fun f hf he =>
    h.erases w hw hc tid f (hstack w.hsm f hf he) he

/-- **One step that meets the condition keeps `Quiet`.** -/
theorem Quiet.acts (h : s.Quiet) (hcond : s.CreateClear i) (ha : Acts s i o t) : t.Quiet := by
  cases ha with
  | @enterHand m p born hhand =>
    refine ⟨h.creating_mem, ?_⟩
    intro w hw hc
    exact forall_setStack (P := fun f => ¬ f.Erases w.hsm) (h.erases w hw hc)
      (not_erases_afterRead m born _ w.hsm)
  | @express tid m w hcall hat =>
    have hq := h.setStack tid (.running m w.born .tested :: s.threads tid)
      fun hsm f hf he => by
        rcases List.mem_cons.mp hf with rfl | hf
        · exact he.elim
        · exact hf
    exact ⟨hq.creating_mem, hq.erases⟩
  | @enter tid m born rest hstack =>
    have hq := h.setStack tid (afterRead m born (s.windowAt m.hsm) ++ rest)
      fun hsm f hf he => by
        rcases List.mem_append.mp hf with hf | hf
        · exact absurd he (not_erases_afterRead m born _ hsm f hf)
        · simp [hstack, hf]
    exact ⟨hq.creating_mem, hq.erases⟩
  | @leave tid m born rest hstack =>
    have hq := h.setStack tid (afterProc m born ++ rest)
      fun hsm f hf he => by
        rcases List.mem_append.mp hf with hf | hf
        · exact absurd he (not_erases_afterProc m born hsm f hf)
        · simp [hstack, hf]
    exact ⟨hq.creating_mem, hq.erases⟩
  | @destroy tid m born rest hstack hfree =>
    refine ⟨?_, ?_⟩
    · intro tid' w hc
      exact absurd (hfree.symm.trans hc) (by simp)
    · intro w hw hc
      obtain ⟨hw, hne⟩ := mem_filter_windows.mp hw
      have hold := h.erases w hw hc
      refine forall_setStack (P := fun f => ¬ f.Erases w.hsm) hold ?_
      intro f hf
      rcases List.mem_cons.mp hf with rfl | hf
      · exact fun he => hne he.symm
      · exact hold tid f (by simp [hstack, hf])
  | @erase tid m born rest hstack =>
    have hq := h.setStack tid rest fun hsm f hf _ => by simp [hstack, hf]
    exact ⟨hq.creating_mem, hq.erases⟩
  | @createLink tid a smProc hcall hfree ha hat =>
    refine ⟨?_, ?_⟩
    · intro tid' w hc
      obtain ⟨-, rfl⟩ := Prod.mk.inj (Option.some.inj hc)
      exact List.mem_append_right _ (List.mem_singleton_self _)
    · intro w hw hc
      rcases List.mem_append.mp hw with hw | hw
      · exact h.erases w hw fun tid' hc' => by simp [hfree] at hc'
      · rw [List.mem_singleton.mp hw] at hc
        exact absurd rfl (hc tid)
  | @createPush tid w' hcreating =>
    refine ⟨fun tid' w hc => (by cases hc), ?_⟩
    intro w hw _
    -- only the window whose creation ends becomes complete
    by_cases hww : w = w'
    · rw [hww]
      exact (hcond tid w' hcreating).2
    · exact h.erases w hw fun tid' hc' => by
        rw [hcreating] at hc'
        exact hww (Prod.mk.inj (Option.some.inj hc')).2.symm
  | @destroyTick tid htick hcall hsem =>
    have hq := h.setStack tid (.blocked :: s.threads tid) fun hsm f hf he => by
      rcases List.mem_cons.mp hf with rfl | hf
      · exact he.elim
      · exact hf
    exact ⟨hq.creating_mem, hq.erases⟩
  | _ => exact ⟨h.creating_mem, h.erases⟩

/-! ## The message stays queued -/

/-- A complete window stays complete and in the list until it is destroyed. -/
theorem complete_acts (hwf : s.Wf) (hw : w ∈ s.windows) (hc : s.Complete w) (ha : Acts s i o t) :
    (∃ hsm born, o = .destroyed hsm born (some w)) ∨ (w ∈ t.windows ∧ t.Complete w) := by
  cases ha with
  | @destroy tid m born rest hstack hfree =>
    by_cases hhsm : w.hsm = m.hsm
    · exact Or.inl ⟨m.hsm, born, by rw [← hhsm, hwf.windowAt_eq hw]⟩
    · exact Or.inr ⟨mem_filter_windows.mpr ⟨hw, hhsm⟩, hc⟩
  | @createLink tid a smProc hcall hfree ha hat =>
    refine Or.inr ⟨List.mem_append_left _ hw, ?_⟩
    intro tid' hc'
    obtain ⟨-, rfl⟩ := Prod.mk.inj (Option.some.inj hc')
    exact windowAt_eq_none hat _ hw rfl
  | createPush _ => exact Or.inr ⟨hw, fun tid' hc' => by cases hc'⟩
  | _ => exact Or.inr ⟨hw, hc⟩

/-- A push keeps what is queued. -/
theorem CreateQueued.post (hwf : s.Wf) (h : s.CreateQueued w) (m : Message) (origin : Origin) :
    (s.post m origin).CreateQueued w := by
  obtain ⟨p, hp, hmem⟩ := h
  refine ⟨p, hp, ?_⟩
  rcases (post_cases hwf.queue m origin).2 with ⟨-, -, hentries⟩ | ⟨-, hentries⟩ <;> rw [hentries]
  · exact List.mem_append_left _ hmem
  · exact hmem

/-- **The `SMM_CREATE` of a complete window stays queued until it is popped.** -/
theorem createQueued_acts (hwf : s.Wf) (hquiet : s.Quiet) (hw : w ∈ s.windows) (hc : s.Complete w)
    (h : s.CreateQueued w) (ha : Acts s i o t) :
    (∃ p : Post, p.origin = .creation w.born ∧ o = .popped (createMsg w) p) ∨ t.CreateQueued w := by
  obtain ⟨p, hp, hmem⟩ := h
  cases ha with
  | popEmpty hpop =>
    refine Or.inr ⟨p, hp, ?_⟩
    rw [entries, ← (popEmpty_contents hwf.queue hpop).2] at hmem
    exact hmem
  | pop _ _ hpop =>
    rw [(pop_entries hwf.queue hpop).2] at hmem
    rcases List.mem_cons.mp hmem with heq | hmem
    · obtain ⟨rfl, rfl⟩ := Prod.mk.inj heq
      exact Or.inl ⟨_, hp, rfl⟩
    · exact Or.inr ⟨p, hp, hmem⟩
  | @erase tid m born rest hstack =>
    -- what is being erased is for another address
    have hne : m.hsm ≠ w.hsm := hquiet.erases w hw hc tid (.running m born .destroyed) (by simp [hstack])
    refine Or.inr ⟨p, hp, ?_⟩
    rw [entries]
    simp only [tick, setStack]
    rw [(erase_entries hwf.queue m.hsm).2]
    refine List.mem_map.mpr ⟨_, hmem, ?_⟩
    rw [if_neg (fun heq => hne heq.symm)]
  | createPush _ => exact Or.inr (CreateQueued.post hwf ⟨p, hp, hmem⟩ _ _)
  | push _ => exact Or.inr (CreateQueued.post hwf ⟨p, hp, hmem⟩ _ _)
  | send _ _ => exact Or.inr (CreateQueued.post hwf ⟨p, hp, hmem⟩ _ _)
  | tickSend _ _ => exact Or.inr (CreateQueued.post hwf ⟨p, hp, hmem⟩ _ _)
  | _ => exact Or.inr ⟨p, hp, hmem⟩

/-- After each creation that returned a handle: the window was destroyed, or it is in the list and its
`SMM_CREATE` was popped or is queued. -/
def Kept (es : List SysEvent) (s : Sys) : Prop :=
  ∀ before w after, es = before ++ .created w :: after →
    Gone after w ∨ (w ∈ s.windows ∧ s.Complete w ∧ (CreatePopped after w ∨ s.CreateQueued w))

/-- **One step that meets the condition keeps `Kept`.** -/
theorem Kept.acts (h : Kept es s) (hwf : s.Wf) (hquiet : s.Quiet) (hcond : s.CreateClear i)
    (ha : Acts s i o t) : Kept (es ++ [o]) t := by
  intro before w after hsplit
  rcases split_snoc hsplit with ⟨rfl, rfl, rfl⟩ | ⟨after', rfl, rfl⟩
  · -- the call has just returned
    cases ha with
    | createPush hcreating =>
      right
      have hw := hquiet.creating_mem _ w hcreating
      -- the condition leaves room in the ring, so the push is accepted
      have hroom := (hcond _ w hcreating).1
      refine ⟨hw, fun tid' hc => (by cases hc), Or.inr ⟨⟨s.now, .creation w.born⟩, rfl, ?_⟩⟩
      rcases (post_cases hwf.queue (createMsg w) (.creation w.born)).2 with
        ⟨-, -, hentries⟩ | ⟨hno, -⟩
      · show _ ∈ (s.post (createMsg w) (.creation w.born)).entries
        rw [hentries]
        exact List.mem_append_right _ (List.mem_singleton_self _)
      · exact absurd ⟨hwf.nonzero w hw, hroom⟩ hno
  · -- the call returned earlier, and what was true of it then is carried over this step
    rcases h before w after' rfl with ⟨hsm, born, hgone⟩ | ⟨hw, hc, hstage⟩
    · exact Or.inl ⟨hsm, born, List.mem_append_left _ hgone⟩
    · rcases complete_acts hwf hw hc ha with ⟨hsm, born, rfl⟩ | ⟨hw', hc'⟩
      · exact Or.inl ⟨hsm, born, List.mem_append_right _ (List.mem_singleton_self _)⟩
      · refine Or.inr ⟨hw', hc', ?_⟩
        rcases hstage with ⟨p, hp, hpopped⟩ | hqueued
        · exact Or.inl ⟨p, hp, List.mem_append_left _ hpopped⟩
        · rcases createQueued_acts hwf hquiet hw hc hqueued ha with ⟨p, hp, rfl⟩ | hqueued'
          · exact Or.inl ⟨p, hp, List.mem_append_right _ (List.mem_singleton_self _)⟩
          · exact Or.inr hqueued'

/-! ## The message is the first delivered -/

/-- The message the scheduler has in hand is not for the address. -/
def HandFree (s : Sys) (hsm : Hsm) : Prop := ∀ h, s.hand = some h → h.m.hsm ≠ hsm

end Sys

/-- Where the `SMM_CREATE` of a window in the list stands. -/
inductive CreateStage (es : List SysEvent) (s : Sys) (w : Win) : Prop
  /-- The window is linked, and nothing is on its way to it. -/
  | linked {tid : ℕ} (hcreating : s.creating = some (tid, w))
      (hentries : ∀ e ∈ s.entries, e.1.hsm ≠ w.hsm) (hhand : s.HandFree w.hsm)
  /-- It is queued, before every other message for the window. -/
  | queued {before after : List (Message × Post)} {p : Post} (hc : s.Complete w)
      (hentries : s.entries = before ++ (createMsg w, p) :: after)
      (horigin : p.origin = .creation w.born) (hbefore : ∀ e ∈ before, e.1.hsm ≠ w.hsm)
      (hhand : s.HandFree w.hsm)
  /-- The scheduler has it in hand. -/
  | inHand {h : Hand} (hhand : s.hand = some h) (hm : h.m = createMsg w)
      (horigin : h.post.origin = .creation w.born)
  /-- It was delivered. -/
  | delivered (h : CreateDelivered es w)

theorem CreateDelivered.append {es : List SysEvent} {w : Win} (h : CreateDelivered es w)
    (o : SysEvent) : CreateDelivered (es ++ [o]) w := by
  obtain ⟨p, born, hp, hmem⟩ := h
  exact ⟨p, born, hp, List.mem_append_left _ hmem⟩

namespace CreateStage

open Sys

variable {s t : Sys} {i : SysStep} {o : SysEvent} {es : List SysEvent} {w : Win}

/-- A step that leaves the queue, the hand and the creation at work. -/
theorem same (h : CreateStage es s w) (hentries : t.entries = s.entries) (hhand : t.hand = s.hand)
    (hcreating : t.creating = s.creating) : CreateStage (es ++ [o]) t w := by
  cases h with
  | linked hc he hh =>
    exact .linked (hcreating.trans hc) (hentries ▸ he) fun k hk => hh k (hhand ▸ hk)
  | queued hc he ho hb hh =>
    exact .queued (fun tid hc' => hc tid (hcreating ▸ hc')) (hentries.trans he) ho hb
      fun k hk => hh k (hhand ▸ hk)
  | inHand hh hm ho => exact .inHand (hhand.trans hh) hm ho
  | delivered hd => exact .delivered (hd.append o)

/-- A push of a message that is not for a window still being created. -/
theorem post (h : CreateStage es s w) (hwf : s.Wf) {m : Message} {origin : Origin}
    (hm : ∀ tid, s.creating = some (tid, w) → m.hsm ≠ w.hsm)
    (hentries : t.entries = (s.post m origin).entries) (hhand : t.hand = s.hand)
    (hcreating : t.creating = s.creating) : CreateStage (es ++ [o]) t w := by
  rcases (post_cases hwf.queue m origin).2 with ⟨-, -, hpost⟩ | ⟨-, hpost⟩
  · rw [hpost] at hentries
    cases h with
    | linked hc he hh =>
      refine .linked (hcreating.trans hc) (fun e hmem => ?_) fun k hk => hh k (hhand ▸ hk)
      rw [hentries] at hmem
      rcases List.mem_append.mp hmem with hmem | hmem
      · exact he e hmem
      · rw [List.mem_singleton.mp hmem]
        exact hm _ hc
    | @queued before after p hc he ho hb hh =>
      have hsplit : t.entries = before ++ (createMsg w, p) :: (after ++ [(m, ⟨s.now, origin⟩)]) := by
        rw [hentries, he, List.append_assoc, List.cons_append]
      exact .queued (fun tid hc' => hc tid (hcreating ▸ hc')) hsplit ho hb
        fun k hk => hh k (hhand ▸ hk)
    | inHand hh hm' ho => exact .inHand (hhand.trans hh) hm' ho
    | delivered hd => exact .delivered (hd.append o)
  · exact h.same (hentries.trans hpost) hhand hcreating

/-- The scheduler pops. -/
theorem pop (h : CreateStage es s w) (hne : w.hsm ≠ skInvalidHsm) {m : Message} {p : Post}
    (hnone : s.hand = none) (hentries : s.entries = (m, p) :: t.entries)
    (hhand : t.hand = if m.hsm = skInvalidHsm then none else some ⟨m, p, none⟩)
    (hcreating : t.creating = s.creating) : CreateStage (es ++ [o]) t w := by
  have hfree : m.hsm ≠ w.hsm → t.HandFree w.hsm := fun hm k hk => by
    rw [hhand] at hk
    split at hk
    · cases hk
    · obtain rfl := Option.some.inj hk
      exact hm
  cases h with
  | linked hc he hh =>
    refine .linked (hcreating.trans hc) (fun e hmem => ?_) (hfree ?_)
    · exact he e (by rw [hentries]; exact List.mem_cons_of_mem _ hmem)
    · exact he (m, p) (by rw [hentries]; exact List.mem_cons_self)
  | @queued before after p' hc he ho hb hh =>
    cases before with
    | nil =>
      -- the message popped is the window's `SMM_CREATE`
      obtain ⟨heq, -⟩ := List.cons_eq_cons.mp (hentries.symm.trans he)
      obtain ⟨rfl, rfl⟩ := Prod.mk.inj heq
      rw [if_neg (show ¬ (createMsg w).hsm = skInvalidHsm from hne)] at hhand
      exact .inHand hhand rfl ho
    | cons x before =>
      obtain ⟨rfl, hrest⟩ := List.cons_eq_cons.mp (hentries.symm.trans he)
      refine .queued (fun tid hc' => hc tid (hcreating ▸ hc')) hrest ho
        (fun e hmem => hb e (List.mem_cons_of_mem _ hmem)) (hfree ?_)
      exact hb (m, p) List.mem_cons_self
  | inHand hh _ _ => exact absurd (hnone.symm.trans hh) (by simp)
  | delivered hd => exact .delivered (hd.append o)

/-- The messages for another address are erased. -/
theorem erase (h : CreateStage es s w) (hne : w.hsm ≠ skInvalidHsm) {hsm : Hsm}
    (hother : s.Complete w → hsm ≠ w.hsm)
    (hentries : t.entries =
      s.entries.map fun e => (if e.1.hsm = hsm then blankAll e.1 else e.1, e.2))
    (hhand : t.hand = s.hand) (hcreating : t.creating = s.creating) :
    CreateStage (es ++ [o]) t w := by
  -- an entry that is not for the window does not become one
  have hkeep : ∀ e : Message × Post, e.1.hsm ≠ w.hsm →
      (if e.1.hsm = hsm then blankAll e.1 else e.1).hsm ≠ w.hsm := fun e he => by
    split
    · exact hne.symm
    · exact he
  cases h with
  | linked hc he hh =>
    refine .linked (hcreating.trans hc) (fun e hmem => ?_) fun k hk => hh k (hhand ▸ hk)
    rw [hentries] at hmem
    obtain ⟨e', he', rfl⟩ := List.mem_map.mp hmem
    exact hkeep e' (he e' he')
  | queued hc he ho hb hh =>
    -- the `SMM_CREATE` itself is not hit, as the window is complete
    have hcreate : ¬ (createMsg w).hsm = hsm := fun heq => hother hc heq.symm
    simp only [he, List.map_append, List.map_cons, hcreate, if_false] at hentries
    refine .queued (fun tid hc' => hc tid (hcreating ▸ hc')) hentries ho (fun e hmem => ?_)
      fun k hk => hh k (hhand ▸ hk)
    obtain ⟨e', he', rfl⟩ := List.mem_map.mp hmem
    exact hkeep e' (hb e' he')
  | inHand hh hm ho => exact .inHand (hhand.trans hh) hm ho
  | delivered hd => exact .delivered (hd.append o)

/-- The push of `SMM_CREATE`, into a ring that is not full. -/
theorem createPush (h : CreateStage es s w) (hwf : s.Wf) {tid : ℕ} {w' : Win}
    (hw' : w' ∈ s.windows) (hcreating : s.creating = some (tid, w'))
    (hroom : getNmessage s.q < smallwinNmsgq)
    (hentries : t.entries = (s.post (createMsg w') (.creation w'.born)).entries)
    (hhand : t.hand = s.hand) (hdone : t.creating = none) : CreateStage (es ++ [o]) t w := by
  have hc : t.Complete w := fun tid' hc' => by simp [hdone] at hc'
  have hpost : t.entries = s.entries ++ [(createMsg w', ⟨s.now, .creation w'.born⟩)] := by
    rcases (post_cases hwf.queue (createMsg w') (.creation w'.born)).2 with
      ⟨-, -, hpost⟩ | ⟨hno, -⟩
    · exact hentries.trans hpost
    · exact absurd ⟨hwf.nonzero w' hw', hroom⟩ hno
  cases h with
  | linked hc' he hh =>
    obtain ⟨-, rfl⟩ := Prod.mk.inj (Option.some.inj (hcreating.symm.trans hc'))
    exact .queued (p := ⟨s.now, .creation w'.born⟩) hc hpost rfl he fun k hk => hh k (hhand ▸ hk)
  | @queued before after p _ he ho hb hh =>
    have hsplit : t.entries =
        before ++ (createMsg w, p) :: (after ++ [(createMsg w', ⟨s.now, .creation w'.born⟩)]) := by
      rw [hpost, he, List.append_assoc, List.cons_append]
    exact .queued hc hsplit ho hb fun k hk => hh k (hhand ▸ hk)
  | inHand hh hm ho => exact .inHand (hhand.trans hh) hm ho
  | delivered hd => exact .delivered (hd.append o)

/-- **One step that meets the condition keeps the stage** of a window that was in the list. -/
theorem acts (h : CreateStage es s w) (hwf : s.Wf) (hquiet : s.Quiet) (hcond : s.CreateClear i)
    (hw : w ∈ s.windows) (ha : Acts s i o t) : CreateStage (es ++ [o]) t w := by
  have hne := hwf.nonzero w hw
  cases ha with
  | popEmpty hpop =>
    refine h.same ?_ rfl rfl
    simp only [entries, tick]
    rw [(popEmpty_contents hwf.queue hpop).2]
  | pop hhand _ hpop => exact h.pop hne hhand (pop_entries hwf.queue hpop).2 rfl rfl
  | @test m p hhand =>
    have hfree : (s.HandFree w.hsm) → HandFree (tick { s with
        hand := (s.windowAt m.hsm).map fun w => ⟨m, p, some w.born⟩ }) w.hsm := fun hh k hk => by
      obtain ⟨v, -, rfl⟩ := Option.map_eq_some_iff.mp hk
      exact hh ⟨m, p, none⟩ hhand
    cases h with
    | linked hc he hh => exact .linked hc he (hfree hh)
    | queued hc he ho hb hh => exact .queued hc he ho hb (hfree hh)
    | inHand hh hm ho =>
      obtain rfl := Option.some.inj (hhand.symm.trans hh)
      obtain rfl : m = createMsg w := hm
      refine .inHand (h := ⟨createMsg w, p, some w.born⟩) ?_ rfl ho
      show Option.map _ (s.windowAt w.hsm) = _
      rw [hwf.windowAt_eq hw]
      rfl
    | delivered hd => exact .delivered (hd.append _)
  | @enterHand m p born hhand =>
    cases h with
    | linked hc he hh => exact .linked hc he fun k hk => (by cases hk)
    | queued hc he ho hb hh => exact .queued hc he ho hb fun k hk => (by cases hk)
    | inHand hh hm ho =>
      obtain rfl := Option.some.inj (hhand.symm.trans hh)
      obtain rfl : m = createMsg w := hm
      refine .delivered ⟨p, born, ho, List.mem_append_right _ ?_⟩
      rw [show s.windowAt (createMsg w).hsm = some w from hwf.windowAt_eq hw]
      exact List.mem_singleton_self _
    | delivered hd => exact .delivered (hd.append _)
  | @erase tid m born rest hstack =>
    refine h.erase hne (fun hc => ?_) (erase_entries hwf.queue m.hsm).2 rfl rfl
    exact hquiet.erases w hw hc tid (.running m born .destroyed) (by simp [hstack])
  | @createLink tid a smProc hcall hfree ha hat =>
    cases h with
    | linked hc _ _ => exact absurd (hfree.symm.trans hc) (by simp)
    | queued hc he ho hb hh =>
      refine .queued (fun tid' hc' => ?_) he ho hb hh
      obtain ⟨-, rfl⟩ := Prod.mk.inj (Option.some.inj hc')
      exact windowAt_eq_none hat _ hw rfl
    | inHand hh hm ho => exact .inHand hh hm ho
    | delivered hd => exact .delivered (hd.append _)
  | createPush hcreating =>
    exact h.createPush hwf (hquiet.creating_mem _ _ hcreating) hcreating (hcond _ _ hcreating).1
      rfl rfl rfl
  | push _ => exact h.post hwf (fun tid hc => hcond tid w hc) rfl rfl rfl
  | send _ hfree => exact h.post hwf (fun tid hc => by simp [hfree] at hc) rfl rfl rfl
  | tickSend _ hfree => exact h.post hwf (fun tid hc => by simp [hfree] at hc) rfl rfl rfl
  | _ => exact h.same rfl rfl rfl

/-- **A window that is linked** starts with nothing on its way to it. -/
theorem link {tid : ℕ} {a : Hsm} {smProc : SmProc}
    (hcond : s.CreateClear (.createLink tid (some a) smProc))
    (ha : Acts s (.createLink tid (some a) smProc) o t) :
    CreateStage (es ++ [o]) t ⟨a, s.now, smProc⟩ := by
  cases ha with
  | createLink _ _ _ _ => exact .linked rfl hcond.1 hcond.2

end CreateStage

namespace Sys

variable {s t : Sys} {i : SysStep} {o : SysEvent} {es : List SysEvent}

/-- **One step that meets the condition keeps the stages** of all windows. -/
theorem stages_acts (h : ∀ w ∈ s.windows, CreateStage es s w) (hwf : s.Wf) (hquiet : s.Quiet)
    (hcond : s.CreateClear i) (ha : Acts s i o t) :
    ∀ w ∈ t.windows, CreateStage (es ++ [o]) t w := by
  intro w hw
  by_cases hold : w ∈ s.windows
  · exact (h w hold).acts hwf hquiet hcond hold ha
  · cases ha with
    | destroy _ _ => exact absurd (mem_filter_windows.mp hw).1 hold
    | createLink hcall hfree hne hat =>
      rcases List.mem_append.mp hw with hw | hw
      · exact absurd hw hold
      · rw [List.mem_singleton.mp hw]
        exact .link hcond (.createLink hcall hfree hne hat)
    | _ => exact absurd hw hold

/-- What is seen stays as it should be: a queued message is handed to a window whose `SMM_CREATE` it is,
or was delivered before. -/
theorem firstIsCreate_acts (h : FirstIsCreate es) (hstage : ∀ w ∈ s.windows, CreateStage es s w)
    (ha : Acts s i o t) : FirstIsCreate (es ++ [o]) := by
  intro before m p born w after hsplit
  rcases split_snoc hsplit with ⟨rfl, rfl, rfl⟩ | ⟨after', rfl, rfl⟩
  · obtain ⟨hhand, hat⟩ : s.hand = some ⟨m, p, some born⟩ ∧ s.windowAt m.hsm = some w := by
      -- only the scheduler hands over queued messages
      generalize ho : SysEvent.entered m (some p) born (some w) = o at ha
      cases ha with
      | enterHand hhand =>
        obtain ⟨rfl, hp, rfl, hat⟩ := SysEvent.entered.inj ho
        obtain rfl := Option.some.inj hp
        exact ⟨hhand, hat.symm⟩
      | enter _ =>
        obtain ⟨-, hp, -, -⟩ := SysEvent.entered.inj ho
        cases hp
      | _ => cases ho
    obtain ⟨hw, hhsm⟩ := mem_of_windowAt hat
    cases hstage w hw with
    | linked _ _ hh => exact absurd hhsm.symm (hh _ hhand)
    | queued _ _ _ _ hh => exact absurd hhsm.symm (hh _ hhand)
    | inHand hh hm ho =>
      obtain rfl := Option.some.inj (hhand.symm.trans hh)
      exact Or.inl ⟨hm, ho⟩
    | delivered hd => exact Or.inr hd
  · exact h before m p born w after' rfl

end Sys

/-- **The `SMM_CREATE` of a window.** In every run whose steps meet the condition, take a creation that
returned a handle. From its return on, unless the window was destroyed, it is in the list and its
`SMM_CREATE` is queued or was popped; and the first queued message handed to a window is its
`SMM_CREATE`. -/
theorem creations_kept (mem : ℤ → Message) (steps : List SysStep) (es : List SysEvent) (s : Sys)
    (hcond : StepMachine.Along Sys.step Sys.CreateClear (Sys.init mem) steps)
    (hrun : StepMachine.run Sys.step (Sys.init mem) steps = some (es, s)) :
    Sys.Kept es s ∧ FirstIsCreate es := by
  have hgood : s.Wf ∧ s.Quiet ∧ Sys.Kept es s ∧ (∀ w ∈ s.windows, CreateStage es s w) ∧
      FirstIsCreate es := by
    refine StepMachine.run_induction_along Sys.step Sys.CreateClear
      (fun _ es s => s.Wf ∧ s.Quiet ∧ Sys.Kept es s ∧ (∀ w ∈ s.windows, CreateStage es s w) ∧
        FirstIsCreate es) ?_ ?_ hcond hrun
    · refine ⟨Sys.Wf.init mem, ⟨?_, ?_⟩, ?_, ?_, ?_⟩
      · intro tid w hc
        simp [Sys.init] at hc
      · intro w hw
        simp [Sys.init] at hw
      · intro before w after h
        simp at h
      · intro w hw
        simp [Sys.init] at hw
      · intro before m p born w after h
        simp at h
    · rintro is os u i o t - ⟨hwf, hquiet, hkept, hstage, hfirst⟩ hC hs
      have ha := (Sys.step_cases hs).2
      exact ⟨hwf.acts ha, hquiet.acts hC ha, hkept.acts hwf hquiet hC ha,
        Sys.stages_acts hstage hwf hquiet hC ha, Sys.firstIsCreate_acts hfirst hstage ha⟩
  exact ⟨hgood.2.2.1, hgood.2.2.2.2⟩

/-- The law at a window that is created and is handed its `SMM_CREATE`. -/
theorem creations_kept_create :
    FirstIsCreate [.silent, .created ⟨64, 0, some 1⟩, .popped ⟨64, smmCreate, 0, 0⟩ ⟨1, .creation 0⟩,
      .silent, .entered ⟨64, smmCreate, 0, 0⟩ (some ⟨1, .creation 0⟩) 0 (some ⟨64, 0, some 1⟩)] := by
  obtain ⟨es, s, hrun, rfl⟩ : ∃ es s,
      StepMachine.run Sys.step (Sys.init fun _ => ⟨0, 0, 0, 0⟩)
          [.createLink 1 (some 64) (some 1), .createPush 1, .pop, .test, .enterHand] = some (es, s) ∧
        es = [.silent, .created ⟨64, 0, some 1⟩,
          .popped ⟨64, smmCreate, 0, 0⟩ ⟨1, .creation 0⟩, .silent,
          .entered ⟨64, smmCreate, 0, 0⟩ (some ⟨1, .creation 0⟩) 0 (some ⟨64, 0, some 1⟩)] :=
    ⟨_, _, rfl, rfl⟩
  refine (creations_kept (fun _ => ⟨0, 0, 0, 0⟩) _ _ s ?_ hrun).2
  have hlink : (Sys.init fun _ => ⟨0, 0, 0, 0⟩).CreateClear (.createLink 1 (some 64) (some 1)) :=
    ⟨fun e he => by simp [Sys.entries, Sys.init] at he, fun h hh => by cases hh⟩
  refine StepMachine.along_cons hlink rfl (StepMachine.along_cons (fun tid w hc => ?_) rfl ?_)
  · exact ⟨by decide, fun tid' f hf => by simp [Sys.init] at hf⟩
  · refine StepMachine.along_cons trivial rfl (StepMachine.along_cons trivial rfl ?_)
    exact StepMachine.along_cons trivial rfl trivial

/-- **A `SMM_CREATE` can be erased.** The scheduler hands `SMM_CLOSE` to a window and destroys it. Before
it erases the window's messages, another thread creates a window at the freed address; its
`SMM_CREATE` is erased with them, and the window never gets it. -/
theorem create_erased :
    ∃ es s, StepMachine.run Sys.step (Sys.init fun _ => ⟨0, 0, 0, 0⟩)
        ([.createLink 1 (some 64) (some 1), .createPush 1, .pop, .test, .enterHand, .leave 0,
          .send 1 ⟨64, smmClose, 0, 0⟩, .pop, .test, .enterHand, .leave 0, .destroy 0,
          .createLink 1 (some 64) (some 1), .createPush 1] ++ [.erase 0]) = some (es, s) ∧
      ¬ Sys.Kept es s := by
  obtain ⟨es, u, hrun, hes, hdef, hstack⟩ : ∃ es u,
      StepMachine.run Sys.step (Sys.init fun _ => ⟨0, 0, 0, 0⟩)
          [.createLink 1 (some 64) (some 1), .createPush 1, .pop, .test, .enterHand, .leave 0,
            .send 1 ⟨64, smmClose, 0, 0⟩, .pop, .test, .enterHand, .leave 0, .destroy 0,
            .createLink 1 (some 64) (some 1), .createPush 1] = some (es, u) ∧
        es = es.dropLast ++ [.created ⟨64, 12, some 1⟩] ∧ u.undefined = false ∧
        u.threads 0 = [.running ⟨64, smmClose, 0, 0⟩ 0 .destroyed] := ⟨_, _, rfl, rfl, rfl, rfl⟩
  -- the last step sweeps a thousand slots, so it is taken by its equation
  have hwf := Sys.Wf.run hrun
  refine ⟨_, _, StepMachine.run_append_cons hrun (Sys.step_erase hdef hstack) rfl, ?_⟩
  intro hkept
  rcases hkept es.dropLast ⟨64, 12, some 1⟩ [.silent] (by rw [hes]; simp) with
    ⟨hsm, born, hgone⟩ | ⟨-, -, ⟨p, -, hpopped⟩ | ⟨p, -, hqueued⟩⟩
  · simp at hgone
  · simp at hpopped
  · exact Sys.ne_of_mem_erase hwf.queue (by decide) hqueued rfl

end SmIpc.Sm
