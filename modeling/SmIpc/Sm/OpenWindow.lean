import SmIpc.Sm.Creation
import SmIpc.Sm.Fates

/-! # Messages for a window that stays open

While a window stays in `smallwin_list`, and messages are posted for it only then, none of its messages
is dropped or erased: the scheduler hands them all to `run_sm`.

* `Sys.Open` — the queued messages for a handle, and one in hand, have their window; and no activation is
  about to erase them.
* `Sys.Open.acts` — a step that leaves the window where it is keeps that; `Sys.Open.notes` says that in such
  a state no message for it is dropped or erased.
* `Books.delivered` — so of the messages for it, those accepted are those handed to `run_sm`, then one in
  hand, then those that are queued. -/

namespace SmIpc.Sm

/-- The message, if the scheduler handed it to `run_sm`. -/
def Note.handed? : Note → Option (Message × Post)
  | .handed e => some e
  | _ => none

namespace Sys

/-- **The messages for a handle have their window.** -/
structure Open (hsm : Hsm) (s : Sys) : Prop where
  /-- The queued ones. -/
  queued : ∀ e ∈ s.entries, e.1.hsm = hsm → (s.windowAt hsm).isSome
  /-- The one in hand. -/
  hand : ∀ x, s.hand = some x → x.m.hsm = hsm → (s.windowAt hsm).isSome
  /-- No activation is about to erase them. -/
  kept : ∀ tid, ∀ f ∈ s.threads tid, ¬ Frame.Erases hsm f

variable {s t : Sys} {i : SysStep} {o : SysEvent} {hsm : Hsm}

/-- Before the first message. -/
theorem Open.init (hsm : Hsm) (mem : ℤ → Message) : (Sys.init mem).Open hsm := by
  have hentries : (Sys.init mem).entries = [] := by
    simp [entries, Sys.init]
  refine ⟨?_, ?_, fun _ _ hf => absurd hf List.not_mem_nil⟩
  · rw [hentries]
    exact fun _ he => absurd he List.not_mem_nil
  · rintro x ⟨⟩

/-- What `push_message` adds to the queue. -/
theorem mem_entries_post (hwf : s.Wf) (m : Message) (origin : Origin) {e : Message × Post}
    (he : e ∈ (s.post m origin).entries) : e ∈ s.entries ∨ .accepted e ∈ s.acceptNotes m origin := by
  rcases Books.acceptNotes_cases hwf.queue m origin with ⟨hnotes, -, hpost⟩ | ⟨-, hpost⟩
  · rw [hpost] at he
    rw [hnotes]
    rcases List.mem_append.mp he with he | he
    · exact .inl he
    · rw [List.mem_singleton.mp he]
      exact .inr List.mem_cons_self
  · rw [hpost] at he
    exact .inl he

/-- A message that is queued after a step was queued before it, or is accepted by it, or is blank. -/
theorem mem_entries_acts (hwf : s.Wf) (ha : Acts s i o t) {e : Message × Post} (he : e ∈ t.entries) :
    e ∈ s.entries ∨ .accepted e ∈ s.notes i ∨ e.1.hsm = skInvalidHsm := by
  cases ha with
  | popEmpty hpop =>
    have hc := (popEmpty_contents hwf.queue hpop).2
    left
    rw [entries, ← hc]
    exact he
  | pop _ _ hpop =>
    left
    rw [(pop_entries hwf.queue hpop).2]
    exact List.mem_cons_of_mem _ he
  | @erase tid m born rest hstack =>
    have he' : e ∈ (eraseMessage s.q m.hsm).contents.zip s.posts := he
    rw [(erase_entries hwf.queue m.hsm).2] at he'
    obtain ⟨e', hold, rfl⟩ := List.mem_map.mp he'
    split
    · exact .inr (.inr rfl)
    · exact .inl hold
  | createPush hcreating =>
    simp only [notes, hcreating]
    exact (mem_entries_post hwf _ _ he).imp_right .inl
  | push _ => exact (mem_entries_post hwf _ _ he).imp_right .inl
  | send _ _ => exact (mem_entries_post hwf _ _ he).imp_right .inl
  | tickSend hpc _ =>
    simp only [notes, hpc]
    exact (mem_entries_post hwf _ _ he).imp_right .inl
  | _ => exact .inl he

/-- A message in hand after a step was in hand before it, or queued. -/
theorem hand_acts (hwf : s.Wf) (ha : Acts s i o t) {x : Hand} (hx : t.hand = some x) :
    (∃ y, s.hand = some y ∧ y.m = x.m) ∨ (x.m, x.post) ∈ s.entries := by
  cases ha with
  | pop _ _ hpop =>
    right
    rw [(pop_entries hwf.queue hpop).2]
    simp only [tick] at hx
    split at hx
    · cases hx
    · cases hx
      exact List.mem_cons_self
  | test hhand =>
    obtain ⟨win, -, rfl⟩ := Option.map_eq_some_iff.mp hx
    exact .inl ⟨_, hhand, rfl⟩
  | enterHand _ => cases hx
  | _ => exact .inl ⟨x, hx, rfl⟩

/-- **A step that leaves the window erases nothing of it later.** -/
theorem Open.kept_acts (h : s.Open hsm) (ha : Acts s i o t) (hdef : t.undefined = false)
    (hkeep : (s.windowAt hsm).isSome → (t.windowAt hsm).isSome) :
    ∀ tid, ∀ f ∈ t.threads tid, ¬ Frame.Erases hsm f := by
  have hold : ∀ {tid f rest}, s.threads tid = f :: rest → ∀ f' ∈ rest, ¬ Frame.Erases hsm f' := by
    intro tid f rest hstack f' hf'
    exact h.kept tid f' (hstack ▸ List.mem_cons_of_mem f hf')
  have hpush : ∀ {f : Frame} {stack : List Frame}, ¬ Frame.Erases hsm f →
      (∀ f' ∈ stack, ¬ Frame.Erases hsm f') → ∀ f' ∈ f :: stack, ¬ Frame.Erases hsm f' :=
    fun hf hstack => List.forall_mem_cons.mpr ⟨hf, hstack⟩
  cases ha with
  | enterHand _ => exact forall_setStack h.kept (not_erases_afterRead _ _ _ hsm)
  | express _ _ =>
    exact forall_setStack h.kept (hpush id (h.kept _))
  | enter hstack =>
    exact forall_setStack h.kept (List.forall_mem_append.mpr ⟨not_erases_afterRead _ _ _ hsm, hold hstack⟩)
  | leave hstack =>
    exact forall_setStack h.kept (List.forall_mem_append.mpr ⟨not_erases_afterProc _ _ hsm, hold hstack⟩)
  | @destroy tid m born rest hstack _ =>
    refine forall_setStack h.kept (hpush ?_ (hold hstack))
    rintro rfl
    -- the window was there, and this step took it out
    have hwas : (s.windowAt m.hsm).isSome := by
      have hsome : (s.windowAt m.hsm).isNone = false := hdef
      simpa using hsome
    have hgone : (List.find? (fun w => w.hsm = m.hsm) (s.windows.filter fun w => w.hsm ≠ m.hsm)) = none := by
      rw [List.find?_eq_none]
      intro w hw
      simpa using (mem_filter_windows.mp hw).2
    have hstill : ((s.windows.filter fun w => w.hsm ≠ m.hsm).find? fun w => w.hsm = m.hsm).isSome :=
      hkeep hwas
    rw [hgone] at hstill
    cases hstill
  | erase hstack => exact forall_setStack h.kept (hold hstack)
  | destroyTick _ _ =>
    exact forall_setStack h.kept (hpush id (h.kept _))
  | _ => exact h.kept

/-- **A step that leaves the window where it is** keeps its messages: none is dropped or erased. -/
theorem Open.acts (h : s.Open hsm) (hwf : s.Wf) (hne : hsm ≠ skInvalidHsm) (ha : Acts s i o t)
    (hdef : t.undefined = false) (hkeep : (s.windowAt hsm).isSome → (t.windowAt hsm).isSome)
    (hposted : ∀ e, .accepted e ∈ s.notes i → e.1.hsm = hsm → (s.windowAt hsm).isSome) : t.Open hsm := by
  refine ⟨?_, ?_, h.kept_acts ha hdef hkeep⟩
  · intro e he hhsm
    apply hkeep
    rcases mem_entries_acts hwf ha he with he | he | hblank
    · exact h.queued e he hhsm
    · exact hposted e he hhsm
    · exact absurd (hhsm.symm.trans hblank) hne
  · intro x hx hhsm
    apply hkeep
    rcases hand_acts hwf ha hx with ⟨y, hy, hm⟩ | he
    · exact h.hand y hy (hm ▸ hhsm)
    · exact h.queued _ he hhsm

/-- `push_message` drops and erases nothing. -/
theorem acceptNotes_quiet (m : Message) (origin : Origin) :
    (∀ e, .dropped e ∈ s.acceptNotes m origin → e.1.hsm ≠ hsm) ∧
      ∀ time, .erased hsm time ∉ s.acceptNotes m origin := by
  rw [acceptNotes]
  split <;> simp

/-- **In such a state no message for the handle is dropped, and none is erased.** -/
theorem Open.notes (h : s.Open hsm) (i : SysStep) :
    (∀ e, .dropped e ∈ s.notes i → e.1.hsm ≠ hsm) ∧ ∀ time, .erased hsm time ∉ s.notes i := by
  unfold Sys.notes
  split
  · -- the scheduler pops
    split <;> simp
  · split
    · rename_i m p hhand
      split
      · simp
      · rename_i hnone
        refine ⟨fun e he heq => ?_, by simp⟩
        obtain rfl : e = (m, p) := by simpa using he
        exact hnone (heq ▸ h.hand _ hhand heq)
    · simp
  · split <;> simp
  · split
    · rename_i m born rest hstack
      refine ⟨by simp, fun time he => ?_⟩
      have heq : hsm = m.hsm := by
        simp only [List.mem_singleton, Note.erased.injEq] at he
        exact he.1
      exact h.kept _ (.running m born .destroyed) (hstack ▸ List.mem_cons_self) heq.symm
    · simp
  · split
    · exact acceptNotes_quiet _ _
    · simp
  · exact acceptNotes_quiet _ _
  · exact acceptNotes_quiet _ _
  · split
    · exact acceptNotes_quiet _ _
    · simp
  · simp

end Sys

/-- What the scheduler handed to `run_sm` it is done with. -/
theorem handed_sublist (ns : List Note) :
    (ns.filterMap Note.handed?).Sublist (ns.filterMap Note.resolved?) := by
  induction ns with
  | nil => exact List.Sublist.refl _
  | cons x ns ih =>
    cases x with
    | dropped e => exact ih.cons e
    | handed e => exact ih.cons_cons e
    | _ => exact ih

/-- What the scheduler is done with and has not dropped it handed to `run_sm`. -/
theorem filter_resolved {ns : List Note} {p : Message × Post → Bool}
    (h : ∀ e, .dropped e ∈ ns → p e = false) :
    (ns.filterMap Note.resolved?).filter p = (ns.filterMap Note.handed?).filter p := by
  induction ns with
  | nil => rfl
  | cons x ns ih =>
    have ih := ih fun e he => h e (List.mem_cons_of_mem x he)
    cases x with
    | dropped e =>
      have hp : p e = false := h e List.mem_cons_self
      show (e :: ns.filterMap Note.resolved?).filter p = (ns.filterMap Note.handed?).filter p
      rw [List.filter_cons_of_neg (by simp [hp]), ih]
    | handed e =>
      show (e :: ns.filterMap Note.resolved?).filter p = (e :: ns.filterMap Note.handed?).filter p
      rw [List.filter_cons, List.filter_cons, ih]
    | _ => exact ih

/-- **Where nothing is dropped or erased, everything is delivered.** -/
theorem Books.delivered {ns : List Note} {s : Sys} (h : Books ns s) {hsm : Hsm} (hne : hsm ≠ skInvalidHsm)
    (hdropped : ∀ e, .dropped e ∈ ns → e.1.hsm ≠ hsm) (herased : ∀ time, .erased hsm time ∉ ns) :
    (ns.filterMap Note.accepted?).filter (fun e => e.1.hsm = hsm) =
      (ns.filterMap Note.handed? ++ s.inHand ++ s.entries).filter fun e => e.1.hsm = hsm := by
  -- what was accepted for the handle was popped intact, or is queued intact
  have hintact : (ns.filterMap Note.accepted?).filter (fun e => decide (e.1.hsm = hsm)) =
      (ns.filterMap Note.popped? ++ s.entries).filter fun e => decide (e.1.hsm = hsm) := by
    apply PairedLists.filter_eq_of_forall₂ h.fates
    intro a b hab
    rcases hab.message with hsame | ⟨hblank, time, -, hmem⟩
    · exact .inl (Prod.ext hsame hab.post)
    · right
      have ha : a.1.hsm ≠ hsm := fun heq => herased time (heq ▸ hmem)
      have hb : b.1.hsm ≠ hsm := by
        rw [hblank]
        exact Ne.symm hne
      exact ⟨decide_eq_false ha, decide_eq_false hb⟩
  -- what was popped for it the scheduler has handed on or in hand
  have hpopped : (ns.filterMap Note.popped?).filter (fun e => decide (e.1.hsm = hsm)) =
      (ns.filterMap Note.resolved? ++ s.inHand).filter fun e => decide (e.1.hsm = hsm) := by
    rw [h.resolved, List.filter_filter]
    apply List.filter_congr
    intro e _
    by_cases he : e.1.hsm = hsm
    · simp [he, hne]
    · simp [he]
  have hhanded : (ns.filterMap Note.resolved?).filter (fun e => decide (e.1.hsm = hsm)) =
      (ns.filterMap Note.handed?).filter fun e => decide (e.1.hsm = hsm) :=
    filter_resolved fun e he => decide_eq_false (hdropped e he)
  rw [hintact, List.filter_append, hpopped, List.filter_append, hhanded, List.filter_append,
    List.filter_append]

end SmIpc.Sm
