import Mathlib.Data.List.Nodup
import SmIpc.Sm.System

/-! # What a step of the system does

`Sys.Acts` says once what each step does and when, with one rule for each way it can go; `step_cases`
is the inversion of `Sys.step` that the later files use. The facts every run keeps are `Sys.Wf`: the
ring is valid and each queued message has its post on record, windows have different addresses, none
of them null, and were linked in the past. -/

namespace SmIpc.Sm

namespace Sys

/-- The state after a step: the clock has moved on. -/
def tick (s : Sys) : Sys := { s with now := s.now + 1 }

/-- **What the steps do**, one rule for each way a step can go. -/
inductive Acts (s : Sys) : SysStep → SysEvent → Sys → Prop
  /-- The scheduler finds the ring empty. -/
  | popEmpty {v : ℤ} {q : Msgq} (hpop : popMessage s.q = some ((v, none), q)) :
      Acts s .pop .silent (tick { s with q := q })
  /-- The scheduler pops a message; one for the null handle is dropped. -/
  | pop {v : ℤ} {m : Message} {q : Msgq} (hhand : s.hand = none) (hidle : s.threads 0 = [])
      (hpop : popMessage s.q = some ((v, some m), q)) :
      Acts s .pop (.popped m (s.posts.headD ⟨0, .sender⟩)) (tick { s with
        q := q
        posts := s.posts.tail
        hand := if m.hsm = skInvalidHsm then none
          else some ⟨m, s.posts.headD ⟨0, .sender⟩, none⟩ })
  /-- The scheduler looks for the window of the message in hand, and drops the message if it finds
  none. -/
  | test {m : Message} {p : Post} (hhand : s.hand = some ⟨m, p, none⟩) :
      Acts s .test .silent
        (tick { s with hand := (s.windowAt m.hsm).map fun w => ⟨m, p, some w.born⟩ })
  /-- The scheduler hands the message in hand to the window's procedure. -/
  | enterHand {m : Message} {p : Post} {born : ℕ} (hhand : s.hand = some ⟨m, p, some born⟩) :
      Acts s .enterHand (.entered m (some p) born (s.windowAt m.hsm))
        (tick { s.setStack 0 (afterRead m born (s.windowAt m.hsm)) with
          hand := none
          undefined := (s.windowAt m.hsm).isNone })
  /-- `express_message` finds no window. -/
  | expressNone {tid : ℕ} {m : Message} (hcall : s.CanCall tid) (hat : s.windowAt m.hsm = none) :
      Acts s (.express tid m) .silent (tick s)
  /-- `express_message` finds the window. -/
  | express {tid : ℕ} {m : Message} {w : Win} (hcall : s.CanCall tid)
      (hat : s.windowAt m.hsm = some w) :
      Acts s (.express tid m) .silent
        (tick (s.setStack tid (.running m w.born .tested :: s.threads tid)))
  /-- `express_message` hands its message to the window's procedure. -/
  | enter {tid : ℕ} {m : Message} {born : ℕ} {rest : List Frame}
      (hstack : s.threads tid = .running m born .tested :: rest) :
      Acts s (.enter tid) (.entered m none born (s.windowAt m.hsm))
        (tick { s.setStack tid (afterRead m born (s.windowAt m.hsm) ++ rest) with
          undefined := (s.windowAt m.hsm).isNone })
  /-- A window procedure returns. -/
  | leave {tid : ℕ} {m : Message} {born : ℕ} {rest : List Frame}
      (hstack : s.threads tid = .running m born .inProc :: rest) :
      Acts s (.leave tid) .silent (tick (s.setStack tid (afterProc m born ++ rest)))
  /-- A window is unlinked and freed. -/
  | destroy {tid : ℕ} {m : Message} {born : ℕ} {rest : List Frame}
      (hstack : s.threads tid = .running m born .returned :: rest) (hfree : s.creating = none) :
      Acts s (.destroy tid) (.destroyed m.hsm born (s.windowAt m.hsm))
        (tick { s.setStack tid (.running m born .destroyed :: rest) with
          windows := s.windows.filter fun w => w.hsm ≠ m.hsm
          undefined := (s.windowAt m.hsm).isNone })
  /-- The messages of a window that was freed are erased. -/
  | erase {tid : ℕ} {m : Message} {born : ℕ} {rest : List Frame}
      (hstack : s.threads tid = .running m born .destroyed :: rest) :
      Acts s (.erase tid) .silent (tick { s.setStack tid rest with q := eraseMessage s.q m.hsm })
  /-- `malloc` has no node. -/
  | createNull {tid : ℕ} {smProc : SmProc} (hcall : s.CanCall tid) (hfree : s.creating = none) :
      Acts s (.createLink tid none smProc) .silent (tick s)
  /-- A new window is linked. -/
  | createLink {tid : ℕ} {a : Hsm} {smProc : SmProc} (hcall : s.CanCall tid)
      (hfree : s.creating = none) (ha : a ≠ skInvalidHsm) (hat : s.windowAt a = none) :
      Acts s (.createLink tid (some a) smProc) .silent (tick { s with
        windows := s.windows ++ [⟨a, s.now, smProc⟩]
        creating := some (tid, ⟨a, s.now, smProc⟩) })
  /-- `SMM_CREATE` is pushed, and the call returns. -/
  | createPush {tid : ℕ} {w : Win} (hcreating : s.creating = some (tid, w)) :
      Acts s (.createPush tid) (.created w)
        (tick { s.post (createMsg w) (.creation w.born) with creating := none })
  /-- `push_message`. -/
  | push {tid : ℕ} {m : Message} (hcall : s.CanCall tid) :
      Acts s (.push tid m) .silent (tick (s.post m .sender))
  /-- `send_message`. -/
  | send {tid : ℕ} {m : Message} (hcall : s.CanCall tid) (hfree : s.creating = none) :
      Acts s (.send tid m) .silent (tick (s.post m .sender))
  /-- `sm_set_xtick` finds every slot taken. -/
  | setFull {tid : ℕ} {hsm : Hsm} {n100msec param2 : UInt32} {sysflag : Int32}
      (hcall : s.CanCall tid) (hslot : freeTick s.ticks = none) :
      Acts s (.setXtick tid hsm n100msec param2 sysflag) .silent (tick s)
  /-- `sm_set_xtick` sets a slot. -/
  | setXtick {tid : ℕ} {hsm : Hsm} {n100msec param2 : UInt32} {sysflag : Int32} {i : ℕ}
      (hcall : s.CanCall tid) (hsem : 0 < s.semTick) (hslot : freeTick s.ticks = some i) :
      Acts s (.setXtick tid hsm n100msec param2 sysflag) .silent (tick { s with
        ticks := Function.update s.ticks i ⟨hsm, n100msec, 0, param2, sysflag⟩
        registered := Function.update s.registered i s.now })
  /-- `sm_destroy_tick` frees a slot and blocks. -/
  | destroyTick {tid : ℕ} {htick : ℤ} (hcall : s.CanCall tid) (hsem : 0 < s.semTick) :
      Acts s (.destroyTick tid htick) .silent
        (tick { s.setStack tid (.blocked :: s.threads tid) with
          ticks := smDestroyTick s.ticks htick
          semTick := s.semTick - 1 })
  /-- `sm_ticker` takes `sem_tick_id`. -/
  | tickStart (hpc : s.ticker = .delay) (hsem : 0 < s.semTick) :
      Acts s .tickStart .silent
        (tick { s with ticker := .looking 0, semTick := s.semTick - 1 })
  /-- `sm_ticker` is done with a slot. -/
  | tickPass {i : ℕ} {slot : TickMsg} (hpc : s.ticker = .looking i)
      (hlook : Sm.tickLook s.q (s.ticks i) i = some (some slot)) :
      Acts s .tickLook .silent
        (tick { s with ticks := Function.update s.ticks i slot, ticker := .looking (i + 1) })
  /-- `sm_ticker` goes on to send. -/
  | tickDue {i : ℕ} (hpc : s.ticker = .looking i)
      (hlook : Sm.tickLook s.q (s.ticks i) i = some none) :
      Acts s .tickLook .silent (tick { s with ticker := .sending i })
  /-- `sm_ticker` sends. -/
  | tickSend {i : ℕ} (hpc : s.ticker = .sending i) (hfree : s.creating = none) :
      Acts s .tickSend .silent
        (tick { s.post ((s.ticks i).message i) (.tick (s.registered i)) with
          ticks := Function.update s.ticks i (s.ticks i).restarted
          ticker := .looking (i + 1) })
  /-- `sm_ticker` releases `sem_tick_id`. -/
  | tickEnd (hpc : s.ticker = .looking smallwinNticks) :
      Acts s .tickEnd .silent (tick { s with ticker := .delay, semTick := s.semTick + 1 })

variable {s t : Sys} {i : SysStep} {o : SysEvent}

/-- **Inversion of a step.** -/
theorem step_cases (h : step s i = some (o, t)) : s.undefined = false ∧ Acts s i o t := by
  rw [step] at h
  split at h
  · cases h
  · rename_i hdef
    refine ⟨by simpa using hdef, ?_⟩
    obtain ⟨⟨o', u⟩, hact, heq⟩ := Option.map_eq_some_iff.mp h
    obtain ⟨rfl, rfl⟩ := Prod.mk.inj heq
    -- from here on it is a case analysis of `act`
    clear h heq hdef
    cases i with
    | pop =>
      simp only [act] at hact
      split at hact
      · rename_i hg
        split at hact
        · cases hact
        · rename_i hpop
          cases hact
          exact .popEmpty hpop
        · rename_i hpop
          cases hact
          exact .pop hg.1 hg.2 hpop
      · cases hact
    | test =>
      simp only [act] at hact
      split at hact
      · rename_i hhand
        cases hact
        exact .test hhand
      · cases hact
    | enterHand =>
      simp only [act] at hact
      split at hact
      · rename_i hhand
        cases hact
        exact .enterHand hhand
      · cases hact
    | express tid m =>
      simp only [act] at hact
      split at hact
      · rename_i hcall
        split at hact
        · rename_i hat
          cases hact
          exact .expressNone hcall hat
        · rename_i hat
          cases hact
          exact .express hcall hat
      · cases hact
    | enter tid =>
      simp only [act] at hact
      split at hact
      · rename_i hstack
        cases hact
        exact .enter hstack
      · cases hact
    | leave tid =>
      simp only [act] at hact
      split at hact
      · rename_i hstack
        split at hact
        · cases hact
        · cases hact
          exact .leave hstack
      · cases hact
    | destroy tid =>
      simp only [act] at hact
      split at hact
      · rename_i hstack
        simp only [Option.ite_none_right_eq_some, Option.some.injEq, Prod.mk.injEq] at hact
        obtain ⟨hfree, rfl, rfl⟩ := hact
        exact .destroy hstack hfree
      · cases hact
    | erase tid =>
      simp only [act] at hact
      split at hact
      · rename_i hstack
        cases hact
        exact .erase hstack
      · cases hact
    | createLink tid malloc smProc =>
      simp only [act] at hact
      split at hact
      · rename_i hg
        split at hact
        · cases hact
          exact .createNull hg.1 hg.2
        · split at hact
          · cases hact
          · rename_i ha
            obtain ⟨ha₁, ha₂⟩ := not_or.mp ha
            cases hact
            exact .createLink hg.1 hg.2 ha₁ (by simpa using ha₂)
      · cases hact
    | createPush tid =>
      simp only [act] at hact
      split at hact
      · cases hact
      · rename_i hcreating
        simp only [Option.ite_none_right_eq_some, Option.some.injEq, Prod.mk.injEq] at hact
        obtain ⟨rfl, rfl, rfl⟩ := hact
        exact .createPush hcreating
    | push tid m =>
      simp only [act, Option.ite_none_right_eq_some, Option.some.injEq, Prod.mk.injEq] at hact
      obtain ⟨hcall, rfl, rfl⟩ := hact
      exact .push hcall
    | send tid m =>
      simp only [act, Option.ite_none_right_eq_some, Option.some.injEq, Prod.mk.injEq] at hact
      obtain ⟨⟨hcall, hfree⟩, rfl, rfl⟩ := hact
      exact .send hcall hfree
    | setXtick tid hsm n100msec param2 sysflag =>
      simp only [act, Option.ite_none_right_eq_some, Option.some.injEq, Prod.mk.injEq] at hact
      obtain ⟨⟨hcall, hsem⟩, rfl, rfl⟩ := hact
      cases hslot : freeTick s.ticks with
      | none =>
        simp only [smSetXtick, hslot]
        exact .setFull hcall hslot
      | some j =>
        simp only [smSetXtick, hslot]
        exact .setXtick hcall hsem hslot
    | destroyTick tid htick =>
      simp only [act, Option.ite_none_right_eq_some, Option.some.injEq, Prod.mk.injEq] at hact
      obtain ⟨⟨hcall, hsem⟩, rfl, rfl⟩ := hact
      exact .destroyTick hcall hsem
    | tickStart =>
      simp only [act, Option.ite_none_right_eq_some, Option.some.injEq, Prod.mk.injEq] at hact
      obtain ⟨⟨hpc, hsem⟩, rfl, rfl⟩ := hact
      exact .tickStart hpc hsem
    | tickLook =>
      simp only [act] at hact
      split at hact
      · rename_i hpc
        split at hact
        · split at hact
          · cases hact
          · rename_i hlook
            cases hact
            exact .tickDue hpc hlook
          · rename_i hlook
            cases hact
            exact .tickPass hpc hlook
        · cases hact
      · cases hact
    | tickSend =>
      simp only [act] at hact
      split at hact
      · rename_i hpc
        simp only [Option.ite_none_right_eq_some, Option.some.injEq, Prod.mk.injEq] at hact
        obtain ⟨hfree, rfl, rfl⟩ := hact
        exact .tickSend hpc hfree
      · cases hact
    | tickEnd =>
      simp only [act, Option.ite_none_right_eq_some, Option.some.injEq, Prod.mk.injEq] at hact
      obtain ⟨hpc, rfl, rfl⟩ := hact
      exact .tickEnd hpc

/-! ## The queued messages -/

/-- The queued messages with their posts, oldest first. -/
def entries (s : Sys) : List (Message × Post) := s.q.contents.zip s.posts

/-- What every run keeps, whatever its steps. -/
structure Wf (s : Sys) : Prop where
  /-- The ring's representation invariant. -/
  valid : s.q.Valid
  /-- The size `run_smallwin` gives it. -/
  size : s.q.queueSize = smallwinNmsgq + 1
  /-- One post on record for each queued message. -/
  aligned : s.posts.length = s.q.contents.length
  /-- Windows have different addresses. -/
  addrs : (s.windows.map Win.hsm).Nodup
  /-- No window is at the null address. -/
  nonzero : ∀ w ∈ s.windows, w.hsm ≠ skInvalidHsm
  /-- Windows were linked in the past. -/
  born_lt : ∀ w ∈ s.windows, w.born < s.now

/-- The part of `Wf` about the ring. -/
structure QueueWf (q : Msgq) (posts : List Post) : Prop where
  /-- The ring's representation invariant. -/
  valid : q.Valid
  /-- The size `run_smallwin` gives it. -/
  size : q.queueSize = smallwinNmsgq + 1
  /-- One post on record for each queued message. -/
  aligned : posts.length = q.contents.length

theorem Wf.queue (h : s.Wf) : QueueWf s.q s.posts := ⟨h.valid, h.size, h.aligned⟩

/-- A push is accepted, and queues its message, exactly when its handle is not null and the ring is not
full; otherwise nothing changes. -/
theorem post_cases (h : QueueWf s.q s.posts) (m : Message) (origin : Origin) :
    QueueWf (s.post m origin).q (s.post m origin).posts ∧
      ((m.hsm ≠ skInvalidHsm ∧ getNmessage s.q < smallwinNmsgq ∧
          (s.post m origin).entries = s.entries ++ [(m, ⟨s.now, origin⟩)]) ∨
        (¬ (m.hsm ≠ skInvalidHsm ∧ getNmessage s.q < smallwinNmsgq) ∧
          (s.post m origin).entries = s.entries)) := by
  obtain ⟨hsm, message, param1, param2⟩ := m
  -- the ring of `run_smallwin` has one slot more than `SMALLWIN_NMSGQ`
  have hfull : getNmessage s.q < smallwinNmsgq ↔ s.q.contents.length + 1 < s.q.size := by
    rw [Msgq.getNmessage_eq h.valid, Msgq.size, h.size]
    omega
  by_cases hne : hsm = skInvalidHsm
  · subst hne
    simp only [post, entries, Msgq.pushMessage_invalid]
    exact ⟨h, Or.inr ⟨fun hn => hn.1 rfl, rfl⟩⟩
  · obtain ⟨hok, hno⟩ := Msgq.pushMessage_spec h.valid hne message param1 param2
    by_cases hroom : s.q.contents.length + 1 < s.q.size
    · obtain ⟨q', hq', hv, hc, hsz, -⟩ := hok hroom
      simp only [post, entries, hq', if_true]
      refine ⟨⟨hv, hsz.trans h.size, ?_⟩, Or.inl ⟨hne, hfull.mpr hroom, ?_⟩⟩
      · rw [hc, List.length_append, List.length_append, h.aligned]
        rfl
      · rw [hc, List.zip_append h.aligned.symm]
        rfl
    · simp only [post, entries, hno hroom]
      exact ⟨h, Or.inr ⟨fun hn => hroom (hfull.mp hn.2), rfl⟩⟩

/-- A pop that finds a message finds the oldest. -/
theorem pop_entries (h : QueueWf s.q s.posts) {v : ℤ} {m : Message} {q : Msgq}
    (hpop : popMessage s.q = some ((v, some m), q)) :
    QueueWf q s.posts.tail ∧
      s.entries = (m, s.posts.headD ⟨0, .sender⟩) :: q.contents.zip s.posts.tail := by
  obtain ⟨q₁, hwait, hsec⟩ := Option.map_eq_some_iff.mp hpop
  rw [waitEvent] at hwait
  split at hwait
  · cases hwait
  · obtain rfl := Option.some.inj hwait
    obtain ⟨hcons, hnil⟩ := Msgq.popSection_spec (h.valid.semEvent (s.q.semEvent - 1))
    rw [Msgq.contents_semEvent] at hcons hnil
    cases hc : s.q.contents with
    | nil =>
      rw [hnil hc] at hsec
      cases hsec
    | cons m' l =>
      obtain ⟨q', hq', hv, hc', hsz, -⟩ := hcons m' l hc
      rw [hq'] at hsec
      cases hsec
      have halign := h.aligned
      rw [hc, List.length_cons] at halign
      -- there is a post on record for the message popped
      obtain ⟨p, ps, hps⟩ := List.exists_cons_of_length_eq_add_one halign
      rw [hps, List.length_cons] at halign
      refine ⟨⟨hv, hsz.trans h.size, ?_⟩, ?_⟩
      · rw [hps, hc', List.tail_cons]
        omega
      · rw [entries, hc, hps, hc']
        rfl

/-- A pop that finds nothing leaves the queued messages. -/
theorem popEmpty_contents (h : QueueWf s.q s.posts) {v : ℤ} {q : Msgq}
    (hpop : popMessage s.q = some ((v, none), q)) :
    QueueWf q s.posts ∧ q.contents = s.q.contents := by
  obtain ⟨q₁, hwait, hsec⟩ := Option.map_eq_some_iff.mp hpop
  rw [waitEvent] at hwait
  split at hwait
  · cases hwait
  · obtain rfl := Option.some.inj hwait
    rw [popSection] at hsec
    split at hsec
    · cases hsec
    · cases hsec
      exact ⟨⟨h.valid.semEvent _, h.size, h.aligned⟩, rfl⟩

/-- Erasing blanks the queued messages for the handle, in place. -/
theorem erase_entries (h : QueueWf s.q s.posts) (hsm : Hsm) :
    QueueWf (eraseMessage s.q hsm) s.posts ∧
      (eraseMessage s.q hsm).contents.zip s.posts =
        s.entries.map fun e => (if e.1.hsm = hsm then blankAll e.1 else e.1, e.2) := by
  obtain ⟨hv, hc⟩ := Msgq.sweep_spec h.valid (fun m => m.hsm = hsm) blankAll
  refine ⟨⟨hv, h.size, ?_⟩, ?_⟩
  · show s.posts.length = (sweep _ _ _).contents.length
    rw [hc, List.length_map, h.aligned]
  · show (sweep _ _ _).contents.zip s.posts = _
    rw [hc, entries, List.zip_map_left]
    refine List.map_congr_left ?_
    intro e _
    simp only [Prod.map, id, decide_eq_true_eq]

/-- An erased handle is named by no queued message. -/
theorem ne_of_mem_erase (h : QueueWf s.q s.posts) {hsm : Hsm} (hne : hsm ≠ skInvalidHsm)
    {e : Message × Post} (he : e ∈ (eraseMessage s.q hsm).contents.zip s.posts) : e.1.hsm ≠ hsm := by
  rw [(erase_entries h hsm).2] at he
  obtain ⟨e', -, rfl⟩ := List.mem_map.mp he
  by_cases hhit : e'.1.hsm = hsm
  · rw [if_pos hhit]
    exact hne.symm
  · rwa [if_neg hhit]

/-- The step that erases. -/
theorem step_erase {tid : ℕ} {m : Message} {born : ℕ} {rest : List Frame}
    (hdef : s.undefined = false) (hstack : s.threads tid = .running m born .destroyed :: rest) :
    step s (.erase tid) =
      some (.silent, tick { s.setStack tid rest with q := eraseMessage s.q m.hsm }) := by
  rw [step, hdef, if_neg (by decide)]
  simp only [act, hstack, Option.map_some]
  rfl

/-- The step that erases, with the array written out. -/
theorem step_eraseArray {tid : ℕ} {m : Message} {born : ℕ} {rest : List Frame}
    (hdef : s.undefined = false) (hstack : s.threads tid = .running m born .destroyed :: rest) :
    step s (.erase tid) = some (.silent, tick { s.setStack tid rest with
      q := { s.q with
        queue := fun j => if 0 ≤ j ∧ j < s.q.queueSize.toNat ∧ (s.q.queue j).hsm = m.hsm then
          blankAll (s.q.queue j) else s.q.queue j } }) := by
  rw [step_erase hdef hstack, Msgq.eraseMessage_eq]

/-! ## The windows -/

/-- The window at an address is the one with that address. -/
theorem Wf.windowAt_eq (h : s.Wf) {w : Win} (hw : w ∈ s.windows) : s.windowAt w.hsm = some w := by
  -- the search finds some window at the address, and there is only one
  have huniq : ∀ v ∈ s.windows, v.hsm = w.hsm → v = w := fun v hv hvw =>
    List.inj_on_of_nodup_map h.addrs hv hw hvw
  rw [windowAt]
  cases hfind : s.windows.find? fun v => v.hsm = w.hsm with
  | none => exact absurd (List.find?_eq_none.mp hfind w hw) (by simp)
  | some v =>
    have hv := List.find?_some hfind
    rw [huniq v (List.mem_of_find?_eq_some hfind) (by simpa using hv)]

theorem mem_of_windowAt {hsm : Hsm} {w : Win} (h : s.windowAt hsm = some w) :
    w ∈ s.windows ∧ w.hsm = hsm :=
  ⟨List.mem_of_find?_eq_some h, by simpa using List.find?_some h⟩

theorem windowAt_eq_none {hsm : Hsm} (h : s.windowAt hsm = none) : ∀ w ∈ s.windows, w.hsm ≠ hsm :=
  fun w hw => by simpa using List.find?_eq_none.mp h w hw

/-- The windows that destroying the one at an address leaves. -/
theorem mem_filter_windows {hsm : Hsm} {w : Win} :
    (w ∈ s.windows.filter fun w => w.hsm ≠ hsm) ↔ w ∈ s.windows ∧ w.hsm ≠ hsm := by
  simp

/-- The start. -/
theorem Wf.init (mem : ℤ → Message) : (Sys.init mem).Wf := by
  refine ⟨Msgq.Valid.initMsgq (by decide) (by decide) mem, rfl, ?_, List.nodup_nil, ?_, ?_⟩
  · show 0 = _
    rw [show (Sys.init mem).q.contents = [] from Msgq.contents_initMsgq _ _]
    rfl
  · simp [Sys.init]
  · simp [Sys.init]

/-- A step that leaves the windows keeps `Wf` if it does so for the ring. -/
theorem Wf.of_queue (h : s.Wf) {q : Msgq} {posts : List Post} (hq : QueueWf q posts) {t : Sys}
    (htq : t.q = q) (htp : t.posts = posts) (htw : t.windows = s.windows) (htn : t.now = s.now + 1) :
    t.Wf := by
  subst htq htp
  refine ⟨hq.valid, hq.size, hq.aligned, htw ▸ h.addrs, htw ▸ h.nonzero, ?_⟩
  intro w hw
  have := h.born_lt w (htw ▸ hw)
  omega

/-- **One step keeps `Wf`.** -/
theorem Wf.acts (h : s.Wf) (ha : Acts s i o t) : t.Wf := by
  cases ha with
  | popEmpty hpop => exact h.of_queue (popEmpty_contents h.queue hpop).1 rfl rfl rfl rfl
  | pop _ _ hpop => exact h.of_queue (pop_entries h.queue hpop).1 rfl rfl rfl rfl
  | erase => exact h.of_queue (erase_entries h.queue _).1 rfl rfl rfl rfl
  | createPush => exact h.of_queue (post_cases h.queue _ _).1 rfl rfl rfl rfl
  | push => exact h.of_queue (post_cases h.queue _ _).1 rfl rfl rfl rfl
  | send => exact h.of_queue (post_cases h.queue _ _).1 rfl rfl rfl rfl
  | tickSend => exact h.of_queue (post_cases h.queue _ _).1 rfl rfl rfl rfl
  | destroy =>
    refine ⟨h.valid, h.size, h.aligned, ?_, ?_, ?_⟩
    · exact h.addrs.sublist (List.filter_sublist.map _)
    · intro w hw
      exact h.nonzero w (mem_filter_windows.mp hw).1
    · intro w hw
      exact Nat.lt_succ_of_lt (h.born_lt w (mem_filter_windows.mp hw).1)
  | createLink _ _ ha hat =>
    have hnew := windowAt_eq_none hat
    refine ⟨h.valid, h.size, h.aligned, ?_, ?_, ?_⟩
    · show (List.map Win.hsm (s.windows ++ [_])).Nodup
      rw [List.map_append]
      -- `malloc` gave an address no window of the list has
      refine List.nodup_append.mpr ⟨h.addrs, by simp, ?_⟩
      intro x hx y hy hxy
      obtain ⟨w, hw, rfl⟩ := List.mem_map.mp hx
      obtain rfl : y = _ := by simpa using hy
      exact hnew w hw hxy
    · intro w hw
      rcases List.mem_append.mp hw with hw | hw
      · exact h.nonzero w hw
      · rw [List.mem_singleton.mp hw]
        exact ha
    · intro w hw
      rcases List.mem_append.mp hw with hw | hw
      · exact Nat.lt_succ_of_lt (h.born_lt w hw)
      · rw [List.mem_singleton.mp hw]
        exact Nat.lt_succ_self _
  | _ => exact h.of_queue h.queue rfl rfl rfl rfl

/-- Every run keeps `Wf`. -/
theorem Wf.run {mem : ℤ → Message} {steps : List SysStep} {es : List SysEvent}
    (hrun : StepMachine.run step (Sys.init mem) steps = some (es, s)) : s.Wf :=
  StepMachine.run_induction step (fun _ _ s => s.Wf) (Wf.init mem)
    (fun _ _ _ _ _ _ _ h hs => h.acts (step_cases hs).2) hrun

/-- A property of every frame is kept when a thread's new stack has it. -/
theorem forall_setStack {P : Frame → Prop} (h : ∀ tid, ∀ f ∈ s.threads tid, P f) {tid : ℕ}
    {stack : List Frame} (hstack : ∀ f ∈ stack, P f) :
    ∀ tid', ∀ f ∈ (s.setStack tid stack).threads tid', P f := by
  intro tid'
  show ∀ f ∈ Function.update s.threads tid stack tid', P f
  by_cases htid : tid' = tid
  · rw [htid, Function.update_self]
    exact hstack
  · rw [Function.update_of_ne htid]
    exact h tid'

end Sys

end SmIpc.Sm
