import SmIpc.Sm.NoFreed
import SmIpc.Sm.OpenWindow

/-! # The threads deliver

What becomes of the messages when the threads are preempted between any two instructions, and none of them
calls `express_message`. The books the system keeps of its messages (`Books`) are carried over to the threads:
every step of a thread is one of the system or none, and the ring is the same on both sides.

* `Msgq.stored` — the message that was stored between two states of the ring; `Locks.storing` is the one that
  the next instruction stores, `Locks.entering` the one it hands to a window.
* `Told` — the threads with the books of the system they stand for, and `Told.step` keeps it over one step.
* `threads_deliver` — the messages handed to `run_sm` and those still queued are stored ones, in the order
  they were stored and each once; and where a window stays open, all of its messages are. -/

namespace SmIpc.Sm

/-! ## What is stored in the ring -/

namespace Msgq

/-- The message stored between two states of the ring. -/
def stored (q q' : Msgq) : Option Message := if q'.tail = q.tail then none else some (q'.queue q.tail)

variable {q q' : Msgq}

theorem stored_of_tail (h : q'.tail = q.tail) : stored q q' = none := if_pos h

/-- The tokens do not matter. -/
theorem stored_addTokens (q q' : Msgq) (n n' : ℕ) : stored (q.addTokens n) (q'.addTokens n') = stored q q' :=
  rfl

/-- A cursor that goes on is not where it was. -/
theorem advanceCursor_ne (h : q.Valid) (hroom : q.contents.length + 1 < q.size) :
    advanceCursor q.queueSize q.tail ≠ q.tail := by
  obtain ⟨-, -, hnext⟩ := advanceCursor_spec h.tail_nonneg h.tail_lt h.size_le
  intro heq
  rw [heq, CircularBuffer.next] at hnext
  have hpos := h.size_pos
  have hsize : q.size = q.queueSize.toNat := rfl
  split at hnext <;> omega

/-- **What `push_message` stores** is its message, if it accepts it. -/
theorem stored_pushMessage (h : q.Valid) (m : Message) :
    stored q (pushMessage q m.hsm m.message m.param1 m.param2).2 =
      if (pushMessage q m.hsm m.message m.param1 m.param2).1 = 1 then some m else none := by
  by_cases hhsm : m.hsm = skInvalidHsm
  · rw [hhsm, pushMessage_invalid, if_neg Int.zero_ne_one]
    exact stored_of_tail rfl
  · by_cases hroom : q.head - q.tail ≠ 1 ∧ q.head - q.tail ≠ -(q.queueSize - 1)
    · simp only [pushMessage, if_neg hhsm, if_pos hroom, if_true]
      rw [stored, if_neg (advanceCursor_ne h ((room_iff h).mp hroom))]
      exact congrArg some (Function.update_self _ _ _)
    · simp only [pushMessage, if_neg hhsm, if_neg hroom, if_neg Int.zero_ne_one]
      exact stored_of_tail rfl

end Msgq

/-- The message the instruction stores in the ring. -/
def Shared.stores (sh : Shared) : Instr → Option Message
  | .ring (.push m) =>
      if (Sm.pushMessage sh.q m.hsm m.message m.param1 m.param2).1 = 1 then some m else none
  | _ => none

/-- The message the next instruction stores in the ring. -/
def Locks.storing (s : Locks) (i : LockStep) : Option Message := (s.next i).bind s.shared.stores

/-- A section of the ring stores what it pushes. -/
theorem Shared.stored_ring {sh : Shared} (hv : sh.q.Valid) {op : RingOp} {x : MsgResult × Msgq}
    (h : op.exec sh.q = some x) : Msgq.stored sh.q x.2 = sh.stores (.ring op) := by
  cases op with
  | push m =>
    cases h
    exact Msgq.stored_pushMessage hv m
  | pop =>
    cases h
    apply Msgq.stored_of_tail
    show (popSection sh.q).2.tail = sh.q.tail
    unfold popSection
    split <;> rfl
  | isMessage hsm =>
    obtain ⟨v, -, rfl⟩ := Option.map_eq_some_iff.mp h
    exact Msgq.stored_of_tail rfl
  | isMessageParam hsm message param1 param2 =>
    obtain ⟨v, -, rfl⟩ := Option.map_eq_some_iff.mp h
    exact Msgq.stored_of_tail rfl
  | invalidateMessage message =>
    cases h
    exact Msgq.stored_of_tail rfl
  | eraseMessage hsm =>
    cases h
    exact Msgq.stored_of_tail rfl
  | eraseMessageType hsm message =>
    cases h
    exact Msgq.stored_of_tail rfl

/-- **What an instruction leaves alone**: the ring, unless it is a section of the ring or `wait_event`; and
`smallwin_list`, unless it links or unlinks a window. -/
theorem Shared.exec_frame {sh sh' : Shared} {r r' : MsgResult} {answer : Answer} {j : Instr} {p : List Instr}
    (h : sh.exec r answer j = some (sh', r', p)) :
    (sh'.q = sh.q ∨ (∃ op, j = .ring op) ∨ j = .waitEvent) ∧
      (sh'.windows = sh.windows ∨ (∃ smProc, j = .createWin smProc) ∨ ∃ hsm, j = .unlinkWin hsm) := by
  cases j with
  | semWait | semPost | user => cases h
  | ring op =>
    obtain ⟨x, -, heq⟩ := Option.map_eq_some_iff.mp h
    cases heq
    exact ⟨.inr (.inl ⟨op, rfl⟩), .inl rfl⟩
  | waitEvent =>
    obtain ⟨q, -, heq⟩ := Option.map_eq_some_iff.mp h
    cases heq
    exact ⟨.inr (.inr rfl), .inl rfl⟩
  | runSm m =>
    simp only [Shared.exec] at h
    split_ifs at h <;> cases h <;> exact ⟨.inl rfl, .inl rfl⟩
  | createWin smProc =>
    refine ⟨.inl ?_, .inr (.inl ⟨smProc, rfl⟩)⟩
    simp only [Shared.exec] at h
    split at h
    · cases h
      rfl
    · split_ifs at h
      cases h
      rfl
  | unlinkWin hsm =>
    refine ⟨.inl ?_, .inr (.inr ⟨hsm, rfl⟩)⟩
    simp only [Shared.exec] at h
    split_ifs at h <;> cases h <;> rfl
  | popped =>
    simp only [Shared.exec] at h
    split at h <;> cases h <;> exact ⟨.inl rfl, .inl rfl⟩
  | slot i =>
    simp only [Shared.exec] at h
    split_ifs at h <;> cases h <;> exact ⟨.inl rfl, .inl rfl⟩
  | _ =>
    cases h
    exact ⟨.inl rfl, .inl rfl⟩

/-- **What an instruction stores.** -/
theorem Shared.stored_exec {sh sh' : Shared} (hv : sh.q.Valid) {r r' : MsgResult} {answer : Answer} {j : Instr}
    {p : List Instr} (h : sh.exec r answer j = some (sh', r', p)) :
    Msgq.stored sh.q sh'.q = sh.stores j := by
  cases j with
  | ring op =>
    obtain ⟨x, hx, heq⟩ := Option.map_eq_some_iff.mp h
    cases heq
    exact Shared.stored_ring hv hx
  | waitEvent =>
    obtain ⟨q, hq, heq⟩ := Option.map_eq_some_iff.mp h
    cases heq
    apply Msgq.stored_of_tail
    rw [waitEvent] at hq
    split at hq
    · cases hq
    · cases hq
      rfl
  | _ =>
    rcases (Shared.exec_frame h).1 with hq | ⟨op, hop⟩ | hwait
    · exact Msgq.stored_of_tail (congrArg Msgq.tail hq)
    · cases hop
    · cases hwait

/-- **What a step of a thread stores.** -/
theorem Locks.storing_eq {s t : Locks} (hv : s.shared.q.Valid) {i : LockStep} {o : Unit}
    (h : Locks.step s i = some (o, t)) : s.storing i = Msgq.stored s.shared.q t.shared.q := by
  cases i with
  | go tid answer =>
    obtain ⟨w, j, k, hw, hcode, hcases⟩ := Locks.go_cases h
    have hnext : s.next (.go tid answer) = some j := by simp [Locks.next, hw, hcode]
    rw [Locks.storing, hnext, Option.bind_some]
    rcases hcases with ⟨value, held, rfl, hmoves, -⟩ | ⟨-, sh, r, p, hexec, rfl⟩
    · rw [Msgq.stored_of_tail rfl]
      rcases hmoves with ⟨x, rfl, -⟩ | ⟨x, rfl, -⟩ <;> rfl
    · exact (Shared.stored_exec hv hexec).symm
  | call tid c =>
    obtain ⟨w, k, -, -, rfl⟩ := Locks.call_cases h
    exact (Msgq.stored_of_tail rfl).symm
  | leave tid =>
    obtain ⟨w, k, -, -, rfl⟩ := Locks.leave_cases h
    exact (Msgq.stored_of_tail rfl).symm

/-! ## The windows -/

/-- A window stays in the list, but for an instruction that unlinks it. -/
theorem Shared.smProcAt_exec {sh sh' : Shared} {r r' : MsgResult} {answer : Answer} {j : Instr} {p : List Instr}
    {hsm : Hsm} (hne : j ≠ .unlinkWin hsm) (hfree : ∀ x, j = .unlinkWin x → sh.smProcAt x ≠ none)
    (h : sh.exec r answer j = some (sh', r', p)) (hat : (sh.smProcAt hsm).isSome) :
    (sh'.smProcAt hsm).isSome := by
  rcases (Shared.exec_frame h).2 with hwin | ⟨smProc, rfl⟩ | ⟨x, rfl⟩
  · rwa [Shared.smProcAt, hwin]
  · simp only [Shared.exec] at h
    split at h
    · cases h
      exact hat
    · split_ifs at h
      cases h
      -- it was found among the windows there were
      rw [Shared.smProcAt, Option.isSome_map] at hat ⊢
      rw [List.find?_append, Option.isSome_or, hat, Bool.true_or]
  · have hx : x ≠ hsm := fun heq => hne (heq ▸ rfl)
    simp only [Shared.exec] at h
    rw [if_pos (Option.isSome_iff_ne_none.mpr (hfree x rfl))] at h
    cases h
    rw [Shared.smProcAt, Option.isSome_map, List.find?_isSome] at hat ⊢
    obtain ⟨w, hw, heq⟩ := hat
    refine ⟨w, List.mem_filter.mpr ⟨hw, ?_⟩, heq⟩
    have heq : w.1 = hsm := by simpa using heq
    simpa [heq] using hx.symm

/-- **A window stays open** over a step that does not unlink it. -/
theorem Locks.smProcAt_step {s t : Locks} {i : LockStep} {o : Unit} {hsm : Hsm}
    (h : Locks.step s i = some (o, t)) (hfree : ¬ s.UsesFreed i) (hne : s.next i ≠ some (.unlinkWin hsm))
    (hat : (s.shared.smProcAt hsm).isSome) : (t.shared.smProcAt hsm).isSome := by
  cases i with
  | go tid answer =>
    obtain ⟨w, j, k, hw, hcode, hcases⟩ := Locks.go_cases h
    have hnext : s.next (.go tid answer) = some j := by simp [Locks.next, hw, hcode]
    rcases hcases with ⟨value, held, rfl, -, -⟩ | ⟨-, sh, r, p, hexec, rfl⟩
    · exact hat
    · refine Shared.smProcAt_exec (fun hj => hne (hnext.trans (congrArg some hj))) ?_ hexec hat
      rintro x rfl hnone
      rw [Locks.UsesFreed, hnext] at hfree
      exact hfree hnone
  | call tid c =>
    obtain ⟨w, k, -, -, rfl⟩ := Locks.call_cases h
    exact hat
  | leave tid =>
    obtain ⟨w, k, -, -, rfl⟩ := Locks.leave_cases h
    exact hat

/-! ## The books of the threads -/

namespace Sys

variable {s t : Sys} {i : SysStep} {o : SysEvent}

/-- What `push_message` accepts is what it stores. -/
theorem accepted_post (hv : s.q.Valid) (m : Message) (origin : Origin) :
    ((s.acceptNotes m origin).filterMap Note.accepted?).map Prod.fst =
      (Msgq.stored s.q (s.post m origin).q).toList := by
  show _ = (Msgq.stored s.q (pushMessage s.q m.hsm m.message m.param1 m.param2).2).toList
  rw [Msgq.stored_pushMessage hv, acceptNotes]
  split <;> rfl

/-- `pop_message` stores nothing. -/
theorem stored_pop {q q' : Msgq} {r : ℤ × Option Message} (h : popMessage q = some (r, q')) :
    Msgq.stored q q' = none := by
  obtain ⟨q₁, hwait, hpop⟩ := Option.map_eq_some_iff.mp h
  apply Msgq.stored_of_tail
  rw [waitEvent] at hwait
  split at hwait
  · cases hwait
  · cases hwait
    rw [popSection] at hpop
    split at hpop <;> cases hpop <;> rfl

/-- A step that accepts nothing and leaves the write cursor. -/
theorem accepted_none {ns : List Note} (hnotes : ns.filterMap Note.accepted? = [])
    (htail : t.q.tail = s.q.tail) :
    (ns.filterMap Note.accepted?).map Prod.fst = (Msgq.stored s.q t.q).toList := by
  rw [hnotes, Msgq.stored_of_tail htail]
  rfl

/-- **What a step accepts is what it stores.** -/
theorem accepted_acts (hwf : s.Wf) (ha : Acts s i o t) :
    ((s.notes i).filterMap Note.accepted?).map Prod.fst = (Msgq.stored s.q t.q).toList := by
  cases ha with
  | popEmpty hpop =>
    simp only [notes, hpop]
    exact (congrArg Option.toList (stored_pop hpop)).symm
  | pop _ _ hpop =>
    simp only [notes, hpop]
    exact (congrArg Option.toList (stored_pop hpop)).symm
  | test hhand =>
    refine accepted_none ?_ rfl
    simp only [notes, hhand]
    split <;> rfl
  | enterHand hhand => exact accepted_none (by simp only [notes, hhand]; rfl) rfl
  | erase hstack => exact accepted_none (by simp only [notes, hstack]; rfl) rfl
  | createPush hcreating =>
    simp only [notes, hcreating]
    exact accepted_post hwf.valid _ _
  | push _ => exact accepted_post hwf.valid _ _
  | send _ _ => exact accepted_post hwf.valid _ _
  | tickSend hpc _ =>
    simp only [notes, hpc]
    exact accepted_post hwf.valid _ _
  | _ => exact accepted_none rfl rfl

/-- `push_message` hands nothing over. -/
theorem handed_post (m : Message) (origin : Origin) :
    ((s.acceptNotes m origin).filterMap Note.handed?).map Prod.fst = [] := by
  rw [acceptNotes]
  split <;> rfl

/-- **What a step hands over is what `run_sm` is entered with.** -/
theorem handed_acts (hsolo : s.Solo) (ha : Acts s i o t) :
    ((s.notes i).filterMap Note.handed?).map Prod.fst = o.entered?.toList := by
  cases ha with
  | popEmpty hpop =>
    simp only [notes, hpop]
    rfl
  | pop _ _ hpop =>
    simp only [notes, hpop]
    rfl
  | test hhand =>
    simp only [notes, hhand]
    split <;> rfl
  | enterHand hhand =>
    simp only [notes, hhand]
    rfl
  | enter hstack =>
    -- no activation but the scheduler's, which is entered with the message in hand
    obtain ⟨rfl, -⟩ := hsolo.eq_zero hstack
    have hown := hsolo.scheduler
    rw [hstack] at hown
    cases hown
  | erase hstack =>
    simp only [notes, hstack]
    rfl
  | createPush hcreating =>
    simp only [notes, hcreating]
    exact handed_post _ _
  | push _ => exact handed_post _ _
  | send _ _ => exact handed_post _ _
  | tickSend hpc _ =>
    simp only [notes, hpc]
    exact handed_post _ _
  | _ => rfl

end Sys

/-- **The threads and the books of the system they stand for.** -/
structure Told (ns : List Note) (L : Locks) (S : Sys) : Prop where
  /-- The threads stand where the system is. -/
  sim : Sim false L S
  /-- Only the scheduler has activations. -/
  solo : S.Solo
  /-- The books agree with the system. -/
  books : Books ns S

namespace Told

variable {ns : List Note} {L L' : Locks} {S : Sys} {i : LockStep} {o : Unit}

/-- The start. -/
theorem init (mem : ℤ → Message) (n : ℕ) :
    Told [] (Locks.init smallwinNmsgq mem n) (Sys.init mem) := by
  exact ⟨Sim.init mem n, .init mem, Books.init mem⟩

/-- **One step of a thread** is one of the system, or none, and the books say what it stores and what it hands
to `run_sm`. -/
theorem step (h : Told ns L S) (hi : ∀ tid c, i = .call tid c → c.ByClients false)
    (hs : Locks.step L i = some (o, L')) :
    ∃ T new, Told (ns ++ new) L' T ∧ (new.filterMap Note.accepted?).map Prod.fst = (L.storing i).toList ∧
      (new.filterMap Note.handed?).map Prod.fst = (L.entering i).toList ∧
      (T = S ∧ new = [] ∨ ∃ j e, Sys.Acts S j e T ∧ new = S.notes j) := by
  obtain ⟨T, hanswers, hT⟩ := h.sim.step hi (h.sim.not_usesFreed h.solo i) hs
  -- the ring is the same on both sides, but for tokens
  have hvalid : L.shared.q.Valid := by
    have hS := h.sim.wf.valid.semEvent L.shared.q.semEvent
    rw [h.sim.queue] at hS
    exact hS
  have hstored : L.storing i = Msgq.stored S.q T.q := by
    rw [Locks.storing_eq hvalid hs, h.sim.queue, hT.queue, Msgq.stored_addTokens]
  rw [hstored]
  rcases hanswers with ⟨rfl, hv⟩ | ⟨j, e, hj, hstep, hv⟩
  · refine ⟨T, [], ⟨hT, h.solo, ?_⟩, ?_, ?_, .inl ⟨rfl, rfl⟩⟩
    · rw [List.append_nil]
      exact h.books
    · rw [Msgq.stored_of_tail rfl]
      rfl
    · rw [hv]
      rfl
  · have ha := (Sys.step_cases hstep).2
    refine ⟨T, S.notes j, ⟨hT, h.solo.acts hj ha, ?_⟩, Sys.accepted_acts h.sim.wf ha, ?_, .inr ⟨j, e, ha, rfl⟩⟩
    · exact h.books.step h.sim.wf (by rw [Sys.noted, hstep]; rfl)
    · rw [← hv]
      exact Sys.handed_acts h.solo ha

/-- The queued messages, on both sides. -/
theorem contents (h : Told ns L S) : S.entries.map Prod.fst = L.shared.q.contents := by
  have hlen : S.q.contents.length ≤ S.posts.length := Nat.le_of_eq h.sim.wf.aligned.symm
  have hsame : S.q.contents = L.shared.q.contents := by
    rw [h.sim.queue]
    rfl
  rw [Sys.entries, List.map_fst_zip hlen, hsame]

/-- What was handed over and what is queued and not blank was accepted, in this order. -/
theorem sublist (h : Told ns L S) :
    ((ns.filterMap Note.handed?).map Prod.fst ++
        L.shared.q.contents.filter fun m => m.hsm ≠ skInvalidHsm).Sublist
      ((ns.filterMap Note.accepted?).map Prod.fst) := by
  have hlive : S.live.map Prod.fst = L.shared.q.contents.filter fun m => m.hsm ≠ skInvalidHsm := by
    rw [← h.contents, List.filter_map]
    rfl
  have hbooks := h.books.sublist.map Prod.fst
  rw [List.map_append, hlive] at hbooks
  refine List.Sublist.trans (List.Sublist.append ?_ (List.Sublist.refl _)) hbooks
  exact ((handed_sublist ns).trans (List.sublist_append_left _ _)).map Prod.fst

/-- Where nothing is dropped or erased of the messages for a window, all of them are handed over, but for one
in hand and those that are queued. -/
theorem delivered (h : Told ns L S) {hsm : Hsm} (hne : hsm ≠ skInvalidHsm)
    (hdropped : ∀ e, .dropped e ∈ ns → e.1.hsm ≠ hsm) (herased : ∀ time, .erased hsm time ∉ ns) :
    ∃ inHand : List Message, inHand.length ≤ 1 ∧
      ((ns.filterMap Note.accepted?).map Prod.fst).filter (fun m => m.hsm = hsm) =
        ((ns.filterMap Note.handed?).map Prod.fst ++ inHand ++ L.shared.q.contents).filter
          fun m => m.hsm = hsm := by
  refine ⟨S.inHand.map Prod.fst, ?_, ?_⟩
  · rw [List.length_map, Sys.inHand, List.length_map]
    exact Option.length_toList_le
  · have hall := congrArg (List.map Prod.fst) (h.books.delivered hne hdropped herased)
    rw [← h.contents, List.filter_map, ← List.map_append, ← List.map_append, List.filter_map]
    exact hall

end Told

/-! ## Runs -/

/-- A step of one thread, with the message it stores in the ring and the one it hands to `run_sm`. -/
def Locks.traffic : StepMachine Locks LockStep (Option Message × Option Message) :=
  fun s i => (Locks.step s i).map fun r => ((s.storing i, s.entering i), r.2)

/-- The step does not unlink the window, and stores a message for it only while it is in the list. -/
def Locks.KeepsOpen (hsm : Hsm) (s : Locks) (i : LockStep) : Prop :=
  s.next i ≠ some (.unlinkWin hsm) ∧
    ∀ m, s.storing i = some m → m.hsm = hsm → (s.shared.smProcAt hsm).isSome

theorem Locks.KeepsOpen.of_storing_none {hsm : Hsm} {s : Locks} {i : LockStep}
    (hnext : s.next i ≠ some (.unlinkWin hsm)) (hnone : s.storing i = none) : s.KeepsOpen hsm i := by
  refine ⟨hnext, ?_⟩
  intro m hm
  rw [hnone] at hm
  cases hm

/-- Whether a window is in the list, on both sides. -/
theorem Sim.isSome_windowAt {e : Bool} {L : Locks} {S : Sys} (h : Sim e L S) (hsm : Hsm) :
    (S.windowAt hsm).isSome = (L.shared.smProcAt hsm).isSome := by
  rw [h.smProcAt, Option.isSome_map]

/-- **A step that keeps a window open** keeps its messages. -/
theorem Told.open_step {ns new : List Note} {L L' : Locks} {S T : Sys} {i : LockStep} {o : Unit} {hsm : Hsm}
    (h : Told ns L S) (hT : Told (ns ++ new) L' T) (hS : S.Open hsm) (hne : hsm ≠ skInvalidHsm)
    (hs : Locks.step L i = some (o, L')) (hkeeps : L.KeepsOpen hsm i)
    (hnew : (new.filterMap Note.accepted?).map Prod.fst = (L.storing i).toList)
    (hwhat : T = S ∧ new = [] ∨ ∃ j e, Sys.Acts S j e T ∧ new = S.notes j) :
    T.Open hsm ∧ (∀ e, .dropped e ∈ new → e.1.hsm ≠ hsm) ∧ ∀ time, .erased hsm time ∉ new := by
  rcases hwhat with ⟨rfl, rfl⟩ | ⟨j, e, ha, rfl⟩
  · exact ⟨hS, by simp, by simp⟩
  · refine ⟨hS.acts h.sim.wf hne ha hT.sim.defined ?_ ?_, hS.notes j⟩
    · rw [h.sim.isSome_windowAt, hT.sim.isSome_windowAt]
      exact Locks.smProcAt_step hs (h.sim.not_usesFreed h.solo i) hkeeps.1
    · intro a ha' hhsm
      rw [h.sim.isSome_windowAt]
      have hmem : a.1 ∈ ((S.notes j).filterMap Note.accepted?).map Prod.fst :=
        List.mem_map_of_mem (List.mem_filterMap.mpr ⟨_, ha', rfl⟩)
      rw [hnew, Option.mem_toList] at hmem
      exact hkeeps.2 a.1 hmem hhsm

/-- The books of a run. -/
structure Told.After (os : List (Option Message × Option Message)) (ns : List Note) (L : Locks) (S : Sys) :
    Prop extends Told ns L S where
  /-- What was accepted was stored. -/
  stored : (ns.filterMap Note.accepted?).map Prod.fst = os.filterMap Prod.fst
  /-- What was handed over `run_sm` was entered with. -/
  entered : (ns.filterMap Note.handed?).map Prod.fst = os.filterMap Prod.snd

/-- One more step. -/
theorem Told.After.step {os : List (Option Message × Option Message)} {ns : List Note} {L L' : Locks} {S : Sys}
    (h : Told.After os ns L S) {i : LockStep} {v : Option Message × Option Message}
    (hi : ∀ tid c, i = .call tid c → c.ByClients false) (hs : Locks.traffic L i = some (v, L')) :
    ∃ T new, Told.After (os ++ [v]) (ns ++ new) L' T ∧
      ∀ hsm, hsm ≠ skInvalidHsm → S.Open hsm → L.KeepsOpen hsm i →
        T.Open hsm ∧ (∀ e, .dropped e ∈ new → e.1.hsm ≠ hsm) ∧ ∀ time, .erased hsm time ∉ new := by
  obtain ⟨⟨u, L''⟩, hstep, heq⟩ := Option.map_eq_some_iff.mp hs
  obtain ⟨rfl, rfl⟩ := Prod.mk.inj heq
  obtain ⟨T, new, htold, haccepted, hhanded, hwhat⟩ := h.toTold.step hi hstep
  refine ⟨T, new, ⟨htold, ?_, ?_⟩, fun hsm hne hS hkeeps =>
    h.toTold.open_step htold hS hne hstep hkeeps haccepted hwhat⟩
  · rw [List.filterMap_append, List.map_append, h.stored, haccepted, PairedLists.filterMap_snoc]
  · rw [List.filterMap_append, List.map_append, h.entered, hhanded, PairedLists.filterMap_snoc]

/-- **The threads deliver.** In every run of the threads, preempted between any two instructions, in which
nobody calls `express_message` and only the scheduler pops and erases: the messages handed to `run_sm`, then
those queued and not blank, are messages that `push_message` stored, intact, in the order they were stored and
each once. And while a window is not unlinked, and messages are stored for it only then, its messages are all
handed over, in order, but for one the scheduler has in hand and those that are queued. -/
theorem threads_deliver (mem : ℤ → Message) (n : ℕ) (steps : List LockStep)
    (hcalls : ∀ i ∈ steps, ∀ tid c, i = .call tid c → c.ByClients false)
    (os : List (Option Message × Option Message)) (L : Locks)
    (hrun : StepMachine.run Locks.traffic (Locks.init smallwinNmsgq mem n) steps = some (os, L)) :
    (os.filterMap Prod.snd ++ L.shared.q.contents.filter fun m => m.hsm ≠ skInvalidHsm).Sublist
        (os.filterMap Prod.fst) ∧
      ∀ hsm, hsm ≠ skInvalidHsm →
        StepMachine.Along Locks.traffic (Locks.KeepsOpen hsm) (Locks.init smallwinNmsgq mem n) steps →
        ∃ inHand : List Message, inHand.length ≤ 1 ∧
          (os.filterMap Prod.fst).filter (fun m => m.hsm = hsm) =
            (os.filterMap Prod.snd ++ inHand ++ L.shared.q.contents).filter fun m => m.hsm = hsm := by
  have hclients : StepMachine.Along Locks.traffic (fun _ i => ∀ tid c, i = .call tid c → c.ByClients false)
      (Locks.init smallwinNmsgq mem n) steps :=
    StepMachine.along_of_forall_mem Locks.traffic (fun i hi _ => hcalls i hi) _
  constructor
  · have hafter : ∃ ns S, Told.After os ns L S := by
      refine StepMachine.run_induction_along Locks.traffic _ (fun _ os L => ∃ ns S, Told.After os ns L S)
        ⟨[], Sys.init mem, .init mem n, rfl, rfl⟩ ?_ hclients hrun
      rintro is os L i v L' - ⟨ns, S, h⟩ hi hs
      obtain ⟨T, new, hT, -⟩ := h.step hi hs
      exact ⟨ns ++ new, T, hT⟩
    obtain ⟨ns, S, h⟩ := hafter
    rw [← h.entered, ← h.stored]
    exact h.toTold.sublist
  · intro hsm hne hopen
    have hafter : ∃ ns S, Told.After os ns L S ∧ S.Open hsm ∧ (∀ e, .dropped e ∈ ns → e.1.hsm ≠ hsm) ∧
        ∀ time, .erased hsm time ∉ ns := by
      refine StepMachine.run_induction_along Locks.traffic _
        (fun _ os L => ∃ ns S, Told.After os ns L S ∧ S.Open hsm ∧
          (∀ e, .dropped e ∈ ns → e.1.hsm ≠ hsm) ∧ ∀ time, .erased hsm time ∉ ns)
        ⟨[], Sys.init mem, ⟨.init mem n, rfl, rfl⟩, .init hsm mem, by simp, by simp⟩ ?_
        (StepMachine.along_and hclients hopen) hrun
      rintro is os L i v L' - ⟨ns, S, h, hS, hdropped, herased⟩ ⟨hi, hkeeps⟩ hs
      obtain ⟨T, new, hT, hopened⟩ := h.step hi hs
      obtain ⟨hTopen, hdropped', herased'⟩ := hopened hsm hne hS hkeeps
      refine ⟨ns ++ new, T, hT, hTopen, ?_, ?_⟩
      · exact fun e he => (List.mem_append.mp he).elim (hdropped e) (hdropped' e)
      · exact fun time he => (List.mem_append.mp he).elim (herased time) (herased' time)
    obtain ⟨ns, S, h, -, hdropped, herased⟩ := hafter
    rw [← h.entered, ← h.stored]
    exact h.toTold.delivered hne hdropped herased

/-- A window that is created and stays open. -/
theorem threads_deliver_create : ∃ os L,
    StepMachine.run Locks.traffic (Locks.init smallwinNmsgq (fun _ => ⟨0, 0, 0, 0⟩) 1)
        (.call 2 (.smCreateSmallwin none) :: .go 2 ⟨none, []⟩ :: .go 2 ⟨some 16, []⟩ ::
          (List.replicate 3 (.go 2 ⟨none, []⟩) ++ List.replicate 8 (.go 0 ⟨none, []⟩))) = some (os, L) ∧
      os.filterMap Prod.snd = [⟨16, smmCreate, 0, 0⟩] ∧ L.shared.q.contents = [] ∧
      (os.filterMap Prod.snd).Sublist (os.filterMap Prod.fst) ∧
      ∃ inHand : List Message, inHand.length ≤ 1 ∧
        (os.filterMap Prod.fst).filter (fun m => m.hsm = 16) =
          (os.filterMap Prod.snd ++ inHand).filter fun m => m.hsm = 16 := by
  obtain ⟨os, L, hrun, hentered, hempty⟩ : ∃ os L,
      StepMachine.run Locks.traffic (Locks.init smallwinNmsgq (fun _ => ⟨0, 0, 0, 0⟩) 1)
          (.call 2 (.smCreateSmallwin none) :: .go 2 ⟨none, []⟩ :: .go 2 ⟨some 16, []⟩ ::
            (List.replicate 3 (.go 2 ⟨none, []⟩) ++ List.replicate 8 (.go 0 ⟨none, []⟩))) = some (os, L) ∧
        os.filterMap Prod.snd = [⟨16, smmCreate, 0, 0⟩] ∧ L.shared.q.contents = [] := ⟨_, _, rfl, rfl, rfl⟩
  obtain ⟨hsublist, hopen⟩ := threads_deliver _ 1 _ (by simp [Call.ByClients]) os L hrun
  obtain ⟨inHand, hlen, hall⟩ := hopen 16 (by decide) (by
    -- up to the link nothing is stored
    iterate 3 refine StepMachine.along_cons (.of_storing_none (by rintro ⟨⟩) rfl) rfl ?_
    iterate 11 refine StepMachine.along_cons ⟨by rintro ⟨⟩, fun _ _ _ => rfl⟩ rfl ?_
    trivial)
  rw [hempty, List.filter_nil, List.append_nil] at hsublist
  rw [hempty, List.append_nil] at hall
  exact ⟨os, L, hrun, hentered, hempty, hsublist, inHand, hlen, hall⟩

end SmIpc.Sm
