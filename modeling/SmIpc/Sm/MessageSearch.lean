import SmIpc.Sm.MessageFifo

/-! # The searches and the erasers of the message ring

`is_message` and `is_message_param` walk from the read cursor to the write cursor; the erasers sweep the
whole array, live slots and dead ones. Both agree with the list of queued messages, wherever the ring
wraps and whatever its dead slots hold.

* `searchLoop_eq` — a search ends, and tells whether a queued message is hit.
* `RingCall` is a call of the interface with the searches; `Msgq.Alike.exec` and `Msgq.Alike.run` say that
  rings with the same contents answer all further calls alike, so that dead slots are not observable.
* `lacks_run` — a window without queued messages has none until a push for it.
* `RingContract` states what the searches and erasers have to do, and `ring_searches_and_erasers` proves
  it of every ring that calls can lead to. -/

namespace SmIpc.Sm

open CircularBuffer (view count)

/-! ## The searches -/

namespace Msgq

variable {q : Msgq}

/-- **A search from an index on** ends, and tells whether one of the messages up to the write cursor is
hit. -/
theorem searchLoop_eq (h : q.Valid) (hit : Message → Bool) {fuel : ℕ} {i : ℤ} (hi : 0 ≤ i)
    (hlt : i < q.queueSize) (hfuel : count q.size i.toNat q.tail.toNat < fuel) :
    searchLoop hit q fuel i = some
      (if (view (fun j => q.queue j) q.size i.toNat (count q.size i.toNat q.tail.toNat)).any hit
        then 1 else 0) := by
  induction fuel generalizing i with
  | zero => omega
  | succ fuel ih =>
    rw [searchLoop]
    by_cases htail : i = q.tail
    · rw [if_pos htail, htail, CircularBuffer.count_self]
      rfl
    · rw [if_neg htail]
      have hi' : i.toNat < q.size := by unfold size; omega
      have hne : i.toNat ≠ q.tail.toNat := by have := h.tail_nonneg; omega
      -- the messages from here are the one at the index, and those from the next index on
      have hview := CircularBuffer.view_pop (fun j : ℕ => q.queue j) hi' h.tail_toNat_lt hne
      rw [Int.toNat_of_nonneg hi] at hview
      have hcount := CircularBuffer.count_next_head hi' h.tail_toNat_lt hne
      have hnext : (if i + 1 = q.queueSize then 0 else i + 1).toNat =
          CircularBuffer.next q.size i.toNat := by
        unfold CircularBuffer.next size
        split_ifs <;> omega
      rw [hview, List.any_cons]
      cases hhit : hit (q.queue i) with
      | true =>
        rw [if_pos rfl, Bool.true_or]
        rfl
      | false =>
        rw [if_neg Bool.false_ne_true, Bool.false_or, ← hnext]
        refine ih ?_ ?_ ?_
        · split_ifs <;> omega
        · split_ifs <;> omega
        · rw [hnext]
          omega

/-- A search from the read cursor looks at the queued messages. -/
theorem searchLoop_head (h : q.Valid) (hit : Message → Bool) :
    searchLoop hit q q.queueSize.toNat q.head = some (if q.contents.any hit then 1 else 0) :=
  searchLoop_eq h hit h.head_nonneg h.head_lt (CircularBuffer.count_lt h.head_toNat_lt h.tail_toNat_lt)

/-- **`is_message`** tells whether a queued message is for the window. -/
theorem isMessage_eq (h : q.Valid) {hsm : Hsm} (hne : hsm ≠ skInvalidHsm) :
    isMessage q hsm = some (if ∃ m ∈ q.contents, m.hsm = hsm then 1 else 0) := by
  rw [isMessage, if_neg hne, searchLoop_head h]
  simp only [List.any_eq_true, decide_eq_true_eq]

/-- **`is_message_param`** tells whether the message is queued. -/
theorem isMessageParam_eq (h : q.Valid) (hsm : Hsm) (message param1 param2 : UInt32) :
    isMessageParam q hsm message param1 param2 =
      some (if ⟨hsm, message, param1, param2⟩ ∈ q.contents then 1 else 0) := by
  rw [isMessageParam, searchLoop_head h]
  simp only [List.any_eq_true, decide_eq_true_eq, exists_eq_right]

end Msgq

/-! ## Calls with the searches -/

/-- A call of the whole interface of the message ring. -/
inductive RingCall where
  /-- A call that is not a search. -/
  | call (c : MsgCall)
  /-- `is_message(hsm)`. -/
  | isMessage (hsm : Hsm)
  /-- `is_message_param(hsm, message, param1, param2)`. -/
  | isMessageParam (hsm : Hsm) (message param1 param2 : UInt32)
  deriving DecidableEq, Repr

/-- A completed call, as the code executes it. -/
def RingCall.exec : StepMachine Msgq RingCall MsgResult
  | q, .call c => MsgCall.exec q c
  | q, .isMessage hsm => (Sm.isMessage q hsm).map fun v => (⟨v, none⟩, q)
  | q, .isMessageParam hsm message param1 param2 =>
      (Sm.isMessageParam q hsm message param1 param2).map fun v => (⟨v, none⟩, q)

/-- The call is a push for the window. -/
def RingCall.PushesFor (hsm : Hsm) : RingCall → Prop
  | .call (.pushMessage hsm' _ _ _) => hsm' = hsm
  | _ => False

/-- Two rings that hold the same: what they differ in is where the cursors stand and what the dead slots
hold. -/
structure Msgq.Alike (q q' : Msgq) : Prop where
  /-- The first is a ring. -/
  valid : q.Valid
  /-- The second is a ring. -/
  valid' : q'.Valid
  /-- They have the same number of slots. -/
  size_eq : q.queueSize = q'.queueSize
  /-- The same messages are queued. -/
  contents_eq : q.contents = q'.contents
  /-- The same number of pops do not block. -/
  semEvent_eq : q.semEvent = q'.semEvent

namespace Msgq.Alike

variable {q q' : Msgq}

theorem symm (h : q.Alike q') : q'.Alike q :=
  ⟨h.valid', h.valid, h.size_eq.symm, h.contents_eq.symm, h.semEvent_eq.symm⟩

theorem semEvent (h : q.Alike q') (k : ℕ) :
    Alike { q with semEvent := k } { q' with semEvent := k } :=
  ⟨h.valid.semEvent k, h.valid'.semEvent k, h.size_eq, h.contents_eq, rfl⟩

/-- Sweeps of two rings that hold the same leave them so. -/
theorem sweep (h : q.Alike q') (hit : Message → Bool) (blank : Message → Message) :
    Alike (Sm.sweep hit blank q) (Sm.sweep hit blank q') := by
  obtain ⟨hv, hc⟩ := sweep_spec h.valid hit blank
  obtain ⟨hv', hc'⟩ := sweep_spec h.valid' hit blank
  exact ⟨hv, hv', h.size_eq, by rw [hc, hc', h.contents_eq], h.semEvent_eq⟩

/-- A push is accepted by both or by neither. -/
theorem pushMessage (h : q.Alike q') (hsm : Hsm) (message param1 param2 : UInt32) :
    (Sm.pushMessage q hsm message param1 param2).1 =
        (Sm.pushMessage q' hsm message param1 param2).1 ∧
      Alike (Sm.pushMessage q hsm message param1 param2).2
        (Sm.pushMessage q' hsm message param1 param2).2 := by
  by_cases hne : hsm = skInvalidHsm
  · subst hne
    rw [pushMessage_invalid, pushMessage_invalid]
    exact ⟨rfl, h⟩
  · obtain ⟨hok, hfull⟩ := pushMessage_spec h.valid hne message param1 param2
    obtain ⟨hok', hfull'⟩ := pushMessage_spec h.valid' hne message param1 param2
    have hroom : q.contents.length + 1 < q.size ↔ q'.contents.length + 1 < q'.size := by
      rw [h.contents_eq, size, size, h.size_eq]
    by_cases hlt : q.contents.length + 1 < q.size
    · obtain ⟨q₁, hq₁, hv, hc, hs, he⟩ := hok hlt
      obtain ⟨q₁', hq₁', hv', hc', hs', he'⟩ := hok' (hroom.mp hlt)
      rw [hq₁, hq₁']
      refine ⟨rfl, hv, hv', ?_, ?_, ?_⟩
      · rw [hs, hs', h.size_eq]
      · rw [hc, hc', h.contents_eq]
      · rw [he, he', h.semEvent_eq]
    · rw [hfull hlt, hfull' fun hlt' => hlt (hroom.mpr hlt')]
      exact ⟨rfl, h⟩

/-- The section of a pop takes the same message from both. -/
theorem popSection (h : q.Alike q') :
    (Sm.popSection q).1 = (Sm.popSection q').1 ∧
      Alike (Sm.popSection q).2 (Sm.popSection q').2 := by
  obtain ⟨hcons, hnil⟩ := popSection_spec h.valid
  obtain ⟨hcons', hnil'⟩ := popSection_spec h.valid'
  cases hc : q.contents with
  | nil =>
    rw [hnil hc, hnil' (h.contents_eq ▸ hc), h.semEvent_eq]
    exact ⟨rfl, h.semEvent _⟩
  | cons m l =>
    obtain ⟨q₁, hq₁, hv, hl, hs, he⟩ := hcons m l hc
    obtain ⟨q₁', hq₁', hv', hl', hs', he'⟩ := hcons' m l (h.contents_eq ▸ hc)
    rw [hq₁, hq₁']
    refine ⟨rfl, hv, hv', ?_, ?_, ?_⟩
    · rw [hs, hs', h.size_eq]
    · rw [hl, hl']
    · rw [he, he', h.semEvent_eq]

/-- **A call that is not a search** is answered alike. -/
theorem msgCall (h : q.Alike q') {c : MsgCall} {r : MsgResult} {q₁ : Msgq}
    (hc : MsgCall.exec q c = some (r, q₁)) :
    ∃ q₁', MsgCall.exec q' c = some (r, q₁') ∧ q₁.Alike q₁' := by
  cases c with
  | pushMessage hsm message param1 param2 =>
    obtain ⟨hv, hq⟩ := h.pushMessage hsm message param1 param2
    cases hc
    exact ⟨_, by rw [MsgCall.exec, hv], hq⟩
  | popMessage =>
    simp only [MsgCall.exec, Sm.popMessage, waitEvent] at hc ⊢
    rw [← h.semEvent_eq]
    by_cases hzero : q.semEvent = 0
    · rw [if_pos hzero] at hc
      cases hc
    · rw [if_neg hzero] at hc
      obtain ⟨hv, hq⟩ := (h.semEvent (q.semEvent - 1)).popSection
      cases hc
      refine ⟨_, ?_, hq⟩
      rw [if_neg hzero, Option.map_some, Option.map_some, hv]
  | eraseMessage hsm =>
    cases hc
    exact ⟨_, rfl, h.sweep _ _⟩
  | eraseMessageType hsm message =>
    cases hc
    exact ⟨_, rfl, h.sweep _ _⟩
  | invalidateMessage message =>
    cases hc
    exact ⟨_, rfl, h.sweep _ _⟩
  | getNmessage =>
    cases hc
    refine ⟨q', ?_, h⟩
    rw [MsgCall.exec, getNmessage_eq h.valid, getNmessage_eq h.valid', h.contents_eq]

/-- **A call is answered alike** by two rings that hold the same. -/
theorem exec (h : q.Alike q') {op : RingCall} {r : MsgResult} {q₁ : Msgq}
    (hop : RingCall.exec q op = some (r, q₁)) :
    ∃ q₁', RingCall.exec q' op = some (r, q₁') ∧ q₁.Alike q₁' := by
  cases op with
  | call c => exact h.msgCall hop
  | isMessage hsm =>
    have hsame : Sm.isMessage q hsm = Sm.isMessage q' hsm := by
      by_cases hne : hsm = skInvalidHsm
      · rw [Sm.isMessage, Sm.isMessage, if_pos hne, if_pos hne]
      · rw [isMessage_eq h.valid hne, isMessage_eq h.valid' hne, h.contents_eq]
    obtain ⟨v, hv, heq⟩ := Option.map_eq_some_iff.mp hop
    cases heq
    exact ⟨q', by rw [RingCall.exec, ← hsame, hv, Option.map_some], h⟩
  | isMessageParam hsm message param1 param2 =>
    obtain ⟨v, hv, heq⟩ := Option.map_eq_some_iff.mp hop
    cases heq
    refine ⟨q', ?_, h⟩
    rw [isMessageParam_eq h.valid, h.contents_eq, ← isMessageParam_eq h.valid'] at hv
    rw [RingCall.exec, hv, Option.map_some]

/-- **All further calls are answered alike** by two rings that hold the same: with the same results, or
by blocking in the same pop. -/
theorem run (h : q.Alike q') (ops : List RingCall) :
    (StepMachine.run RingCall.exec q ops).map Prod.fst =
      (StepMachine.run RingCall.exec q' ops).map Prod.fst := by
  have hsim : ∀ {a b : Msgq}, a.Alike b → ∀ {rs : List MsgResult} {a' : Msgq},
      StepMachine.run RingCall.exec a ops = some (rs, a') →
        ∃ b', StepMachine.run RingCall.exec b ops = some (rs, b') ∧ a'.Alike b' := by
    intro a b hab rs a' hrun
    exact StepMachine.run_refines RingCall.exec RingCall.exec Alike
      (fun _ _ _ _ _ hR hop => hR.exec hop) hab hrun
  cases hrun : StepMachine.run RingCall.exec q ops with
  | some r =>
    obtain ⟨b, hb, -⟩ := hsim h hrun
    rw [hb]
    rfl
  | none =>
    cases hrun' : StepMachine.run RingCall.exec q' ops with
    | none => rfl
    | some r =>
      obtain ⟨b, hb, -⟩ := hsim h.symm hrun'
      rw [hrun] at hb
      cases hb

end Msgq.Alike

/-! ## A window without messages -/

/-- No queued message is for the window. -/
def Msgq.Lacks (hsm : Hsm) (q : Msgq) : Prop := ∀ m ∈ q.contents, m.hsm ≠ hsm

namespace Msgq

variable {q : Msgq} {hsm : Hsm}

/-- A sweep gives no window a message that had none, if what it leaves has the null handle or the old
one. -/
theorem Lacks.sweep (h : q.Lacks hsm) (hv : q.Valid) (hne : hsm ≠ skInvalidHsm)
    (hit : Message → Bool) {blank : Message → Message}
    (hblank : ∀ m, (blank m).hsm = 0 ∨ (blank m).hsm = m.hsm) :
    (Sm.sweep hit blank q).Lacks hsm := by
  intro m hm
  rw [(sweep_spec hv hit blank).2] at hm
  obtain ⟨m', hm', rfl⟩ := List.mem_map.mp hm
  split
  · rcases hblank m' with h₀ | h₀
    · rw [h₀]
      exact Ne.symm hne
    · rw [h₀]
      exact h m' hm'
  · exact h m' hm'

/-- After `erase_message` the window has no messages. -/
theorem lacks_eraseMessage (hv : q.Valid) (hne : hsm ≠ skInvalidHsm) :
    (Sm.eraseMessage q hsm).Lacks hsm := by
  intro m hm
  rw [Sm.eraseMessage, (sweep_spec hv _ _).2] at hm
  obtain ⟨m', -, rfl⟩ := List.mem_map.mp hm
  by_cases hm' : m'.hsm = hsm
  · rw [if_pos (decide_eq_true hm')]
    exact Ne.symm hne
  · rwa [if_neg (by simpa using hm')]

/-- **A call that is not a push for the window** keeps it without messages, and the ring valid. -/
theorem Lacks.exec (h : q.Lacks hsm) (hv : q.Valid) (hne : hsm ≠ skInvalidHsm) {op : RingCall}
    {r : MsgResult} {q' : Msgq} (hop : RingCall.exec q op = some (r, q'))
    (hpush : ¬ op.PushesFor hsm) : q'.Valid ∧ q'.Lacks hsm := by
  cases op with
  | isMessage _ =>
    obtain ⟨_, -, heq⟩ := Option.map_eq_some_iff.mp hop
    cases heq
    exact ⟨hv, h⟩
  | isMessageParam _ _ _ _ =>
    obtain ⟨_, -, heq⟩ := Option.map_eq_some_iff.mp hop
    cases heq
    exact ⟨hv, h⟩
  | call c =>
    cases c with
    | pushMessage hsm' message param1 param2 =>
      cases hop
      by_cases hne' : hsm' = skInvalidHsm
      · subst hne'
        rw [pushMessage_invalid]
        exact ⟨hv, h⟩
      · obtain ⟨hok, hfull⟩ := pushMessage_spec hv hne' message param1 param2
        by_cases hroom : q.contents.length + 1 < q.size
        · obtain ⟨q₁, hq₁, hv₁, hc, -, -⟩ := hok hroom
          rw [hq₁]
          refine ⟨hv₁, ?_⟩
          intro m hm
          rw [hc, List.mem_append, List.mem_singleton] at hm
          rcases hm with hm | rfl
          · exact h m hm
          · exact hpush
        · rw [hfull hroom]
          exact ⟨hv, h⟩
    | popMessage =>
      simp only [RingCall.exec, MsgCall.exec, Sm.popMessage, Option.map_map,
        Option.map_eq_some_iff] at hop
      obtain ⟨q₁, hw, hr⟩ := hop
      have hq₁ : q₁.Valid ∧ q₁.contents = q.contents := by
        rw [waitEvent] at hw
        split at hw
        · cases hw
        · obtain rfl := Option.some.inj hw
          exact ⟨hv.semEvent _, rfl⟩
      obtain ⟨hcons, hnil⟩ := popSection_spec hq₁.1
      obtain ⟨-, rfl⟩ := Prod.mk.inj hr
      cases hl : q₁.contents with
      | nil =>
        rw [hnil hl]
        exact ⟨hq₁.1.semEvent _, fun m hm => h m (hq₁.2 ▸ hm)⟩
      | cons m ms =>
        obtain ⟨q₂, hq₂, hv₂, hc, -, -⟩ := hcons m ms hl
        rw [hq₂]
        refine ⟨hv₂, ?_⟩
        intro m' hm'
        rw [hc] at hm'
        refine h m' ?_
        rw [← hq₁.2, hl]
        exact List.mem_cons_of_mem m hm'
    | eraseMessage _ =>
      cases hop
      exact ⟨(sweep_spec hv _ _).1, h.sweep hv hne _ fun _ => .inl rfl⟩
    | eraseMessageType _ _ =>
      cases hop
      exact ⟨(sweep_spec hv _ _).1, h.sweep hv hne _ fun _ => .inl rfl⟩
    | invalidateMessage _ =>
      cases hop
      exact ⟨(sweep_spec hv _ _).1, h.sweep hv hne _ fun _ => .inr rfl⟩
    | getNmessage =>
      cases hop
      exact ⟨hv, h⟩

/-- **A window without messages** has none until a push for it. -/
theorem lacks_run (hv : q.Valid) (h : q.Lacks hsm) (hne : hsm ≠ skInvalidHsm) {ops : List RingCall}
    {rs : List MsgResult} {q' : Msgq} (hops : ∀ op ∈ ops, ¬ op.PushesFor hsm)
    (hrun : StepMachine.run RingCall.exec q ops = some (rs, q')) : q'.Valid ∧ q'.Lacks hsm := by
  refine StepMachine.run_induction_along RingCall.exec (fun _ op => ¬ op.PushesFor hsm)
    (fun _ _ q => q.Valid ∧ q.Lacks hsm) ⟨hv, h⟩ ?_
    (StepMachine.along_of_forall_mem RingCall.exec (fun op hop _ => hops op hop) q) hrun
  rintro _ _ q₁ op r q₂ - ⟨hv₁, h₁⟩ hop hq
  exact h₁.exec hv₁ hne hq hop

end Msgq

/-! ## The contract -/

/-- What an eraser that changes queued messages by `f` has to do. -/
structure Msgq.Erases (f : Message → Message) (q q' : Msgq) : Prop where
  /-- The read cursor stays. -/
  head_eq : q'.head = q.head
  /-- The write cursor stays. -/
  tail_eq : q'.tail = q.tail
  /-- The array stays. -/
  size_eq : q'.queueSize = q.queueSize
  /-- The count of `sem_event` stays. -/
  semEvent_eq : q'.semEvent = q.semEvent
  /-- The queued messages are changed in place. -/
  contents_eq : q'.contents = q.contents.map f
  /-- What is left in the dead slots is not seen by any further calls: they answer as for any other ring
  with the same cursors and the same queued messages. -/
  dead_unseen : ∀ q'' : Msgq, q''.head = q'.head → q''.tail = q'.tail →
    q''.queueSize = q'.queueSize → q''.semEvent = q'.semEvent → q''.contents = q'.contents →
    ∀ ops, (StepMachine.run RingCall.exec q'' ops).map Prod.fst =
      (StepMachine.run RingCall.exec q' ops).map Prod.fst

/-- What the searches and the erasers have to do on a ring. -/
structure RingContract (q : Msgq) : Prop where
  /-- `is_message` ends, with 1 exactly when a queued message is for the window. -/
  isMessage : ∀ hsm, hsm ≠ skInvalidHsm →
    Sm.isMessage q hsm = some (if ∃ m ∈ q.contents, m.hsm = hsm then 1 else 0)
  /-- `is_message_param` ends, with 1 exactly when the message is queued. -/
  isMessageParam : ∀ hsm message param1 param2,
    Sm.isMessageParam q hsm message param1 param2 =
      some (if ⟨hsm, message, param1, param2⟩ ∈ q.contents then 1 else 0)
  /-- `erase_message` blanks the queued messages for the window. -/
  eraseMessage : ∀ hsm, q.Erases
    (fun m => if m.hsm = hsm then ⟨0, smmInvalidmsg, 0, 0⟩ else m) (Sm.eraseMessage q hsm)
  /-- `erase_message_type` blanks those of them with the message number. -/
  eraseMessageType : ∀ hsm message, q.Erases
    (fun m => if m.hsm = hsm ∧ m.message = message then ⟨0, smmInvalidmsg, 0, 0⟩ else m)
    (Sm.eraseMessageType q hsm message)
  /-- `invalidate_message` blanks the queued messages with the number, all but their handles. -/
  invalidateMessage : ∀ message, q.Erases
    (fun m => if m.message = message then ⟨m.hsm, smmInvalidmsg, 0, 0⟩ else m)
    (Sm.invalidateMessage q message)
  /-- After `erase_message`, `is_message` is 0 until the next push for the window. -/
  erased : ∀ hsm, hsm ≠ skInvalidHsm → ∀ ops rs q',
    StepMachine.run RingCall.exec (Sm.eraseMessage q hsm) ops = some (rs, q') →
    (∀ op ∈ ops, ¬ op.PushesFor hsm) → Sm.isMessage q' hsm = some 0

namespace Msgq

variable {q : Msgq}

/-- A sweep is an eraser. -/
theorem erases_sweep (h : q.Valid) (hit : Message → Bool) (blank : Message → Message) :
    q.Erases (fun m => if hit m then blank m else m) (Sm.sweep hit blank q) where
  head_eq := rfl
  tail_eq := rfl
  size_eq := rfl
  semEvent_eq := rfl
  contents_eq := (sweep_spec h hit blank).2
  dead_unseen := by
    intro q'' hhead htail hsize hsem hcontents ops
    have hv := (sweep_spec h hit blank).1
    have hv'' : q''.Valid :=
      ⟨hsize ▸ hv.size_pos, hsize ▸ hv.size_le, hhead ▸ hv.head_nonneg,
        hhead ▸ hsize ▸ hv.head_lt, htail ▸ hv.tail_nonneg, htail ▸ hsize ▸ hv.tail_lt⟩
    exact Alike.run ⟨hv'', hv, hsize, hcontents, hsem⟩ ops

/-- **A valid ring meets the contract**, whatever its dead slots hold. -/
theorem ringContract (h : q.Valid) : RingContract q where
  isMessage := fun _ hne => isMessage_eq h hne
  isMessageParam := isMessageParam_eq h
  eraseMessage := by
    intro hsm
    have he := erases_sweep h (fun m => m.hsm = hsm) blankAll
    simp only [decide_eq_true_eq] at he
    exact he
  eraseMessageType := by
    intro hsm message
    have he := erases_sweep h (fun m => m.hsm = hsm && m.message = message) blankAll
    simp only [Bool.and_eq_true, decide_eq_true_eq] at he
    exact he
  invalidateMessage := by
    intro message
    have he := erases_sweep h (fun m => m.message = message) blankKeepHsm
    simp only [decide_eq_true_eq] at he
    exact he
  erased := by
    intro hsm hne ops rs q' hrun hops
    have hv : (Sm.eraseMessage q hsm).Valid := (sweep_spec h _ _).1
    obtain ⟨hv', hlacks⟩ := lacks_run hv (lacks_eraseMessage h hne) hne hops hrun
    rw [isMessage_eq hv' hne, if_neg]
    rintro ⟨m, hm, heq⟩
    exact hlacks m hm heq

/-- A call keeps the representation invariant. -/
theorem Valid.ringCall (h : q.Valid) {op : RingCall} {r : MsgResult} {q' : Msgq}
    (hop : RingCall.exec q op = some (r, q')) : q'.Valid := by
  have halike : q.Alike q := ⟨h, h, rfl, rfl, rfl⟩
  obtain ⟨_, -, hq'⟩ := halike.exec hop
  exact hq'.valid

end Msgq

/-- **The searches and the erasers agree with the list of queued messages** in every ring that calls can
lead to from `init_msgq`, whatever the capacity, the memory it was given and the count of
`sem_event`. -/
theorem ring_searches_and_erasers (nqueue : ℕ) (hsize : nqueue ≤ 32766) (mem : ℤ → Message)
    (semEvent : ℕ) (ops : List RingCall) (rs : List MsgResult) (q : Msgq)
    (hrun : StepMachine.run RingCall.exec { initMsgq nqueue mem with semEvent := semEvent } ops =
      some (rs, q)) :
    RingContract q := by
  refine Msgq.ringContract (StepMachine.run_induction RingCall.exec (fun _ _ q => q.Valid) ?_ ?_ hrun)
  · exact (Msgq.Valid.initMsgq (by omega) (by omega) mem).semEvent _
  · intro _ _ q₁ op r q₂ _ hv hop
    exact hv.ringCall hop

/-- A ring of two messages, after a push and a pop. -/
theorem ring_searches_and_erasers_push_pop :
    ∃ q, StepMachine.run RingCall.exec { initMsgq 2 (fun _ => ⟨9, smmTick, 3, 4⟩) with semEvent := 0 }
        [.call (.pushMessage 7 smmTick 1 2), .call .popMessage, .isMessage 7] =
          some ([⟨1, none⟩, ⟨1, some ⟨7, smmTick, 1, 2⟩⟩, ⟨0, none⟩], q) ∧
      RingContract q :=
  ⟨_, rfl, ring_searches_and_erasers 2 (by decide) (fun _ => ⟨9, smmTick, 3, 4⟩) 0
    [.call (.pushMessage 7 smmTick 1 2), .call .popMessage, .isMessage 7]
    [⟨1, none⟩, ⟨1, some ⟨7, smmTick, 1, 2⟩⟩, ⟨0, none⟩] _ rfl⟩

end SmIpc.Sm
