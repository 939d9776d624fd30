import SmIpc.Lib.Machine
import SmIpc.Lib.BoundedFifo
import SmIpc.Sm.Message

/-! # The message ring is a bounded FIFO

One specification lemma for each function of `smmsg.c` (`pushMessage_spec`, `popSection_spec`,
`sweep_spec`): what it returns and does to the list of queued messages, with the representation
invariant kept. Over them `MsgCall` is a call of the ring's interface, `MsgCall.exec` its execution
by the code and `MsgCall.spec` its meaning on a bounded FIFO of messages; whole call sequences of
the two give the same results (`ring_refines_fifo`). -/

namespace SmIpc.Sm

namespace Msgq

variable {q : Msgq}

/-- The two differences `push_message` tests for are exactly the full ring. -/
theorem room_iff (h : q.Valid) :
    (q.head - q.tail ≠ 1 ∧ q.head - q.tail ≠ -(q.queueSize - 1)) ↔
      q.contents.length + 1 < q.size := by
  obtain ⟨_, _, hh, hh', ht, ht'⟩ := h
  rw [contents, CircularBuffer.length_view]
  unfold CircularBuffer.count size
  split_ifs <;> omega

/-- A cursor that is advanced and wrapped stays inside the array, and is the next slot. -/
theorem advanceCursor_spec {x n : ℤ} (h₀ : 0 ≤ x) (h₁ : x < n) (hn : n ≤ 32767) :
    0 ≤ advanceCursor n x ∧ advanceCursor n x < n ∧
      (advanceCursor n x).toNat = CircularBuffer.next n.toNat x.toNat := by
  simp only [advanceCursor, CircularBuffer.next, toS16_of_lt (x := x + 1) (by omega) (by omega)]
  split_ifs <;> omega

/-- **`push_message` of a non-null handle.** With room it returns 1, appends its message and posts
`sem_event` once; without room it returns 0 and changes nothing. -/
theorem pushMessage_spec (h : q.Valid) {hsm : Hsm} (hne : hsm ≠ skInvalidHsm)
    (message param1 param2 : UInt32) :
    (q.contents.length + 1 < q.size →
      ∃ q', pushMessage q hsm message param1 param2 = (1, q') ∧ q'.Valid ∧
        q'.contents = q.contents ++ [⟨hsm, message, param1, param2⟩] ∧
        q'.queueSize = q.queueSize ∧ q'.semEvent = q.semEvent + 1) ∧
    (¬ q.contents.length + 1 < q.size →
      pushMessage q hsm message param1 param2 = (0, q)) := by
  rw [← room_iff h]
  constructor
  · intro hroom
    obtain ⟨hv₀, hv₁, hv₂⟩ := advanceCursor_spec h.tail_nonneg h.tail_lt h.size_le
    refine ⟨{ q with
      queue := Function.update q.queue q.tail ⟨hsm, message, param1, param2⟩
      semEvent := q.semEvent + 1
      tail := advanceCursor q.queueSize q.tail }, ?_, ?_, ?_, rfl, rfl⟩
    · simp only [pushMessage, if_neg hne, if_pos hroom]
    · exact ⟨h.size_pos, h.size_le, h.head_nonneg, h.head_lt, hv₀, hv₁⟩
    · have hslots : (fun i : ℕ => Function.update q.queue q.tail
          (⟨hsm, message, param1, param2⟩ : Message) i) =
          Function.update (fun i : ℕ => q.queue i) q.tail.toNat ⟨hsm, message, param1, param2⟩ := by
        funext i
        have hi : (i : ℤ) = q.tail ↔ i = q.tail.toNat := by have := h.tail_nonneg; omega
        simp only [Function.update_apply, hi]
      have hroom' := (room_iff h).mp hroom
      rw [contents, CircularBuffer.length_view] at hroom'
      simp only [contents, size, hslots, hv₂]
      exact CircularBuffer.view_push _ _ h.head_toNat_lt h.tail_toNat_lt hroom'
  · intro hfull
    simp only [pushMessage, if_neg hne, if_neg hfull]

/-- `push_message` of the null handle returns 0 and changes nothing. -/
theorem pushMessage_invalid (q : Msgq) (message param1 param2 : UInt32) :
    pushMessage q skInvalidHsm message param1 param2 = (0, q) := if_pos rfl

/-- **The section of `pop_message`.** On a non-empty ring it returns 1 and the oldest message and
removes that message only; on an empty ring it returns 0, posts `sem_event` and leaves the ring. -/
theorem popSection_spec (h : q.Valid) :
    (∀ m l, q.contents = m :: l →
      ∃ q', popSection q = ((1, some m), q') ∧ q'.Valid ∧ q'.contents = l ∧
        q'.queueSize = q.queueSize ∧ q'.semEvent = q.semEvent) ∧
    (q.contents = [] → popSection q = ((0, none), { q with semEvent := q.semEvent + 1 })) := by
  have hnil : q.contents = [] ↔ q.head = q.tail := by
    rw [contents, ← List.length_eq_zero_iff, CircularBuffer.length_view,
      CircularBuffer.count_eq_zero_iff h.head_toNat_lt]
    have := h.head_nonneg
    have := h.tail_nonneg
    omega
  constructor
  · intro m l hml
    have hne : q.head ≠ q.tail := fun he => by simp [hnil.mpr he] at hml
    have hneNat : q.head.toNat ≠ q.tail.toNat := by
      have := h.head_nonneg
      have := h.tail_nonneg
      omega
    obtain ⟨hv₀, hv₁, hv₂⟩ := advanceCursor_spec h.head_nonneg h.head_lt h.size_le
    have hpop := CircularBuffer.view_pop (fun i : ℕ => q.queue i) h.head_toNat_lt
      h.tail_toNat_lt hneNat
    rw [contents, hpop] at hml
    obtain ⟨hm, hl⟩ := List.cons.inj hml
    rw [Int.toNat_of_nonneg h.head_nonneg] at hm
    refine ⟨{ q with head := advanceCursor q.queueSize q.head }, ?_, ?_, ?_, rfl, rfl⟩
    · rw [popSection, if_pos hne, hm]
    · exact ⟨h.size_pos, h.size_le, hv₀, hv₁, h.tail_nonneg, h.tail_lt⟩
    · simp only [contents, size, hv₂]
      exact hl
  · intro he
    rw [popSection, if_neg (not_not.mpr (hnil.mp he))]

/-- The search of `is_message` and `is_message_param` ends: it looks at the queued messages only. -/
theorem searchLoop_isSome (h : q.Valid) (hit : Message → Bool) {fuel : ℕ} {i : ℤ} (hi : 0 ≤ i)
    (hlt : i < q.queueSize) (hfuel : CircularBuffer.count q.size i.toNat q.tail.toNat < fuel) :
    (searchLoop hit q fuel i).isSome := by
  induction fuel generalizing i with
  | zero => omega
  | succ fuel ih =>
    rw [searchLoop]
    split_ifs with htail hhit hwrap
    · rfl
    · rfl
    all_goals
      -- one step of the search leaves one message less to the write cursor
      have hi' : i.toNat < q.size := by unfold size; omega
      have hne : i.toNat ≠ q.tail.toNat := by have := h.tail_nonneg; omega
      have hcount := CircularBuffer.count_next_head hi' h.tail_toNat_lt hne
      unfold size CircularBuffer.next at hcount
    · rw [if_pos (by omega)] at hcount
      refine ih (Int.le_refl 0) (by omega) ?_
      rw [Int.toNat_zero, size]
      rw [size] at hfuel
      omega
    · rw [if_neg (by omega)] at hcount
      refine ih (by omega) (by omega) ?_
      rw [show (i + 1).toNat = i.toNat + 1 by omega, size]
      rw [size] at hfuel
      omega

/-- What the sweep leaves in each slot: the slots it passes that are hit are blanked. -/
theorem sweepLoop_apply (hit : Message → Bool) (blank : Message → Message) (n : ℕ) (i : ℤ)
    (mem : ℤ → Message) (j : ℤ) :
    sweepLoop hit blank n i mem j =
      if i ≤ j ∧ j < i + n ∧ hit (mem j) then blank (mem j) else mem j := by
  induction n generalizing i mem with
  | zero =>
    rw [sweepLoop, if_neg]
    rintro ⟨h₀, h₁, -⟩
    omega
  | succ n ih =>
    rw [sweepLoop, ih]
    by_cases hij : j = i
    · -- slot `i` is changed now, and not passed again
      subst hij
      have hlt : j < j + ((n + 1 : ℕ) : ℤ) := by omega
      rw [if_neg (by omega)]
      by_cases hhit : hit (mem j)
      · rw [if_pos hhit, Function.update_self, if_pos ⟨Int.le_refl j, hlt, hhit⟩]
      · rw [if_neg hhit, if_neg (fun h => hhit h.2.2)]
    · have hmem : (if hit (mem i) then Function.update mem i (blank (mem i)) else mem) j = mem j := by
        split
        · rw [Function.update_of_ne hij]
        · rfl
      have hrange : (i + 1 ≤ j ∧ j < i + 1 + (n : ℤ)) ↔ (i ≤ j ∧ j < i + ((n + 1 : ℕ) : ℤ)) := by
        omega
      simp only [hmem, ← and_assoc, hrange]

/-- `erase_message` as one change of the whole array. -/
theorem eraseMessage_eq (q : Msgq) (hsm : Hsm) :
    eraseMessage q hsm = { q with
      queue := fun j => if 0 ≤ j ∧ j < q.queueSize.toNat ∧ (q.queue j).hsm = hsm then
        blankAll (q.queue j) else q.queue j } := by
  rw [eraseMessage, sweep]
  congr 1
  funext j
  simp only [sweepLoop_apply, Int.zero_add, decide_eq_true_eq]

/-- **The erasers.** Exactly the queued messages that are hit are blanked, in place; the dead slots
that happen to be hit are not seen. -/
theorem sweep_spec (h : q.Valid) (hit : Message → Bool) (blank : Message → Message) :
    (sweep hit blank q).Valid ∧
      (sweep hit blank q).contents =
        q.contents.map fun m => if hit m then blank m else m := by
  refine ⟨⟨h.size_pos, h.size_le, h.head_nonneg, h.head_lt, h.tail_nonneg, h.tail_lt⟩, ?_⟩
  refine CircularBuffer.view_map _ h.head_toNat_lt
    (CircularBuffer.count_lt h.head_toNat_lt h.tail_toNat_lt) ?_
  intro j hj
  have hj' : (j : ℤ) < (q.queueSize.toNat : ℕ) := by exact_mod_cast hj
  simp only [sweep, sweepLoop_apply, Int.zero_add, hj', Int.natCast_nonneg, true_and]

end Msgq

/-! ## Calls -/

/-- A call of the interface of the message ring. -/
inductive MsgCall where
  /-- `push_message(hsm, message, param1, param2)`. -/
  | pushMessage (hsm : Hsm) (message param1 param2 : UInt32)
  /-- `pop_message`. -/
  | popMessage
  /-- `erase_message(hsm)`. -/
  | eraseMessage (hsm : Hsm)
  /-- `erase_message_type(hsm, message)`. -/
  | eraseMessageType (hsm : Hsm) (message : UInt32)
  /-- `invalidate_message(message)`. -/
  | invalidateMessage (message : UInt32)
  /-- `get_nmessage()`. -/
  | getNmessage
  deriving DecidableEq, Repr

/-- What a call hands back: its return value and, for a pop that found one, the message. -/
structure MsgResult where
  /-- The return value (0 for the erasers, which have none). -/
  value : ℤ
  /-- The message written through the pointers of `pop_message`. -/
  message : Option Message
  deriving DecidableEq, Repr

/-- A completed call, as the code executes it; `none` is a `pop_message` that blocks. -/
def MsgCall.exec : StepMachine Msgq MsgCall MsgResult
  | q, .pushMessage hsm message param1 param2 =>
      let r := Sm.pushMessage q hsm message param1 param2
      some (⟨r.1, none⟩, r.2)
  | q, .popMessage => (Sm.popMessage q).map fun r => (⟨r.1.1, r.1.2⟩, r.2)
  | q, .eraseMessage hsm => some (⟨0, none⟩, Sm.eraseMessage q hsm)
  | q, .eraseMessageType hsm message => some (⟨0, none⟩, Sm.eraseMessageType q hsm message)
  | q, .invalidateMessage message => some (⟨0, none⟩, Sm.invalidateMessage q message)
  | q, .getNmessage => some (⟨Sm.getNmessage q, none⟩, q)

/-- **A call completes**, but for a `pop_message` that finds no token in `sem_event` and blocks. -/
theorem MsgCall.exec_isSome_iff (q : Msgq) (c : MsgCall) :
    (MsgCall.exec q c).isSome ↔ (c = .popMessage → 0 < q.semEvent) := by
  cases c with
  | popMessage =>
    simp only [MsgCall.exec, Sm.popMessage, Option.isSome_map, waitEvent, forall_const]
    split
    · simp [*]
    · exact iff_of_true rfl (Nat.pos_of_ne_zero ‹_›)
  | _ => exact iff_of_true rfl MsgCall.noConfusion

/-- **What a call means on a bounded FIFO of messages.** A push of a non-null handle is a push of the
queue; a pop takes the oldest message; an eraser blanks the messages that match, in place;
`get_nmessage` is the number of queued messages. -/
def MsgCall.spec {cap : ℕ} : StepMachine (BoundedFifo Message cap) MsgCall MsgResult
  | l, .pushMessage hsm message param1 param2 =>
      if hsm = skInvalidHsm then some (⟨0, none⟩, l)
      else
        let r := l.push ⟨hsm, message, param1, param2⟩
        some (⟨if r.1 then 1 else 0, none⟩, r.2)
  | l, .popMessage => some (⟨if l.items = [] then 0 else 1, l.pop.1⟩, l.pop.2)
  | l, .eraseMessage hsm =>
      some (⟨0, none⟩, l.map fun m => if m.hsm = hsm then blankAll m else m)
  | l, .eraseMessageType hsm message =>
      some (⟨0, none⟩, l.map fun m =>
        if m.hsm = hsm ∧ m.message = message then blankAll m else m)
  | l, .invalidateMessage message =>
      some (⟨0, none⟩, l.map fun m => if m.message = message then blankKeepHsm m else m)
  | l, .getNmessage => some (⟨l.items.length, none⟩, l)

/-- The refinement relation: a valid ring of `cap + 1` slots whose contents are the queue's items. -/
structure Msgq.Refines {cap : ℕ} (q : Msgq) (l : BoundedFifo Message cap) : Prop where
  /-- The representation invariant. -/
  valid : q.Valid
  /-- One slot more than the capacity. -/
  size_eq : q.queueSize = cap + 1
  /-- The entries between the cursors are the items. -/
  contents_eq : q.contents = l.items

namespace Msgq.Refines

variable {cap : ℕ} {q : Msgq} {l : BoundedFifo Message cap}

theorem room (h : q.Refines l) : q.contents.length + 1 < q.size ↔ l.items.length < cap := by
  have := h.size_eq
  rw [h.contents_eq, Msgq.size]
  omega

/-- A sweep of the array is the same change of the queued messages. -/
theorem sweep (h : q.Refines l) (hit : Message → Bool) (blank : Message → Message) :
    (Sm.sweep hit blank q).Refines (l.map fun m => if hit m then blank m else m) := by
  obtain ⟨hv, hc⟩ := sweep_spec h.valid hit blank
  exact ⟨hv, h.size_eq, by rw [hc, h.contents_eq, BoundedFifo.map_items]⟩

/-- **One call of the code is one call of the queue**, with the same result. -/
theorem exec (h : q.Refines l) (c : MsgCall) (r : MsgResult) (q' : Msgq)
    (hc : MsgCall.exec q c = some (r, q')) :
    ∃ l', MsgCall.spec l c = some (r, l') ∧ q'.Refines l' := by
  cases c with
  | pushMessage hsm message param1 param2 =>
    simp only [MsgCall.exec, Option.some.injEq, Prod.mk.injEq] at hc
    obtain ⟨rfl, rfl⟩ := hc
    by_cases hne : hsm = skInvalidHsm
    · subst hne
      rw [pushMessage_invalid]
      exact ⟨l, by simp only [MsgCall.spec, if_pos], h⟩
    · -- both sides refuse the message exactly when `cap` are queued
      obtain ⟨hok, hfull⟩ := pushMessage_spec h.valid hne message param1 param2
      simp only [MsgCall.spec, if_neg hne]
      by_cases hroom : l.items.length < cap
      · obtain ⟨q₁, hq₁, hv, hcont, hsize, -⟩ := hok (h.room.mpr hroom)
        obtain ⟨hp₁, hp₂⟩ := l.push_of_lt ⟨hsm, message, param1, param2⟩ hroom
        rw [hq₁, hp₁]
        refine ⟨_, rfl, hv, hsize.trans h.size_eq, ?_⟩
        rw [hcont, h.contents_eq, hp₂]
      · rw [hfull (fun hr => hroom (h.room.mp hr)), l.push_of_full _ hroom]
        exact ⟨l, rfl, h⟩
  | popMessage =>
    simp only [MsgCall.exec, Sm.popMessage, Option.map_map, Option.map_eq_some_iff] at hc
    obtain ⟨q₁, hw, hr⟩ := hc
    have hq₁ : q₁.Refines l := by
      rw [waitEvent] at hw
      split at hw
      · cases hw
      · obtain rfl := Option.some.inj hw
        exact ⟨h.valid.semEvent _, h.size_eq, h.contents_eq⟩
    -- the token taken from `sem_event` is not part of what the ring holds
    obtain ⟨hcons, hnil⟩ := popSection_spec hq₁.valid
    simp only [Function.comp_apply, Prod.mk.injEq] at hr
    obtain ⟨rfl, rfl⟩ := hr
    rw [hq₁.contents_eq] at hcons hnil
    refine ⟨l.pop.2, ?_⟩
    cases hl : l.items with
    | nil =>
      rw [hnil hl, MsgCall.spec, BoundedFifo.pop_fst, hl]
      refine ⟨rfl, hq₁.valid.semEvent _, hq₁.size_eq, ?_⟩
      rw [contents_semEvent, hq₁.contents_eq, BoundedFifo.pop_snd_items, hl, List.tail_nil]
    | cons m ms =>
      obtain ⟨q₂, hq₂, hv, hcont, hsize, -⟩ := hcons m ms hl
      rw [hq₂, MsgCall.spec, BoundedFifo.pop_fst, hl]
      refine ⟨rfl, hv, hsize.trans hq₁.size_eq, ?_⟩
      rw [hcont, BoundedFifo.pop_snd_items, hl, List.tail_cons]
  | eraseMessage hsm =>
    simp only [MsgCall.exec, Option.some.injEq, Prod.mk.injEq] at hc
    obtain ⟨rfl, rfl⟩ := hc
    have hs := h.sweep (fun m => m.hsm = hsm) blankAll
    simp only [decide_eq_true_eq] at hs
    exact ⟨_, rfl, hs⟩
  | eraseMessageType hsm message =>
    simp only [MsgCall.exec, Option.some.injEq, Prod.mk.injEq] at hc
    obtain ⟨rfl, rfl⟩ := hc
    have hs := h.sweep (fun m => m.hsm = hsm && m.message = message) blankAll
    simp only [Bool.and_eq_true, decide_eq_true_eq] at hs
    exact ⟨_, rfl, hs⟩
  | invalidateMessage message =>
    simp only [MsgCall.exec, Option.some.injEq, Prod.mk.injEq] at hc
    obtain ⟨rfl, rfl⟩ := hc
    have hs := h.sweep (fun m => m.message = message) blankKeepHsm
    simp only [decide_eq_true_eq] at hs
    exact ⟨_, rfl, hs⟩
  | getNmessage =>
    simp only [MsgCall.exec, Option.some.injEq, Prod.mk.injEq] at hc
    obtain ⟨rfl, rfl⟩ := hc
    refine ⟨l, ?_, h⟩
    rw [MsgCall.spec, getNmessage_eq h.valid, h.contents_eq]

end Msgq.Refines

/-- **The ring refines a bounded FIFO.** Whatever the capacity, the initial memory and the count of
`sem_event`, every finite sequence of completed calls after `init_msgq` gives the results it gives on
a bounded FIFO of `nqueue` messages; the ring then holds the items of that queue, `get_nmessage` is
their number, and both cursors are inside the array. -/
theorem ring_refines_fifo (nqueue : ℕ) (hsize : nqueue ≤ 32766) (mem : ℤ → Message)
    (semEvent : ℕ) (calls : List MsgCall) (rs : List MsgResult) (q : Msgq)
    (hrun : StepMachine.run MsgCall.exec { initMsgq nqueue mem with semEvent := semEvent } calls =
      some (rs, q)) :
    ∃ l : BoundedFifo Message nqueue,
      StepMachine.run MsgCall.spec (BoundedFifo.empty Message nqueue) calls = some (rs, l) ∧
      q.contents = l.items ∧ getNmessage q = l.items.length ∧
      0 ≤ q.head ∧ q.head < q.queueSize ∧ 0 ≤ q.tail ∧ q.tail < q.queueSize := by
  have hinit : Msgq.Refines { initMsgq nqueue mem with semEvent := semEvent }
      (BoundedFifo.empty Message nqueue) :=
    ⟨(Msgq.Valid.initMsgq (by omega) (by omega) mem).semEvent _,
      Msgq.queueSize_initMsgq (by omega) (by omega) mem,
      Msgq.contents_initMsgq nqueue mem⟩
  -- the calls are matched one by one from the empty ring and the empty queue
  obtain ⟨l, hl, hR⟩ := StepMachine.run_refines MsgCall.exec MsgCall.spec Msgq.Refines
    (fun _ _ c r q' h hc => h.exec c r q' hc) hinit hrun
  refine ⟨l, hl, hR.contents_eq, ?_, hR.valid.head_nonneg, hR.valid.head_lt, hR.valid.tail_nonneg,
    hR.valid.tail_lt⟩
  rw [Msgq.getNmessage_eq hR.valid, hR.contents_eq]

/-- One push and one pop on a ring of one message. -/
theorem ring_refines_fifo_push_pop :
    ∃ l : BoundedFifo Message 1,
      StepMachine.run MsgCall.spec (BoundedFifo.empty Message 1)
        [.pushMessage 7 smmTick 1 2, .popMessage] =
          some ([⟨1, none⟩, ⟨1, some ⟨7, smmTick, 1, 2⟩⟩], l) := by
  obtain ⟨l, hl, -⟩ := ring_refines_fifo 1 (by decide) (fun _ => ⟨0, 0, 0, 0⟩) 0
    [.pushMessage 7 smmTick 1 2, .popMessage] [⟨1, none⟩, ⟨1, some ⟨7, smmTick, 1, 2⟩⟩] _ rfl
  exact ⟨l, hl⟩

end SmIpc.Sm
