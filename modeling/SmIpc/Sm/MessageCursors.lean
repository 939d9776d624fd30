import SmIpc.Sm.MessageFifo

/-! # The range of the ring's cursors

The cursors of the ring are `s16`, its size an `s32`, and the end of the array is found by comparing the
two after the increment.

* `Msgq.Sound` says what a ring of `nqueue` messages should be like in a state a sequence of pushes and
  pops reaches: its cursors are inside the array, their increments do not wrap, and a push is refused
  exactly when `nqueue` messages are queued.
* `ring_sound_iff` — every state reached is so exactly when `nqueue` is at most 32766. On a larger ring,
  32768 pushes and the pops between them lead the write cursor to a negative index
  (`Msgq.run_pushPops`). -/

namespace SmIpc.Sm

namespace MsgCall

/-- The call is one of `push_message` or `pop_message`. -/
def IsPushPop : MsgCall → Prop
  | pushMessage .. | popMessage => True
  | _ => False

/-- A push that was accepted. -/
def accepts (c : MsgCall) (r : MsgResult) : Bool :=
  match c with
  | pushMessage .. => r.value = 1
  | _ => false

/-- A pop that found a message. -/
def takes (c : MsgCall) (r : MsgResult) : Bool :=
  match c with
  | popMessage => r.value = 1
  | _ => false

/-- `n` times a push and a pop. -/
def pushPops : ℕ → List MsgCall
  | 0 => []
  | n + 1 => pushPops n ++ [.pushMessage 1 smmTick 0 0, .popMessage]

theorem isPushPop_pushPops (n : ℕ) : ∀ c ∈ pushPops n, c.IsPushPop := by
  induction n with
  | zero => exact fun c hc => absurd hc List.not_mem_nil
  | succ n ih =>
    intro c hc
    rcases List.mem_append.mp hc with hc | hc
    · exact ih c hc
    · rcases List.mem_pair.mp hc with rfl | rfl <;> trivial

end MsgCall

namespace Msgq

/-- What a ring of `nqueue` messages should be like, after `accepted` pushes were accepted and `taken` pops
found a message. -/
structure Sound (nqueue : ℤ) (accepted taken : ℕ) (q : Msgq) : Prop where
  /-- The read cursor is inside the array. -/
  head : 0 ≤ q.head ∧ q.head < q.queueSize
  /-- The write cursor is inside the array. -/
  tail : 0 ≤ q.tail ∧ q.tail < q.queueSize
  /-- An increment of the read cursor fits an `s16`. -/
  head_fits : toS16 (q.head + 1) = q.head + 1
  /-- An increment of the write cursor fits an `s16`. -/
  tail_fits : toS16 (q.tail + 1) = q.tail + 1
  /-- A push is accepted unless `nqueue` messages are queued. -/
  accepts : ∀ hsm message param1 param2, hsm ≠ skInvalidHsm →
    (pushMessage q hsm message param1 param2).1 = if (accepted : ℤ) < taken + nqueue then 1 else 0

variable {q : Msgq}

/-- **A ring that holds the items of a bounded queue is sound**, if the numbers agree. -/
theorem Refines.sound {cap : ℕ} {l : BoundedFifo Message cap} (h : q.Refines l) {accepted taken : ℕ}
    (hcount : accepted = taken + l.items.length) : q.Sound cap accepted taken := by
  obtain ⟨hv, hsize, hcont⟩ := h
  refine ⟨⟨hv.head_nonneg, hv.head_lt⟩, ⟨hv.tail_nonneg, hv.tail_lt⟩, ?_, ?_, ?_⟩
  · have := hv.head_nonneg
    have := hv.head_lt
    have := hv.size_le
    exact toS16_of_lt (by omega) (by omega)
  · have := hv.tail_nonneg
    have := hv.tail_lt
    have := hv.size_le
    exact toS16_of_lt (by omega) (by omega)
  · intro hsm message param1 param2 hne
    obtain ⟨hok, hfull⟩ := pushMessage_spec hv hne message param1 param2
    have hroom : q.contents.length + 1 < q.size ↔ (accepted : ℤ) < taken + cap := by
      rw [hcont, size]
      omega
    by_cases h : (accepted : ℤ) < taken + cap
    · obtain ⟨q', hq', -⟩ := hok (hroom.mpr h)
      rw [hq', if_pos h]
    · rw [hfull (fun h' => h (hroom.mp h')), if_neg h]

end Msgq

/-- **A push or a pop keeps the account** of the queue: an accepted push adds a message, a pop that finds
one takes it. -/
theorem MsgCall.spec_account {cap : ℕ} {l l' : BoundedFifo Message cap} {c : MsgCall} {r : MsgResult}
    (hc : c.IsPushPop) (h : MsgCall.spec l c = some (r, l')) {accepted taken : ℕ}
    (hcount : accepted = taken + l.items.length) :
    accepted + (if c.accepts r then 1 else 0) =
      taken + (if c.takes r then 1 else 0) + l'.items.length := by
  cases c with
  | pushMessage hsm message param1 param2 =>
    rw [MsgCall.spec] at h
    split at h
    · cases h
      simpa [accepts, takes] using hcount
    · by_cases hroom : l.items.length < cap
      · obtain ⟨hp₁, hp₂⟩ := l.push_of_lt ⟨hsm, message, param1, param2⟩ hroom
        cases h
        rw [hp₂, List.length_append, List.length_singleton]
        simp only [accepts, takes, hp₁, if_true, decide_true, Bool.false_eq_true, if_false]
        omega
      · cases h
        rw [l.push_of_full _ hroom]
        simpa [accepts, takes] using hcount
  | popMessage =>
    cases h
    rw [BoundedFifo.pop_snd_items]
    cases hl : l.items with
    | nil => simpa [accepts, takes, hl] using hcount
    | cons m ms =>
      rw [hl, List.length_cons] at hcount
      simp only [accepts, takes, if_neg (List.cons_ne_nil m ms), decide_true, if_true,
        Bool.false_eq_true, if_false, List.tail_cons]
      omega
  | eraseMessage | eraseMessageType | invalidateMessage | getNmessage => cases hc

/-! ## Rings whose end an `s16` does not reach -/

namespace Msgq

/-- On a ring of 32768 slots or more, a cursor before the last `s16` is only incremented. -/
theorem advanceCursor_of_large {n k : ℤ} (h₀ : 0 ≤ k) (h₁ : k < 32767) (hn : 32767 < n) :
    advanceCursor n k = k + 1 := by
  rw [advanceCursor, toS16_of_lt (by omega) (by omega)]
  exact if_neg (by omega)

/-- There the last `s16` wraps before the comparison can find the end. -/
theorem advanceCursor_of_last {n : ℤ} (hn : 32767 < n) : advanceCursor n 32767 = -32768 := by
  rw [advanceCursor]
  exact if_neg (by rw [show toS16 (32767 + 1) = -32768 from rfl]; omega)

/-- A push on an empty ring is accepted. -/
theorem exec_push_empty {k n : ℤ} (hn : 1 < n) (queue : ℤ → Message) (semEvent : ℕ) {hsm : Hsm}
    (hne : hsm ≠ skInvalidHsm) (message param1 param2 : UInt32) :
    MsgCall.exec ⟨k, k, n, queue, semEvent⟩ (.pushMessage hsm message param1 param2) =
      some (⟨1, none⟩, ⟨k, advanceCursor n k, n,
        Function.update queue k ⟨hsm, message, param1, param2⟩, semEvent + 1⟩) := by
  have hroom : k - k ≠ 1 ∧ k - k ≠ -(n - 1) := ⟨by omega, by omega⟩
  rw [MsgCall.exec, pushMessage, if_neg hne]
  simp only [if_pos hroom]

/-- A pop on a ring that is not empty takes the message at the read cursor. -/
theorem exec_pop {k t n : ℤ} (hne : k ≠ t) (queue : ℤ → Message) (semEvent : ℕ) :
    MsgCall.exec ⟨k, t, n, queue, semEvent + 1⟩ .popMessage =
      some (⟨1, some (queue k)⟩, ⟨advanceCursor n k, t, n, queue, semEvent⟩) := by
  rw [MsgCall.exec, Sm.popMessage, waitEvent, if_neg (Nat.succ_ne_zero semEvent), Option.map_some,
    Option.map_some, popSection, if_pos hne]
  rfl

/-- **A large ring after a push and a pop, again and again**: both cursors have moved as far as an `s16`
goes. -/
theorem run_pushPops {nqueue : ℤ} (h₀ : 32767 ≤ nqueue) (h₁ : nqueue < 2147483647)
    (mem : ℤ → Message) {k : ℕ} (hk : k ≤ 32767) :
    ∃ rs queue, StepMachine.run MsgCall.exec (initMsgq nqueue mem) (MsgCall.pushPops k) =
      some (rs, ⟨k, k, nqueue + 1, queue, 0⟩) := by
  induction k with
  | zero =>
    refine ⟨[], mem, ?_⟩
    rw [MsgCall.pushPops, StepMachine.run_nil, initMsgq,
      toS32_of_lt (x := nqueue + 1) (by omega) (by omega)]
    rfl
  | succ k ih =>
    obtain ⟨rs, queue, hrun⟩ := ih (by omega)
    have hnext : advanceCursor (nqueue + 1) k = k + 1 :=
      advanceCursor_of_large (by omega) (by omega) (by omega)
    have hpush := exec_push_empty (k := k) (n := nqueue + 1) (by omega) queue 0
      (show (1 : Hsm) ≠ skInvalidHsm by decide) smmTick 0 0
    have hpop := exec_pop (k := k) (t := k + 1) (n := nqueue + 1) (by omega)
      (Function.update queue k ⟨1, smmTick, 0, 0⟩) 0
    rw [hnext] at hpush hpop
    have hlast := (StepMachine.run_cons _ _ _ _ _ _).mpr
      ⟨_, _, _, hpush, (StepMachine.run_cons _ _ _ _ _ _).mpr
        ⟨_, _, _, hpop, StepMachine.run_nil _ _, rfl⟩, rfl⟩
    exact ⟨_, _, (StepMachine.run_append _ _ _ _ _ _).mpr ⟨_, rs, _, hrun, hlast, rfl⟩⟩

/-- **The next push takes the write cursor out of the array.** -/
theorem run_pushPops_push {nqueue : ℤ} (h₀ : 32767 ≤ nqueue) (h₁ : nqueue < 2147483647)
    (mem : ℤ → Message) :
    ∃ rs q, StepMachine.run MsgCall.exec (initMsgq nqueue mem)
        (MsgCall.pushPops 32767 ++ [.pushMessage 1 smmTick 0 0]) = some (rs, q) ∧
      q.tail = -32768 := by
  obtain ⟨rs, queue, hrun⟩ := run_pushPops h₀ h₁ mem (Nat.le_refl 32767)
  have hpush := exec_push_empty (k := (32767 : ℕ)) (n := nqueue + 1) (by omega) queue 0
    (show (1 : Hsm) ≠ skInvalidHsm by decide) smmTick 0 0
  exact ⟨_, _, (StepMachine.run_snoc _ _ _ _ _ _).mpr ⟨_, rs, _, hrun, hpush, rfl⟩,
    advanceCursor_of_last (by omega)⟩

end Msgq

/-- **The cursors stay inside the array exactly on rings of at most 32766 messages.** For every size that
`init_msgq` can be given and every memory `malloc` returns: in all states that pushes and pops reach,
both cursors are inside the array, no increment wraps and a push is refused only when `nqueue` messages
are queued, if and only if `nqueue` and the end of the array fit an `s16`. -/
theorem ring_sound_iff (nqueue : ℤ) (h₀ : 1 ≤ nqueue) (h₁ : nqueue ≤ 2147483647)
    (mem : ℤ → Message) :
    (∀ calls rs q, (∀ c ∈ calls, c.IsPushPop) →
      StepMachine.run MsgCall.exec (initMsgq nqueue mem) calls = some (rs, q) →
        q.Sound nqueue ((calls.zip rs).countP fun cr => cr.1.accepts cr.2)
          ((calls.zip rs).countP fun cr => cr.1.takes cr.2)) ↔
      nqueue ≤ 32766 := by
  constructor
  · intro h
    by_contra hlarge
    by_cases hmax : nqueue = 2147483647
    · -- the size itself wraps, and the array has no index
      have hsound := h [] [] _ (fun c hc => absurd hc List.not_mem_nil) rfl
      rw [hmax] at hsound
      exact absurd hsound.head.2 (show ¬ (0 : ℤ) < toS32 (2147483647 + 1) by decide)
    · have hlarge' : 32767 ≤ nqueue := by omega
      obtain ⟨rs, q, hrun, htail⟩ := Msgq.run_pushPops_push hlarge' (by omega) mem
      have hcalls : ∀ c ∈ MsgCall.pushPops 32767 ++ [.pushMessage 1 smmTick 0 0], c.IsPushPop := by
        intro c hc
        rcases List.mem_append.mp hc with hc | hc
        · exact MsgCall.isPushPop_pushPops 32767 c hc
        · rw [List.mem_singleton.mp hc]
          trivial
      have hsound := h _ rs q hcalls hrun
      have := hsound.tail.1
      omega
  · intro hsmall calls rs q hcalls hrun
    obtain ⟨cap, rfl⟩ := Int.eq_ofNat_of_zero_le (show 0 ≤ nqueue by omega)
    have hinit : Msgq.Refines (initMsgq cap mem) (BoundedFifo.empty Message cap) :=
      ⟨Msgq.Valid.initMsgq (by omega) hsmall mem,
        Msgq.queueSize_initMsgq (by omega) (by omega) mem, Msgq.contents_initMsgq cap mem⟩
    obtain ⟨l, hl, hcount⟩ := StepMachine.run_induction_counts MsgCall.exec (fun _ c => c.IsPushPop)
      MsgCall.accepts MsgCall.takes
      (fun accepted taken q => ∃ l : BoundedFifo Message cap, q.Refines l ∧
        accepted = taken + l.items.length)
      (by
        rintro accepted taken q c r q' ⟨l, hl, hcount⟩ hc hexec
        obtain ⟨l', hspec, hl'⟩ := hl.exec c r q' hexec
        exact ⟨l', hl', MsgCall.spec_account hc hspec hcount⟩)
      ⟨BoundedFifo.empty Message cap, hinit, rfl⟩
      (StepMachine.along_of_forall_mem _ (fun c hc _ => hcalls c hc) _) hrun
    exact hl.sound hcount

/-- The ring the scheduler makes. -/
theorem ring_sound_iff_thousand :
    (∀ calls rs q, (∀ c ∈ calls, c.IsPushPop) →
      StepMachine.run MsgCall.exec (initMsgq 1000 fun _ => ⟨0, 0, 0, 0⟩) calls = some (rs, q) →
        q.Sound 1000 ((calls.zip rs).countP fun cr => cr.1.accepts cr.2)
          ((calls.zip rs).countP fun cr => cr.1.takes cr.2)) ↔
      (1000 : ℤ) ≤ 32766 :=
  ring_sound_iff 1000 (by decide) (by decide) fun _ => ⟨0, 0, 0, 0⟩

/-- **A cursor that leaves the array.** On a ring of 32767 messages the end of the array is the first
number an `s16` cannot hold: after 32767 messages have gone through the ring, one more push leaves the
write cursor at index -32768. -/
theorem ring_cursor_leaves :
    ∃ rs q, StepMachine.run MsgCall.exec (initMsgq 32767 fun _ => ⟨0, 0, 0, 0⟩)
        (MsgCall.pushPops 32767 ++ [.pushMessage 1 smmTick 0 0]) = some (rs, q) ∧
      q.tail = -32768 ∧ ¬ 0 ≤ q.tail := by
  obtain ⟨rs, q, hrun, htail⟩ := Msgq.run_pushPops_push (Int.le_refl 32767) (by decide)
    fun _ => ⟨0, 0, 0, 0⟩
  exact ⟨rs, q, hrun, htail, by omega⟩

end SmIpc.Sm
