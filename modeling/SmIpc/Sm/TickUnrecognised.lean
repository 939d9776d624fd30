import SmIpc.Sm.TickBacklog

/-! # Registrations with a backlog

A registration whose ticks the search of `sm_ticker` does not recognise has a backlog in some run. The run
has one slot in use and no message popped: `sm_ticker` makes one pass after the other, and sends when the
slot is due for the first time and when it is due again.

* `Alone` is what holds between two passes; `alone_count` and `alone_fire` are the passes.
* `tick_backlog_iff`: no run has a backlog exactly where the ticks are recognised. `tick_backlog_two` is the
  run for one registration. -/

namespace SmIpc.Sm

open StepMachine Relation

namespace Sys

variable {s : Sys}

/-! ## Steps of `sm_ticker` -/

/-- A step of a system that has not read a freed node. -/
theorem steps_of_act {t : Sys} {i : SysStep} {o : SysEvent} (hdef : s.undefined = false)
    (hact : s.act i = some (o, t)) (hnow : t.now = s.now) : Steps step s (tick t) := by
  refine ⟨i, o, ?_⟩
  rw [step, hdef, hact, tick, hnow]
  rfl

/-- A pass begins. -/
theorem steps_start (hdef : s.undefined = false) (hpc : s.ticker = .delay) (hsem : 0 < s.semTick) :
    Steps step s (tick { s with ticker := .looking 0, semTick := s.semTick - 1 }) := by
  refine steps_of_act (i := .tickStart) (o := .silent) hdef ?_ rfl
  rw [act, if_pos ⟨hpc, hsem⟩]

/-- A slot is passed. -/
theorem steps_pass (hdef : s.undefined = false) {k : ℕ} {slot : TickMsg} (hpc : s.ticker = .looking k)
    (hk : k < smallwinNticks) (hlook : Sm.tickLook s.q (s.ticks k) k = some (some slot)) :
    Steps step s
      (tick { s with ticks := Function.update s.ticks k slot, ticker := .looking (k + 1) }) := by
  refine steps_of_act (i := .tickLook) (o := .silent) hdef ?_ rfl
  simp only [act, hpc, if_pos hk, hlook]

/-- `sm_ticker` turns to sending. -/
theorem steps_turn (hdef : s.undefined = false) {k : ℕ} (hpc : s.ticker = .looking k)
    (hk : k < smallwinNticks) (hlook : Sm.tickLook s.q (s.ticks k) k = some none) :
    Steps step s (tick { s with ticker := .sending k }) := by
  refine steps_of_act (i := .tickLook) (o := .silent) hdef ?_ rfl
  simp only [act, hpc, if_pos hk, hlook]

/-- `sm_ticker` sends. -/
theorem steps_send (hdef : s.undefined = false) {k : ℕ} (hpc : s.ticker = .sending k)
    (hfree : s.creating = none) :
    Steps step s (tick { s.post ((s.ticks k).message k) (.tick (s.registered k)) with
      ticks := Function.update s.ticks k (s.ticks k).restarted
      ticker := .looking (k + 1) }) := by
  refine steps_of_act (i := .tickSend) (o := .silent) hdef ?_ rfl
  simp only [act, hpc, if_pos hfree]

/-- The slots from `k` on are free: `sm_ticker` passes them. -/
theorem looks (hdef : s.undefined = false) {k d : ℕ} (hkd : k + d = smallwinNticks)
    (hpc : s.ticker = .looking k) (hfree : ∀ j, k ≤ j → (s.ticks j).hsm = 0) :
    ReflTransGen (Steps step) s { s with ticker := .looking smallwinNticks, now := s.now + d } := by
  induction d generalizing s k with
  | zero =>
    have hsame : { s with ticker := .looking smallwinNticks, now := s.now + 0 } = s := by
      rw [← hkd, Nat.add_zero, ← hpc, Nat.add_zero]
    rw [hsame]
  | succ d ih =>
    have hlook : Sm.tickLook s.q (s.ticks k) k = some (some (s.ticks k)) := by
      rw [Sm.tickLook, if_pos (hfree k (Nat.le_refl k))]
    have hstep := steps_pass hdef hpc (by omega) hlook
    rw [Function.update_eq_self] at hstep
    refine ReflTransGen.head hstep ?_
    have hrest := ih (s := tick { s with ticker := .looking (k + 1) }) hdef
      (by omega : k + 1 + d = smallwinNticks) rfl fun j hj => hfree j (Nat.le_of_succ_le hj)
    rw [tick, Nat.add_assoc, Nat.add_comm 1 d] at hrest
    exact hrest

/-- The rest of a pass, from slot 1 on. -/
theorem rest_of_pass (hdef : s.undefined = false) (hpc : s.ticker = .looking 1)
    (hfree : ∀ j, 1 ≤ j → (s.ticks j).hsm = 0) :
    ReflTransGen (Steps step) s
      (tick { s with ticker := .delay, semTick := s.semTick + 1, now := s.now + 31 }) := by
  refine (looks (d := 31) hdef rfl hpc hfree).tail ?_
  refine steps_of_act (i := .tickEnd) (o := .silent) hdef ?_ rfl
  rw [act, if_pos rfl]

/-! ## Passes with one slot in use -/

/-- Between two passes of `sm_ticker`: slot 0 has been registered at time 0, it is the only one in use, and
these messages are queued. -/
structure Alone (n100msec param2 : UInt32) (count : ℕ) (l : List (Message × Post)) (s : Sys) : Prop where
  /-- The queue. -/
  queue : QueueWf s.q s.posts
  /-- No freed node was read. -/
  undefined : s.undefined = false
  /-- `sm_ticker` is in its delay. -/
  ticker : s.ticker = .delay
  /-- `sem_tick_id` can be taken. -/
  semTick : 0 < s.semTick
  /-- `sem_system` can be taken. -/
  creating : s.creating = none
  /-- The slot. -/
  slot : s.ticks 0 = ⟨64, n100msec, UInt32.ofNat count, param2, 0⟩
  /-- The other slots. -/
  free : ∀ j, 1 ≤ j → (s.ticks j).hsm = 0
  /-- When it was registered. -/
  registered : s.registered 0 = 0
  /-- What is queued. -/
  entries : s.entries = l

variable {n100msec param2 : UInt32} {count : ℕ} {l : List (Message × Post)}

/-- The other slots stay free. -/
theorem Alone.free_update (h : s.Alone n100msec param2 count l) (slot : TickMsg) (j : ℕ) (hj : 1 ≤ j) :
    (Function.update s.ticks 0 slot j).hsm = 0 := by
  rw [Function.update_of_ne (by omega)]
  exact h.free j hj

/-- **A pass in which the slot is not due** counts it. -/
theorem alone_count (h : s.Alone n100msec param2 count l) (hdue : ¬ DueAt n100msec (UInt32.ofNat count)) :
    ∃ t, ReflTransGen (Steps step) s t ∧ t.Alone n100msec param2 (count + 1) l := by
  have hwindow : (64 : Hsm) ≠ 0 := by decide
  have hlook : Sm.tickLook s.q (s.ticks 0) 0 = some (some (s.ticks 0).counted) := by
    rw [Sm.tickLook, if_neg, if_neg]
    · rw [h.slot]
      exact hdue
    · rw [h.slot]
      exact hwindow
  have hstart := steps_start h.undefined h.ticker h.semTick
  have hpass := steps_pass (s := tick { s with ticker := .looking 0, semTick := s.semTick - 1 })
    h.undefined rfl (by decide) hlook
  have hrest := rest_of_pass (s := tick (tick { s with
      ticks := Function.update s.ticks 0 (s.ticks 0).counted
      ticker := .looking 1
      semTick := s.semTick - 1 })) h.undefined rfl (h.free_update _)
  refine ⟨_, ReflTransGen.head hstart (ReflTransGen.head hpass hrest), ?_⟩
  refine ⟨h.queue, h.undefined, rfl, Nat.succ_pos _, h.creating, ?_, h.free_update _, h.registered,
    h.entries⟩
  show Function.update s.ticks 0 (s.ticks 0).counted 0 = _
  rw [Function.update_self, h.slot, TickMsg.counted, UInt32.ofNat_add]
  rfl

/-- **Passes up to a count**, in none of which the slot is due. -/
theorem alone_climb (h : s.Alone n100msec param2 count l) (d : ℕ)
    (hdue : ∀ c, count ≤ c → c < count + d → ¬ DueAt n100msec (UInt32.ofNat c)) :
    ∃ t, ReflTransGen (Steps step) s t ∧ t.Alone n100msec param2 (count + d) l := by
  induction d with
  | zero => exact ⟨s, .refl, h⟩
  | succ d ih =>
    obtain ⟨t, hst, ht⟩ := ih fun c hc hlt => hdue c hc (by omega)
    obtain ⟨u, htu, hu⟩ := alone_count ht (hdue (count + d) (by omega) (by omega))
    exact ⟨u, hst.trans htu, hu⟩

/-- **A pass in which the slot is due** and its message is not queued sends one. -/
theorem alone_fire (h : s.Alone n100msec param2 count l) (hdue : DueAt n100msec (UInt32.ofNat count))
    (hroom : l.length < smallwinNmsgq) (hnot : ∀ e ∈ l, e.1.param2 ≠ UInt32.ofNat count) :
    ∃ t time, ReflTransGen (Steps step) s t ∧ t.Alone n100msec param2 1
      (l ++ [(⟨64, smmTick, 1, if param2 = 0 then UInt32.ofNat count else param2⟩, ⟨time, .tick 0⟩)]) := by
  have hwindow : (64 : Hsm) ≠ 0 := by decide
  have hcontents : s.q.contents = l.map Prod.fst := by
    rw [← h.entries, Sys.entries, List.map_fst_zip (Nat.le_of_eq h.queue.aligned.symm)]
  -- the search finds nothing
  have hlook : Sm.tickLook s.q (s.ticks 0) 0 = some none := by
    have hmem : (⟨64, smmTick, UInt32.ofNat (0 + 1), UInt32.ofNat count⟩ : Message) ∉ s.q.contents := by
      rw [hcontents, List.mem_map]
      rintro ⟨e, he, heq⟩
      exact hnot e he (congrArg Message.param2 heq)
    have hdue' : (⟨64, n100msec, UInt32.ofNat count, param2, 0⟩ : TickMsg).IsDue := hdue
    rw [Sm.tickLook, h.slot, if_neg hwindow, if_pos hdue', Msgq.isMessageParam_eq h.queue.valid,
      if_neg hmem]
    rfl
  let s₁ : Sys := tick { s with ticker := .looking 0, semTick := s.semTick - 1 }
  let s₂ : Sys := tick { s₁ with ticker := .sending 0 }
  have hstart : Steps step s s₁ := steps_start h.undefined h.ticker h.semTick
  have hturn : Steps step s₁ s₂ := steps_turn (s := s₁) h.undefined rfl (by decide) hlook
  have hsend := steps_send (s := s₂) h.undefined rfl h.creating
  have hrest := rest_of_pass (s := tick { s₂.post ((s₂.ticks 0).message 0) (.tick (s₂.registered 0)) with
      ticks := Function.update s₂.ticks 0 (s₂.ticks 0).restarted
      ticker := .looking 1 }) h.undefined rfl (h.free_update _)
  refine ⟨_, s₂.now, ReflTransGen.head hstart (ReflTransGen.head hturn (ReflTransGen.head hsend hrest)), ?_⟩
  obtain ⟨hqueue, hpost⟩ := post_cases (s := s₂) h.queue ((s₂.ticks 0).message 0) (.tick (s₂.registered 0))
  refine ⟨hqueue, h.undefined, rfl, Nat.succ_pos _, h.creating, ?_, h.free_update _, h.registered, ?_⟩
  · show Function.update s.ticks 0 (s.ticks 0).restarted 0 = _
    rw [Function.update_self, h.slot]
    rfl
  · have hmessage : (s₂.ticks 0).message 0 =
        ⟨64, smmTick, 1, if param2 = 0 then UInt32.ofNat count else param2⟩ := by
      show (s.ticks 0).message 0 = _
      rw [h.slot]
      rfl
    have hregistered : s₂.registered 0 = 0 := h.registered
    have hqueued : s₂.entries = l := h.entries
    rcases hpost with ⟨-, -, hentries⟩ | ⟨hrefused, -⟩
    · rw [hmessage, hregistered, hqueued] at hentries
      rw [hmessage, hregistered]
      exact hentries
    · -- the queue has room
      refine absurd ⟨?_, ?_⟩ hrefused
      · rw [hmessage]
        exact hwindow
      · show getNmessage s.q < _
        rw [Msgq.getNmessage_eq h.queue.valid, hcontents, List.length_map]
        exact_mod_cast hroom

/-- The state after the registration of the slot in the first state. -/
theorem alone_init (mem : ℤ → Message) (n100msec param2 : UInt32) :
    ∃ t, Sys.step (init mem) (.setXtick 1 64 n100msec param2 0) = some (.silent, t) ∧
      t.Alone n100msec param2 0 [] := by
  have hwf := Wf.init mem
  refine ⟨_, rfl, hwf.queue, rfl, rfl, Nat.one_pos, rfl, rfl, ?_, rfl, ?_⟩
  · intro j hj
    show (Function.update TickList.init 0 _ j).hsm = 0
    rw [Function.update_of_ne (by omega)]
    rfl
  · exact List.zip_nil_right

end Sys

/-! ## Two sends -/

/-- The slot is due at the count, as a count of rounds. -/
theorem FirstDue.due_toNat {n100msec c : UInt32} (h : FirstDue n100msec c) :
    DueAt n100msec (UInt32.ofNat c.toNat) := by
  rw [UInt32.ofNat_toNat]
  exact h.due

/-- The slot is not due at the counts from 1 on that come before. -/
theorem FirstDue.not_due {n100msec c : UInt32} (h : FirstDue n100msec c) {i : ℕ} (hpos : 0 < i)
    (hlt : i < c.toNat) : ¬ DueAt n100msec (UInt32.ofNat i) := by
  have hi : (UInt32.ofNat i).toNat = i := by
    rw [UInt32.toNat_ofNat', Nat.mod_eq_of_lt (Nat.lt_trans hlt c.toNat_lt)]
  refine h.first _ ?_ (UInt32.lt_iff_toNat_lt.mpr (by rwa [hi]))
  intro heq
  rw [heq, UInt32.toNat_zero] at hi
  exact Nat.ne_of_lt hpos hi

/-- A registration that is not recognised is due at a count that its first message does not carry. -/
theorem exists_firstDue {n100msec param2 : UInt32} (h : ¬ Recognised n100msec param2) :
    ∃ c, FirstDue n100msec c ∧ (param2 = 0 → n100msec = 0) ∧ (param2 ≠ 0 → param2 ≠ c) := by
  rw [Recognised] at h
  split at h
  · rename_i hzero
    obtain rfl : n100msec = 0 := not_not.mp h
    refine ⟨1, ⟨by decide, dueAt_of_zero 1, fun c hc hlt => absurd hlt (not_lt_one hc)⟩, fun _ => rfl, ?_⟩
    exact fun hne => absurd hzero hne
  · rename_i hne
    obtain ⟨c, hc⟩ := not_forall.mp h
    obtain ⟨hfirst, hother⟩ := Classical.not_imp.mp hc
    exact ⟨c, hfirst, fun hzero => absurd hzero hne, fun _ => Ne.symm hother⟩

namespace Sys

variable {s : Sys} {n100msec param2 : UInt32}

/-- **The first send** carries another count than the one at which the slot will be due. -/
theorem alone_first (h : s.Alone n100msec param2 0 []) {c : UInt32} (hfirst : FirstDue n100msec c)
    (hzero : param2 = 0 → n100msec = 0) (hne : param2 ≠ 0 → param2 ≠ c) :
    ∃ t time sent, ReflTransGen (Steps step) s t ∧ sent ≠ c ∧
      t.Alone n100msec param2 1 [(⟨64, smmTick, 1, sent⟩, ⟨time, .tick 0⟩)] := by
  by_cases hn : n100msec = 0
  · subst hn
    obtain ⟨t, time, hst, ht⟩ := alone_fire h (dueAt_of_zero _) (by decide) (fun _ he => by cases he)
    refine ⟨t, time, _, hst, ?_, ht⟩
    split
    · exact fun heq => hfirst.ne_zero heq.symm
    · exact hne ‹_›
  · have hparam : param2 ≠ 0 := fun heq => hn (hzero heq)
    -- up to the first count at which the slot is due
    obtain ⟨u, hsu, hu⟩ := alone_climb h c.toNat fun i _ hlt => by
      rcases Nat.eq_zero_or_pos i with rfl | hpos
      · exact fun hdue => hn (dueAt_zero.mp hdue)
      · exact hfirst.not_due hpos (by omega)
    rw [Nat.zero_add] at hu
    obtain ⟨t, time, hut, ht⟩ := alone_fire hu hfirst.due_toNat (by decide) (fun _ he => by cases he)
    refine ⟨t, time, _, hsu.trans hut, ?_, ht⟩
    rw [if_neg hparam]
    exact hne hparam

/-- **The second send** comes while the first message waits. -/
theorem alone_second {c sent : UInt32} {time : ℕ} (hfirst : FirstDue n100msec c) (hne : sent ≠ c)
    (h : s.Alone n100msec param2 1 [(⟨64, smmTick, 1, sent⟩, ⟨time, .tick 0⟩)]) :
    ∃ t, ReflTransGen (Steps step) s t ∧ (t.waiting 0).length = 2 := by
  have hpos : 0 < c.toNat := by
    refine Nat.pos_of_ne_zero fun heq => hfirst.ne_zero (UInt32.toNat_inj.mp ?_)
    rw [heq, UInt32.toNat_zero]
  obtain ⟨u, hsu, hu⟩ := alone_climb h (c.toNat - 1) fun i hi hlt => hfirst.not_due hi (by omega)
  rw [Nat.add_sub_cancel' hpos] at hu
  have hroom : 1 < smallwinNmsgq := by decide
  -- the search looks for the count, and the first message carries another one
  have hother : ∀ e ∈ [((⟨64, smmTick, 1, sent⟩ : Message), (⟨time, .tick 0⟩ : Post))],
      e.1.param2 ≠ UInt32.ofNat c.toNat := by
    intro e he
    obtain rfl := List.mem_singleton.mp he
    rw [UInt32.ofNat_toNat]
    exact hne
  obtain ⟨t, time', hut, ht⟩ := alone_fire hu hfirst.due_toNat hroom hother
  refine ⟨t, hsu.trans hut, ?_⟩
  rw [waiting, ht.entries]
  rfl

end Sys

/-! ## The result -/

/-- **When there is no backlog.** At most one tick that `sm_ticker` has posted for a registration waits in the
message queue, in every state of every run, if and only if its parameters are such that the search of
`sm_ticker` recognises its ticks. -/
theorem tick_backlog_iff (n100msec param2 : UInt32) :
    NoBacklog n100msec param2 ↔ Recognised n100msec param2 := by
  constructor
  · intro h
    by_contra hrec
    obtain ⟨c, hfirst, hzero, hne⟩ := exists_firstDue hrec
    let mem : ℤ → Message := fun _ => ⟨0, 0, 0, 0⟩
    obtain ⟨t, hset, ht⟩ := Sys.alone_init mem n100msec param2
    obtain ⟨v, time, sent, htv, hsent, hv⟩ := Sys.alone_first ht hfirst hzero hne
    obtain ⟨u, hvu, htwo⟩ := Sys.alone_second hfirst hsent hv
    obtain ⟨after, es', hafter⟩ := exists_run Sys.step (htv.trans hvu)
    have hone : (u.waiting 0).length ≤ 1 :=
      h mem [] after 1 0 64 0 [] es' .silent _ t u rfl rfl hset hafter
    omega
  · exact Recognised.noBacklog

set_option maxRecDepth 4000 in
/-- **A tick that is not recognised.** A tick of 100 milliseconds is registered with `param2` 5. It is due
in the second and in the third pass, with count 1 each time: what is sent carries 5, the search looks for
1 and finds nothing, and two ticks of the registration wait. -/
theorem tick_backlog_two :
    ∃ t es' u,
      Sys.step (Sys.init fun _ => ⟨0, 0, 0, 0⟩) (.setXtick 1 64 100 5 0) = some (.silent, t) ∧
      StepMachine.run Sys.step t
        (.tickStart :: (List.replicate 32 .tickLook ++
          [.tickEnd, .tickStart, .tickLook, .tickSend] ++ List.replicate 31 .tickLook ++
          [.tickEnd, .tickStart, .tickLook, .tickSend])) = some (es', u) ∧
      (u.waiting 0).length = 2 ∧ ¬ (u.waiting 0).length ≤ 1 := by
  refine ⟨_, _, _, rfl, rfl, ?_, ?_⟩
  · rfl
  · decide

end SmIpc.Sm
