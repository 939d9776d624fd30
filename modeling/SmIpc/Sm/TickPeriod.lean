import SmIpc.Lib.Divider
import SmIpc.Sm.TickSlots

/-! # The period of a tick

`sm_ticker` looks at every slot of `tick_list` once a pass. A slot is a divider of the passes: its count is
tested before it is incremented, and is put back to 0 in the pass in which it is due, whether the tick
is sent or suppressed.

* `TickWatch` is the system with a record, for one slot, of the passes in which it was found due and of
  the count it was found with.
* `isDue_count` — below the wrap of `count * time_tick`, a slot is due exactly where the divider fires.
* `tick_fires_periodically` — a slot that is registered and left so fires in the passes numbered
  `1 + m * P` from its registration, and in no other. -/

namespace SmIpc.Sm

/-! ## A slot as a divider -/

/-- The period of a tick in passes: a hundredth of its milliseconds, rounded up. -/
def tickPeriod (n100msec : UInt32) : ℕ := (n100msec.toNat + 99) / 100

variable {hsm : Hsm} {n100msec param2 : UInt32} {sysflag : Int32}

/-- The periods for which the product of the due test does not wrap before the tick is due. -/
structure PeriodFits (n100msec : UInt32) : Prop where
  /-- The period is not 0. -/
  pos : 1 ≤ n100msec.toNat
  /-- The largest multiple of 100 that fits a `u32` is 4294967200. -/
  le : n100msec.toNat ≤ 4294967200

theorem PeriodFits.tickPeriod_pos (h : PeriodFits n100msec) : 0 < tickPeriod n100msec := by
  have := h.pos
  unfold tickPeriod
  omega

/-- **A slot is due** exactly when its count has reached the period in passes. -/
theorem isDue_count (h : PeriodFits n100msec) {c : ℕ} (hc : c ≤ tickPeriod n100msec) :
    (⟨hsm, n100msec, UInt32.ofNat c, param2, sysflag⟩ : TickMsg).IsDue ↔
      tickPeriod n100msec ≤ c := by
  have hle := h.le
  have htick : timeTick.toNat = 100 := rfl
  unfold tickPeriod at *
  show n100msec ≤ UInt32.ofNat c * timeTick ↔ _
  rw [UInt32.le_iff_toNat_le, UInt32.toNat_mul, UInt32.toNat_ofNat', htick,
    Nat.mod_eq_of_lt (show c < 2 ^ 32 by omega), Nat.mod_eq_of_lt (show c * 100 < 2 ^ 32 by omega)]
  omega

/-- **A round of a slot** is a round of the divider, whether the tick is sent or suppressed. -/
theorem slot_next (h : PeriodFits n100msec) {slot : TickMsg} {v : ℕ}
    (hslot : slot = ⟨hsm, n100msec, UInt32.ofNat (Divider.count (tickPeriod n100msec) v), param2,
      sysflag⟩) :
    (if slot.IsDue then slot.restarted else slot.counted) =
      ⟨hsm, n100msec, UInt32.ofNat (Divider.count (tickPeriod n100msec) (v + 1)), param2,
        sysflag⟩ := by
  subst hslot
  rw [← Divider.next_count h.tickPeriod_pos, Divider.next]
  simp only [isDue_count h (Divider.count_le h.tickPeriod_pos v)]
  split
  · rfl
  · rw [TickMsg.counted, UInt32.ofNat_add]
    rfl

/-! ## The system as seen from a slot -/

/-- The system, with a record of what `sm_ticker` found at one slot. -/
structure TickWatch where
  /-- The system. -/
  sys : Sys
  /-- The number of passes started. -/
  passes : ℕ
  /-- The passes in which the slot was found due, and the count it was found with. -/
  fired : List (ℕ × UInt32)

/-- The step takes the firing branch of `sm_ticker` for slot `j`. -/
def Sys.Fires (s : Sys) (j : ℕ) (i : SysStep) : Prop :=
  i = .tickLook ∧ s.ticker = .looking j ∧ (s.ticks j).hsm ≠ 0 ∧ (s.ticks j).IsDue

instance (s : Sys) (j : ℕ) (i : SysStep) : Decidable (s.Fires j i) :=
  inferInstanceAs (Decidable (_ ∧ _))

/-- A step that looks at no slot. -/
theorem Sys.not_fires {s : Sys} {j : ℕ} {i : SysStep} (hi : i ≠ .tickLook) : ¬ s.Fires j i :=
  fun hf => hi hf.1

/-- A look at another slot. -/
theorem Sys.not_fires_of_ne {s : Sys} {j k : ℕ} {i : SysStep} (hpc : s.ticker = .looking k)
    (hkj : k ≠ j) : ¬ s.Fires j i :=
  fun hf => hkj (TickerPc.looking.inj (hpc.symm.trans hf.2.1))

namespace TickWatch

/-- A step of the system, on record for slot `j`. -/
def step (j : ℕ) : StepMachine TickWatch SysStep SysEvent := fun w i =>
  (Sys.step w.sys i).map fun r => (r.1,
    { sys := r.2
      passes := if i = .tickStart then w.passes + 1 else w.passes
      fired := if w.sys.Fires j i then w.fired ++ [(w.passes, (w.sys.ticks j).count)]
        else w.fired })

/-- The number of passes that have looked at slot `j`. -/
def looked (j : ℕ) (w : TickWatch) : ℕ :=
  match w.sys.ticker with
  | .delay => w.passes
  | .looking i => if i ≤ j then w.passes - 1 else w.passes
  | .sending i => if i < j then w.passes - 1 else w.passes

/-- The number of passes that are done with slot `j`. -/
def done (j : ℕ) (w : TickWatch) : ℕ :=
  match w.sys.ticker with
  | .delay => w.passes
  | .looking i | .sending i => if i ≤ j then w.passes - 1 else w.passes

/-- What holds of a slot from its registration on. -/
structure Keeps (j : ℕ) (hsm : Hsm) (n100msec param2 : UInt32) (sysflag : Int32) (w : TickWatch) :
    Prop where
  /-- A pass in progress was started. -/
  started : w.sys.ticker ≠ .delay → 0 < w.passes
  /-- The slot counts as a divider does. -/
  slot : w.sys.ticks j = ⟨hsm, n100msec,
    UInt32.ofNat (Divider.count (tickPeriod n100msec) (w.done j)), param2, sysflag⟩
  /-- A slot that is sent for was due. -/
  sending : w.sys.ticker = .sending j →
    tickPeriod n100msec ≤ Divider.count (tickPeriod n100msec) (w.done j)
  /-- The record is that of the divider. -/
  fired : w.fired = (Divider.firings (tickPeriod n100msec) (w.looked j)).map
    fun k => (k, UInt32.ofNat (tickPeriod n100msec))

variable {j : ℕ} {w w' : TickWatch} {i : SysStep} {o : SysEvent}

/-- **Inversion of a step on record.** -/
theorem step_cases (h : step j w i = some (o, w')) :
    Sys.Acts w.sys i o w'.sys ∧
      w'.passes = (if i = .tickStart then w.passes + 1 else w.passes) ∧
      w'.fired = if w.sys.Fires j i then w.fired ++ [(w.passes, (w.sys.ticks j).count)]
        else w.fired := by
  obtain ⟨⟨o', s⟩, hs, heq⟩ := Option.map_eq_some_iff.mp h
  cases heq
  exact ⟨(Sys.step_cases hs).2, rfl, rfl⟩

/-- A step that leaves the slot and `sm_ticker` alone keeps what holds of the slot. -/
theorem Keeps.of_frame (h : w.Keeps j hsm n100msec param2 sysflag)
    (hticks : w'.sys.ticks j = w.sys.ticks j) (hpc : w'.sys.ticker = w.sys.ticker)
    (hpasses : w'.passes = w.passes) (hfired : w'.fired = w.fired) :
    w'.Keeps j hsm n100msec param2 sysflag := by
  have hdone : w'.done j = w.done j := by rw [done, done, hpc, hpasses]
  have hlooked : w'.looked j = w.looked j := by rw [looked, looked, hpc, hpasses]
  constructor
  · rw [hpc, hpasses]
    exact h.started
  · rw [hticks, hdone]
    exact h.slot
  · rw [hpc, hdone]
    exact h.sending
  · rw [hfired, hlooked]
    exact h.fired

/-- A step of `sm_ticker` that leaves the slot alone. -/
theorem Keeps.of_ticker (h : w.Keeps j hsm n100msec param2 sysflag)
    (hticks : w'.sys.ticks j = w.sys.ticks j) (hpos : w'.sys.ticker ≠ .delay → 0 < w'.passes)
    (hsending : w'.sys.ticker ≠ .sending j) (hdone : w'.done j = w.done j)
    (hlooked : w'.looked j = w.looked j) (hfired : w'.fired = w.fired) :
    w'.Keeps j hsm n100msec param2 sysflag := by
  refine ⟨hpos, ?_, fun heq => absurd heq hsending, ?_⟩
  · rw [hticks, hdone]
    exact h.slot
  · rw [hfired, hlooked]
    exact h.fired

/-- `sm_ticker` goes on from another slot to the next. -/
theorem Keeps.of_next (h : w.Keeps j hsm n100msec param2 sysflag) {k : ℕ} (hkj : k ≠ j)
    (hpc : w.sys.ticker = .looking k ∨ w.sys.ticker = .sending k)
    (hpc' : w'.sys.ticker = .looking (k + 1)) (hpasses : w'.passes = w.passes)
    (hticks : w'.sys.ticks j = w.sys.ticks j) (hfired : w'.fired = w.fired) :
    w'.Keeps j hsm n100msec param2 sysflag := by
  have hle : k + 1 ≤ j ↔ k ≤ j := by omega
  have hlt : k + 1 ≤ j ↔ k < j := by omega
  refine h.of_ticker hticks (fun _ => hpasses ▸ h.started ?_) ?_ ?_ ?_ hfired
  · rcases hpc with hpc | hpc <;> simp [hpc]
  · simp [hpc']
  · rcases hpc with hpc | hpc <;> simp only [done, hpc, hpc', hpasses, hle]
  · rcases hpc with hpc | hpc
    · simp only [looked, hpc, hpc', hpasses, hle]
    · simp only [looked, hpc, hpc', hpasses, hlt]

/-- `sm_ticker` is at the slot: the pass in progress is not done with it. -/
theorem Keeps.at_slot (h : w.Keeps j hsm n100msec param2 sysflag)
    (hpc : w.sys.ticker = .looking j ∨ w.sys.ticker = .sending j) :
    0 < w.passes ∧ w.done j + 1 = w.passes := by
  have hpos : 0 < w.passes := by
    refine h.started ?_
    rcases hpc with hpc | hpc <;> simp [hpc]
  refine ⟨hpos, ?_⟩
  rcases hpc with hpc | hpc <;> simp only [done, hpc, le_refl, if_true] <;> omega

/-- **A round of the slot**: `sm_ticker` has counted it, or sent for it and restarted it, and goes on. -/
theorem Keeps.of_round (h : w.Keeps j hsm n100msec param2 sysflag) (hfits : PeriodFits n100msec)
    (hpc : w.sys.ticker = .looking j ∨ w.sys.ticker = .sending j)
    (hpc' : w'.sys.ticker = .looking (j + 1)) (hpasses : w'.passes = w.passes)
    (hslot : w'.sys.ticks j =
      if (w.sys.ticks j).IsDue then (w.sys.ticks j).restarted else (w.sys.ticks j).counted)
    (hfired : w'.fired = (Divider.firings (tickPeriod n100msec) w.passes).map
      fun k => (k, UInt32.ofNat (tickPeriod n100msec))) :
    w'.Keeps j hsm n100msec param2 sysflag := by
  obtain ⟨hpos, hdone⟩ := h.at_slot hpc
  have hdone' : w'.done j = w.done j + 1 := by
    rw [hdone]
    simp [done, hpc', hpasses]
  have hlooked' : w'.looked j = w.passes := by simp [looked, hpc', hpasses]
  constructor
  · rw [hpasses]
    exact fun _ => hpos
  · rw [hslot, slot_next hfits h.slot, hdone']
  · intro hsending
    cases hpc'.symm.trans hsending
  · rw [hfired, hlooked']

/-- The record after a look at the slot. -/
theorem Keeps.fired_look (h : w.Keeps j hsm n100msec param2 sysflag) (hfits : PeriodFits n100msec)
    (hpc : w.sys.ticker = .looking j) :
    (if (w.sys.ticks j).IsDue then w.fired ++ [(w.passes, (w.sys.ticks j).count)] else w.fired) =
      (Divider.firings (tickPeriod n100msec) w.passes).map
        fun k => (k, UInt32.ofNat (tickPeriod n100msec)) := by
  have hp := hfits.tickPeriod_pos
  have hdone := (h.at_slot (.inl hpc)).2
  have hlooked : w.looked j = w.done j := by simp only [looked, done, hpc]
  rw [← hdone, Divider.firings_succ hp, h.fired, hlooked, h.slot]
  simp only [isDue_count hfits (Divider.count_le hp (w.done j))]
  split
  · rename_i hdue
    rw [List.map_append, Divider.count_of_fires hp hdue]
    rfl
  · rfl

/-- **One step keeps what holds of a registered slot**, if it is not the `sm_destroy_tick` of it. -/
theorem Keeps.step (h : w.Keeps j hsm n100msec param2 sysflag) (hfits : PeriodFits n100msec)
    (hne : hsm ≠ 0) (hj : j < smallwinNticks) (hleft : ∀ tid, i ≠ .destroyTick tid (j + 1))
    (hs : step j w i = some (o, w')) : w'.Keeps j hsm n100msec param2 sysflag := by
  obtain ⟨ha, hpasses, hfired⟩ := step_cases hs
  have hhsm : (w.sys.ticks j).hsm ≠ 0 := by rw [h.slot]; exact hne
  obtain ⟨s', passes', fired'⟩ := w'
  dsimp only at ha hpasses hfired
  have hquiet : i ≠ .tickLook → fired' = w.fired := fun hi =>
    hfired.trans (if_neg (Sys.not_fires hi))
  subst hpasses
  cases ha with
  | tickStart hpc hsem =>
    refine h.of_ticker rfl (fun _ => Nat.succ_pos _) (by simp [Sys.tick]) ?_ ?_ ?_
    · simp [done, Sys.tick, hpc]
    · simp [looked, Sys.tick, hpc]
    · exact hquiet (by simp)
  | @tickPass i slot hpc hlook =>
    by_cases hij : i = j
    · subst hij
      have hfires : w.sys.Fires i .tickLook ↔ (w.sys.ticks i).IsDue :=
        ⟨fun hf => hf.2.2.2, fun hdue => ⟨rfl, hpc, hhsm, hdue⟩⟩
      obtain rfl := tickLook_pass hhsm hlook
      refine h.of_round hfits (.inl hpc) rfl rfl (Function.update_self ..) ?_
      simp only [hfired, hfires]
      exact h.fired_look hfits hpc
    · refine h.of_next hij (.inl hpc) rfl rfl ?_ ?_
      · exact Function.update_of_ne (Ne.symm hij) _ _
      · exact hfired.trans (if_neg (Sys.not_fires_of_ne hpc hij))
  | @tickDue i hpc hlook =>
    have hstarted : w.sys.ticker ≠ .delay := by simp [hpc]
    by_cases hij : i = j
    · subst hij
      have hdue := (tickLook_due hlook).2.1
      have hfires : w.sys.Fires i .tickLook := ⟨rfl, hpc, hhsm, hdue⟩
      have hdone' : done i ⟨Sys.tick { w.sys with ticker := .sending i }, w.passes, fired'⟩ =
          w.done i := by simp [done, Sys.tick, hpc]
      refine ⟨fun _ => h.started hstarted, ?_, fun _ => ?_, ?_⟩
      · exact (hdone' ▸ h.slot : _)
      · have hcount := h.slot ▸ hdue
        exact hdone' ▸ (isDue_count hfits (Divider.count_le hfits.tickPeriod_pos _)).mp hcount
      · have hlook' := h.fired_look hfits hpc
        rw [if_pos hdue] at hlook'
        simp only [looked, Sys.tick, lt_irrefl, if_false, hfired, if_pos hfires]
        exact hlook'
    · refine h.of_ticker rfl (fun _ => h.started hstarted) (by simpa [Sys.tick] using hij) ?_ ?_ ?_
      · simp [done, Sys.tick, hpc]
      · have hiff : i < j ↔ i ≤ j := by omega
        simp [looked, Sys.tick, hpc, hiff]
      · exact hfired.trans (if_neg (Sys.not_fires_of_ne hpc hij))
  | @tickSend i hpc hfree =>
    have hsame : fired' = w.fired := hquiet (by simp)
    by_cases hij : i = j
    · subst hij
      have hdue : (w.sys.ticks i).IsDue := by
        rw [h.slot]
        exact (isDue_count hfits (Divider.count_le hfits.tickPeriod_pos _)).mpr (h.sending hpc)
      refine h.of_round hfits (.inr hpc) rfl rfl ?_ ?_
      · rw [if_pos hdue]
        exact Function.update_self ..
      · have hfired := h.fired
        simp only [looked, hpc, lt_irrefl, if_false] at hfired
        exact hsame.trans hfired
    · refine h.of_next hij (.inr hpc) rfl rfl ?_ hsame
      exact Function.update_of_ne (Ne.symm hij) _ _
  | tickEnd hpc =>
    refine h.of_ticker rfl (fun hne => absurd rfl hne) (by simp [Sys.tick]) ?_ ?_ ?_
    · simp [done, Sys.tick, hpc, Nat.not_le.mpr hj]
    · simp [looked, Sys.tick, hpc, Nat.not_le.mpr hj]
    · exact hquiet (by simp)
  | @setXtick tid hsm' n' p' f' i hcall hsem hslot =>
    have hfree := (freeTickLoop_spec hslot).1
    refine h.of_frame ?_ rfl rfl (hquiet (by simp))
    refine Function.update_of_ne ?_ _ _
    rintro rfl
    exact hhsm hfree
  | @destroyTick tid htick hcall hsem =>
    refine h.of_frame ?_ rfl rfl (hquiet (by simp))
    refine smDestroyTick_of_ne fun heq => hleft tid ?_
    rw [heq]
  | _ => exact h.of_frame rfl rfl rfl (hquiet (by simp))

end TickWatch

/-- **A tick fires periodically.** After a registration of slot `j` for a window, with a period the due
test can reach, `sm_ticker` takes its firing branch for the slot, as long as it is left registered, in
exactly the passes numbered `1 + m * P` from the registration, for positive `m`, each time with count
`P`: in every run, whatever is in the other slots and in the message queue. -/
theorem tick_fires_periodically (mem : ℤ → Message) (before after : List SysStep) (tid j : ℕ)
    (hsm : Hsm) (n100msec param2 : UInt32) (sysflag : Int32) (es es' : List SysEvent) (o : SysEvent)
    (s t : Sys) (w : TickWatch)
    (hbefore : StepMachine.run Sys.step (Sys.init mem) before = some (es, s))
    (hslot : freeTick s.ticks = some j)
    (hset : Sys.step s (.setXtick tid hsm n100msec param2 sysflag) = some (o, t))
    (hafter : StepMachine.run (TickWatch.step j) ⟨t, 0, []⟩ after = some (es', w))
    (hne : hsm ≠ skInvalidHsm) (hfits : PeriodFits n100msec)
    (hleft : ∀ tid, .destroyTick tid (j + 1) ∉ after) :
    w.fired = (Divider.firings (tickPeriod n100msec) (w.looked j)).map
      fun k => (k, UInt32.ofNat (tickPeriod n100msec)) := by
  obtain ⟨hj, -, hpc, rfl⟩ := (Sys.TickExcl.run hbefore).register hslot hset
  refine (StepMachine.run_induction_along (TickWatch.step j)
    (fun _ i => ∀ tid, i ≠ .destroyTick tid (j + 1))
    (fun _ _ w => w.Keeps j hsm n100msec param2 sysflag) ?_ ?_ ?_ hafter).fired
  · refine ⟨fun hne => absurd hpc hne, ?_, fun heq => ?_, ?_⟩
    · simp [Sys.tick, TickWatch.done, hpc]
    · have hpc' : TickerPc.delay = .sending j := hpc.symm.trans heq
      cases hpc'
    · simp [Sys.tick, TickWatch.looked, hpc]
  · intro _ _ _ _ _ _ _ h hi hs
    exact h.step hfits hne hj hi hs
  · refine StepMachine.along_of_forall_mem _ (fun i hi _ tid heq => hleft tid ?_) _
    rwa [← heq]

/-- A tick of 100 milliseconds, up to the look of the second pass at its slot. -/
theorem tick_fires_periodically_two_passes :
    ∃ es' t w,
      Sys.step (Sys.init fun _ => ⟨0, 0, 0, 0⟩) (.createTick 1 64 100) = some (.silent, t) ∧
      StepMachine.run (TickWatch.step 0) ⟨t, 0, []⟩
        (.tickStart :: (List.replicate 32 .tickLook ++ [.tickEnd, .tickStart, .tickLook])) =
          some (es', w) ∧
      w.fired = (Divider.firings (tickPeriod 100) (w.looked 0)).map
        fun k => (k, UInt32.ofNat (tickPeriod 100)) := by
  have hrun : ∃ es' t w,
      Sys.step (Sys.init fun _ => ⟨0, 0, 0, 0⟩) (.createTick 1 64 100) = some (.silent, t) ∧
      StepMachine.run (TickWatch.step 0) ⟨t, 0, []⟩
        (.tickStart :: (List.replicate 32 .tickLook ++ [.tickEnd, .tickStart, .tickLook])) =
          some (es', w) := ⟨_, _, _, rfl, rfl⟩
  obtain ⟨es', t, w, hset, hafter⟩ := hrun
  exact ⟨es', t, w, hset, hafter, tick_fires_periodically (fun _ => ⟨0, 0, 0, 0⟩) [] _ 1 0 64 100 0 0
    [] es' .silent _ t w rfl rfl hset hafter (by decide) ⟨by decide, by decide⟩ (by simp)⟩

end SmIpc.Sm
