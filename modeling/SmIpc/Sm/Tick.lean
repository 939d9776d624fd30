import Mathlib.Logic.Function.Basic
import SmIpc.Sm.Message

/-! # The tick table of `smtick.c`

`tick_list` and the functions that read and write it under `sem_tick_id`: `sm_set_xtick`,
`sm_destroy_tick`, and what one round of `sm_ticker` does with a slot. -/

namespace SmIpc.Sm

/-- `SMALLWIN_NTICKS`. -/
def smallwinNticks : ℕ := 32

/-- `time_tick`, which nothing changes. -/
def timeTick : UInt32 := 100

/-- `TICK_MSG`. -/
structure TickMsg where
  /-- The window, 0 in a free slot. -/
  hsm : Hsm
  /-- The period. -/
  n100msec : UInt32
  /-- The rounds counted so far. -/
  count : UInt32
  /-- The second parameter to send, or 0 to send the count. -/
  param2 : UInt32
  /-- Set for a system tick. -/
  sysflag : Int32

/-- `tick_list`, by index. -/
abbrev TickList := ℕ → TickMsg

/-- `tick_list` after `memset`. -/
def TickList.init : TickList := fun _ => ⟨0, 0, 0, 0, 0⟩

/-- The loop of `sm_set_xtick`, with `n` slots to go from slot `i`: the first free one. -/
def freeTickLoop (ticks : TickList) : ℕ → ℕ → Option ℕ
  | 0, _ => none
  | n + 1, i => if (ticks i).hsm = 0 then some i else freeTickLoop ticks n (i + 1)

/-- The slot `sm_set_xtick` takes. -/
def freeTick (ticks : TickList) : Option ℕ := freeTickLoop ticks smallwinNticks 0

/-- The slot `sm_set_xtick` takes is free, and in the table. -/
theorem freeTickLoop_spec {ticks : TickList} {n i j : ℕ} (h : freeTickLoop ticks n i = some j) :
    (ticks j).hsm = 0 ∧ j < i + n := by
  induction n generalizing i with
  | zero => cases h
  | succ n ih =>
    rw [freeTickLoop] at h
    split at h
    · rename_i hfree
      obtain rfl := Option.some.inj h
      exact ⟨hfree, by omega⟩
    · obtain ⟨hfree, hlt⟩ := ih h
      exact ⟨hfree, by omega⟩

/-- `sm_set_xtick` under `sem_tick_id`: the slot number it returns, counted from 1, or 0. -/
def smSetXtick (ticks : TickList) (hsm : Hsm) (n100msec param2 : UInt32) (sysflag : Int32) :
    ℤ × TickList :=
  match freeTick ticks with
  | some i => (i + 1, Function.update ticks i ⟨hsm, n100msec, 0, param2, sysflag⟩)
  | none => (0, ticks)

/-- `sm_destroy_tick` between its two `sk_sem_lock(sem_tick_id)`. -/
def smDestroyTick (ticks : TickList) (htick : ℤ) : TickList :=
  if 0 < htick ∧ htick ≤ smallwinNticks then
    Function.update ticks (htick - 1).toNat { ticks (htick - 1).toNat with hsm := 0 }
  else ticks

/-- `sm_destroy_tick` changes nothing of a slot but its window. -/
theorem smDestroyTick_apply (ticks : TickList) (htick : ℤ) (k : ℕ) :
    smDestroyTick ticks htick k = ticks k ∨
      smDestroyTick ticks htick k = { ticks k with hsm := 0 } := by
  rw [smDestroyTick]
  split
  · by_cases hk : k = (htick - 1).toNat
    · subst hk
      rw [Function.update_self]
      exact .inr rfl
    · rw [Function.update_of_ne hk]
      exact .inl rfl
  · exact .inl rfl

/-- It leaves the other slots alone. -/
theorem smDestroyTick_of_ne {ticks : TickList} {htick : ℤ} {k : ℕ} (h : htick ≠ k + 1) :
    smDestroyTick ticks htick k = ticks k := by
  rw [smDestroyTick]
  split
  · exact Function.update_of_ne (by omega) _ _
  · rfl

namespace TickMsg

/-- The slot's period has passed, in `u32`. -/
def IsDue (slot : TickMsg) : Prop := slot.n100msec ≤ slot.count * timeTick

instance (slot : TickMsg) : Decidable slot.IsDue := inferInstanceAs (Decidable (_ ≤ _))

/-- The message `sm_ticker` sends for slot `i`. -/
def message (slot : TickMsg) (i : ℕ) : Message :=
  ⟨slot.hsm, smmTick, UInt32.ofNat (i + 1), if slot.param2 = 0 then slot.count else slot.param2⟩

/-- The slot after a round in which it was not due: `count++`. -/
def counted (slot : TickMsg) : TickMsg := { slot with count := slot.count + 1 }

/-- The slot after a round in which it was due: `count = 0; count++`. -/
def restarted (slot : TickMsg) : TickMsg := { slot with count := 1 }

@[simp] theorem hsm_restarted (slot : TickMsg) : slot.restarted.hsm = slot.hsm := rfl

end TickMsg

/-- What `sm_ticker` finds at slot `i`, without the send: whether it goes on to send, and the slot
afterwards if it does not. `none` is a search of the ring that does not end. -/
def tickLook (q : Msgq) (slot : TickMsg) (i : ℕ) : Option (Option TickMsg) :=
  if slot.hsm = 0 then some (some slot)
  else if slot.IsDue then
    match isMessageParam q slot.hsm smmTick (UInt32.ofNat (i + 1)) slot.count with
    | none => none
    | some found => if found = 0 then some none else some (some slot.restarted)
  else some (some slot.counted)

/-- A round that leaves a slot in place leaves its window. -/
theorem hsm_tickLook {q : Msgq} {slot slot' : TickMsg} {i : ℕ}
    (h : tickLook q slot i = some (some slot')) : slot'.hsm = slot.hsm := by
  rw [tickLook] at h
  split at h
  · cases h
    rfl
  · split at h
    · split at h
      · cases h
      · split at h
        · cases h
        · cases h
          rfl
    · cases h
      rfl

/-- A slot that keeps its window when it changes leaves the windows of all slots as they are. -/
theorem hsm_update {ticks : TickList} {j : ℕ} {slot : TickMsg} (h : slot.hsm = (ticks j).hsm)
    (n : ℕ) : (Function.update ticks j slot n).hsm = (ticks n).hsm := by
  by_cases hn : n = j
  · subst hn
    rw [Function.update_self, h]
  · rw [Function.update_of_ne hn]

end SmIpc.Sm
