import Mathlib.Algebra.Order.Group.Int
import Mathlib.Algebra.Order.Group.Unbundled.Abs
import SmIpc.Os.Clock

/-! # System time and deadlines

The clock functions of `skyapi_time.c`: `sk_clock_get_sys_time`, the two functions that add and subtract
system times, and `maketimespec`, which makes the deadline of a timed wait.

* A `U32` is an `unsigned long` of `w` bits, a `long` has as many. A conversion to `long` wraps; a signed
  operation that overflows has no value.
* `sysTime_minus_plus` — subtracting undoes adding exactly when the sum does not wrap.
* `elapsed_time_exact` — the elapsed time is off by less than a millisecond and does not go back while the
  clock does not. In `elapsed_borrow_wraps` the borrow goes below zero on the way, and wraps back.
* `maketimespec_exact` — a deadline is exact and valid, so that no timed wait refuses it. -/

namespace SmIpc.Os

/-! ## Adding and subtracting system times -/

/-- `sk_clock_sys_time_minus`. -/
def skClockSysTimeMinus (w startTime endTime : ℕ) : ℕ :=
  if endTime ≥ startTime then
    u32 w (endTime - startTime)
  else
    u32 w (0xFFFFFFFF - endTime + startTime)

/-- `sk_clock_sys_time_plus`. -/
def skClockSysTimePlus (w startTime endTime : ℕ) : ℕ := u32 w (endTime + startTime)

/-- A sum that does not wrap is the sum. -/
theorem sysTimePlus_of_lt {w start d : ℕ} (h : start + d < 2 ^ w) :
    skClockSysTimePlus w start d = start + d :=
  u32_of_lt (by push_cast; omega) h

/-- A sum that passes the end of the counter starts again from zero. -/
theorem sysTimePlus_of_wrap {start d : ℕ} (hstart : start < 2 ^ 32) (hd : d < 2 ^ 32)
    (h : 2 ^ 32 ≤ start + d) : skClockSysTimePlus 32 start d = start + d - 2 ^ 32 := by
  rw [skClockSysTimePlus, u32]
  omega

/-- Without a wrap, subtracting undoes adding. -/
theorem sysTimeMinus_plus_of_lt {start d : ℕ} (h : start + d < 2 ^ 32) :
    skClockSysTimeMinus 32 start (skClockSysTimePlus 32 start d) = d := by
  rw [sysTimePlus_of_lt h, skClockSysTimeMinus, if_pos (Nat.le_add_right start d)]
  exact u32_of_lt (by push_cast; omega) (by omega)

/-- **Across a wrap** the other branch is taken. Its constant is the last value of the counter, and what
the counter has gone past the end is subtracted where it should be added. -/
theorem sysTimeMinus_plus_of_wrap {start d : ℕ} (hstart : start < 2 ^ 32) (hd : d < 2 ^ 32)
    (h : 2 ^ 32 ≤ start + d) :
    skClockSysTimeMinus 32 start (skClockSysTimePlus 32 start d) = 2 ^ 32 - 1 - d := by
  rw [sysTimePlus_of_wrap hstart hd h, skClockSysTimeMinus, if_neg (by omega), u32]
  omega

/-- **Subtracting undoes adding exactly when the sum does not wrap.** -/
theorem sysTime_minus_plus (start d : ℕ) (hstart : start < 2 ^ 32) (hd : d < 2 ^ 32) :
    skClockSysTimeMinus 32 start (skClockSysTimePlus 32 start d) = d ↔ start + d < 2 ^ 32 := by
  constructor
  · intro heq
    by_contra hwrap
    rw [sysTimeMinus_plus_of_wrap hstart hd (Nat.le_of_not_lt hwrap)] at heq
    -- `2 ^ 32 - 1 - d = d` would make an odd number even
    omega
  · exact sysTimeMinus_plus_of_lt

/-- One second from the system time 1000. -/
theorem sysTime_minus_plus_second :
    skClockSysTimeMinus 32 1000 (skClockSysTimePlus 32 1000 1000) = 1000 ↔ 1000 + 1000 < 2 ^ 32 :=
  sysTime_minus_plus 1000 1000 (by decide) (by decide)

/-- **An elapsed time across the wrap**: one millisecond after the last value of the counter, the
difference is almost the whole range. -/
theorem sysTime_minus_plus_wrapped :
    skClockSysTimePlus 32 0xFFFFFFFF 1 = 0 ∧
      skClockSysTimeMinus 32 0xFFFFFFFF (skClockSysTimePlus 32 0xFFFFFFFF 1) = 0xFFFFFFFE ∧
      skClockSysTimeMinus 32 0xFFFFFFFF (skClockSysTimePlus 32 0xFFFFFFFF 1) ≠ 1 := by
  decide

/-! ## The time reported -/

namespace Timeval

/-- A time of day in microseconds. -/
def microseconds (t : Timeval) : ℤ := t.tvSec * 1000000 + t.tvUsec

/-- The microseconds are less than a second. -/
def Normal (t : Timeval) : Prop := 0 ≤ t.tvUsec ∧ t.tvUsec < 1000000

instance (t : Timeval) : Decidable t.Normal := inferInstanceAs (Decidable (_ ∧ _))

/-- A whole number of milliseconds between two times of day: rounded down in the microseconds, or up
where a second is borrowed. -/
def millisecondsSince (old now : Timeval) : ℤ :=
  if now.tvUsec ≥ old.tvUsec then
    (now.tvSec - old.tvSec) * 1000 + (now.tvUsec - old.tvUsec) / 1000
  else
    (now.tvSec - old.tvSec) * 1000 - (old.tvUsec - now.tvUsec) / 1000

end Timeval

/-- `sk_clock_get_sys_time`, in the build that is not for Android: the status and the number stored.
`hasOut` says that the pointer is not null; `now` is what `gettimeofday` gives, if it does not fail. -/
def skClockGetSysTime (w : ℕ) (startUTCSystemTime : Timeval) (hasOut : Bool) (now : Option Timeval) :
    SkStatus × Option ℕ :=
  if hasOut then
    match now with
    | some now => (.success, some (internalElapsedTime w startUTCSystemTime now))
    | none => (.failed, none)
  else (.failed, none)

section Elapsed

variable {w : ℕ} {old now now' : Timeval}

/-- The number stored is the number of milliseconds, in `U32`. -/
theorem internalElapsedTime_eq_u32 :
    internalElapsedTime w old now = u32 w (old.millisecondsSince now) := by
  rw [internalElapsedTime, Timeval.millisecondsSince]
  split
  · exact u32_add w _ _
  · exact u32_sub w _ _

/-- The number of milliseconds is off by less than one. -/
theorem abs_millisecondsSince_sub_lt (old now : Timeval) :
    |1000 * old.millisecondsSince now - (now.microseconds - old.microseconds)| < 1000 := by
  rw [abs_lt, Timeval.millisecondsSince, Timeval.microseconds, Timeval.microseconds]
  split <;> constructor <;> omega

/-- What the borrow gives back is never more than the seconds gave. -/
theorem millisecondsSince_nonneg (hold : old.Normal) (hle : old.microseconds ≤ now.microseconds) :
    0 ≤ old.millisecondsSince now := by
  obtain ⟨h₀, h₁⟩ := hold
  simp only [Timeval.microseconds] at hle
  rw [Timeval.millisecondsSince]
  split <;> omega

/-- **The milliseconds do not decrease as the time advances**, across a second and within one. -/
theorem millisecondsSince_mono (hold : old.Normal) (hnow : now.Normal) (hnow' : now'.Normal)
    (hle : now.microseconds ≤ now'.microseconds) :
    old.millisecondsSince now ≤ old.millisecondsSince now' := by
  obtain ⟨h₀, h₁⟩ := hold
  obtain ⟨hn₀, hn₁⟩ := hnow
  obtain ⟨hn₀', hn₁'⟩ := hnow'
  simp only [Timeval.microseconds] at hle
  rw [Timeval.millisecondsSince, Timeval.millisecondsSince]
  have hsec : now.tvSec < now'.tvSec ∨ now.tvSec = now'.tvSec ∧ now.tvUsec ≤ now'.tvUsec := by omega
  rcases hsec with hsec | ⟨hsec, husec⟩
  · split <;> split <;> omega
  · split <;> split <;> omega

/-- **The stored number is exact** as long as the distance stays a millisecond below the range of `U32`. -/
theorem internalElapsedTime_eq (hold : old.Normal) (hle : old.microseconds ≤ now.microseconds)
    (hdist : now.microseconds - old.microseconds ≤ (2 ^ w - 1) * 1000) :
    (internalElapsedTime w old now : ℤ) = old.millisecondsSince now := by
  have hnonneg := millisecondsSince_nonneg hold hle
  have hclose := (abs_lt.mp (abs_millisecondsSince_sub_lt old now)).2
  rw [internalElapsedTime_eq_u32, natCast_u32, Int.emod_eq_of_lt hnonneg (by omega)]

/-- **The unsigned subtraction of the borrow wraps exactly** where the seconds alone have wrapped. -/
theorem borrow_le_elapsed_iff (hold : old.Normal) (hle : old.microseconds ≤ now.microseconds)
    (hdist : now.microseconds - old.microseconds ≤ (2 ^ w - 1) * 1000)
    (hborrow : now.tvUsec < old.tvUsec) :
    (old.tvUsec - now.tvUsec) / 1000 ≤ u32 w ((now.tvSec - old.tvSec) * 1000) ↔
      (now.tvSec - old.tvSec) * 1000 < 2 ^ w := by
  have hnonneg := millisecondsSince_nonneg hold hle
  have hclose := (abs_lt.mp (abs_millisecondsSince_sub_lt old now)).2
  rw [Timeval.millisecondsSince, if_neg (by omega)] at hnonneg hclose
  have hsec : 0 ≤ (now.tvSec - old.tvSec) * 1000 := by omega
  rw [natCast_u32]
  constructor
  · intro hsub
    by_contra hwrap
    -- past the range the seconds start again, below what is given back
    rw [← Int.sub_emod_right, Int.emod_eq_of_lt (by omega) (by omega)] at hsub
    omega
  · intro hfit
    rw [Int.emod_eq_of_lt hsec hfit]
    omega

/-- The stored numbers do not decrease as the time advances. -/
theorem internalElapsedTime_mono (hold : old.Normal) (hnow : now.Normal) (hnow' : now'.Normal)
    (hold_le : old.microseconds ≤ now.microseconds) (hle : now.microseconds ≤ now'.microseconds)
    (hdist : now'.microseconds - old.microseconds ≤ (2 ^ w - 1) * 1000) :
    internalElapsedTime w old now ≤ internalElapsedTime w old now' := by
  have h : (internalElapsedTime w old now : ℤ) ≤ internalElapsedTime w old now' := by
    rw [internalElapsedTime_eq hold hold_le (by omega),
      internalElapsedTime_eq hold (by omega) hdist]
    exact millisecondsSince_mono hold hnow hnow' hle
  exact_mod_cast h

end Elapsed

/-- **The elapsed time is exact to a millisecond and never runs backwards**, for normalised times of day
at least a millisecond closer than the range of `U32`. In the branch that borrows, the number is the
exact difference, which is not negative; the unsigned subtraction takes the value below zero exactly where
the seconds alone have wrapped, and wraps back then. The times `sk_clock_get_sys_time` reports of a clock
that does not go back do not go back. -/
theorem elapsed_time_exact (w : ℕ) (old now : Timeval) (hold : old.Normal) (hnow : now.Normal)
    (hle : old.microseconds ≤ now.microseconds)
    (hdist : now.microseconds - old.microseconds ≤ (2 ^ w - 1) * 1000) :
    |1000 * (internalElapsedTime w old now : ℤ) - (now.microseconds - old.microseconds)| < 1000 ∧
    (now.tvUsec < old.tvUsec →
      (internalElapsedTime w old now : ℤ) =
          (now.tvSec - old.tvSec) * 1000 - (old.tvUsec - now.tvUsec) / 1000 ∧
        0 ≤ (now.tvSec - old.tvSec) * 1000 - (old.tvUsec - now.tvUsec) / 1000 ∧
        ((old.tvUsec - now.tvUsec) / 1000 ≤ u32 w ((now.tvSec - old.tvSec) * 1000) ↔
          (now.tvSec - old.tvSec) * 1000 < 2 ^ w)) ∧
    (∀ earlier : Timeval, earlier.Normal → old.microseconds ≤ earlier.microseconds →
      earlier.microseconds ≤ now.microseconds →
        internalElapsedTime w old earlier ≤ internalElapsedTime w old now) ∧
    (∀ readings : List Timeval,
      (∀ t ∈ readings, t.Normal ∧ old.microseconds ≤ t.microseconds ∧
        t.microseconds - old.microseconds ≤ (2 ^ w - 1) * 1000) →
      readings.Pairwise (fun t t' => t.microseconds ≤ t'.microseconds) →
        (readings.filterMap fun t => (skClockGetSysTime w old true (some t)).2).Pairwise (· ≤ ·)) := by
  refine ⟨?_, ?_, ?_, ?_⟩
  · rw [internalElapsedTime_eq hold hle hdist]
    exact abs_millisecondsSince_sub_lt old now
  · intro hborrow
    have heq : old.millisecondsSince now =
        (now.tvSec - old.tvSec) * 1000 - (old.tvUsec - now.tvUsec) / 1000 := by
      rw [Timeval.millisecondsSince, if_neg (by omega)]
    rw [internalElapsedTime_eq hold hle hdist, ← heq]
    exact ⟨rfl, millisecondsSince_nonneg hold hle, borrow_le_elapsed_iff hold hle hdist hborrow⟩
  · intro earlier hearlier hold_le hle'
    exact internalElapsedTime_mono hold hearlier hnow hold_le hle' hdist
  · intro readings hreadings hsorted
    have hmap : (readings.filterMap fun t => (skClockGetSysTime w old true (some t)).2) =
        readings.map (internalElapsedTime w old) :=
      congrFun List.filterMap_eq_map' readings
    rw [hmap, List.pairwise_map]
    refine hsorted.imp_of_mem ?_
    intro t t' ht ht' htt'
    exact internalElapsedTime_mono hold (hreadings t ht).1 (hreadings t' ht').1 (hreadings t ht).2.1 htt'
      (hreadings t' ht').2.2

/-- A second and a half, less half a millisecond after a borrow. -/
theorem elapsed_time_exact_borrow :
    |1000 * (internalElapsedTime 32 ⟨100, 700000⟩ ⟨102, 200500⟩ : ℤ) -
        (Timeval.microseconds ⟨102, 200500⟩ - Timeval.microseconds ⟨100, 700000⟩)| < 1000 :=
  (elapsed_time_exact 32 ⟨100, 700000⟩ ⟨102, 200500⟩ (by decide) (by decide) (by decide)
    (by decide)).1

/-- **A borrow below zero**: almost 4294968 seconds, which are 704 ms in `U32`, of which the borrow takes
999. The number stored is right all the same. -/
theorem elapsed_borrow_wraps :
    Timeval.Normal ⟨0, 999999⟩ ∧ Timeval.Normal ⟨4294968, 0⟩ ∧
      Timeval.microseconds ⟨0, 999999⟩ ≤ Timeval.microseconds ⟨4294968, 0⟩ ∧
      Timeval.microseconds ⟨4294968, 0⟩ - Timeval.microseconds ⟨0, 999999⟩ ≤ (2 ^ 32 - 1) * 1000 ∧
      u32 32 ((4294968 - 0) * 1000) = 704 ∧
      ¬ ((999999 - 0 : ℤ) / 1000 ≤ u32 32 ((4294968 - 0) * 1000)) ∧
      internalElapsedTime 32 ⟨0, 999999⟩ ⟨4294968, 0⟩ = 4294967001 := by
  decide

/-! ## Deadlines -/

/-- A number a `long` of `w` bits has a value for. -/
def IsLong (w : ℕ) (x : ℤ) : Prop := -2 ^ (w - 1) ≤ x ∧ x < 2 ^ (w - 1)

instance (w : ℕ) (x : ℤ) : Decidable (IsLong w x) := inferInstanceAs (Decidable (_ ∧ _))

/-- The result of a signed operation; none if it overflows. -/
def signedLong (w : ℕ) (x : ℤ) : Option ℤ := if IsLong w x then some x else none

/-- A conversion to `long`, which wraps. -/
def toLong (w : ℕ) (x : ℤ) : ℤ := x.bmod (2 ^ w)

/-- `tv_nsec` as `maketimespec` first computes it. The product with `u32TimeOutMs` and the sum are
unsigned, since `U32` is an `unsigned long`. -/
def timespecNsec (w : ℕ) (tvUsec : ℤ) (u32TimeOutMs : ℕ) : Option ℤ :=
  (signedLong w (tvUsec * 1000)).map fun usec =>
    toLong w (u32 w (usec + u32 w ((u32TimeOutMs % 1000 : ℕ) * 1000000)))

/-- The deadline `maketimespec` stores, when `gettimeofday` gives `tm`; none if a signed operation
overflows. The comparison with `1E+9` and its subtraction are in `double`, which is exact here. -/
def maketimespec (w : ℕ) (tm : Timeval) (u32TimeOutMs : ℕ) : Option Timespec :=
  let tvSec := toLong w (u32 w (tm.tvSec + (u32TimeOutMs / 1000 : ℕ)))
  (timespecNsec w tm.tvUsec u32TimeOutMs).bind fun tvNsec =>
    if tvNsec ≥ 1000000000 then
      (signedLong w (tvSec + 1)).map fun tvSec => ⟨tvSec, tvNsec - 1000000000⟩
    else some ⟨tvSec, tvNsec⟩

/-- A deadline the C library accepts. -/
def Timespec.Valid (t : Timespec) : Prop := 0 ≤ t.tvNsec ∧ t.tvNsec < 1000000000

instance (t : Timespec) : Decidable t.Valid := inferInstanceAs (Decidable (_ ∧ _))

/-- What a condition wait returns. -/
inductive CondErrno where
  /-- Zero. -/
  | ok
  /-- `ETIMEDOUT`. -/
  | etimedout
  /-- `EINVAL`. -/
  | einval
  deriving DecidableEq, Repr

/-- What `pthread_cond_timedwait` can return for a deadline. -/
inductive CondTimedwait (abstime : Timespec) : CondErrno → Prop
  /-- The thread was released. -/
  | released (hvalid : abstime.Valid) : CondTimedwait abstime .ok
  /-- The deadline has passed. -/
  | timedOut (hvalid : abstime.Valid) : CondTimedwait abstime .etimedout
  /-- The deadline is no time of day. -/
  | refused (hinvalid : ¬ abstime.Valid) : CondTimedwait abstime .einval

/-- What `ret` can be after the wait of `sk_queue_send_ex` or of `sk_queue_receive_ex`. -/
def QueueWaitReturns (w : ℕ) (now : Timeval) (timeoutMs : ℕ) (ret : CondErrno) : Prop :=
  if timeoutMs = skTimeoutInfinity then ret = .ok
  else if timeoutMs = skTimeoutImmediate then ret = .etimedout
  else ∃ ts, maketimespec w now timeoutMs = some ts ∧ CondTimedwait ts ret

/-- What `rc` can be after a condition wait of `sk_event_wait`. -/
def EventWaitReturns (w : ℕ) (now : Timeval) (timeoutMs : ℕ) (rc : CondErrno) : Prop :=
  if timeoutMs = skTimeoutInfinity then rc = .ok
  else ∃ tout, maketimespec w now timeoutMs = some tout ∧ CondTimedwait tout rc

section Deadlines

variable {w timeoutMs : ℕ} {now : Timeval}

/-- A wait that is given a valid deadline does not refuse it. -/
theorem CondTimedwait.ne_einval {t : Timespec} {ret : CondErrno} (hvalid : t.Valid)
    (h : CondTimedwait t ret) : ret ≠ .einval := by
  cases h with
  | released | timedOut => exact CondErrno.noConfusion
  | refused hinvalid => exact absurd hvalid hinvalid

/-- A number that a `long` has a value for comes back from `U32` unchanged. -/
theorem toLong_u32 {x : ℤ} (hw : 0 < w) (h : IsLong w x) : toLong w (u32 w x) = x := by
  obtain ⟨h₀, h₁⟩ := h
  have hdouble : ((2 ^ w : ℕ) : ℤ) = 2 * 2 ^ (w - 1) := by
    rw [← Nat.succ_pred_eq_of_pos hw, Nat.pow_succ]
    push_cast
    rw [Int.mul_comm]
  have hcast : (2 : ℤ) ^ w = ((2 ^ w : ℕ) : ℤ) := by push_cast; rfl
  rw [toLong, natCast_u32, hcast, Int.emod_bmod]
  exact Int.bmod_eq_of_le_mul_two (by omega) (by omega)

/-- Every number below `2 ^ 31` is a `long`. -/
theorem isLong_of_lt {x : ℤ} (hw : 32 ≤ w) (h₀ : 0 ≤ x) (h₁ : x < 2 ^ 31) : IsLong w x := by
  have hpow : (2 : ℤ) ^ 31 ≤ 2 ^ (w - 1) := by
    exact_mod_cast Nat.pow_le_pow_right (by decide : 0 < 2) (by omega : 31 ≤ w - 1)
  exact ⟨by omega, by omega⟩

/-- **No value of `tv_nsec` overflows** before the carry: the microseconds and the milliseconds make less
than two seconds. -/
theorem timespecNsec_eq (hw : 32 ≤ w) (h : now.Normal) :
    timespecNsec w now.tvUsec timeoutMs =
      some (now.tvUsec * 1000 + (timeoutMs % 1000 : ℕ) * 1000000) := by
  obtain ⟨h₀, h₁⟩ := h
  have hms : timeoutMs % 1000 < 1000 := Nat.mod_lt _ (by decide)
  have husec : IsLong w (now.tvUsec * 1000) := isLong_of_lt hw (by omega) (by omega)
  have hsum : IsLong w (now.tvUsec * 1000 + (timeoutMs % 1000 : ℕ) * 1000000) :=
    isLong_of_lt hw (by omega) (by omega)
  rw [timespecNsec, signedLong, if_pos husec, Option.map_some, Int.add_comm, u32_add, Int.add_comm,
    toLong_u32 (by omega) hsum]

/-- **The deadline**: one carry is enough. -/
theorem maketimespec_eq (hw : 32 ≤ w) (h : now.Normal) (hsec : -2 ^ (w - 1) ≤ now.tvSec)
    (hfar : now.tvSec + (timeoutMs / 1000 : ℕ) + 1 < 2 ^ (w - 1)) :
    ∃ t, maketimespec w now timeoutMs = some t ∧
      t.nanoseconds = now.microseconds * 1000 + timeoutMs * 1000000 ∧ t.Valid := by
  have hlong : IsLong w (now.tvSec + (timeoutMs / 1000 : ℕ)) := ⟨by omega, by omega⟩
  have hlong' : IsLong w (now.tvSec + (timeoutMs / 1000 : ℕ) + 1) := ⟨by omega, hfar⟩
  simp only [maketimespec, timespecNsec_eq hw h, toLong_u32 (by omega : 0 < w) hlong, signedLong,
    if_pos hlong', Option.bind_some, Option.map_some]
  obtain ⟨h₀, h₁⟩ := h
  have hms : timeoutMs % 1000 < 1000 := Nat.mod_lt _ (by decide)
  split
  · refine ⟨_, rfl, ?_, ?_⟩
    · simp only [Timespec.nanoseconds, Timeval.microseconds]
      omega
    · exact ⟨by simp only; omega, by simp only; omega⟩
  · refine ⟨_, rfl, ?_, ?_⟩
    · simp only [Timespec.nanoseconds, Timeval.microseconds]
      omega
    · exact ⟨by simp only; omega, by simp only; omega⟩

end Deadlines

/-- **`maketimespec` computes every deadline exactly**, for a `long` of at least 32 bits: the deadline is
the current time and the time-out in nanoseconds, `tv_nsec` is less than a second, and none of its
values overflows a `long` of 32 bits or more. So neither a queue nor an event has a wait refused. -/
theorem maketimespec_exact (w : ℕ) (hw : 32 ≤ w) (now : Timeval) (hnow : now.Normal) (timeoutMs : ℕ)
    (hsec : -2 ^ (w - 1) ≤ now.tvSec)
    (hfar : now.tvSec + (timeoutMs / 1000 : ℕ) + 1 < 2 ^ (w - 1)) :
    (∃ t, maketimespec w now timeoutMs = some t ∧
      t.tvSec * 1000000000 + t.tvNsec = now.tvSec * 1000000000 + now.tvUsec * 1000 +
        timeoutMs * 1000000 ∧
      0 ≤ t.tvNsec ∧ t.tvNsec < 1000000000) ∧
    (∀ v, 32 ≤ v → ∃ nsec, timespecNsec v now.tvUsec timeoutMs = some nsec ∧
      nsec = now.tvUsec * 1000 + (timeoutMs % 1000 : ℕ) * 1000000 ∧
      0 ≤ now.tvUsec * 1000 ∧ now.tvUsec * 1000 ≤ nsec ∧ nsec < 2 ^ 31) ∧
    (∀ ret, QueueWaitReturns w now timeoutMs ret → ret ≠ .einval) ∧
    (∀ rc, EventWaitReturns w now timeoutMs rc → rc ≠ .einval) := by
  obtain ⟨t, ht, hexact, hvalid⟩ := maketimespec_eq hw hnow hsec hfar
  refine ⟨⟨t, ht, ?_, hvalid⟩, ?_, ?_, ?_⟩
  · simp only [Timespec.nanoseconds, Timeval.microseconds] at hexact
    omega
  · intro v hv
    obtain ⟨h₀, h₁⟩ := hnow
    have hmod : timeoutMs % 1000 < 1000 := Nat.mod_lt _ (by decide)
    exact ⟨_, timespecNsec_eq hv ⟨h₀, h₁⟩, rfl, by omega, by omega, by omega⟩
  · intro ret hret
    rw [QueueWaitReturns] at hret
    split at hret
    · exact hret ▸ CondErrno.noConfusion
    · split at hret
      · exact hret ▸ CondErrno.noConfusion
      · obtain ⟨ts, hts, hwait⟩ := hret
        rw [ht] at hts
        cases hts
        exact hwait.ne_einval hvalid
  · intro rc hrc
    rw [EventWaitReturns] at hrc
    split at hrc
    · exact hrc ▸ CondErrno.noConfusion
    · obtain ⟨ts, hts, hwait⟩ := hrc
      rw [ht] at hts
      cases hts
      exact hwait.ne_einval hvalid

/-- A deadline with a carry, with the largest sum there is. -/
theorem maketimespec_exact_carry :
    ∃ t, maketimespec 32 ⟨1700000000, 999999⟩ 1999 = some t ∧
      t.tvSec * 1000000000 + t.tvNsec = 1700000000 * 1000000000 + 999999 * 1000 + 1999 * 1000000 ∧
      0 ≤ t.tvNsec ∧ t.tvNsec < 1000000000 :=
  (maketimespec_exact 32 (by decide) ⟨1700000000, 999999⟩ (by decide) 1999 (by decide)
    (by decide)).1

end SmIpc.Os
