import SmIpc.Os.Base

/-! # Clock readings, elapsed times and timed waits

The wall clock as `gettimeofday` reports it, `internal_elapsed_time` of `skyapi_time.c`, and
`sk_sem_lock_timeout` of `skyapi_sem.c`.

* A clock is a number of microseconds; `gettimeofday` splits it into a `Timeval`.
* `elapsed_lt_distance` — for a clock that does not go back, the elapsed time exceeds the real
  distance by less than one millisecond.
* `skSemLockTimeout` gives the C library call a lock makes: `sem_wait`, whatever the time-out. -/

namespace SmIpc.Os

/-! ## Clock readings -/

/-- `struct timeval`. -/
structure Timeval where
  /-- Seconds. -/
  tvSec : ℤ
  /-- Microseconds. -/
  tvUsec : ℤ
  deriving DecidableEq, Repr

/-- `gettimeofday` when the clock stands at `clock` microseconds. -/
def gettimeofday (clock : ℕ) : Timeval := ⟨(clock / 1000000 : ℕ), (clock % 1000000 : ℕ)⟩

/-- The number `internal_elapsed_time` stores, from a reading to the current one: the milliseconds
between them, in `U32`. -/
def internalElapsedTime (w : ℕ) (old current : Timeval) : ℕ :=
  let elapsed := u32 w ((current.tvSec - old.tvSec) * 1000)
  if current.tvUsec ≥ old.tvUsec then
    u32 w (elapsed + (current.tvUsec - old.tvUsec) / 1000)
  else
    u32 w (elapsed - (old.tvUsec - current.tvUsec) / 1000)

/-- **The elapsed time is rounded up by less than a millisecond**, if the clock did not go back. -/
theorem elapsed_lt_distance (w : ℕ) {old current : ℕ} (h : old ≤ current) :
    1000 * internalElapsedTime w (gettimeofday old) (gettimeofday current)
      < current - old + 1000 := by
  have hbound : ∀ x : ℤ, 0 ≤ x → 1000 * x < current - old + 1000 →
      1000 * u32 w x < current - old + 1000 := by
    intro x hx hlt
    have := u32_le w hx
    omega
  simp only [internalElapsedTime, gettimeofday, u32_add, u32_sub]
  split
  · exact hbound _ (by omega) (by omega)
  · exact hbound _ (by omega) (by omega)

/-! ## Timed waits -/

/-- `struct timespec`. -/
structure Timespec where
  /-- Seconds. -/
  tvSec : ℤ
  /-- Nanoseconds. -/
  tvNsec : ℤ
  deriving DecidableEq, Repr

/-- A time of day in nanoseconds. -/
def Timespec.nanoseconds (t : Timespec) : ℤ := t.tvSec * 1000000000 + t.tvNsec

/-- The C library call a thread waits in. -/
inductive SemWait where
  /-- `sem_wait`. -/
  | semWait
  /-- `sem_timedwait`. -/
  | semTimedwait (absTimeout : Timespec)

/-- `absTimeout` as `sk_sem_lock_timeout` computes it for a finite time-out. -/
def absTimeout (w : ℕ) (now : Timeval) (timeoutMs : ℕ) : Timespec :=
  let uSleepMilliseconds := u32 w (timeoutMs + now.tvUsec / 1000)
  ⟨now.tvSec + (uSleepMilliseconds / 1000 : ℕ), (uSleepMilliseconds % 1000 : ℕ) * 1000 * 1000⟩

/-- The call `sk_sem_lock_timeout` makes. -/
def skSemLockTimeout (w : ℕ) (now : Timeval) (timeoutMs : ℕ) : SemWait :=
  if timeoutMs = skTimeoutInfinity then .semWait
  else
    -- the deadline is computed, but the call that would use it is commented out
    let _absTimeout := absTimeout w now timeoutMs
    .semWait

/-- The status `sk_sem_lock_timeout` makes of what the call returns. -/
def semLockStatus (ret : ℤ) : SkStatus := if ret = 0 then .success else .errorTimeout

/-- **Every lock waits without a deadline.** -/
@[simp] theorem skSemLockTimeout_eq (w : ℕ) (now : Timeval) (timeoutMs : ℕ) :
    skSemLockTimeout w now timeoutMs = .semWait := by
  rw [skSemLockTimeout]
  split <;> rfl

end SmIpc.Os
