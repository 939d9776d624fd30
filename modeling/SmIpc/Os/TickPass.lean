import Mathlib.Order.Bounds.Basic
import SmIpc.Os.TickTable

/-! # One pass over the ticker table

What one run of the loop of `kal_handle_time_timeouts` does, over a table of any length: one round
expires, reloads or ages a ticker and folds it into the shortest time-out, and the loop does so for the
tickers in order.

* `TickerElement.handled_oneShot`, `handled_periodic`, `handled_aged`, `handled_other` — a round, by what
  the ticker was.
* `handleLoop_callbacks`, `handleLoop_ticker`, `handleLoop_shortest` — the three results of the loop, each
  by its own induction.
* `PassMeets` puts them together as the contract of a pass, and `handleLoop_meets` proves it. -/

namespace SmIpc.Os

/-! ## One round -/

namespace TickerElement

variable {k : TickerElement} {uElapsedTime : ℕ}

/-- A one-shot ticker that is due stops and is reloaded. -/
theorem handled_oneShot (h : k.IsDue uElapsedTime) (hone : k.bOneShot ≠ 0) :
    k.handled uElapsedTime = { k with tickerState := .set, uTimeRemaining := k.uTimeout } := by
  rw [handled, if_pos h.1, if_pos h.2, if_pos hone]

/-- A periodic ticker that is due goes on and is reloaded. -/
theorem handled_periodic (h : k.IsDue uElapsedTime) (hone : k.bOneShot = 0) :
    k.handled uElapsedTime = { k with uTimeRemaining := k.uTimeout } := by
  rw [handled, if_pos h.1, if_pos h.2, if_neg (not_not.mpr hone)]

/-- A started ticker that is not due is aged. -/
theorem handled_aged (hs : k.IsStarted) (h : uElapsedTime < k.uTimeRemaining) :
    k.handled uElapsedTime = { k with uTimeRemaining := k.uTimeRemaining - uElapsedTime } := by
  rw [handled, if_pos hs, if_neg (Nat.not_le.mpr h)]

/-- A ticker that is not started is left alone. -/
theorem handled_other (hs : ¬ k.IsStarted) : k.handled uElapsedTime = k := by
  rw [handled, if_neg hs]

end TickerElement

/-! ## The loop -/

variable {tickers : KalTickers} {uElapsedTime : ℕ}

/-- The callback of a ticker, with its own id and user data. -/
def KalTickers.callback (tickers : KalTickers) (j : ℕ) : Callback :=
  ⟨j, (tickers j).pfnCallback, (tickers j).pUserData⟩

/-- A write to a ticker below those to come is not seen by the rest of the loop. -/
theorem update_of_mem_range' {n i j : ℕ} {k : TickerElement} (hj : j ∈ List.range' (i + 1) n) :
    Function.update tickers i k j = tickers j := by
  have hlt : i + 1 ≤ j := (List.mem_range'_1.mp hj).1
  exact Function.update_of_ne (by omega) _ _

/-- **The callbacks of the loop** are those of the tickers that are due, in index order. -/
theorem handleLoop_callbacks (uElapsedTime n i shortest : ℕ) (tickers : KalTickers) :
    (handleLoop uElapsedTime n i tickers shortest).1 =
      ((List.range' i n).filter fun j => (tickers j).IsDue uElapsedTime).map tickers.callback := by
  induction n generalizing i shortest tickers with
  | zero => rfl
  | succ n ih =>
    simp only [handleLoop, ih, List.range'_succ, List.filter_cons, decide_eq_true_eq]
    -- the rest of the loop reads the tickers of the table before the round
    have hfilter : ((List.range' (i + 1) n).filter fun j =>
          (Function.update tickers i ((tickers i).handled uElapsedTime) j).IsDue uElapsedTime) =
        (List.range' (i + 1) n).filter fun j => (tickers j).IsDue uElapsedTime :=
      List.filter_congr fun j hj => by rw [update_of_mem_range' hj]
    have hmap : ∀ js : List ℕ, (∀ j ∈ js, j ∈ List.range' (i + 1) n) →
        js.map (KalTickers.callback
          (Function.update tickers i ((tickers i).handled uElapsedTime))) =
          js.map tickers.callback := by
      intro js hjs
      refine List.map_congr_left fun j hj => ?_
      rw [KalTickers.callback, update_of_mem_range' (hjs j hj)]
      rfl
    rw [hfilter, hmap _ fun j hj => List.mem_of_mem_filter hj]
    split
    · rfl
    · rfl

/-- **The shortest time-out of the loop** is folded over the tickers as the loop leaves them. -/
theorem handleLoop_shortest (uElapsedTime n i shortest : ℕ) (tickers : KalTickers) :
    (handleLoop uElapsedTime n i tickers shortest).2.1 =
      (List.range' i n).foldl (fun m j => ((tickers j).handled uElapsedTime).nextShortest m)
        shortest := by
  induction n generalizing i shortest tickers with
  | zero => rfl
  | succ n ih =>
    simp only [handleLoop, ih, List.range'_succ, List.foldl_cons]
    refine List.foldl_ext _ _ _ fun m j hj => ?_
    rw [update_of_mem_range' hj]

/-- A fold of `nextShortest` gives the least of its start and of what the started tickers have to
go. -/
theorem isLeast_foldl_nextShortest (ks : ℕ → TickerElement) (js : List ℕ) (m : ℕ) :
    IsLeast ({m} ∪ {t | ∃ j ∈ js, (ks j).IsStarted ∧ t = (ks j).uTimeRemaining})
      (js.foldl (fun m j => (ks j).nextShortest m) m) := by
  induction js generalizing m with
  | nil => simp [IsLeast, lowerBounds]
  | cons j js ih =>
    obtain ⟨hmem, hleast⟩ := ih ((ks j).nextShortest m)
    obtain ⟨hle, hstarted⟩ := (ks j).nextShortest_le m
    rw [List.foldl_cons]
    constructor
    · rcases hmem with heq | ⟨j', hj', hs, ht⟩
      · -- the rest of the fold changed nothing, so the value is `m` or this ticker's
        rw [Set.mem_singleton_iff.mp heq, TickerElement.nextShortest]
        split
        · rename_i h
          exact .inr ⟨j, List.mem_cons_self, h.1, rfl⟩
        · exact .inl rfl
      · exact .inr ⟨j', List.mem_cons_of_mem j hj', hs, ht⟩
    · have hfold := hleast (.inl rfl)
      rintro t (rfl | ⟨j', hj', hs, rfl⟩)
      · exact hfold.trans hle
      · rcases List.mem_cons.mp hj' with rfl | hj'
        · exact hfold.trans (hstarted hs)
        · exact hleast (.inr ⟨j', hj', hs, rfl⟩)

/-! ## The contract of a pass -/

/-- What a pass over the first `n` tickers of a table has to do, for an elapsed time. -/
structure PassMeets (uElapsedTime n : ℕ) (tickers : KalTickers)
    (r : List Callback × ℕ × KalTickers) : Prop where
  /-- The tickers that are due are called back, once each and in index order. -/
  callbacks : r.1 = ((List.range n).filter fun j => (tickers j).IsDue uElapsedTime).map
    tickers.callback
  /-- A one-shot ticker that is due ends set and reloaded. -/
  oneShot : ∀ j < n, (tickers j).IsDue uElapsedTime → (tickers j).bOneShot ≠ 0 →
    r.2.2 j = { tickers j with tickerState := .set, uTimeRemaining := (tickers j).uTimeout }
  /-- A periodic ticker that is due stays started and is reloaded. -/
  periodic : ∀ j < n, (tickers j).IsDue uElapsedTime → (tickers j).bOneShot = 0 →
    (r.2.2 j).IsStarted ∧ r.2.2 j = { tickers j with uTimeRemaining := (tickers j).uTimeout }
  /-- What any other started ticker has to go drops by the elapsed time and stays positive. -/
  aged : ∀ j < n, (tickers j).IsStarted → ¬ (tickers j).IsDue uElapsedTime →
    ∃ t, 0 < t ∧ t + uElapsedTime = (tickers j).uTimeRemaining ∧
      r.2.2 j = { tickers j with uTimeRemaining := t }
  /-- All other slots are left alone. -/
  others : ∀ j, (n ≤ j ∨ ¬ (tickers j).IsStarted) → r.2.2 j = tickers j
  /-- The value returned is the least of `SK_TIMEOUT_INFINITY` and of what the tickers that are
  started afterwards have to go. -/
  shortest : IsLeast ({skTimeoutInfinity} ∪
    {t | ∃ j < n, (r.2.2 j).IsStarted ∧ t = (r.2.2 j).uTimeRemaining}) r.2.1

/-- The tickers of a pass are the rounds of its tickers. -/
theorem handleLoop_handled {n j : ℕ} (hj : j < n) (uElapsedTime shortest : ℕ) :
    (handleLoop uElapsedTime n 0 tickers shortest).2.2 j = (tickers j).handled uElapsedTime := by
  rw [handleLoop_ticker, if_pos (by omega)]

/-- The loop meets the contract, over a table of any length. -/
theorem handleLoop_meets (uElapsedTime n : ℕ) (tickers : KalTickers) :
    PassMeets uElapsedTime n tickers
      (handleLoop uElapsedTime n 0 tickers skTimeoutInfinity) where
  callbacks := by
    rw [handleLoop_callbacks, List.range_eq_range']
  oneShot := by
    intro j hj hdue hone
    rw [handleLoop_handled hj, TickerElement.handled_oneShot hdue hone]
  periodic := by
    intro j hj hdue hone
    rw [handleLoop_handled hj, TickerElement.handled_periodic hdue hone]
    exact ⟨hdue.1, rfl⟩
  aged := by
    intro j hj hs hdue
    have hlt : uElapsedTime < (tickers j).uTimeRemaining :=
      Nat.lt_of_not_le fun hle => hdue ⟨hs, hle⟩
    refine ⟨(tickers j).uTimeRemaining - uElapsedTime, by omega, by omega, ?_⟩
    rw [handleLoop_handled hj, TickerElement.handled_aged hs hlt]
  others := by
    rintro j (hj | hs)
    · rw [handleLoop_ticker, if_neg (by omega)]
    · rw [handleLoop_ticker, TickerElement.handled_other hs, ite_self]
  shortest := by
    have hset : {t | ∃ j < n,
          ((handleLoop uElapsedTime n 0 tickers skTimeoutInfinity).2.2 j).IsStarted ∧
            t = ((handleLoop uElapsedTime n 0 tickers skTimeoutInfinity).2.2 j).uTimeRemaining} =
        {t | ∃ j ∈ List.range' 0 n, ((tickers j).handled uElapsedTime).IsStarted ∧
          t = ((tickers j).handled uElapsedTime).uTimeRemaining} := by
      ext t
      constructor
      · rintro ⟨j, hj, h⟩
        rw [handleLoop_handled hj] at h
        exact ⟨j, List.mem_range'_1.mpr (by omega), h⟩
      · rintro ⟨j, hj, h⟩
        have hj : j < n := by
          have := (List.mem_range'_1.mp hj).2
          omega
        refine ⟨j, hj, ?_⟩
        rwa [handleLoop_handled hj]
    rw [hset, handleLoop_shortest]
    exact isLeast_foldl_nextShortest (fun j => (tickers j).handled uElapsedTime) _ _

/-- **A pass meets its contract**, for any elapsed time and callbacks that do not call `sk_tick_*`: over a
table of any length, and so does `kal_handle_time_timeouts` over its table of `MAX_TICKS_NUM`
tickers. -/
theorem kalHandleTimeTimeouts_meets (uElapsedTime : ℕ) (tickers : KalTickers) :
    (∀ n, PassMeets uElapsedTime n tickers
      (handleLoop uElapsedTime n 0 tickers skTimeoutInfinity)) ∧
    PassMeets uElapsedTime maxTicksNum tickers (kalHandleTimeTimeouts tickers uElapsedTime) :=
  ⟨fun n => handleLoop_meets uElapsedTime n tickers,
    handleLoop_meets uElapsedTime maxTicksNum tickers⟩

end SmIpc.Os
