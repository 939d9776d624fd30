import Mathlib.Data.List.Perm.Basic
import Mathlib.Logic.Function.Basic

/-! # Linearizability

Threads call the operations of an object and the calls overlap; a history is the list of their
invocations and responses. The history is explained by the sequential object if there is an order of the
calls that respects the calls which do not overlap, and in which calling them one after the other gives
the same results.

* `calls` reads the calls of a history, with the times they were begun and ended.
* **`Linearization`** — an order of the calls of a history that explains it.
* `Explained` — a history with a state of the object and what each thread is doing, as they come about
  when every call is performed at one point between its invocation and its response.
* **`Explained.linearization`** — the order of these points explains the history. -/

namespace Linearizable

variable {σ Op Res : Type*}

/-- An event of a history. -/
inductive CallEvent (Op Res : Type*) where
  /-- A thread calls an operation. -/
  | invoke (tid : ℕ) (op : Op)
  /-- The call of a thread returns. -/
  | respond (tid : ℕ) (result : Res)
  deriving DecidableEq, Repr

/-- A call that has returned. -/
structure Call (Op Res : Type*) where
  /-- The thread. -/
  tid : ℕ
  /-- The operation. -/
  op : Op
  /-- What it returned. -/
  result : Res
  /-- The time of its invocation. -/
  begun : ℕ
  /-- The time of its response. -/
  ended : ℕ
  deriving DecidableEq, Repr

/-- What is known after a part of a history. -/
structure Recorder (Op Res : Type*) where
  /-- The operation each thread is in, and when it was invoked. -/
  pending : ℕ → Option (Op × ℕ)
  /-- The calls that have returned, in the order they did. -/
  calls : List (Call Op Res)
  /-- The number of events. -/
  time : ℕ

/-- One more event. -/
def Recorder.record (r : Recorder Op Res) : CallEvent Op Res → Recorder Op Res
  | .invoke tid op =>
      { r with pending := Function.update r.pending tid (some (op, r.time)), time := r.time + 1 }
  | .respond tid result =>
      match r.pending tid with
      | none => { r with time := r.time + 1 }
      | some (op, begun) =>
          ⟨Function.update r.pending tid none, r.calls ++ [⟨tid, op, result, begun, r.time⟩],
            r.time + 1⟩

/-- What is known after a history. -/
def recorded (h : List (CallEvent Op Res)) : Recorder Op Res :=
  h.foldl Recorder.record ⟨fun _ => none, [], 0⟩

/-- The calls of a history. -/
def calls (h : List (CallEvent Op Res)) : List (Call Op Res) := (recorded h).calls

@[simp] theorem recorded_snoc (h : List (CallEvent Op Res)) (e : CallEvent Op Res) :
    recorded (h ++ [e]) = (recorded h).record e := by
  rw [recorded, List.foldl_append]
  rfl

/-- Call operations one after the other. -/
def runCalls (spec : σ → Op → Res × σ) : σ → List Op → List Res × σ
  | s, [] => ([], s)
  | s, op :: ops =>
      let r := runCalls spec (spec s op).2 ops
      ((spec s op).1 :: r.1, r.2)

/-- One more call at the end. -/
theorem runCalls_snoc {spec : σ → Op → Res × σ} {s t : σ} {ops : List Op} {rs : List Res}
    (h : runCalls spec s ops = (rs, t)) (op : Op) :
    runCalls spec s (ops ++ [op]) = (rs ++ [(spec t op).1], (spec t op).2) := by
  induction ops generalizing s rs with
  | nil =>
    obtain ⟨rfl, rfl⟩ := Prod.mk.inj h
    rfl
  | cons o ops ih =>
    obtain ⟨rfl, ht⟩ := Prod.mk.inj h
    rw [List.cons_append, runCalls, ih (Prod.ext rfl ht)]
    rfl

/-- **An order of the calls of a history that explains it**: a call that returned before another was
invoked comes before it, and calling the operations in this order gives the same results and leads to
the state `t`. -/
structure Linearization (spec : σ → Op → Res × σ) (s₀ : σ) (h : List (CallEvent Op Res)) (t : σ)
    (order : List (Call Op Res)) : Prop where
  /-- It is an order of the calls. -/
  perm : order.Perm (calls h)
  /-- It respects the calls that do not overlap. -/
  realTime : order.Pairwise fun a b => ¬ b.ended < a.begun
  /-- The object gives these results, one after the other. -/
  legal : runCalls spec s₀ (order.map Call.op) = (order.map Call.result, t)

/-- What a thread is doing. -/
inductive Status (Op Res : Type*) where
  /-- It is in no call. -/
  | idle
  /-- Its call has not been performed. -/
  | invoked (op : Op)
  /-- Its call has been performed, with this result. -/
  | performed (result : Res)
  deriving DecidableEq, Repr

/-- **A history, a state of the object and what the threads are doing**, when every call is performed at
one point between its invocation and its response. -/
inductive Explained (spec : σ → Op → Res × σ) (s₀ : σ) :
    List (CallEvent Op Res) → σ → (ℕ → Status Op Res) → Prop where
  /-- Nothing has happened. -/
  | nil : Explained spec s₀ [] s₀ fun _ => .idle
  /-- A thread calls an operation. -/
  | invoke {h : List (CallEvent Op Res)} {t : σ} {status : ℕ → Status Op Res} (tid : ℕ) (op : Op)
      (hs : status tid = .idle) (he : Explained spec s₀ h t status) :
      Explained spec s₀ (h ++ [.invoke tid op]) t (Function.update status tid (.invoked op))
  /-- The call of a thread is performed. -/
  | perform {h : List (CallEvent Op Res)} {t : σ} {status : ℕ → Status Op Res} (tid : ℕ) {op : Op}
      (hs : status tid = .invoked op) (he : Explained spec s₀ h t status) :
      Explained spec s₀ h (spec t op).2 (Function.update status tid (.performed (spec t op).1))
  /-- The call of a thread returns. -/
  | respond {h : List (CallEvent Op Res)} {t : σ} {status : ℕ → Status Op Res} (tid : ℕ)
      {result : Res} (hs : status tid = .performed result) (he : Explained spec s₀ h t status) :
      Explained spec s₀ (h ++ [.respond tid result]) t (Function.update status tid .idle)

/-! ## The order of the points -/

/-- A call that was performed; it may not have returned. -/
structure Entry (Op Res : Type*) where
  /-- The thread. -/
  tid : ℕ
  /-- The operation. -/
  op : Op
  /-- What it returns. -/
  result : Res
  /-- The time of its invocation. -/
  begun : ℕ
  /-- The time of its response. -/
  ended : Option ℕ

namespace Entry

/-- The call, if it has returned. -/
def toCall (a : Entry Op Res) : Option (Call Op Res) :=
  a.ended.map fun ended => ⟨a.tid, a.op, a.result, a.begun, ended⟩

/-- The call of this thread has not returned. -/
def IsOpen (tid : ℕ) (a : Entry Op Res) : Bool := a.tid = tid && a.ended.isNone

/-- The entry when the thread has returned at this time. -/
def close (tid now : ℕ) (a : Entry Op Res) : Entry Op Res :=
  if a.IsOpen tid then { a with ended := some now } else a

variable {tid now : ℕ} (a : Entry Op Res)

@[simp] theorem close_op : (a.close tid now).op = a.op := by
  rw [close]
  split <;> rfl

@[simp] theorem close_result : (a.close tid now).result = a.result := by
  rw [close]
  split <;> rfl

@[simp] theorem close_begun : (a.close tid now).begun = a.begun := by
  rw [close]
  split <;> rfl

theorem close_ended {e : ℕ} (h : (a.close tid now).ended = some e) :
    a.ended = some e ∨ e = now := by
  rw [close] at h
  split at h
  · exact .inr (Option.some.inj h).symm
  · exact .inl h

/-- Closing the calls of one thread leaves those of the others open. -/
theorem isOpen_close (tid' : ℕ) :
    (a.close tid now).IsOpen tid' = (a.IsOpen tid' && tid' ≠ tid) := by
  rw [close]
  by_cases ht : a.IsOpen tid
  · rw [if_pos ht]
    obtain ⟨htid, -⟩ : a.tid = tid ∧ a.ended = none := by simpa [IsOpen] using ht
    by_cases htt : tid' = tid
    · simp [IsOpen, htt]
    · simp [IsOpen, htt, htid, Ne.symm htt]
  · rw [if_neg ht]
    by_cases htt : tid' = tid
    · subst htt
      simpa using ht
    · simp [htt]

/-- **When a thread returns, the calls that have returned are those from before and its own.** -/
theorem filterMap_close (order : List (Entry Op Res)) :
    ((order.map (close tid now)).filterMap toCall).Perm
      (order.filterMap toCall ++
        (order.filter (IsOpen tid)).map fun a => ⟨a.tid, a.op, a.result, a.begun, now⟩) := by
  induction order with
  | nil => exact .refl _
  | cons a order ih =>
    by_cases ht : a.IsOpen tid
    · obtain ⟨-, hopen⟩ : a.tid = tid ∧ a.ended = none := by simpa [IsOpen] using ht
      have hself : (a.close tid now).toCall = some ⟨a.tid, a.op, a.result, a.begun, now⟩ := by
        rw [close, if_pos ht]
        rfl
      have hnone : a.toCall = none := by
        rw [toCall, hopen]
        rfl
      rw [List.map_cons, List.filterMap_cons_some hself, List.filterMap_cons_none hnone,
        List.filter_cons_of_pos ht, List.map_cons]
      exact (ih.cons _).trans List.perm_middle.symm
    · have hself : a.close tid now = a := if_neg ht
      rw [List.map_cons, hself, List.filter_cons_of_neg ht]
      cases hcall : a.toCall with
      | none =>
        rw [List.filterMap_cons_none hcall, List.filterMap_cons_none hcall]
        exact ih
      | some c =>
        rw [List.filterMap_cons_some hcall, List.filterMap_cons_some hcall]
        exact ih.cons c

/-- What is read off the calls is read off the entries, if all have returned. -/
theorem map_toCall {β : Type*} (f : Call Op Res → β) (g : Entry Op Res → β)
    (hfg : ∀ (a : Entry Op Res) e, f ⟨a.tid, a.op, a.result, a.begun, e⟩ = g a)
    (l : List (Entry Op Res)) (hl : ∀ a ∈ l, ∃ e, a.ended = some e) :
    (l.filterMap toCall).map f = l.map g := by
  induction l with
  | nil => rfl
  | cons a l ih =>
    obtain ⟨e, he⟩ := hl a List.mem_cons_self
    have hcall : a.toCall = some ⟨a.tid, a.op, a.result, a.begun, e⟩ := by
      rw [toCall, he]
      rfl
    rw [List.filterMap_cons_some hcall, List.map_cons, List.map_cons, hfg,
      ih fun b hb => hl b (List.mem_cons_of_mem _ hb)]

end Entry

/-- The entries of a thread that are open, from what it is doing. -/
def openOf (r : Recorder Op Res) (tid : ℕ) : Status Op Res → List (Entry Op Res) → Prop
  | .idle, entries => entries = [] ∧ r.pending tid = none
  | .invoked op, entries => entries = [] ∧ ∃ begun < r.time, r.pending tid = some (op, begun)
  | .performed result, entries =>
      ∃ op begun, r.pending tid = some (op, begun) ∧ entries = [⟨tid, op, result, begun, none⟩]

/-- What a thread is doing is not changed by what other threads do later. -/
theorem openOf.later {r r' : Recorder Op Res} {tid : ℕ} {st : Status Op Res}
    {entries : List (Entry Op Res)} (h : openOf r tid st entries)
    (hpending : r'.pending tid = r.pending tid) (htime : r.time ≤ r'.time) :
    openOf r' tid st entries := by
  cases st with
  | idle => exact ⟨h.1, hpending.trans h.2⟩
  | invoked op =>
    obtain ⟨hnil, begun, hlt, hp⟩ := h
    exact ⟨hnil, begun, Nat.lt_of_lt_of_le hlt htime, hpending.trans hp⟩
  | performed result =>
    obtain ⟨op, begun, hp, hentry⟩ := h
    exact ⟨op, begun, hpending.trans hp, hentry⟩

/-- **The invariant**: the order in which the calls were performed. -/
structure PointOrder (spec : σ → Op → Res × σ) (s₀ : σ) (h : List (CallEvent Op Res)) (t : σ)
    (status : ℕ → Status Op Res) (order : List (Entry Op Res)) : Prop where
  /-- The object gives these results, one after the other. -/
  legal : runCalls spec s₀ (order.map Entry.op) = (order.map Entry.result, t)
  /-- A call that has returned did so after all before it in the order were invoked. -/
  realTime : order.Pairwise fun a b => ∀ e, b.ended = some e → a.begun ≤ e
  /-- All were invoked. -/
  begun_lt : ∀ a ∈ order, a.begun < (recorded h).time
  /-- Those that have returned are the calls of the history. -/
  perm : (order.filterMap Entry.toCall).Perm (calls h)
  /-- The others are those the threads are in. -/
  isOpen : ∀ tid, openOf (recorded h) tid (status tid) (order.filter (Entry.IsOpen tid))

namespace PointOrder

variable {spec : σ → Op → Res × σ} {s₀ t : σ} {h : List (CallEvent Op Res)}
  {status : ℕ → Status Op Res} {order : List (Entry Op Res)}

theorem invoke (ho : PointOrder spec s₀ h t status order) (tid : ℕ) (op : Op)
    (hs : status tid = .idle) :
    PointOrder spec s₀ (h ++ [.invoke tid op]) t (Function.update status tid (.invoked op)) order := by
  have hrec : recorded (h ++ [CallEvent.invoke tid op]) = _ := recorded_snoc h (.invoke tid op)
  refine ⟨ho.legal, ho.realTime, ?_, ?_, ?_⟩
  · intro a ha
    rw [hrec]
    exact Nat.lt_succ_of_lt (ho.begun_lt a ha)
  · rw [calls, hrec]
    exact ho.perm
  · intro tid'
    rw [hrec]
    by_cases htt : tid' = tid
    · subst htt
      have hopen := ho.isOpen tid'
      rw [hs] at hopen
      rw [Function.update_self]
      exact ⟨hopen.1, _, Nat.lt_succ_self _, Function.update_self _ _ _⟩
    · rw [Function.update_of_ne htt]
      exact (ho.isOpen tid').later (Function.update_of_ne htt _ _) (Nat.le_succ _)

theorem perform (ho : PointOrder spec s₀ h t status order) (tid : ℕ) {op : Op}
    (hs : status tid = .invoked op) :
    ∃ order', PointOrder spec s₀ h (spec t op).2
      (Function.update status tid (.performed (spec t op).1)) order' := by
  have hopen := ho.isOpen tid
  rw [hs] at hopen
  obtain ⟨hnil, begun, hlt, hp⟩ := hopen
  refine ⟨order ++ [⟨tid, op, (spec t op).1, begun, none⟩], ?_, ?_, ?_, ?_, ?_⟩
  · rw [List.map_append, List.map_append]
    exact runCalls_snoc ho.legal op
  · -- the new call has not returned
    refine List.pairwise_append.mpr ⟨ho.realTime, List.pairwise_singleton _ _, ?_⟩
    intro a _ b hb e he
    rw [List.mem_singleton.mp hb] at he
    cases he
  · intro a ha
    rcases List.mem_append.mp ha with ha | ha
    · exact ho.begun_lt a ha
    · rw [List.mem_singleton.mp ha]
      exact hlt
  · rw [List.filterMap_append, List.filterMap_cons_none rfl, List.filterMap_nil, List.append_nil]
    exact ho.perm
  · intro tid'
    rw [List.filter_append]
    by_cases htt : tid' = tid
    · subst htt
      rw [Function.update_self, hnil]
      exact ⟨op, begun, hp, by simp [Entry.IsOpen]⟩
    · rw [Function.update_of_ne htt]
      simpa [Entry.IsOpen, Ne.symm htt] using ho.isOpen tid'

theorem respond (ho : PointOrder spec s₀ h t status order) (tid : ℕ) {result : Res}
    (hs : status tid = .performed result) :
    ∃ order', PointOrder spec s₀ (h ++ [.respond tid result]) t
      (Function.update status tid .idle) order' := by
  have hopen := ho.isOpen tid
  rw [hs] at hopen
  obtain ⟨op, begun, hp, hentry⟩ := hopen
  have hrec : recorded (h ++ [CallEvent.respond tid result]) =
      ⟨Function.update (recorded h).pending tid none,
        (recorded h).calls ++ [⟨tid, op, result, begun, (recorded h).time⟩],
        (recorded h).time + 1⟩ := by
    rw [recorded_snoc, Recorder.record, hp]
  refine ⟨order.map (Entry.close tid (recorded h).time), ?_, ?_, ?_, ?_, ?_⟩
  · simpa [Function.comp_def] using ho.legal
  · -- a call that returns now returns after every call in the order was invoked
    refine List.pairwise_map.mpr (ho.realTime.imp_of_mem ?_)
    intro a b ha _ hab e he
    rw [Entry.close_begun]
    rcases b.close_ended he with he | rfl
    · exact hab e he
    · exact Nat.le_of_lt (ho.begun_lt a ha)
  · intro a ha
    obtain ⟨b, hb, rfl⟩ := List.mem_map.mp ha
    rw [Entry.close_begun, hrec]
    exact Nat.lt_succ_of_lt (ho.begun_lt b hb)
  · refine (Entry.filterMap_close order).trans ?_
    rw [hentry, calls, hrec]
    exact ho.perm.append_right _
  · intro tid'
    have hfilter : (order.map (Entry.close tid (recorded h).time)).filter (Entry.IsOpen tid') =
        if tid' = tid then [] else order.filter (Entry.IsOpen tid') := by
      rw [List.filter_map]
      by_cases htt : tid' = tid
      · rw [if_pos htt, List.map_eq_nil_iff, List.filter_eq_nil_iff]
        intro a _
        simp [Entry.isOpen_close, htt]
      · have hsame : order.filter (Entry.IsOpen tid' ∘ Entry.close tid (recorded h).time) =
            order.filter (Entry.IsOpen tid') := by
          refine List.filter_congr ?_
          intro a _
          simp [Entry.isOpen_close, htt]
        rw [if_neg htt, hsame]
        refine (List.map_congr_left ?_).trans (List.map_id _)
        intro a ha
        obtain ⟨-, hopen'⟩ := List.mem_filter.mp ha
        have htid : a.tid = tid' := by
          simp only [Entry.IsOpen, Bool.and_eq_true, decide_eq_true_eq] at hopen'
          exact hopen'.1
        exact if_neg (by simp [Entry.IsOpen, htid, htt])
    rw [hfilter, hrec]
    by_cases htt : tid' = tid
    · subst htt
      rw [Function.update_self, if_pos rfl]
      exact ⟨rfl, Function.update_self _ _ _⟩
    · rw [Function.update_of_ne htt, if_neg htt]
      exact (ho.isOpen tid').later (Function.update_of_ne htt _ _) (Nat.le_succ _)

/-- When no thread is in a call, the order is one of the calls of the history. -/
theorem linearization (ho : PointOrder spec s₀ h t status order) (hidle : ∀ tid, status tid = .idle) :
    Linearization spec s₀ h t (order.filterMap Entry.toCall) := by
  have hclosed : ∀ a ∈ order, ∃ e, a.ended = some e := by
    intro a ha
    have hopen := ho.isOpen a.tid
    rw [hidle] at hopen
    have hnot := (List.filter_eq_nil_iff.mp hopen.1) a ha
    cases hended : a.ended with
    | none => simp [Entry.IsOpen, hended] at hnot
    | some e => exact ⟨e, rfl⟩
  refine ⟨ho.perm, ?_, ?_⟩
  · refine List.pairwise_filterMap.mpr (ho.realTime.imp ?_)
    intro a b hab c hc d hd
    obtain ⟨e, -, rfl⟩ := Option.map_eq_some_iff.mp hc
    obtain ⟨e', he', rfl⟩ := Option.map_eq_some_iff.mp hd
    exact Nat.not_lt.mpr (hab e' he')
  · rw [Entry.map_toCall Call.op Entry.op (fun _ _ => rfl) order hclosed,
      Entry.map_toCall Call.result Entry.result (fun _ _ => rfl) order hclosed]
    exact ho.legal

end PointOrder

variable {spec : σ → Op → Res × σ} {s₀ t : σ} {h : List (CallEvent Op Res)}
  {status : ℕ → Status Op Res}

/-- A call that is invoked, performed and returns at once. -/
theorem Explained.atomic (he : Explained spec s₀ h t status) {tid : ℕ} (hs : status tid = .idle)
    (op : Op) :
    Explained spec s₀ (h ++ [.invoke tid op, .respond tid (spec t op).1]) (spec t op).2 status := by
  have hall := ((he.invoke tid op hs).perform tid (Function.update_self _ _ _)).respond tid
    (Function.update_self _ _ _)
  rw [Function.update_idem, Function.update_idem, ← hs, Function.update_eq_self,
    List.append_assoc] at hall
  exact hall

/-- The calls that were performed, in the order they were. -/
theorem Explained.pointOrder (he : Explained spec s₀ h t status) :
    ∃ order, PointOrder spec s₀ h t status order := by
  induction he with
  | nil =>
    exact ⟨[], rfl, List.Pairwise.nil, fun a ha => absurd ha List.not_mem_nil, .refl _,
      fun tid => ⟨rfl, rfl⟩⟩
  | invoke tid op hs _ ih =>
    obtain ⟨order, ho⟩ := ih
    exact ⟨order, ho.invoke tid op hs⟩
  | perform tid hs _ ih =>
    obtain ⟨order, ho⟩ := ih
    exact ho.perform tid hs
  | respond tid hs _ ih =>
    obtain ⟨order, ho⟩ := ih
    exact ho.respond tid hs

/-- **A history in which every call is performed at one point is linearizable**: when no thread is in a
call, there is an order of the calls that explains it. -/
theorem Explained.linearization (he : Explained spec s₀ h t status)
    (hidle : ∀ tid, status tid = .idle) : ∃ order, Linearization spec s₀ h t order := by
  obtain ⟨order, ho⟩ := he.pointOrder
  exact ⟨_, ho.linearization hidle⟩

end Linearizable
