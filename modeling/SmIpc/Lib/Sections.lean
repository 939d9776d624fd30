import SmIpc.Lib.Linearizable
import SmIpc.Lib.Machine
import SmIpc.Lib.ThreadPool

/-! # Sections guarded by a lock

Operations whose bodies are run statement by statement, each between taking and releasing one lock, by any
number of threads. Before the lock an operation may return at once, or wait at a gate that another operation
opens; the gate is a part of the memory that the lock does not guard, so that waiting threads change it
while a body is being run.

* `Code` is the code of the operations and `step` the machine: every statement is a step of its own.
* `Code.Completes` says what a body does when it is run to its end.
* `Code.Correct` is what is to be shown of the code, one operation at a time and without the other threads:
  run to its end a body does what the operation means, by safe statements only, and a thread that passes
  the gate in the meantime changes nothing of that.
* **`explained`** — then every history is one of operations performed at one point each, where they take the
  lock, the memory is as these leave it whenever the lock is free, and every statement that is run is safe;
  **`linearization`** — it is linearizable. -/

namespace Sections

open Linearizable

variable {Op Res Pc μ σ : Type*}

/-- What a statement does. -/
inductive Outcome (Res Pc μ : Type*) where
  /-- The body is at its end, with this result. -/
  | done (result : Res)
  /-- It goes on. -/
  | next (pc : Pc) (mem : μ)

/-- The code of the operations. -/
structure Code (Op Res Pc μ : Type*) where
  /-- The result of an operation that returns before the lock. -/
  early : Op → Option Res
  /-- The operation waits at the gate. -/
  waits : Op → Bool
  /-- Pass the gate; `none` when it is closed. -/
  gate : μ → Option μ
  /-- Where a body starts. -/
  start : Op → Pc
  /-- One statement. -/
  stmt : Pc → μ → Outcome Res Pc μ

/-- Run to its end, the body leaves this result and this memory, and every statement of it is safe. -/
inductive Code.Completes (c : Code Op Res Pc μ) (Safe : Pc → μ → Prop) : Pc → μ → Res → μ → Prop where
  /-- It is at its end. -/
  | done {pc : Pc} {m : μ} {r : Res} (hsafe : Safe pc m) (hstmt : c.stmt pc m = .done r) :
      Completes c Safe pc m r m
  /-- One statement, and the rest. -/
  | next {pc pc' : Pc} {m m' m'' : μ} {r : Res} (hsafe : Safe pc m)
      (hstmt : c.stmt pc m = .next pc' m') (hrest : Completes c Safe pc' m' r m'') :
      Completes c Safe pc m r m''

theorem Code.Completes.safe {c : Code Op Res Pc μ} {Safe : Pc → μ → Prop} {pc : Pc} {m m' : μ} {r : Res}
    (h : c.Completes Safe pc m r m') : Safe pc m := by
  cases h with
  | done hsafe _ => exact hsafe
  | next hsafe _ _ => exact hsafe

/-- Where a thread stands. -/
inductive Place (Op Res Pc : Type*) where
  /-- In no operation. -/
  | idle
  /-- Before the gate and the lock. -/
  | called (op : Op)
  /-- Past the gate, before the lock. -/
  | passed (op : Op)
  /-- In the body; holds the lock. -/
  | inside (op : Op) (pc : Pc)
  /-- About to return. -/
  | leaving (op : Op) (result : Res)

namespace Place

/-- The operation of a thread. -/
def op : Place Op Res Pc → Option Op
  | idle => none
  | called op | passed op | inside op _ | leaving op _ => some op

/-- The thread is past the gate, and has not taken the lock. -/
def isPassed : Place Op Res Pc → Bool
  | passed _ => true
  | _ => false

end Place

/-- The memory, the lock and the threads. -/
structure State (Op Res Pc μ : Type*) where
  /-- The memory. -/
  mem : μ
  /-- The thread that holds the lock. -/
  holder : Option ℕ
  /-- The threads. -/
  threads : List (Place Op Res Pc)

/-- `n` threads outside every operation. -/
def State.init (mem : μ) (n : ℕ) : State Op Res Pc μ := ⟨mem, none, List.replicate n .idle⟩

/-- A step of a thread. -/
inductive Move (Op : Type*) where
  /-- It calls an operation. -/
  | call (tid : ℕ) (op : Op)
  /-- Its operation is done before the lock. -/
  | refuse (tid : ℕ)
  /-- It passes the gate. -/
  | wait (tid : ℕ)
  /-- It takes the lock. -/
  | lock (tid : ℕ)
  /-- It runs a statement; the last one releases the lock. -/
  | stmt (tid : ℕ)
  /-- Its operation returns. -/
  | ret (tid : ℕ)
  deriving DecidableEq, Repr

/-- Replace a thread's place. -/
def State.place (s : State Op Res Pc μ) (tid : ℕ) (p : Place Op Res Pc) : State Op Res Pc μ :=
  { s with threads := s.threads.set tid p }

/-- One step of one thread; `none` when the thread is elsewhere, or blocks. -/
def step (c : Code Op Res Pc μ) :
    StepMachine (State Op Res Pc μ) (Move Op) (Option (CallEvent Op Res))
  | s, .call tid op =>
      match s.threads[tid]? with
      | some .idle => some (some (.invoke tid op), s.place tid (.called op))
      | _ => none
  | s, .refuse tid =>
      match s.threads[tid]? with
      | some (.called op) => (c.early op).map fun r => (none, s.place tid (.leaving op r))
      | _ => none
  | s, .wait tid =>
      match s.threads[tid]? with
      | some (.called op) =>
          if (c.early op).isNone ∧ c.waits op then
            (c.gate s.mem).map fun m => (none, { s.place tid (.passed op) with mem := m })
          else none
      | _ => none
  | s, .lock tid =>
      match s.threads[tid]?, s.holder with
      | some (.called op), none =>
          if (c.early op).isNone ∧ c.waits op = false then
            some (none, { s.place tid (.inside op (c.start op)) with holder := some tid })
          else none
      | some (.passed op), none =>
          some (none, { s.place tid (.inside op (c.start op)) with holder := some tid })
      | _, _ => none
  | s, .stmt tid =>
      match s.threads[tid]? with
      | some (.inside op pc) =>
          match c.stmt pc s.mem with
          | .done r => some (none, { s.place tid (.leaving op r) with holder := none })
          | .next pc' m => some (none, { s.place tid (.inside op pc') with mem := m })
      | _ => none
  | s, .ret tid =>
      match s.threads[tid]? with
      | some (.leaving _ r) => some (some (.respond tid r), s.place tid .idle)
      | _ => none

/-- The number of threads past the gate that have not taken the lock. -/
def State.passed (s : State Op Res Pc μ) : ℕ := s.threads.countP Place.isPassed

/-- The history of a run. -/
def history (os : List (Option (CallEvent Op Res))) : List (CallEvent Op Res) := os.filterMap id

variable {c : Code Op Res Pc μ}

/-- **What the steps do**, one rule for each way a step can go. -/
inductive Moves (c : Code Op Res Pc μ) (s : State Op Res Pc μ) :
    Move Op → Option (CallEvent Op Res) → State Op Res Pc μ → Prop
  | call {tid : ℕ} {op : Op} (hplace : s.threads[tid]? = some .idle) :
      Moves c s (.call tid op) (some (.invoke tid op)) (s.place tid (.called op))
  | refuse {tid : ℕ} {op : Op} {r : Res} (hplace : s.threads[tid]? = some (.called op))
      (hearly : c.early op = some r) : Moves c s (.refuse tid) none (s.place tid (.leaving op r))
  | wait {tid : ℕ} {op : Op} {m : μ} (hplace : s.threads[tid]? = some (.called op))
      (hearly : c.early op = none) (hwaits : c.waits op = true) (hgate : c.gate s.mem = some m) :
      Moves c s (.wait tid) none { s.place tid (.passed op) with mem := m }
  | lockCalled {tid : ℕ} {op : Op} (hplace : s.threads[tid]? = some (.called op))
      (hholder : s.holder = none) (hearly : c.early op = none) (hwaits : c.waits op = false) :
      Moves c s (.lock tid) none { s.place tid (.inside op (c.start op)) with holder := some tid }
  | lockPassed {tid : ℕ} {op : Op} (hplace : s.threads[tid]? = some (.passed op))
      (hholder : s.holder = none) :
      Moves c s (.lock tid) none { s.place tid (.inside op (c.start op)) with holder := some tid }
  | done {tid : ℕ} {op : Op} {pc : Pc} {r : Res} (hplace : s.threads[tid]? = some (.inside op pc))
      (hstmt : c.stmt pc s.mem = .done r) :
      Moves c s (.stmt tid) none { s.place tid (.leaving op r) with holder := none }
  | next {tid : ℕ} {op : Op} {pc pc' : Pc} {m : μ} (hplace : s.threads[tid]? = some (.inside op pc))
      (hstmt : c.stmt pc s.mem = .next pc' m) :
      Moves c s (.stmt tid) none { s.place tid (.inside op pc') with mem := m }
  | ret {tid : ℕ} {op : Op} {r : Res} (hplace : s.threads[tid]? = some (.leaving op r)) :
      Moves c s (.ret tid) (some (.respond tid r)) (s.place tid .idle)

/-- **Inversion of a step.** -/
theorem step_cases {s s' : State Op Res Pc μ} {i : Move Op} {o : Option (CallEvent Op Res)}
    (h : step c s i = some (o, s')) : Moves c s i o s' := by
  cases i with
  | call tid op =>
    simp only [step] at h
    split at h
    · cases h
      exact .call ‹_›
    · cases h
  | refuse tid =>
    simp only [step] at h
    split at h
    · rename_i hplace
      obtain ⟨r, hearly, heq⟩ := Option.map_eq_some_iff.mp h
      cases heq
      exact .refuse hplace hearly
    · cases h
  | wait tid =>
    simp only [step] at h
    split at h
    · rename_i hplace
      split at h
      · rename_i hg
        obtain ⟨m, hgate, heq⟩ := Option.map_eq_some_iff.mp h
        cases heq
        exact .wait hplace (Option.isNone_iff_eq_none.mp hg.1) hg.2 hgate
      · cases h
    · cases h
  | lock tid =>
    simp only [step] at h
    split at h
    · rename_i hplace hholder
      split at h
      · rename_i hg
        cases h
        exact .lockCalled hplace hholder (Option.isNone_iff_eq_none.mp hg.1) hg.2
      · cases h
    · rename_i hplace hholder
      cases h
      exact .lockPassed hplace hholder
    · cases h
  | stmt tid =>
    simp only [step] at h
    split at h
    · rename_i hplace
      split at h
      · rename_i hstmt
        cases h
        exact .done hplace hstmt
      · rename_i hstmt
        cases h
        exact .next hplace hstmt
    · cases h
  | ret tid =>
    simp only [step] at h
    split at h
    · cases h
      exact .ret ‹_›
    · cases h

/-! ## What is to be shown of the code -/

/-- **The code does what the operations mean**: `R k m t` says that the memory `m` stands for `t` when `k`
threads are past the gate and have not taken the lock. -/
structure Code.Correct (c : Code Op Res Pc μ) (spec : σ → Op → Res × σ) (R : ℕ → μ → σ → Prop)
    (Safe : Pc → μ → Prop) (Ok : Op → Res → Prop) : Prop where
  /-- An operation that returns before the lock changes nothing. -/
  early : ∀ {op r}, c.early op = some r → (∀ t, spec t op = (r, t)) ∧ Ok op r
  /-- One more thread is past the gate. -/
  gate : ∀ {k m m' t}, R k m t → c.gate m = some m' → R (k + 1) m' t
  /-- A body that is run to its end; a thread that waited at the gate is no longer counted. -/
  body : ∀ {op k m t}, c.early op = none → R (k + if c.waits op then 1 else 0) m t →
    ∃ m', c.Completes Safe (c.start op) m (spec t op).1 m' ∧ R k m' (spec t op).2 ∧ Ok op (spec t op).1
  /-- A thread that passes the gate while a body is run changes nothing else. -/
  commute : ∀ {pc m r m' m₁}, c.Completes Safe pc m r m' → c.gate m = some m₁ →
    ∃ m₁', c.gate m' = some m₁' ∧ c.Completes Safe pc m₁ r m₁'

/-! ## The invariant -/

/-- Where a thread stands. -/
def State.at (s : State Op Res Pc μ) (tid : ℕ) : Place Op Res Pc := (s.threads[tid]?).getD .idle

section Place

variable {s : State Op Res Pc μ} {tid : ℕ} {p : Place Op Res Pc}

theorem at_of_get (h : s.threads[tid]? = some p) : s.at tid = p := by
  rw [State.at, h, Option.getD_some]

theorem at_place (h : s.threads[tid]? = some p) (p' : Place Op Res Pc) :
    (s.place tid p').at = Function.update s.at tid p' := by
  have hlt : tid < s.threads.length := (List.getElem?_eq_some_iff.mp h).1
  funext j
  by_cases hj : j = tid
  · subst hj
    rw [Function.update_self, State.at, State.place, List.getElem?_set_self hlt, Option.getD_some]
  · rw [Function.update_of_ne hj, State.at, State.at, State.place, List.getElem?_set_ne (Ne.symm hj)]

theorem get_place_of_ne {j : ℕ} (h : j ≠ tid) (p' : Place Op Res Pc) :
    (s.place tid p').threads[j]? = s.threads[j]? :=
  List.getElem?_set_ne (Ne.symm h)

theorem get_place_self (h : s.threads[tid]? = some p) (p' : Place Op Res Pc) :
    (s.place tid p').threads[tid]? = some p' :=
  List.getElem?_set_self (List.getElem?_eq_some_iff.mp h).1

theorem passed_place (h : s.threads[tid]? = some p) (p' : Place Op Res Pc) :
    (s.place tid p').passed + (if p.isPassed then 1 else 0) =
      s.passed + if p'.isPassed then 1 else 0 :=
  ThreadPool.countP_set Place.isPassed h p'

end Place

/-- What a thread at this place is doing. -/
def Place.Agrees (c : Code Op Res Pc μ) (Ok : Op → Res → Prop) (holder : Option ℕ) (tid : ℕ) :
    Place Op Res Pc → Status Op Res → Prop
  | .idle, st => st = .idle
  | .called op, st => st = .invoked op
  | .passed op, st => st = .invoked op ∧ c.early op = none ∧ c.waits op = true
  | .inside _ _, _ => holder = some tid
  | .leaving op r, st => st = .performed r ∧ Ok op r

theorem Place.Agrees.holder {Ok : Op → Res → Prop} {holder holder' : Option ℕ} {tid : ℕ}
    {p : Place Op Res Pc} {st : Status Op Res} (h : p.Agrees c Ok holder tid st)
    (hh : holder = some tid → holder' = some tid) : p.Agrees c Ok holder' tid st := by
  cases p with
  | inside op pc => exact hh h
  | _ => exact h

/-- The memory stands for `t`, or will when the body that is run is at its end. -/
inductive Memory (c : Code Op Res Pc μ) (R : ℕ → μ → σ → Prop) (Safe : Pc → μ → Prop)
    (Ok : Op → Res → Prop) (s : State Op Res Pc μ) (t : σ) (status : ℕ → Status Op Res) : Prop
  /-- The lock is free. -/
  | free (hholder : s.holder = none) (hmem : R s.passed s.mem t)
  /-- A thread holds the lock. -/
  | held {tid : ℕ} {op : Op} {pc : Pc} {r : Res} {m : μ} (hholder : s.holder = some tid)
      (hplace : s.threads[tid]? = some (.inside op pc)) (hbody : c.Completes Safe pc s.mem r m)
      (hmem : R s.passed m t) (hstatus : status tid = .performed r) (hok : Ok op r)

/-- **The invariant.** -/
structure Inv (c : Code Op Res Pc μ) (spec : σ → Op → Res × σ) (s₀ : σ) (R : ℕ → μ → σ → Prop)
    (Safe : Pc → μ → Prop) (Ok : Op → Res → Prop) (h : List (CallEvent Op Res)) (s : State Op Res Pc μ) (t : σ)
    (status : ℕ → Status Op Res) : Prop where
  /-- The history is one of operations performed where they take the lock. -/
  explained : Explained spec s₀ h t status
  /-- The threads are where this says. -/
  agrees : ∀ tid, (s.at tid).Agrees c Ok s.holder tid (status tid)
  /-- And so is the memory. -/
  memory : Memory c R Safe Ok s t status
  /-- The threads are in the operations they called. -/
  pending : ∀ tid, ((recorded h).pending tid).map Prod.fst = (s.at tid).op
  /-- The results are those wanted. -/
  results : ∀ a ∈ calls h, Ok a.op a.result

section Steps

variable {spec : σ → Op → Res × σ} {s₀ : σ} {R : ℕ → μ → σ → Prop} {Safe : Pc → μ → Prop}
  {Ok : Op → Res → Prop} {h : List (CallEvent Op Res)} {s : State Op Res Pc μ} {t : σ} {status : ℕ → Status Op Res}
  {tid : ℕ} {p : Place Op Res Pc}

/-- A thread moves and the lock stays. -/
theorem agrees_place (hag : ∀ j, (s.at j).Agrees c Ok s.holder j (status j))
    (hplace : s.threads[tid]? = some p) {p' : Place Op Res Pc} {st : Status Op Res} {holder : Option ℕ}
    (hown : p'.Agrees c Ok holder tid st) (hh : ∀ j ≠ tid, s.holder = some j → holder = some j) :
    ∀ j, ((s.place tid p').at j).Agrees c Ok holder j (Function.update status tid st j) := by
  intro j
  rw [at_place hplace]
  by_cases hj : j = tid
  · subst hj
    rwa [Function.update_self, Function.update_self]
  · rw [Function.update_of_ne hj, Function.update_of_ne hj]
    exact (hag j).holder (hh j hj)

/-- What a thread moves from is not the body of the thread that holds the lock. -/
theorem Memory.place (hm : Memory c R Safe Ok s t status) (hplace : s.threads[tid]? = some p)
    (hp : ∀ op pc, p ≠ .inside op pc) {p' : Place Op Res Pc} (hcount : p'.isPassed = p.isPassed)
    (st : Status Op Res) : Memory c R Safe Ok (s.place tid p') t (Function.update status tid st) := by
  have hpassed : (s.place tid p').passed = s.passed := by
    have := passed_place hplace p'
    rw [hcount] at this
    omega
  cases hm with
  | free hholder hmem => exact .free hholder (hpassed ▸ hmem)
  | @held tid' op pc r m hholder hinside hbody hmem hstatus hok =>
    have hne : tid' ≠ tid := by
      rintro rfl
      rw [hplace] at hinside
      exact hp op pc (Option.some.inj hinside)
    refine .held hholder ?_ hbody (hpassed ▸ hmem) ?_ hok
    · rwa [get_place_of_ne hne]
    · rwa [Function.update_of_ne hne]

/-- A thread calls an operation or returns from one. -/
theorem pending_update (hpend : ∀ j, ((recorded h).pending j).map Prod.fst = (s.at j).op)
    (hplace : s.threads[tid]? = some p) {h' : List (CallEvent Op Res)} {call : Option (Op × ℕ)}
    (hrec : (recorded h').pending = Function.update (recorded h).pending tid call)
    {p' : Place Op Res Pc} (hop : call.map Prod.fst = p'.op) :
    ∀ j, ((recorded h').pending j).map Prod.fst = ((s.place tid p').at j).op := by
  intro j
  rw [hrec, at_place hplace]
  by_cases hj : j = tid
  · subst hj
    rw [Function.update_self, Function.update_self, hop]
  · rw [Function.update_of_ne hj, Function.update_of_ne hj, hpend j]

/-- What is pending is changed by nothing else. -/
theorem pending_place (hpend : ∀ j, ((recorded h).pending j).map Prod.fst = (s.at j).op)
    (hplace : s.threads[tid]? = some p) {p' : Place Op Res Pc} (hop : p'.op = p.op) :
    ∀ j, ((recorded h).pending j).map Prod.fst = ((s.place tid p').at j).op := by
  apply pending_update hpend hplace (Function.update_eq_self tid _).symm
  rw [hop, hpend tid, at_of_get hplace]

/-- The thread at the end of its body, or at a statement of it, is the one that holds the lock. -/
theorem Inv.held (hi : Inv c spec s₀ R Safe Ok h s t status) {op : Op} {pc : Pc}
    (hplace : s.threads[tid]? = some (.inside op pc)) :
    s.holder = some tid ∧ ∃ r m, c.Completes Safe pc s.mem r m ∧ R s.passed m t ∧
      status tid = .performed r ∧ Ok op r := by
  have hown := hi.agrees tid
  rw [at_of_get hplace] at hown
  refine ⟨hown, ?_⟩
  cases hi.memory with
  | free hholder _ => cases hholder.symm.trans hown
  | held hholder hplace' hbody hmem hstatus hok =>
    obtain rfl := Option.some.inj (hholder.symm.trans hown)
    cases hplace.symm.trans hplace'
    exact ⟨_, _, hbody, hmem, hstatus, hok⟩

/-- A body is begun: here the operation is performed. -/
theorem Inv.lock (hc : c.Correct spec R Safe Ok) (hi : Inv c spec s₀ R Safe Ok h s t status) {op : Op} {k : ℕ}
    (hplace : s.threads[tid]? = some p) (hop : p.op = some op) (hst : status tid = .invoked op)
    (hholder : s.holder = none) (hearly : c.early op = none)
    (hmem : R (k + if c.waits op then 1 else 0) s.mem t)
    (hk : (s.place tid (.inside op (c.start op))).passed = k) :
    Inv c spec s₀ R Safe Ok h { s.place tid (.inside op (c.start op)) with holder := some tid }
      (spec t op).2 (Function.update status tid (.performed (spec t op).1)) := by
  obtain ⟨m, hbody, hmem', hok⟩ := hc.body hearly hmem
  refine ⟨hi.explained.perform tid hst, ?_, ?_, ?_, hi.results⟩
  · refine agrees_place hi.agrees hplace rfl fun j _ hj => ?_
    cases hholder.symm.trans hj
  · refine .held rfl (get_place_self hplace _) hbody ?_ (Function.update_self _ _ _) hok
    exact hk.symm ▸ hmem'
  · exact pending_place hi.pending hplace hop.symm

/-- **One step keeps the invariant.** -/
theorem Inv.step (hc : c.Correct spec R Safe Ok) (hi : Inv c spec s₀ R Safe Ok h s t status) {i : Move Op}
    {o : Option (CallEvent Op Res)} {s' : State Op Res Pc μ} (hs : Moves c s i o s') :
    ∃ t' status', Inv c spec s₀ R Safe Ok (h ++ o.toList) s' t' status' := by
  cases hs with
  | @call tid op hplace =>
    have hst := hi.agrees tid
    rw [at_of_get hplace] at hst
    have hrec : recorded (h ++ [CallEvent.invoke tid op]) = _ := recorded_snoc h (.invoke tid op)
    refine ⟨t, Function.update status tid (.invoked op), hi.explained.invoke tid op hst, ?_, ?_, ?_, ?_⟩
    · exact agrees_place hi.agrees hplace rfl fun _ _ => id
    · exact hi.memory.place hplace (fun _ _ h => by cases h) (by rfl) _
    · exact pending_update hi.pending hplace (congrArg Recorder.pending hrec) rfl
    · show ∀ a ∈ calls (h ++ [CallEvent.invoke tid op]), Ok a.op a.result
      rw [calls, hrec]
      exact hi.results
  | @refuse tid op r hplace hearly =>
    have hst := hi.agrees tid
    rw [at_of_get hplace] at hst
    obtain ⟨hspec, hok⟩ := hc.early hearly
    have hexpl := hi.explained.perform tid hst
    rw [hspec t] at hexpl
    rw [Option.toList_none, List.append_nil]
    refine ⟨t, Function.update status tid (.performed r), hexpl, ?_, ?_, ?_, hi.results⟩
    · exact agrees_place hi.agrees hplace ⟨rfl, hok⟩ fun _ _ => id
    · exact hi.memory.place hplace (fun _ _ h => by cases h) (by rfl) _
    · exact pending_place hi.pending hplace rfl
  | @wait tid op m hplace hearly hwaits hgate =>
    have hst := hi.agrees tid
    rw [at_of_get hplace] at hst
    have hpassed : (s.place tid (.passed op)).passed = s.passed + 1 := passed_place hplace _
    rw [Option.toList_none, List.append_nil]
    refine ⟨t, Function.update status tid (.invoked op), ?_, ?_, ?_, ?_, hi.results⟩
    · rw [← hst, Function.update_eq_self]
      exact hi.explained
    · exact agrees_place hi.agrees hplace ⟨rfl, hearly, hwaits⟩ fun _ _ => id
    · rw [← hst, Function.update_eq_self]
      cases hi.memory with
      | free hholder hmem => exact .free hholder (hpassed ▸ hc.gate hmem hgate)
      | @held tid' op' pc r m' hholder hinside hbody hmem hstatus hok =>
        -- the body that is run goes on as before
        obtain ⟨m₁, hgate', hbody'⟩ := hc.commute hbody hgate
        have hne : tid' ≠ tid := by
          rintro rfl
          cases hplace.symm.trans hinside
        refine .held hholder ((get_place_of_ne hne _).trans hinside) hbody' ?_ hstatus hok
        exact hpassed ▸ hc.gate hmem hgate'
    · exact pending_place hi.pending hplace rfl
  | @lockCalled tid op hplace hholder hearly hwaits =>
    have hst := hi.agrees tid
    rw [at_of_get hplace] at hst
    rw [Option.toList_none, List.append_nil]
    cases hi.memory with
    | held hholder' => cases hholder.symm.trans hholder'
    | free _ hmem =>
      refine ⟨_, _, hi.lock hc hplace rfl hst hholder hearly (k := s.passed) ?_ (passed_place hplace _)⟩
      rwa [hwaits]
  | @lockPassed tid op hplace hholder =>
    obtain ⟨hst, hearly, hwaits⟩ : status tid = .invoked op ∧ c.early op = none ∧ c.waits op = true := by
      have hown := hi.agrees tid
      rwa [at_of_get hplace] at hown
    rw [Option.toList_none, List.append_nil]
    cases hi.memory with
    | held hholder' => cases hholder.symm.trans hholder'
    | free _ hmem =>
      -- the thread was one of those counted
      have hpassed : (s.place tid (.inside op (c.start op))).passed + 1 = s.passed :=
        passed_place hplace _
      refine ⟨_, _, hi.lock hc hplace rfl hst hholder hearly ?_ rfl⟩
      rw [hwaits, if_pos rfl, hpassed]
      exact hmem
  | @done tid op pc r hplace hstmt =>
    obtain ⟨hholder, r', m, hbody, hmem, hst, hok⟩ := hi.held hplace
    obtain ⟨rfl, rfl⟩ : r = r' ∧ s.mem = m := by
      cases hbody with
      | done _ hstmt' =>
        cases hstmt.symm.trans hstmt'
        exact ⟨rfl, rfl⟩
      | next _ hstmt' _ => cases hstmt.symm.trans hstmt'
    rw [Option.toList_none, List.append_nil]
    refine ⟨t, Function.update status tid (.performed r), ?_, ?_, .free rfl ?_, ?_, hi.results⟩
    · rw [← hst, Function.update_eq_self]
      exact hi.explained
    · refine agrees_place hi.agrees hplace ⟨rfl, hok⟩ fun j hj hj' => ?_
      exact absurd (Option.some.inj (hj'.symm.trans hholder)) hj
    · have hpassed : (s.place tid (.leaving op r)).passed = s.passed := passed_place hplace _
      exact hpassed.symm ▸ hmem
    · exact pending_place hi.pending hplace rfl
  | @next tid op pc pc' m hplace hstmt =>
    obtain ⟨hholder, r, m', hbody, hmem, hst, hok⟩ := hi.held hplace
    have hrest : c.Completes Safe pc' m r m' := by
      cases hbody with
      | done _ hstmt' => cases hstmt.symm.trans hstmt'
      | next _ hstmt' hrest =>
        cases hstmt.symm.trans hstmt'
        exact hrest
    have hpassed : (s.place tid (.inside op pc')).passed = s.passed := passed_place hplace _
    rw [Option.toList_none, List.append_nil]
    refine ⟨t, Function.update status tid (.performed r), ?_, ?_, ?_, ?_, hi.results⟩
    · rw [← hst, Function.update_eq_self]
      exact hi.explained
    · exact agrees_place hi.agrees hplace hholder fun _ _ => id
    · refine .held hholder (get_place_self hplace _) hrest ?_ (Function.update_self _ _ _) hok
      exact hpassed.symm ▸ hmem
    · exact pending_place hi.pending hplace rfl
  | @ret tid op r hplace =>
    obtain ⟨hst, hok⟩ : status tid = .performed r ∧ Ok op r := by
      have hown := hi.agrees tid
      rwa [at_of_get hplace] at hown
    have hop := hi.pending tid
    rw [at_of_get hplace] at hop
    obtain ⟨⟨op', begun⟩, hpend, rfl⟩ := Option.map_eq_some_iff.mp hop
    have hrec : recorded (h ++ [CallEvent.respond tid r]) =
        ⟨Function.update (recorded h).pending tid none,
          (recorded h).calls ++ [⟨tid, op', r, begun, (recorded h).time⟩],
          (recorded h).time + 1⟩ := by
      rw [recorded_snoc, Recorder.record, hpend]
    refine ⟨t, Function.update status tid .idle, hi.explained.respond tid hst, ?_, ?_, ?_, ?_⟩
    · exact agrees_place hi.agrees hplace rfl fun _ _ => id
    · exact hi.memory.place hplace (fun _ _ h => by cases h) (by rfl) _
    · exact pending_update hi.pending hplace (congrArg Recorder.pending hrec) rfl
    · show ∀ a ∈ calls (h ++ [CallEvent.respond tid r]), Ok a.op a.result
      rw [calls, hrec]
      intro a ha
      rcases List.mem_append.mp ha with ha | ha
      · exact hi.results a ha
      · rw [List.mem_singleton.mp ha]
        exact hok

end Steps

section Runs

variable {spec : σ → Op → Res × σ} {s₀ : σ} {R : ℕ → μ → σ → Prop} {Safe : Pc → μ → Prop}
  {Ok : Op → Res → Prop} {m₀ : μ}

theorem Inv.init (hinit : R 0 m₀ s₀) (n : ℕ) :
    Inv c spec s₀ R Safe Ok [] (State.init m₀ n) s₀ fun _ => .idle := by
  have hat : ∀ tid, (State.init m₀ n : State Op Res Pc μ).at tid = .idle := by
    intro tid
    rw [State.at, State.init, List.getElem?_replicate]
    split <;> rfl
  have hpassed : (State.init m₀ n : State Op Res Pc μ).passed = 0 := by
    apply List.countP_eq_zero.mpr
    intro p hp
    rw [List.eq_of_mem_replicate hp]
    exact Bool.false_ne_true
  refine ⟨.nil, ?_, .free rfl (hpassed.symm ▸ hinit), ?_, fun a ha => absurd ha List.not_mem_nil⟩
  · intro tid
    rw [hat]
    rfl
  · intro tid
    rw [hat]
    rfl

/-- Every run keeps the invariant. -/
theorem Inv.run (hc : c.Correct spec R Safe Ok) (hinit : R 0 m₀ s₀) {n : ℕ} {moves : List (Move Op)}
    {os : List (Option (CallEvent Op Res))} {s : State Op Res Pc μ}
    (hrun : StepMachine.run (Sections.step c) (State.init m₀ n) moves = some (os, s)) :
    ∃ t status, Inv c spec s₀ R Safe Ok (history os) s t status := by
  refine StepMachine.run_induction (Sections.step c)
    (fun _ os s => ∃ t status, Inv c spec s₀ R Safe Ok (history os) s t status)
    ⟨s₀, _, Inv.init hinit n⟩ ?_ hrun
  rintro is os u i o v - ⟨t, status, hi⟩ hs
  have hhist : history (os ++ [o]) = history os ++ o.toList := by
    rw [history, List.filterMap_append]
    cases o <;> rfl
  rw [hhist]
  exact hi.step hc (step_cases hs)

/-- **Sections guarded by a lock are atomic.** Every history is one of operations performed at one point
each, with the results wanted; whenever the lock is free the memory stands for what they leave, and a
statement that can be run is safe. -/
theorem explained (hc : c.Correct spec R Safe Ok) (hinit : R 0 m₀ s₀) {n : ℕ} {moves : List (Move Op)}
    {os : List (Option (CallEvent Op Res))} {s : State Op Res Pc μ}
    (hrun : StepMachine.run (Sections.step c) (State.init m₀ n) moves = some (os, s)) :
    ∃ t status, Explained spec s₀ (history os) t status ∧ (s.holder = none → R s.passed s.mem t) ∧
      (∀ a ∈ calls (history os), Ok a.op a.result) ∧
      ∀ (tid : ℕ) (op : Op) (pc : Pc), s.threads[tid]? = some (.inside op pc) → Safe pc s.mem := by
  obtain ⟨t, status, hi⟩ := Inv.run hc hinit hrun
  refine ⟨t, status, hi.explained, ?_, hi.results, ?_⟩
  · intro hholder
    cases hi.memory with
    | free _ hmem => exact hmem
    | held hholder' => cases hholder.symm.trans hholder'
  · intro tid op pc hplace
    obtain ⟨-, r, m, hbody, -⟩ := hi.held hplace
    exact hbody.safe

/-- **They are linearizable**: when no thread is in an operation, there is an order of the calls that
explains the history, and the memory stands for what they leave. -/
theorem linearization (hc : c.Correct spec R Safe Ok) (hinit : R 0 m₀ s₀) {n : ℕ} {moves : List (Move Op)}
    {os : List (Option (CallEvent Op Res))} {s : State Op Res Pc μ}
    (hrun : StepMachine.run (Sections.step c) (State.init m₀ n) moves = some (os, s))
    (hidle : ∀ p ∈ s.threads, p = .idle) :
    ∃ t order, Linearization spec s₀ (history os) t order ∧ R 0 s.mem t ∧
      ∀ a ∈ order, Ok a.op a.result := by
  obtain ⟨t, status, hi⟩ := Inv.run hc hinit hrun
  have hat : ∀ tid, s.at tid = .idle := by
    intro tid
    rw [State.at]
    cases hget : s.threads[tid]? with
    | none => rfl
    | some p => exact hidle p (List.mem_of_getElem? hget)
  have hpassed : s.passed = 0 := by
    apply List.countP_eq_zero.mpr
    intro p hp
    rw [hidle p hp]
    exact Bool.false_ne_true
  obtain ⟨order, hlin⟩ := hi.explained.linearization fun tid => by
    have hown := hi.agrees tid
    rwa [hat tid] at hown
  refine ⟨t, order, hlin, ?_, fun a ha => hi.results a (hlin.perm.mem_iff.mp ha)⟩
  cases hi.memory with
  | free _ hmem => exact hpassed ▸ hmem
  | held _ hplace => cases (hidle _ (List.mem_of_getElem? hplace))

end Runs

end Sections
