import SmIpc.Lib.Linearizable
import SmIpc.Lib.Sections
import SmIpc.Sm.WindowList

/-! # The window list, statement by statement

`sm_create_smallwin` and `sm_destroy_smallwin` change `smallwin_list` under `sem_system`, one link at a time;
`sm_is_smallwin` walks it and takes no semaphore, so it may read a link between any two of these writes. Here
every C statement is a step of its own, and any number of threads run them.

* `systemStmt`, `walkStmt` — the statements, on the nodes in memory.
* `ListThreads.Regular` — what is asked of a run: `malloc` gives a node that is not in use, a window that is
  destroyed is one that is allocated, and no node is freed while another thread's walk stands at it. -/

namespace SmIpc.Sm

open Linearizable (CallEvent)
open Sections (Outcome)

universe u

variable {A : Type u}

/-- A call, with what `malloc` answers. -/
inductive ListCall (A : Type u) where
  /-- `sm_create_smallwin`. -/
  | create (malloc : Option A) (smType smId : UInt16) (smText : Option (ℕ → UInt8)) (smProc : SmProc)
  /-- `sm_destroy_smallwin`. -/
  | destroy (hsm : Option A)
  /-- `sm_is_smallwin`. -/
  | isSmallwin (asmallwin : Option A)

/-- What a call returns. -/
inductive ListResult (A : Type u) where
  /-- The handle of a new window. -/
  | handle (sm : Option A)
  /-- `SK_INVALID_HSM`, of `sm_destroy_smallwin`. -/
  | invalid
  /-- Whether it is a window. -/
  | found (value : Bool)
  deriving DecidableEq, Repr

/-- The next statement of a thread that has `sem_system`, with the values of its variables. -/
inductive SystemPc (A : Type u) where
  /-- `sm = sk_mem_malloc(…)`, and the stores in the node before it is linked. -/
  | malloc (malloc : Option A) (smType smId : UInt16) (smText : Option (ℕ → UInt8)) (smProc : SmProc)
  /-- `temp = smallwin_list` and `if(temp)`. -/
  | addFirst (node : A)
  /-- `while(temp->next)`. -/
  | addWhile (node temp : A)
  /-- `temp = temp->next`. -/
  | addNext (node temp : A)
  /-- `temp->next = node`. -/
  | addLink (node temp : A)
  /-- `node->prev = temp`. -/
  | addPrev (node temp : A)
  /-- `node->next = NULL`. -/
  | addNull (node : A)
  /-- `smallwin_list = node`. -/
  | addHead (node : A)
  /-- `node->prev = NULL`. -/
  | addHeadPrev (node : A)
  /-- `if(hsm->prev)`. -/
  | destroyTest (hsm : A)
  /-- `hsm->prev->next = hsm->next`. -/
  | destroyForward (hsm : A)
  /-- `smallwin_list = hsm->next`. -/
  | destroyFirst (hsm : A)
  /-- `if(hsm->next)`. -/
  | destroyNext (hsm : A)
  /-- `hsm->next->prev = hsm->prev`. -/
  | destroyBackward (hsm : A)
  /-- `sk_mem_free(hsm)`. -/
  | destroyFree (hsm : A)
  /-- `unlock_system()`. -/
  | unlock (result : ListResult A)

/-- The next statement of `sm_is_smallwin`, with the value of `temp`. -/
inductive WalkPc (A : Type u) where
  /-- `temp = smallwin_list`. -/
  | start
  /-- `while(temp)` and `if(temp == smallwin)`. -/
  | test (temp : Option A)
  /-- `temp = temp->next`. -/
  | next (temp : A)
  deriving DecidableEq, Repr

/-- `sk_mem_free`. -/
def Windows.free [DecidableEq A] (w : Windows A) (a : A) : Windows A :=
  { w with heap := Function.update w.heap a none }

/-- What is asked of a statement, where walks stand at the nodes `stands`. -/
def SystemPc.Regular (w : Windows A) (stands : A → Prop) : SystemPc A → Prop
  | .malloc (some node) _ _ _ _ => w.heap node = none
  | .destroyTest hsm => (w.heap hsm).isSome
  | .destroyFree hsm => ¬ stands hsm
  | _ => True

/-- One statement of a thread that has `sem_system`; `none` when it reads or writes a node that is not
allocated. -/
def systemStmt [DecidableEq A] (w : Windows A) :
    SystemPc A → Option (Outcome (ListResult A) (SystemPc A) (Windows A))
  | .malloc none _ _ _ _ => some (.next (.unlock (.handle none)) w)
  | .malloc (some node) smType smId smText smProc =>
      some (.next (.addFirst node) { w with
        heap := Function.update w.heap node (some (newCommonSm smType smId smText smProc)) })
  | .addFirst node =>
      match w.smallwinList with
      | some temp => some (.next (.addWhile node temp) w)
      | none => some (.next (.addHead node) w)
  | .addWhile node temp => (w.heap temp).map fun sm =>
      if sm.next.isSome then .next (.addNext node temp) w else .next (.addLink node temp) w
  | .addNext node temp => (w.heap temp).bind fun sm => sm.next.map fun next =>
      .next (.addWhile node next) w
  | .addLink node temp => (w.modify temp fun sm => { sm with next := some node }).map fun w =>
      .next (.addPrev node temp) w
  | .addPrev node temp => (w.modify node fun sm => { sm with prev := some temp }).map fun w =>
      .next (.addNull node) w
  | .addNull node => (w.modify node fun sm => { sm with next := none }).map fun w =>
      .next (.unlock (.handle (some node))) w
  | .addHead node => some (.next (.addHeadPrev node) { w with smallwinList := some node })
  | .addHeadPrev node => (w.modify node fun sm => { sm with prev := none }).map fun w =>
      .next (.addNull node) w
  | .destroyTest hsm => (w.heap hsm).map fun sm =>
      if sm.prev.isSome then .next (.destroyForward hsm) w else .next (.destroyFirst hsm) w
  | .destroyForward hsm => (w.heap hsm).bind fun sm => sm.prev.bind fun prev =>
      (w.modify prev fun k => { k with next := sm.next }).map fun w => .next (.destroyNext hsm) w
  | .destroyFirst hsm => (w.heap hsm).map fun sm =>
      .next (.destroyNext hsm) { w with smallwinList := sm.next }
  | .destroyNext hsm => (w.heap hsm).map fun sm =>
      if sm.next.isSome then .next (.destroyBackward hsm) w else .next (.destroyFree hsm) w
  | .destroyBackward hsm => (w.heap hsm).bind fun sm => sm.next.bind fun next =>
      (w.modify next fun k => { k with prev := sm.prev }).map fun w => .next (.destroyFree hsm) w
  | .destroyFree hsm => (w.heap hsm).map fun _ => .next (.unlock .invalid) (w.free hsm)
  | .unlock result => some (.done result)

/-- One statement of `sm_is_smallwin`; `none` when it reads a node that is not allocated. -/
def walkStmt [DecidableEq A] (w : Windows A) (smallwin : A) : WalkPc A → Option (Bool ⊕ WalkPc A)
  | .start => some (.inr (.test w.smallwinList))
  | .test none => some (.inl false)
  | .test (some temp) => some (if temp = smallwin then .inl true else .inr (.next temp))
  | .next temp => (w.heap temp).map fun sm => .inr (.test sm.next)

/-- Where a thread stands. -/
inductive ListPlace (A : Type u) where
  /-- In no call. -/
  | idle
  /-- At the start of a function. -/
  | called (call : ListCall A)
  /-- Between `lock_system` and `unlock_system`. -/
  | system (pc : SystemPc A)
  /-- In the loop of `sm_is_smallwin`. -/
  | walking (smallwin : A) (pc : WalkPc A)
  /-- About to return. -/
  | leaving (result : ListResult A)

/-- The node at which the thread's walk stands. -/
def ListPlace.standsAt : ListPlace A → Option A
  | .walking _ (.test temp) => temp
  | .walking _ (.next temp) => some temp
  | _ => none

/-- The nodes in memory, `sem_system` and the threads. -/
structure ListThreads (A : Type u) where
  /-- `smallwin_list` and the nodes. -/
  windows : Windows A
  /-- The thread that has `sem_system`. -/
  holder : Option ℕ
  /-- The threads. -/
  threads : ℕ → ListPlace A

/-- A step of a thread. -/
inductive ListMove (A : Type u) where
  /-- It makes a call. -/
  | call (tid : ℕ) (call : ListCall A)
  /-- It runs its next statement. -/
  | go (tid : ℕ)

namespace ListThreads

/-- No window, and no thread in a call. -/
def init (A : Type u) : ListThreads A := ⟨Windows.empty A, none, fun _ => .idle⟩

/-- Replace a thread's place. -/
def place (s : ListThreads A) (tid : ℕ) (p : ListPlace A) : ListThreads A :=
  { s with threads := Function.update s.threads tid p }

variable [DecidableEq A]

/-- The start of a function: `lock_system`, but for the calls that return at once and for `sm_is_smallwin`. -/
def enter (s : ListThreads A) (tid : ℕ) : ListCall A → Option (ListThreads A)
  | .isSmallwin none => some (s.place tid (.leaving (.found false)))
  | .isSmallwin (some smallwin) => some (s.place tid (.walking smallwin .start))
  | .destroy none => some (s.place tid (.leaving .invalid))
  | .destroy (some hsm) =>
      if s.holder = none then some { s.place tid (.system (.destroyTest hsm)) with holder := some tid }
      else none
  | .create malloc smType smId smText smProc =>
      if s.holder = none then
        some { s.place tid (.system (.malloc malloc smType smId smText smProc)) with holder := some tid }
      else none

/-- One step of one thread; `none` when it blocks, or its statement is undefined. -/
def step : StepMachine (ListThreads A) (ListMove A) (Option (CallEvent (ListCall A) (ListResult A)))
  | s, .call tid call =>
      match s.threads tid with
      | .idle => some (some (.invoke tid call), s.place tid (.called call))
      | _ => none
  | s, .go tid =>
      match s.threads tid with
      | .idle => none
      | .called call => (s.enter tid call).map fun t => (none, t)
      | .system pc => (systemStmt s.windows pc).map fun outcome =>
          match outcome with
          | .done result => (none, { s.place tid (.leaving result) with holder := none })
          | .next pc' w => (none, { s.place tid (.system pc') with windows := w })
      | .walking smallwin pc => (walkStmt s.windows smallwin pc).map fun outcome =>
          match outcome with
          | .inl value => (none, s.place tid (.leaving (.found value)))
          | .inr pc' => (none, s.place tid (.walking smallwin pc'))
      | .leaving result => some (some (.respond tid result), s.place tid .idle)

/-- **What is asked of a step**: `malloc` gives a node that is not in use; a window that is destroyed is
allocated; and no walk stands at a node that is freed. -/
def Regular (s : ListThreads A) : ListMove A → Prop
  | .call _ _ => True
  | .go tid =>
      match s.threads tid with
      | .system pc => pc.Regular s.windows fun a => ∃ j, (s.threads j).standsAt = some a
      | _ => True

/-- **What the steps do**, one rule for each way a step can go. -/
inductive Steps (s : ListThreads A) :
    ListMove A → Option (CallEvent (ListCall A) (ListResult A)) → ListThreads A → Prop
  | call {tid : ℕ} (c : ListCall A) (hplace : s.threads tid = .idle) :
      Steps s (.call tid c) (some (.invoke tid c)) (s.place tid (.called c))
  | enter {tid : ℕ} {c : ListCall A} {t : ListThreads A} (hplace : s.threads tid = .called c)
      (henter : s.enter tid c = some t) : Steps s (.go tid) none t
  | done {tid : ℕ} {pc : SystemPc A} {r : ListResult A} (hplace : s.threads tid = .system pc)
      (hstmt : systemStmt s.windows pc = some (.done r)) :
      Steps s (.go tid) none { s.place tid (.leaving r) with holder := none }
  | next {tid : ℕ} {pc pc' : SystemPc A} {w : Windows A} (hplace : s.threads tid = .system pc)
      (hstmt : systemStmt s.windows pc = some (.next pc' w)) :
      Steps s (.go tid) none { s.place tid (.system pc') with windows := w }
  | found {tid : ℕ} {x : A} {pc : WalkPc A} {value : Bool} (hplace : s.threads tid = .walking x pc)
      (hstmt : walkStmt s.windows x pc = some (.inl value)) :
      Steps s (.go tid) none (s.place tid (.leaving (.found value)))
  | walk {tid : ℕ} {x : A} {pc pc' : WalkPc A} (hplace : s.threads tid = .walking x pc)
      (hstmt : walkStmt s.windows x pc = some (.inr pc')) :
      Steps s (.go tid) none (s.place tid (.walking x pc'))
  | ret {tid : ℕ} {r : ListResult A} (hplace : s.threads tid = .leaving r) :
      Steps s (.go tid) (some (.respond tid r)) (s.place tid .idle)

/-- **Inversion of a step.** -/
theorem step_cases {s t : ListThreads A} {i : ListMove A} {o : Option (CallEvent (ListCall A) (ListResult A))}
    (h : step s i = some (o, t)) : Steps s i o t := by
  cases i with
  | call tid c =>
    simp only [step] at h
    split at h
    · cases h
      exact .call c ‹_›
    · cases h
  | go tid =>
    simp only [step] at h
    split at h
    · cases h
    · rename_i c hplace
      obtain ⟨t, henter, heq⟩ := Option.map_eq_some_iff.mp h
      cases heq
      exact .enter hplace henter
    · rename_i pc hplace
      obtain ⟨outcome, hstmt, heq⟩ := Option.map_eq_some_iff.mp h
      cases outcome with
      | done r =>
        cases heq
        exact .done hplace hstmt
      | next pc' w =>
        cases heq
        exact .next hplace hstmt
    · rename_i x pc hplace
      obtain ⟨outcome, hstmt, heq⟩ := Option.map_eq_some_iff.mp h
      cases outcome with
      | inl value =>
        cases heq
        exact .found hplace hstmt
      | inr pc' =>
        cases heq
        exact .walk hplace hstmt
    · rename_i r hplace
      cases h
      exact .ret hplace

end ListThreads

end SmIpc.Sm
