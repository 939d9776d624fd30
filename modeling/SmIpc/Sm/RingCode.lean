import SmIpc.Lib.Sections
import SmIpc.Sm.MessageSearch

/-! # The message ring, statement by statement

The functions of `smmsg.c` that take `message_queue.access`, with every C statement a step of its own: the
four fields of a message are stored and read one after the other, a cursor moves before it wraps, and the
loops of the searches and the erasers stop between any two slots. Any number of threads run them; `access`
is the lock, and `wait_event` the gate a pop passes before it.

The sections of the other files, `pushMessage`, `popSection`, `searchLoop` and `sweep`, are what these
statements do when they are run to their end (`pushMessage_completes`, `popSection_completes`,
`searchLoop_completes`, `sweep_completes`). `ring_linearizable` says that this is all that can be seen of
them: whatever the statements of the threads interleave to, every history is one of calls of a bounded FIFO
that take no time, and no pop finds it empty. `get_nmessage` takes no lock and is not among the calls. -/

namespace SmIpc.Sm

open Sections (Outcome Code)
open Linearizable

/-- A call that takes `access`. -/
inductive LockedCall where
  /-- `push_message`, also the one in `send_message`. -/
  | pushMessage (m : Message)
  /-- `pop_message`. -/
  | popMessage
  /-- `is_message(hsm)`. -/
  | isMessage (hsm : Hsm)
  /-- `is_message_param(hsm, message, param1, param2)`. -/
  | isMessageParam (m : Message)
  /-- `invalidate_message(message)`. -/
  | invalidateMessage (message : UInt32)
  /-- `erase_message(hsm)`. -/
  | eraseMessage (hsm : Hsm)
  /-- `erase_message_type(hsm, message)`. -/
  | eraseMessageType (hsm : Hsm) (message : UInt32)
  deriving DecidableEq, Repr

/-- The slots an eraser looks for, one comparison after the other, and what it stores in them, one field
after the other. -/
structure Eraser where
  /-- The comparisons. -/
  tests : List (Message → Bool)
  /-- The stores. -/
  writes : List (Message → Message)

/-- The stores of `erase_message` and `erase_message_type`; `param1 = param2 = 0` stores `param2` first. -/
def eraseWrites : List (Message → Message) :=
  [fun m => { m with hsm := 0 }, fun m => { m with message := smmInvalidmsg },
    fun m => { m with param2 := 0 }, fun m => { m with param1 := 0 }]

/-- `invalidate_message`. -/
def invalidateEraser (message : UInt32) : Eraser where
  tests := [fun m => m.message = message]
  writes := eraseWrites.tail

/-- `erase_message`. -/
def messageEraser (hsm : Hsm) : Eraser where
  tests := [fun m => m.hsm = hsm]
  writes := eraseWrites

/-- `erase_message_type`. -/
def typeEraser (hsm : Hsm) (message : UInt32) : Eraser where
  tests := [fun m => m.hsm = hsm, fun m => m.message = message]
  writes := eraseWrites

/-- The next statement of a section, with the values of the local variables. -/
inductive RingPc where
  /-- `def = head - tail`. -/
  | pushDef (m : Message)
  /-- `if((def != 1) && (def != -(queue_size - 1)))`. -/
  | pushTest (m : Message) (diff : ℤ)
  /-- `queue[tail].hsm = hsm`. -/
  | pushHsm (m : Message)
  /-- `queue[tail].message = message`. -/
  | pushMsg (m : Message)
  /-- `queue[tail].param1 = param1`. -/
  | pushParam1 (m : Message)
  /-- `queue[tail].param2 = param2`. -/
  | pushParam2 (m : Message)
  /-- `signal_event()` of a push. -/
  | pushSignal
  /-- `tail++`. -/
  | pushTail
  /-- `if(tail == queue_size) tail = 0`. -/
  | pushWrap
  /-- `if(head != tail)`. -/
  | popTest
  /-- `*hsm = queue[head].hsm`. -/
  | popHsm
  /-- `*message = queue[head].message`. -/
  | popMsg (hsm : Hsm)
  /-- `*param1 = queue[head].param1`. -/
  | popParam1 (hsm : Hsm) (message : UInt32)
  /-- `*param2 = queue[head].param2`. -/
  | popParam2 (hsm : Hsm) (message param1 : UInt32)
  /-- `head++`. -/
  | popHead (m : Message)
  /-- `if(head == queue_size) head = 0`. -/
  | popWrap (m : Message)
  /-- `signal_event()` of a pop that found nothing. -/
  | popSignal
  /-- `i = head`. -/
  | searchInit (tests : List (Message → Bool))
  /-- `while(i != tail)`. -/
  | searchWhile (tests : List (Message → Bool)) (i : ℤ)
  /-- The comparisons of a search that are left at slot `i`. -/
  | searchTest (tests left : List (Message → Bool)) (i : ℤ)
  /-- `i++`. -/
  | searchNext (tests : List (Message → Bool)) (i : ℤ)
  /-- `if(i == queue_size) i = 0`. -/
  | searchWrap (tests : List (Message → Bool)) (i : ℤ)
  /-- `i < queue_size` of an eraser's loop. -/
  | sweepFor (e : Eraser) (i : ℤ)
  /-- The comparisons of an eraser that are left at slot `i`. -/
  | sweepTest (e : Eraser) (left : List (Message → Bool)) (i : ℤ)
  /-- The stores of an eraser that are left at slot `i`. -/
  | sweepWrite (e : Eraser) (left : List (Message → Message)) (i : ℤ)
  /-- `i++` of an eraser's loop. -/
  | sweepNext (e : Eraser) (i : ℤ)
  /-- `sk_sem_unlock(access)`, before `return return_value`. -/
  | unlock (result : MsgResult)

/-- Store in a field of a slot. -/
def Msgq.store (q : Msgq) (i : ℤ) (write : Message → Message) : Msgq :=
  { q with queue := Function.update q.queue i (write (q.queue i)) }

theorem Msgq.store_store (q : Msgq) (i : ℤ) (write write' : Message → Message) :
    (q.store i write).store i write' = q.store i fun m => write' (write m) := by
  simp only [Msgq.store, Function.update_self, Function.update_idem]

theorem Msgq.store_id (q : Msgq) (i : ℤ) : (q.store i fun m => m) = q := by
  rw [Msgq.store, Function.update_eq_self]

/-- One statement. -/
def ringStmt : RingPc → Msgq → Outcome MsgResult RingPc Msgq
  | .pushDef m, q => .next (.pushTest m (q.head - q.tail)) q
  | .pushTest m diff, q =>
      if diff ≠ 1 ∧ diff ≠ -(q.queueSize - 1) then .next (.pushHsm m) q
      else .next (.unlock ⟨0, none⟩) q
  | .pushHsm m, q => .next (.pushMsg m) (q.store q.tail fun x => { x with hsm := m.hsm })
  | .pushMsg m, q => .next (.pushParam1 m) (q.store q.tail fun x => { x with message := m.message })
  | .pushParam1 m, q => .next (.pushParam2 m) (q.store q.tail fun x => { x with param1 := m.param1 })
  | .pushParam2 m, q => .next .pushSignal (q.store q.tail fun x => { x with param2 := m.param2 })
  | .pushSignal, q => .next .pushTail { q with semEvent := q.semEvent + 1 }
  | .pushTail, q => .next .pushWrap { q with tail := toS16 (q.tail + 1) }
  | .pushWrap, q =>
      .next (.unlock ⟨1, none⟩) { q with tail := if q.tail = q.queueSize then 0 else q.tail }
  | .popTest, q => if q.head ≠ q.tail then .next .popHsm q else .next .popSignal q
  | .popHsm, q => .next (.popMsg (q.queue q.head).hsm) q
  | .popMsg hsm, q => .next (.popParam1 hsm (q.queue q.head).message) q
  | .popParam1 hsm message, q => .next (.popParam2 hsm message (q.queue q.head).param1) q
  | .popParam2 hsm message param1, q =>
      .next (.popHead ⟨hsm, message, param1, (q.queue q.head).param2⟩) q
  | .popHead m, q => .next (.popWrap m) { q with head := toS16 (q.head + 1) }
  | .popWrap m, q =>
      .next (.unlock ⟨1, some m⟩) { q with head := if q.head = q.queueSize then 0 else q.head }
  | .popSignal, q => .next (.unlock ⟨0, none⟩) { q with semEvent := q.semEvent + 1 }
  | .searchInit tests, q => .next (.searchWhile tests q.head) q
  | .searchWhile tests i, q =>
      if i ≠ q.tail then .next (.searchTest tests tests i) q else .next (.unlock ⟨0, none⟩) q
  | .searchTest _ [] _, q => .next (.unlock ⟨1, none⟩) q
  | .searchTest tests (test :: left) i, q =>
      if test (q.queue i) then .next (.searchTest tests left i) q else .next (.searchNext tests i) q
  | .searchNext tests i, q => .next (.searchWrap tests (i + 1)) q
  | .searchWrap tests i, q => .next (.searchWhile tests (if i = q.queueSize then 0 else i)) q
  | .sweepFor e i, q =>
      if i < q.queueSize then .next (.sweepTest e e.tests i) q else .next (.unlock ⟨0, none⟩) q
  | .sweepTest e [] i, q => .next (.sweepWrite e e.writes i) q
  | .sweepTest e (test :: left) i, q =>
      if test (q.queue i) then .next (.sweepTest e left i) q else .next (.sweepNext e i) q
  | .sweepWrite e [] i, q => .next (.sweepNext e i) q
  | .sweepWrite e (write :: left) i, q => .next (.sweepWrite e left i) (q.store i write)
  | .sweepNext e i, q => .next (.sweepFor e (i + 1)) q
  | .unlock result, _ => .done result

/-- The comparisons of `is_message_param`, the four nested `if`s. -/
def paramTests (m : Message) : List (Message → Bool) :=
  [fun x => x.hsm = m.hsm, fun x => x.message = m.message, fun x => x.param1 = m.param1,
    fun x => x.param2 = m.param2]

/-- The functions of `smmsg.c` that take `access`. -/
def ringCode : Code LockedCall MsgResult RingPc Msgq where
  -- the null handle is refused before the lock
  early
    | .pushMessage m => if m.hsm = skInvalidHsm then some ⟨0, none⟩ else none
    | .isMessage hsm => if hsm = skInvalidHsm then some ⟨0, none⟩ else none
    | _ => none
  waits
    | .popMessage => true
    | _ => false
  gate := waitEvent
  start
    | .pushMessage m => .pushDef m
    | .popMessage => .popTest
    | .isMessage hsm => .searchInit [fun x => x.hsm = hsm]
    | .isMessageParam m => .searchInit (paramTests m)
    | .invalidateMessage message => .sweepFor (invalidateEraser message) 0
    | .eraseMessage hsm => .sweepFor (messageEraser hsm) 0
    | .eraseMessageType hsm message => .sweepFor (typeEraser hsm message) 0
  stmt := ringStmt

/-! ## The sections -/

/-- The slot is one of the array. -/
def Msgq.InArray (q : Msgq) (i : ℤ) : Prop := 0 ≤ i ∧ i < q.queueSize

/-- **The slot a statement reads or stores in** is one of the array. -/
def RingPc.InArray : RingPc → Msgq → Prop
  | .pushHsm _, q | .pushMsg _, q | .pushParam1 _, q | .pushParam2 _, q => q.InArray q.tail
  | .popHsm, q | .popMsg _, q | .popParam1 _ _, q | .popParam2 _ _ _, q => q.InArray q.head
  | .searchTest _ (_ :: _) i, q | .sweepTest _ (_ :: _) i, q | .sweepWrite _ (_ :: _) i, q => q.InArray i
  | _, _ => True

/-- A section run to its end. -/
abbrev RingPc.Completes (pc : RingPc) (q : Msgq) (r : MsgResult) (q' : Msgq) : Prop :=
  ringCode.Completes RingPc.InArray pc q r q'

/-- At the end of a section. -/
theorem unlock_completes (q : Msgq) (r : MsgResult) : (RingPc.unlock r).Completes q r q :=
  .done trivial rfl

/-- **`push_message`** stores its message, posts `sem_event` and moves the cursor. -/
theorem pushMessage_completes {q : Msgq} (h : q.Valid) {m : Message} (hne : m.hsm ≠ skInvalidHsm) :
    (RingPc.pushDef m).Completes q ⟨(pushMessage q m.hsm m.message m.param1 m.param2).1, none⟩
      (pushMessage q m.hsm m.message m.param1 m.param2).2 := by
  have htail : q.InArray q.tail := ⟨h.tail_nonneg, h.tail_lt⟩
  refine .next trivial rfl ?_
  by_cases hroom : q.head - q.tail ≠ 1 ∧ q.head - q.tail ≠ -(q.queueSize - 1)
  · rw [pushMessage, if_neg hne, if_pos hroom]
    refine .next trivial (if_pos hroom) ?_
    -- the four fields, the post, and the cursor
    refine .next htail rfl (.next htail rfl (.next htail rfl (.next htail rfl ?_)))
    refine .next trivial rfl (.next trivial rfl (.next trivial rfl ?_))
    convert unlock_completes _ _ using 1
    simp only [Msgq.store, Function.update_self, Function.update_idem, advanceCursor]
  · rw [pushMessage, if_neg hne, if_neg hroom]
    exact .next trivial (if_neg hroom) (unlock_completes q _)

/-- **`pop_message`** after `wait_event` reads the message at the cursor and moves it. -/
theorem popSection_completes {q : Msgq} (h : q.Valid) :
    RingPc.popTest.Completes q ⟨(popSection q).1.1, (popSection q).1.2⟩ (popSection q).2 := by
  have hhead : q.InArray q.head := ⟨h.head_nonneg, h.head_lt⟩
  by_cases hne : q.head ≠ q.tail
  · rw [popSection, if_pos hne]
    refine .next trivial (if_pos hne) ?_
    -- the four fields, and the cursor
    refine .next hhead rfl (.next hhead rfl (.next hhead rfl (.next hhead rfl ?_)))
    exact .next trivial rfl (.next trivial rfl (unlock_completes _ _))
  · rw [popSection, if_neg hne]
    exact .next trivial (if_neg hne) (.next trivial rfl (unlock_completes _ _))

/-- The comparisons of a search at a slot. -/
theorem searchTest_completes {tests left : List (Message → Bool)} {q q' : Msgq} {i : ℤ} {r : MsgResult}
    (hi : q.InArray i)
    (hhit : left.all (fun test => test (q.queue i)) = true → r = ⟨1, none⟩ ∧ q' = q)
    (hmiss : left.all (fun test => test (q.queue i)) = false →
      (RingPc.searchNext tests i).Completes q r q') :
    (RingPc.searchTest tests left i).Completes q r q' := by
  induction left with
  | nil =>
    obtain ⟨rfl, rfl⟩ := hhit rfl
    exact .next trivial rfl (unlock_completes _ _)
  | cons test left ih =>
    rw [List.all_cons] at hhit hmiss
    cases htest : test (q.queue i) with
    | true =>
      rw [htest, Bool.true_and] at hhit hmiss
      exact .next hi (if_pos htest) (ih hhit hmiss)
    | false =>
      refine .next hi (if_neg ?_) (hmiss ?_)
      · rw [htest]
        exact Bool.false_ne_true
      · rw [htest, Bool.false_and]

/-- **The loop of `is_message` and `is_message_param`**: a slot is hit when every comparison holds. -/
theorem searchLoop_completes (tests : List (Message → Bool)) {q : Msgq} {fuel : ℕ} {i v : ℤ}
    (hi : q.InArray i) (h : searchLoop (fun m => tests.all fun test => test m) q fuel i = some v) :
    (RingPc.searchWhile tests i).Completes q ⟨v, none⟩ q := by
  induction fuel generalizing i with
  | zero => cases h
  | succ fuel ih =>
    rw [searchLoop] at h
    by_cases htail : i = q.tail
    · rw [if_pos htail] at h
      cases h
      exact .next trivial (if_neg (not_not.mpr htail)) (unlock_completes q _)
    · rw [if_neg htail] at h
      refine .next trivial (if_pos htail) (searchTest_completes hi ?_ ?_)
      · intro hhit
        rw [if_pos hhit] at h
        cases h
        exact ⟨rfl, rfl⟩
      · intro hmiss
        rw [hmiss, if_neg Bool.false_ne_true] at h
        refine .next trivial rfl (.next trivial rfl (ih ?_ h))
        obtain ⟨hnonneg, hlt⟩ := hi
        constructor <;> split_ifs <;> omega

/-- The slots an eraser changes. -/
def Eraser.hit (e : Eraser) (m : Message) : Bool := e.tests.all fun test => test m

/-- What it leaves in them. -/
def Eraser.blank (e : Eraser) (m : Message) : Message := e.writes.foldl (fun m write => write m) m

/-- The stores of an eraser in a slot. -/
theorem sweepWrite_completes (e : Eraser) {left : List (Message → Message)} {q q' : Msgq} {i : ℤ}
    {r : MsgResult} (hi : q.InArray i)
    (hrest : (RingPc.sweepNext e i).Completes
      (q.store i fun m => left.foldl (fun m write => write m) m) r q') :
    (RingPc.sweepWrite e left i).Completes q r q' := by
  induction left generalizing q with
  | nil =>
    have hid : (q.store i fun m => [].foldl (fun m (write : Message → Message) => write m) m) = q :=
      q.store_id i
    exact .next trivial rfl (hid ▸ hrest)
  | cons write left ih =>
    refine .next hi rfl (ih hi ?_)
    rw [Msgq.store_store]
    exact hrest

/-- An eraser at a slot. -/
theorem sweepTest_completes (e : Eraser) {left : List (Message → Bool)} {q q' : Msgq} {i : ℤ}
    {r : MsgResult} (hi : q.InArray i)
    (hrest : (RingPc.sweepNext e i).Completes
      (if left.all fun test => test (q.queue i) then q.store i e.blank else q) r q') :
    (RingPc.sweepTest e left i).Completes q r q' := by
  induction left with
  | nil => exact .next trivial rfl (sweepWrite_completes e hi hrest)
  | cons test left ih =>
    rw [List.all_cons] at hrest
    cases htest : test (q.queue i) with
    | true =>
      rw [htest, Bool.true_and] at hrest
      exact .next hi (if_pos htest) (ih hrest)
    | false =>
      rw [htest, Bool.false_and, if_neg Bool.false_ne_true] at hrest
      refine .next hi (if_neg ?_) hrest
      rw [htest]
      exact Bool.false_ne_true

/-- **The loop of the erasers.** -/
theorem sweep_completes (e : Eraser) {n : ℕ} {i : ℤ} {q : Msgq} (h₀ : 0 ≤ i) (hi : i + n = q.queueSize) :
    (RingPc.sweepFor e i).Completes q ⟨0, none⟩
      { q with queue := sweepLoop e.hit e.blank n i q.queue } := by
  induction n generalizing i q with
  | zero =>
    refine .next trivial (if_neg ?_) (unlock_completes q _)
    omega
  | succ n ih =>
    refine .next trivial (if_pos (by omega)) ?_
    refine sweepTest_completes e ⟨h₀, by omega⟩ (.next trivial rfl ?_)
    rw [sweepLoop]
    by_cases hhit : e.hit (q.queue i)
    · rw [if_pos hhit]
      have hrest := ih (i := i + 1) (q := q.store i e.blank) (by omega) (by simp only [Msgq.store]; omega)
      rw [Eraser.hit] at hhit
      rwa [if_pos hhit]
    · rw [if_neg hhit]
      have hrest := ih (i := i + 1) (q := q) (by omega) (by omega)
      rw [Eraser.hit] at hhit
      rwa [if_neg hhit]

/-! ## Waiting while a section is run -/

/-- `wait_event` takes a token. -/
theorem waitEvent_eq_some {q q' : Msgq} :
    waitEvent q = some q' ↔ 0 < q.semEvent ∧ q' = { q with semEvent := q.semEvent - 1 } := by
  rw [waitEvent]
  split
  · rename_i hzero
    simp [hzero]
  · rename_i hpos
    simp [Nat.pos_of_ne_zero hpos, eq_comm]

/-- A statement posts `sem_event` once or not at all, and does not look at it. -/
theorem ringStmt_semEvent {pc pc' : RingPc} {q q' : Msgq} (hstmt : ringStmt pc q = .next pc' q') :
    ∃ d, q'.semEvent = q.semEvent + d ∧
      ∀ k, ringStmt pc { q with semEvent := k } = .next pc' { q' with semEvent := k + d } := by
  revert hstmt
  fun_cases ringStmt pc q
  all_goals
    intro hstmt
    cases hstmt
  all_goals
    first
    | exact ⟨0, rfl, fun _ => rfl⟩
    | exact ⟨1, rfl, fun _ => rfl⟩
    | exact ⟨0, rfl, fun _ => if_pos ‹_›⟩
    | exact ⟨0, rfl, fun _ => if_neg ‹_›⟩

/-- Only `unlock` is at an end. -/
theorem eq_unlock_of_done {pc : RingPc} {q : Msgq} {r : MsgResult} (hstmt : ringStmt pc q = .done r) :
    pc = .unlock r := by
  revert hstmt
  fun_cases ringStmt pc q
  all_goals
    intro hstmt
    cases hstmt
  rfl

/-- What a statement reads or stores in does not depend on `sem_event`. -/
theorem RingPc.InArray.semEvent {pc : RingPc} {q : Msgq} (h : pc.InArray q) (k : ℕ) :
    pc.InArray { q with semEvent := k } := by
  cases pc with
  | searchTest tests left i => cases left <;> exact h
  | sweepTest e left i => cases left <;> exact h
  | sweepWrite e left i => cases left <;> exact h
  | _ => exact h

/-- **A section and a `wait_event` of another thread** can be swapped. -/
theorem completes_waitEvent {pc : RingPc} {q q' q₁ : Msgq} {r : MsgResult} (h : pc.Completes q r q')
    (hwait : waitEvent q = some q₁) : ∃ q₁', waitEvent q' = some q₁' ∧ pc.Completes q₁ r q₁' := by
  obtain ⟨hpos, rfl⟩ := waitEvent_eq_some.mp hwait
  clear hwait
  induction h with
  | @done pc q r _ hstmt =>
    obtain rfl := eq_unlock_of_done hstmt
    exact ⟨_, waitEvent_eq_some.mpr ⟨hpos, rfl⟩, unlock_completes _ r⟩
  | @next pc pc' q q' q'' r hsafe hstmt _ ih =>
    obtain ⟨d, hd, hall⟩ := ringStmt_semEvent hstmt
    obtain ⟨q₁', hwait, hrest⟩ := ih (by omega)
    have hless : q.semEvent - 1 + d = q'.semEvent - 1 := by omega
    exact ⟨q₁', hwait, .next (hsafe.semEvent _) (hall _) (hless ▸ hrest)⟩

/-! ## The calls of a bounded FIFO -/

/-- **What a call means on a bounded FIFO of messages.** -/
def LockedCall.spec {cap : ℕ} (l : BoundedFifo Message cap) :
    LockedCall → MsgResult × BoundedFifo Message cap
  | .pushMessage m =>
      if m.hsm = skInvalidHsm then (⟨0, none⟩, l) else (⟨if (l.push m).1 then 1 else 0, none⟩, (l.push m).2)
  | .popMessage => (⟨if l.items = [] then 0 else 1, l.pop.1⟩, l.pop.2)
  | .isMessage hsm =>
      (⟨if hsm ≠ skInvalidHsm ∧ ∃ m ∈ l.items, m.hsm = hsm then 1 else 0, none⟩, l)
  | .isMessageParam m => (⟨if m ∈ l.items then 1 else 0, none⟩, l)
  | .invalidateMessage message =>
      (⟨0, none⟩, l.map fun m => if m.message = message then blankKeepHsm m else m)
  | .eraseMessage hsm => (⟨0, none⟩, l.map fun m => if m.hsm = hsm then blankAll m else m)
  | .eraseMessageType hsm message =>
      (⟨0, none⟩, l.map fun m => if m.hsm = hsm ∧ m.message = message then blankAll m else m)

/-- The ring holds the items of the queue, and `sem_event` has a token for each of them, but for the pops
that have taken theirs. -/
structure RingHolds {cap : ℕ} (waiting : ℕ) (q : Msgq) (l : BoundedFifo Message cap) : Prop where
  /-- The ring holds the items. -/
  refines : q.Refines l
  /-- A token, or a pop that took one, for each. -/
  tokens : q.semEvent + waiting = l.items.length

/-- A pop returns 1 and a message. -/
def PopsMessage (c : LockedCall) (r : MsgResult) : Prop :=
  c = .popMessage → r.value = 1 ∧ r.message.isSome

namespace RingHolds

variable {cap : ℕ} {k : ℕ} {q : Msgq} {l : BoundedFifo Message cap}

theorem waitEvent {q' : Msgq} (h : RingHolds k q l) (hwait : Sm.waitEvent q = some q') :
    RingHolds (k + 1) q' l := by
  obtain ⟨hpos, rfl⟩ := waitEvent_eq_some.mp hwait
  refine ⟨⟨h.refines.valid.semEvent _, h.refines.size_eq, h.refines.contents_eq⟩, ?_⟩
  have htokens := h.tokens
  show q.semEvent - 1 + (k + 1) = _
  omega

/-- **The searches.** -/
theorem search (h : RingHolds k q l) (tests : List (Message → Bool)) {v : ℤ} {c : LockedCall}
    (hne : c ≠ .popMessage)
    (hfind : searchLoop (fun m => tests.all fun test => test m) q q.queueSize.toNat q.head = some v)
    (hspec : c.spec l = (⟨v, none⟩, l)) :
    ∃ q', (RingPc.searchInit tests).Completes q (c.spec l).1 q' ∧ RingHolds k q' (c.spec l).2 ∧
      PopsMessage c (c.spec l).1 := by
  rw [hspec]
  have hhead : q.InArray q.head := ⟨h.refines.valid.head_nonneg, h.refines.valid.head_lt⟩
  exact ⟨q, .next trivial rfl (searchLoop_completes tests hhead hfind), h, fun hpop => absurd hpop hne⟩

/-- **`push_message`.** -/
theorem pushMessage (h : RingHolds k q l) {m : Message} (hne : m.hsm ≠ skInvalidHsm) :
    ∃ q', (RingPc.pushDef m).Completes q ((LockedCall.pushMessage m).spec l).1 q' ∧
      RingHolds k q' ((LockedCall.pushMessage m).spec l).2 ∧
      PopsMessage (.pushMessage m) ((LockedCall.pushMessage m).spec l).1 := by
  have hbody := pushMessage_completes h.refines.valid hne
  obtain ⟨hok, hfull⟩ := Msgq.pushMessage_spec h.refines.valid hne m.message m.param1 m.param2
  rw [LockedCall.spec, if_neg hne]
  by_cases hroom : l.items.length < cap
  · obtain ⟨q₁, hq₁, hv, hcont, hsize, he⟩ := hok (h.refines.room.mpr hroom)
    obtain ⟨hp₁, hp₂⟩ := l.push_of_lt m hroom
    rw [hq₁] at hbody
    rw [hp₁, if_pos rfl]
    refine ⟨q₁, hbody, ⟨⟨hv, hsize.trans h.refines.size_eq, ?_⟩, ?_⟩, fun hpop => by cases hpop⟩
    · rw [hcont, h.refines.contents_eq, hp₂]
    · rw [hp₂, he, List.length_append, List.length_singleton, ← h.tokens]
      omega
  · rw [hfull fun hr => hroom (h.refines.room.mp hr)] at hbody
    rw [l.push_of_full m hroom, if_neg Bool.false_ne_true]
    exact ⟨q, hbody, h, fun hpop => by cases hpop⟩

/-- **`pop_message`** past `wait_event` finds a message. -/
theorem popSection (h : RingHolds (k + 1) q l) :
    ∃ q', RingPc.popTest.Completes q (LockedCall.popMessage.spec l).1 q' ∧
      RingHolds k q' (LockedCall.popMessage.spec l).2 ∧
      PopsMessage .popMessage (LockedCall.popMessage.spec l).1 := by
  have htokens := h.tokens
  cases hl : l.items with
  | nil =>
    rw [hl, List.length_nil] at htokens
    omega
  | cons m ms =>
    obtain ⟨q₁, hq₁, hv, hcont, hsize, he⟩ :=
      (Msgq.popSection_spec h.refines.valid).1 m ms (h.refines.contents_eq.trans hl)
    have hbody := popSection_completes h.refines.valid
    rw [hq₁] at hbody
    rw [LockedCall.spec, BoundedFifo.pop_fst, hl, if_neg (List.cons_ne_nil m ms)]
    refine ⟨q₁, hbody, ⟨⟨hv, hsize.trans h.refines.size_eq, ?_⟩, ?_⟩, fun _ => ⟨rfl, rfl⟩⟩
    · rw [hcont, BoundedFifo.pop_snd_items, hl, List.tail_cons]
    · rw [BoundedFifo.pop_snd_items, hl, List.tail_cons, he]
      rw [hl, List.length_cons] at htokens
      omega

/-- **The erasers.** -/
theorem sweep (h : RingHolds k q l) (e : Eraser) {c : LockedCall} (hne : c ≠ .popMessage)
    (hspec : c.spec l = (⟨0, none⟩, l.map fun m => if e.hit m then e.blank m else m)) :
    ∃ q', (RingPc.sweepFor e 0).Completes q (c.spec l).1 q' ∧ RingHolds k q' (c.spec l).2 ∧
      PopsMessage c (c.spec l).1 := by
  have hbody : (RingPc.sweepFor e 0).Completes q ⟨0, none⟩ (Sm.sweep e.hit e.blank q) := by
    apply sweep_completes e (Int.le_refl 0)
    have := h.refines.valid.size_pos
    omega
  rw [hspec]
  refine ⟨_, hbody, ⟨h.refines.sweep e.hit e.blank, ?_⟩, fun hpop => absurd hpop hne⟩
  rw [BoundedFifo.map_items, List.length_map]
  exact h.tokens

end RingHolds

/-- A call that returns before the lock is for the null handle, and changes nothing. -/
theorem early_spec {cap : ℕ} {c : LockedCall} {r : MsgResult} (h : ringCode.early c = some r) :
    (∀ l : BoundedFifo Message cap, c.spec l = (r, l)) ∧ PopsMessage c r := by
  cases c with
  | pushMessage m =>
    by_cases hm : m.hsm = skInvalidHsm
    · obtain rfl := Option.some.inj ((if_pos hm).symm.trans h)
      exact ⟨fun l => if_pos hm, fun hpop => by cases hpop⟩
    · cases (if_neg hm).symm.trans h
  | isMessage hsm =>
    by_cases hm : hsm = skInvalidHsm
    · obtain rfl := Option.some.inj ((if_pos hm).symm.trans h)
      refine ⟨fun l => ?_, fun hpop => by cases hpop⟩
      rw [LockedCall.spec, if_neg fun hn => hn.1 hm]
    · cases (if_neg hm).symm.trans h
  | _ => cases h

/-- **Each body does what its call means.** -/
theorem body_spec {cap k : ℕ} {q : Msgq} {l : BoundedFifo Message cap} {c : LockedCall}
    (hearly : ringCode.early c = none) (h : RingHolds (k + if ringCode.waits c then 1 else 0) q l) :
    ∃ q', (ringCode.start c).Completes q (c.spec l).1 q' ∧ RingHolds k q' (c.spec l).2 ∧
      PopsMessage c (c.spec l).1 := by
  cases c with
  | pushMessage m =>
    apply RingHolds.pushMessage h
    intro hm
    cases (if_pos hm).symm.trans hearly
  | popMessage => exact RingHolds.popSection h
  | isMessage hsm =>
    have hne : hsm ≠ skInvalidHsm := fun hm => by cases (if_pos hm).symm.trans hearly
    have hfind := Msgq.isMessage_eq h.refines.valid hne
    rw [isMessage, if_neg hne, h.refines.contents_eq] at hfind
    refine RingHolds.search h _ (by simp) (v := if ∃ m ∈ l.items, m.hsm = hsm then 1 else 0) ?_ ?_
    · simpa using hfind
    · simp [LockedCall.spec, hne]
  | isMessageParam m =>
    have hfind := Msgq.isMessageParam_eq h.refines.valid m.hsm m.message m.param1 m.param2
    rw [isMessageParam, h.refines.contents_eq] at hfind
    refine RingHolds.search h (paramTests m) (by simp) (v := if m ∈ l.items then 1 else 0) ?_ rfl
    rw [← hfind]
    congr 1
    funext x
    obtain ⟨xhsm, xmessage, xparam1, xparam2⟩ := x
    simp [paramTests]
  | invalidateMessage message =>
    apply RingHolds.sweep h (invalidateEraser message) (by simp)
    simp [LockedCall.spec, Eraser.hit, Eraser.blank, invalidateEraser, eraseWrites, blankKeepHsm]
  | eraseMessage hsm =>
    apply RingHolds.sweep h (messageEraser hsm) (by simp)
    simp [LockedCall.spec, Eraser.hit, Eraser.blank, messageEraser, eraseWrites, blankAll]
  | eraseMessageType hsm message =>
    apply RingHolds.sweep h (typeEraser hsm message) (by simp)
    simp [LockedCall.spec, Eraser.hit, Eraser.blank, typeEraser, eraseWrites, blankAll]

/-- **The code does what the calls mean.** -/
theorem ringCode_correct (cap : ℕ) :
    ringCode.Correct (@LockedCall.spec cap) RingHolds RingPc.InArray PopsMessage :=
  ⟨early_spec, RingHolds.waitEvent, body_spec, completes_waitEvent⟩

/-- **The message ring, statement by statement, is a bounded FIFO.** In every interleaving of the statements
of any number of threads, the history is one of calls of a bounded FIFO performed at one point each, every
pop returns 1 and a message, and a statement reads and stores in the array only. Whenever `access` is free
the ring holds the messages of the FIFO, and the tokens of `sem_event` and the pops that have taken one are
as many. When no thread is in a call, the history is linearizable. -/
theorem ring_linearizable (cap : ℕ) (hcap : cap ≤ 32766) (mem : ℤ → Message) (n : ℕ)
    (moves : List (Sections.Move LockedCall)) (os : List (Option (CallEvent LockedCall MsgResult)))
    (s : Sections.State LockedCall MsgResult RingPc Msgq)
    (hrun : StepMachine.run (Sections.step ringCode) (Sections.State.init (initMsgq cap mem) n) moves =
      some (os, s)) :
    (∃ (l : BoundedFifo Message cap) (status : ℕ → Status LockedCall MsgResult),
        Explained LockedCall.spec (BoundedFifo.empty Message cap) (Sections.history os) l status ∧
        (s.holder = none →
          s.mem.contents = l.items ∧ s.mem.semEvent + s.passed = l.items.length)) ∧
      (∀ a ∈ calls (Sections.history os), a.op = .popMessage →
        a.result.value = 1 ∧ a.result.message.isSome) ∧
      (∀ (tid : ℕ) (c : LockedCall) (pc : RingPc), s.threads[tid]? = some (.inside c pc) →
        pc.InArray s.mem) ∧
      ((∀ p ∈ s.threads, p = .idle) → ∃ (l : BoundedFifo Message cap)
        (order : List (Call LockedCall MsgResult)),
        Linearization LockedCall.spec (BoundedFifo.empty Message cap) (Sections.history os) l order ∧
          s.mem.contents = l.items) := by
  have hinit : RingHolds 0 (initMsgq cap mem) (BoundedFifo.empty Message cap) :=
    ⟨⟨Msgq.Valid.initMsgq (by omega) (by omega) mem, Msgq.queueSize_initMsgq (by omega) (by omega) mem,
      Msgq.contents_initMsgq cap mem⟩, rfl⟩
  have hcorrect := ringCode_correct cap
  obtain ⟨l, status, hexpl, hfree, hok, hsafe⟩ := Sections.explained hcorrect hinit hrun
  refine ⟨⟨l, status, hexpl, fun hholder => ?_⟩, hok, hsafe, fun hidle => ?_⟩
  · exact ⟨(hfree hholder).refines.contents_eq, (hfree hholder).tokens⟩
  · obtain ⟨l, order, hlin, hmem, -⟩ := Sections.linearization hcorrect hinit hrun hidle
    exact ⟨l, order, hlin, hmem.refines.contents_eq⟩

/-- A pop that passes `wait_event` while a push is between its post and its cursor. -/
theorem ring_linearizable_overlap : ∃ s os,
    StepMachine.run (Sections.step ringCode) (Sections.State.init (initMsgq 1 fun _ => ⟨0, 0, 0, 0⟩) 2)
      ([.call 0 (.pushMessage ⟨7, smmTick, 1, 2⟩), .call 1 .popMessage, .lock 0] ++
        List.replicate 7 (.stmt 0) ++ [.wait 1] ++ List.replicate 3 (.stmt 0) ++ [.ret 0, .lock 1] ++
        List.replicate 8 (.stmt 1) ++ [.ret 1]) = some (os, s) ∧
      Sections.history os = [.invoke 0 (.pushMessage ⟨7, smmTick, 1, 2⟩), .invoke 1 .popMessage,
        .respond 0 ⟨1, none⟩, .respond 1 ⟨1, some ⟨7, smmTick, 1, 2⟩⟩] ∧
      ∃ l order, Linearization (@LockedCall.spec 1) (BoundedFifo.empty Message 1)
        (Sections.history os) l order := by
  obtain ⟨s, os, hrun, hhist, hidle⟩ : ∃ s os,
      StepMachine.run (Sections.step ringCode)
          (Sections.State.init (initMsgq 1 fun _ => ⟨0, 0, 0, 0⟩) 2)
          ([.call 0 (.pushMessage ⟨7, smmTick, 1, 2⟩), .call 1 .popMessage, .lock 0] ++
            List.replicate 7 (.stmt 0) ++ [.wait 1] ++ List.replicate 3 (.stmt 0) ++ [.ret 0, .lock 1] ++
            List.replicate 8 (.stmt 1) ++ [.ret 1]) = some (os, s) ∧
        Sections.history os = [.invoke 0 (.pushMessage ⟨7, smmTick, 1, 2⟩), .invoke 1 .popMessage,
          .respond 0 ⟨1, none⟩, .respond 1 ⟨1, some ⟨7, smmTick, 1, 2⟩⟩] ∧
        s.threads = [.idle, .idle] :=
    ⟨_, _, rfl, rfl, rfl⟩
  refine ⟨s, os, hrun, hhist, ?_⟩
  obtain ⟨-, -, -, hlin⟩ := ring_linearizable 1 (by decide) _ 2 _ os s hrun
  obtain ⟨l, order, hl, -⟩ := hlin fun p hp => by
    rw [hidle] at hp
    simpa using hp
  exact ⟨l, order, hl⟩

end SmIpc.Sm
