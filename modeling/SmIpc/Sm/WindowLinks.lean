import SmIpc.Sm.WindowWalks

/-! # What the statements leave in memory

Between two statements of the thread that has `sem_system` the list may be half linked. What a walk can see
of it is the `next` of each node, and this is a list at every moment (`Windows.Forward`).

* `ListThreads.At` — what the memory is at each statement; `At.step`, `At.isSome` and `At.done` say what a
  statement does, that it is defined, and what is left at the end.
* `ListThreads.Stands` — where a walk is in the list, also when the window it stands at is taken out. -/

namespace SmIpc.Sm

open DoublyLinked (IsList Link Passed)
open Linearizable (Status)

universe u

variable {A : Type u}

/-! ## The forward links -/

namespace Windows

variable {w w' : Windows A} {l : List A} {a : A}

/-- The `next` of a node. -/
def nextOf (w : Windows A) (a : A) : Option (Option A) := (w.heap a).map CommonSm.next

/-- **Following `next` from `smallwin_list` visits `l`.** -/
structure Forward (w : Windows A) (l : List A) : Prop where
  /-- It starts at the first window. -/
  first : w.smallwinList = l.head?
  /-- The `next` of each is the one after it. -/
  next : ∀ p a s, l = p ++ a :: s → w.nextOf a = some s.head?

/-- The windows in memory. -/
theorem Holds.forward (h : w.Holds l) : w.Forward l := by
  refine ⟨h.list.first_eq, ?_⟩
  rintro p a s rfl
  obtain ⟨sm, hsm, -, hnext⟩ := node_of_isList h.list
  rw [nextOf, hsm, Option.map_some, hnext]

/-- Only the `next` of the windows matters. -/
theorem Forward.congr (h : w.Forward l) (hfirst : w'.smallwinList = w.smallwinList)
    (hnext : ∀ z ∈ l, w'.nextOf z = w.nextOf z) : w'.Forward l := by
  refine ⟨hfirst.trans h.first, ?_⟩
  intro p a s hl
  rw [hnext a (by simp [hl]), h.next p a s hl]

/-- Each window is allocated. -/
theorem Forward.isSome (h : w.Forward l) (ha : a ∈ l) : (w.heap a).isSome := by
  obtain ⟨p, s, hl⟩ := List.append_of_mem ha
  obtain ⟨sm, hsm, -⟩ := Option.map_eq_some_iff.mp (h.next p a s hl)
  rw [hsm, Option.isSome_some]

/-- What comes after a window is a window. -/
theorem Forward.mem_next {b : A} (h : w.Forward l) (ha : a ∈ l)
    (hnext : w.nextOf a = some (some b)) : b ∈ l := by
  obtain ⟨p, s, rfl⟩ := List.append_of_mem ha
  have hs : s.head? = some b := Option.some.inj ((h.next p a s rfl).symm.trans hnext)
  exact List.mem_append_right p (List.mem_cons_of_mem a (List.mem_of_head? hs))

/-- A window with no `next` is the last one. -/
theorem Forward.last (h : w.Forward l) (ha : a ∈ l) (hnext : w.nextOf a = some none) :
    l.getLast? = some a := by
  obtain ⟨p, s, rfl⟩ := List.append_of_mem ha
  have hs : s.head? = none := Option.some.inj ((h.next p a s rfl).symm.trans hnext)
  rw [List.head?_eq_none_iff.mp hs, List.getLast?_append_cons, List.getLast?_singleton]

/-- The windows are those that are allocated. -/
theorem Holds.mem_iff (h : w.Holds l) : (w.heap a).isSome ↔ a ∈ l := ⟨h.live a, h.forward.isSome⟩

variable [DecidableEq A]

/-- A write that leaves `next` alone. -/
theorem nextOf_modify {f : CommonSm A → CommonSm A} (hf : ∀ sm, (f sm).next = sm.next)
    (h : w.modify a f = some w') : w'.smallwinList = w.smallwinList ∧ ∀ z, w'.nextOf z = w.nextOf z := by
  obtain ⟨sm, hsm, rfl⟩ := Option.map_eq_some_iff.mp h
  refine ⟨rfl, ?_⟩
  intro z
  by_cases hz : z = a
  · subst hz
    simp [nextOf, hsm, hf]
  · simp [nextOf, Function.update_of_ne hz]

/-- Linking a node back leaves `next` alone. -/
theorem nextOf_unlinkBackward {sm : CommonSm A} (h : unlinkBackward w sm = some w') :
    w'.smallwinList = w.smallwinList ∧ ∀ z, w'.nextOf z = w.nextOf z := by
  rw [unlinkBackward] at h
  split at h
  · exact nextOf_modify (f := fun k => { k with prev := sm.prev }) (fun _ => rfl) h
  · cases h
    exact ⟨rfl, fun _ => rfl⟩

/-- A node that is to be linked is in memory, with no `next`, beside the windows. -/
def Adding (w : Windows A) (l : List A) (node : A) : Prop :=
  ∃ (w₀ : Windows A) (sm : CommonSm A), w₀.Holds l ∧ w₀.heap node = none ∧ sm.next = none ∧
    w = { w₀ with heap := Function.update w₀.heap node (some sm) }

theorem Adding.notMem {node : A} (h : w.Adding l node) : node ∉ l := by
  obtain ⟨w₀, sm, hw₀, hnone, -, -⟩ := h
  intro hmem
  have hsome := hw₀.mem_iff.mpr hmem
  rw [hnone] at hsome
  cases hsome

theorem Adding.list {node : A} (h : w.Adding l node) : IsList w.links w.smallwinList l := by
  have hnotMem := h.notMem
  obtain ⟨w₀, sm, hw₀, -, -, rfl⟩ := h
  apply hw₀.list.congr
  intro z hz
  have hne : z ≠ node := fun heq => hnotMem (heq ▸ hz)
  simp [links, Function.update_of_ne hne]

theorem Adding.forward {node : A} (h : w.Adding l node) : w.Forward l := by
  have hnotMem := h.notMem
  obtain ⟨w₀, sm, hw₀, -, -, rfl⟩ := h
  refine hw₀.forward.congr rfl ?_
  intro z hz
  have hne : z ≠ node := fun heq => hnotMem (heq ▸ hz)
  simp [nextOf, Function.update_of_ne hne]

/-- The new node has no `next`. -/
theorem Adding.nextOf {node : A} (h : w.Adding l node) : w.nextOf node = some none := by
  obtain ⟨w₀, sm, -, -, hnext, rfl⟩ := h
  simp [Windows.nextOf, hnext]

/-- `sm_add_smallwin_list` links the node. -/
theorem Adding.linked {node : A} (h : w.Adding l node) :
    ∃ w', smAddSmallwinList l.length w node = some w' ∧ w'.Holds (l ++ [node]) := by
  have hnotMem := h.notMem
  obtain ⟨w₀, sm, hw₀, -, -, rfl⟩ := h
  exact hw₀.link hnotMem (Nat.le_refl _) sm

/-- The last store, of a `next` that is null, leaves `next` alone. -/
theorem nextOf_modify_null {f : CommonSm A → CommonSm A} (hf : ∀ sm, (f sm).next = none)
    (hnull : w.nextOf a = some none) (h : w.modify a f = some w') :
    w'.smallwinList = w.smallwinList ∧ ∀ z, w'.nextOf z = w.nextOf z := by
  obtain ⟨sm, hsm, rfl⟩ := Option.map_eq_some_iff.mp h
  refine ⟨rfl, ?_⟩
  intro z
  by_cases hz : z = a
  · subst hz
    rw [hnull]
    simp [nextOf, hf]
  · simp [nextOf, Function.update_of_ne hz]

/-- **The link to a new node**: with it the node is the last window, and stores in it are left. -/
theorem Adding.addLink {node temp : A} (h : w.Adding l node) (hlast : l.getLast? = some temp) :
    ∃ w₁ w₂, w.modify temp (fun sm => { sm with next := some node }) = some w₁ ∧
      w₁.modify node (fun sm => { sm with prev := some temp, next := none }) = some w₂ ∧
      w₂.Holds (l ++ [node]) ∧ w₁.Forward (l ++ [node]) := by
  obtain ⟨w₂, hadd, hholds⟩ := h.linked
  obtain ⟨first, hfirst⟩ : ∃ first, w.smallwinList = some first := by
    rw [h.list.first_eq]
    cases l with
    | nil => cases hlast
    | cons b l => exact ⟨b, rfl⟩
  have hloop : lastLoop w l.length first = some temp := by
    have hl := h.list.first_eq.symm.trans hfirst
    obtain ⟨s, rfl⟩ := List.head?_eq_some_iff.mp hl
    rw [lastLoop_eq (p := []) h.list (by simp), hlast]
  rw [smAddSmallwinList, hfirst] at hadd
  simp only [hloop, Option.bind_eq_bind, Option.bind_some] at hadd
  obtain ⟨w₁, hlink, hnew⟩ := Option.bind_eq_some_iff.mp hadd
  have hne : node ≠ temp := fun heq => h.notMem (heq ▸ List.mem_of_getLast? hlast)
  -- the link is in another node
  have hnull : w₁.nextOf node = some none := by
    obtain ⟨k, -, rfl⟩ := Option.map_eq_some_iff.mp hlink
    rw [← h.nextOf]
    simp [Windows.nextOf, Function.update_of_ne hne]
  obtain ⟨hsame, hnext⟩ := nextOf_modify_null (fun _ => rfl) hnull hnew
  exact ⟨w₁, w₂, hlink, hnew, hholds, hholds.forward.congr hsame.symm fun z _ => (hnext z).symm⟩

/-- The same for the first window. -/
theorem Adding.addHead {node : A} (h : w.Adding [] node) :
    ∃ w₂, { w with smallwinList := some node }.modify node
        (fun sm => { sm with prev := none, next := none }) = some w₂ ∧
      w₂.Holds [node] ∧ { w with smallwinList := some node }.Forward [node] := by
  obtain ⟨w₂, hadd, hholds⟩ := h.linked
  have hfirst : w.smallwinList = none := h.list.first_eq
  rw [smAddSmallwinList, hfirst] at hadd
  have hnull : { w with smallwinList := some node }.nextOf node = some none := h.nextOf
  obtain ⟨hsame, hnext⟩ := nextOf_modify_null (fun _ => rfl) hnull hadd
  exact ⟨w₂, hadd, hholds, hholds.forward.congr hsame.symm fun z _ => (hnext z).symm⟩

/-- **The link past a window**: with it the window is out, and it can still be read until it is freed. -/
theorem Holds.unlink (h : w.Holds l) (ha : a ∈ l) :
    ∃ sm w₁ w₂, w.heap a = some sm ∧ unlinkForward w sm = some w₁ ∧ w₁.heap a = some sm ∧
      unlinkBackward w₁ sm = some w₂ ∧ (w₂.free a).Holds (l.filter fun z => z ≠ a) ∧
      w₁.Forward (l.filter fun z => z ≠ a) := by
  obtain ⟨p, s, rfl⟩ := List.append_of_mem ha
  have hnodup := List.nodup_middle.mp h.list.nodup
  have hrest : (p ++ a :: s).filter (fun z => z ≠ a) = p ++ s := by
    have hkeep : (p ++ s).filter (fun z => z ≠ a) = p ++ s := by
      apply List.filter_eq_self.mpr
      intro z hz
      simpa using fun heq : z = a => (List.nodup_cons.mp hnodup).1 (heq ▸ hz)
    rw [List.filter_append, List.filter_cons_of_neg (by simp), ← List.filter_append, hkeep]
  obtain ⟨w', hdestroy, hholds⟩ := h.destroy
  obtain ⟨sm, hsm, hdestroy⟩ := Option.bind_eq_some_iff.mp hdestroy
  obtain ⟨w₁, hforward, hdestroy⟩ := Option.bind_eq_some_iff.mp hdestroy
  obtain ⟨sm₁, hsm₁, hdestroy⟩ := Option.bind_eq_some_iff.mp hdestroy
  obtain ⟨w₂, hback, hfree⟩ := Option.bind_eq_some_iff.mp hdestroy
  cases hfree
  -- the node is not the one before it
  have hsame : w₁.heap a = w.heap a := by
    obtain ⟨k, hk, hprev, -⟩ := node_of_isList h.list
    obtain rfl := Option.some.inj (hsm.symm.trans hk)
    have hne : sm.prev ≠ some a := by
      rw [hprev]
      exact fun heq => (List.nodup_cons.mp hnodup).1 (List.mem_append_left s (List.mem_of_getLast? heq))
    rw [unlinkForward] at hforward
    split at hforward
    · rename_i b hb
      obtain ⟨k, -, rfl⟩ := Option.map_eq_some_iff.mp hforward
      exact Function.update_of_ne (fun heq => hne (hb.trans (congrArg some heq.symm))) _ _
    · cases hforward
      rfl
  obtain rfl : sm = sm₁ := Option.some.inj ((hsm.symm.trans hsame.symm).trans hsm₁)
  rw [hrest]
  refine ⟨sm, w₁, w₂, hsm, hforward, hsm₁, hback, hholds, ?_⟩
  obtain ⟨hfirst, hnext⟩ := nextOf_unlinkBackward hback
  apply hholds.forward.congr hfirst.symm
  intro z hz
  have hne : z ≠ a := fun heq => (List.nodup_cons.mp hnodup).1 (heq ▸ hz)
  rw [← hnext z]
  simp [nextOf, Function.update_of_ne hne]

/-- Two stores in one node. -/
theorem modify_modify (w : Windows A) (a : A) (f g : CommonSm A → CommonSm A) :
    (w.modify a f).bind (fun w => w.modify a g) = w.modify a fun sm => g (f sm) := by
  rw [modify, modify]
  cases hsm : w.heap a with
  | none => rfl
  | some sm => simp [modify]

end Windows

/-! ## The walks -/

/-- What the calls do, one at a time, to the windows in creation order. -/
def ListCall.spec [DecidableEq A] (l : List A) : ListCall A → ListResult A × List A
  | .create none _ _ _ _ => (.handle none, l)
  | .create (some node) _ _ _ _ => (.handle (some node), l ++ [node])
  | .destroy none => (.invalid, l)
  | .destroy (some hsm) => (.invalid, l.filter fun a => a ≠ hsm)
  | .isSmallwin none => (.found false, l)
  | .isSmallwin (some smallwin) => (.found (decide (smallwin ∈ l)), l)

/-- The window that is out of the list and has not been freed. -/
def SystemPc.unlinked : SystemPc A → Option A
  | .destroyNext hsm | .destroyBackward hsm | .destroyFree hsm => some hsm
  | _ => none

namespace ListThreads

variable {w w' : Windows A} {l : List A} {out : Option A} {a x : A}

/-- A walk for `x` stands at the node `a`: the next link it reads is that of what it has not passed. -/
inductive Stands (w : Windows A) (l : List A) (out : Option A) (x a : A) : Prop
  /-- The node is a window. -/
  | linked {s : List A} (h : Passed l x (a :: s))
  /-- The node is out of the list and has not been freed. -/
  | unlinked {s : List A} (hout : out = some a) (hnext : w.nextOf a = some s.head?) (h : Passed l x s)

/-- The walks see a node that is added. -/
theorem Stands.append (h : Stands w l none x a) (b : A) : Stands w' (l ++ [b]) none x a := by
  cases h with
  | linked h => exact .linked (h.append b)
  | unlinked hout _ _ => cases hout

/-- A statement that changes no link. -/
theorem Stands.keep (h : Stands w l none x a) : Stands w' l none x a := by
  cases h with
  | linked h => exact .linked h
  | unlinked hout _ _ => cases hout

/-- The link a walk reads is that of what it has not passed. -/
theorem Stands.rest {a : A} (h : Stands w l out x a) (hforward : w.Forward l) (hne : a ≠ x) :
    ∃ s, w.nextOf a = some s.head? ∧ Passed l x s := by
  cases h with
  | @linked s h =>
    obtain ⟨p, hl, hx⟩ := h
    have hpassed : Passed l x (a :: s) := ⟨p, hl, hx⟩
    exact ⟨s, hforward.next p a s hl, hpassed.tail hne⟩
  | unlinked _ hnext h => exact ⟨_, hnext, h⟩

/-! ## The thread that has `sem_system` -/

variable [DecidableEq A] {pc pc' : SystemPc A}

/-- **The statements that are left leave the windows `l` in memory**, and until then `next` visits them. -/
inductive Finishes (l : List A) : Windows A → SystemPc A → ListResult A → Prop
  /-- None is left. -/
  | unlock {w : Windows A} {r : ListResult A} (h : w.Holds l) : Finishes l w (.unlock r) r
  /-- One statement, which leaves the `next` of a window that is out, or frees it. -/
  | next {w w' : Windows A} {pc pc' : SystemPc A} {r : ListResult A} (hforward : w.Forward l)
      (hstmt : systemStmt w pc = some (.next pc' w'))
      (hout : ∀ a, pc.unlinked = some a →
        pc'.unlinked = some a ∧ w'.nextOf a = w.nextOf a ∨ pc = .destroyFree a)
      (hrest : Finishes l w' pc' r) : Finishes l w pc r

theorem Finishes.forward {r : ListResult A} (h : Finishes l w pc r) : w.Forward l := by
  cases h with
  | unlock h => exact h.forward
  | next hforward _ _ _ => exact hforward

/-- The last store in a new node. -/
theorem Finishes.addNull {node : A} (hforward : w.Forward l)
    (hlast : w.modify node (fun sm => { sm with next := none }) = some w') (h : w'.Holds l) :
    Finishes l w (.addNull node) (.handle (some node)) :=
  .next hforward (by rw [systemStmt, hlast, Option.map_some]) (fun _ hout => by cases hout) (.unlock h)

/-- The stores in a new node that is linked. -/
theorem Finishes.addPrev {node : A} (prev : Option A) (hforward : w.Forward l)
    (hstmt : systemStmt w pc = (w.modify node fun sm => { sm with prev := prev }).map fun w =>
      .next (.addNull node) w)
    (hout : pc.unlinked = none)
    (hnew : w.modify node (fun sm => { sm with prev := prev, next := none }) = some w') (h : w'.Holds l) :
    Finishes l w pc (.handle (some node)) := by
  have hboth : (w.modify node fun sm => { sm with prev := prev }).bind (fun w =>
      w.modify node fun sm => { sm with next := none }) = some w' := by
    rw [Windows.modify_modify]
    exact hnew
  obtain ⟨w₁, hprev, hlast⟩ := Option.bind_eq_some_iff.mp hboth
  rw [hprev, Option.map_some] at hstmt
  obtain ⟨hfirst, hnext⟩ :=
    Windows.nextOf_modify (f := fun sm => { sm with prev := prev }) (fun _ => rfl) hprev
  refine .next hforward hstmt ?_ (.addNull (hforward.congr hfirst fun z _ => hnext z) hlast h)
  intro a ha
  rw [hout] at ha
  cases ha

/-- What is left when the window is out. -/
theorem Finishes.destroyNext {sm : CommonSm A} (hforward : w.Forward l) (hsm : w.heap a = some sm)
    (hback : unlinkBackward w sm = some w') (h : (w'.free a).Holds l) :
    Finishes l w (.destroyNext a) .invalid := by
  obtain ⟨hfirst, hnext⟩ := Windows.nextOf_unlinkBackward hback
  have hforward' : w'.Forward l := hforward.congr hfirst fun z _ => hnext z
  have hsome : ∃ k, w'.heap a = some k := by
    have heq := hnext a
    rw [Windows.nextOf, Windows.nextOf, hsm, Option.map_some] at heq
    obtain ⟨k, hk, -⟩ := Option.map_eq_some_iff.mp heq
    exact ⟨k, hk⟩
  obtain ⟨k, hk⟩ := hsome
  have hfree : Finishes l w' (.destroyFree a) .invalid := by
    refine .next hforward' (by rw [systemStmt, hk, Option.map_some]) ?_ (.unlock h)
    intro b hb
    cases hb
    exact .inr rfl
  rw [unlinkBackward] at hback
  split at hback
  · rename_i next hsmnext
    have hstmt : systemStmt w (.destroyNext a) = some (.next (.destroyBackward a) w) := by
      simp [systemStmt, hsm, hsmnext]
    refine .next hforward hstmt (fun b hb => .inl ⟨hb, rfl⟩) (.next hforward ?_ (fun b hb => ?_) hfree)
    · rw [systemStmt, hsm, Option.bind_some, hsmnext, Option.bind_some, hback, Option.map_some]
    · exact .inl ⟨hb, hnext b⟩
  · rename_i hsmnext
    cases hback
    have hstmt : systemStmt w (.destroyNext a) = some (.next (.destroyFree a) w) := by
      simp [systemStmt, hsm, hsmnext]
    exact .next hforward hstmt (fun b hb => .inl ⟨hb, rfl⟩) hfree

/-- Where `sm_add_smallwin_list` is before the link. -/
def Adds (w : Windows A) (l : List A) (node : A) : SystemPc A → Prop
  | .addFirst n => n = node
  | .addWhile n temp => n = node ∧ temp ∈ l
  | .addNext n temp => n = node ∧ temp ∈ l ∧ ∃ next, w.nextOf temp = some (some next)
  | .addLink n temp => n = node ∧ l.getLast? = some temp
  | .addHead n => n = node ∧ l = []
  | _ => False

/-- Where `sm_destroy_smallwin` is before the link. -/
def Removes (w : Windows A) (a : A) : SystemPc A → Prop
  | .destroyTest hsm => hsm = a
  | .destroyForward hsm => hsm = a ∧ ∃ sm, w.heap a = some sm ∧ sm.prev.isSome
  | .destroyFirst hsm => hsm = a ∧ ∃ sm, w.heap a = some sm ∧ sm.prev = none
  | _ => False

/-- **What the memory is** while a thread has `sem_system`, and what it is doing. -/
inductive At (w : Windows A) (l : List A) : Option A → SystemPc A → Status (ListCall A) (ListResult A) → Prop
  /-- A window is to be created. -/
  | malloc {malloc : Option A} {smType smId : UInt16} {smText : Option (ℕ → UInt8)} {smProc : SmProc}
      (h : w.Holds l) : At w l none (.malloc malloc smType smId smText smProc)
        (.invoked (.create malloc smType smId smText smProc))
  /-- It is not linked. -/
  | adding {pc : SystemPc A} {node : A} {smType smId : UInt16} {smText : Option (ℕ → UInt8)} {smProc : SmProc}
      (h : w.Adding l node) (hpc : Adds w l node pc) :
      At w l none pc (.invoked (.create (some node) smType smId smText smProc))
  /-- A window is to be destroyed. -/
  | removing {pc : SystemPc A} {a : A} (h : w.Holds l) (hpc : Removes w a pc) :
      At w l none pc (.invoked (.destroy (some a)))
  /-- The list is changed. -/
  | finishing {out : Option A} {pc : SystemPc A} {r : ListResult A} (hout : pc.unlinked = out)
      (h : Finishes l w pc r) : At w l out pc (.performed r)

theorem At.forward {st : Status (ListCall A) (ListResult A)} (h : At w l out pc st) : w.Forward l := by
  cases h with
  | malloc h => exact h.forward
  | adding h _ => exact h.forward
  | removing h _ => exact h.forward
  | finishing _ h => exact h.forward

/-- A step performs the call of its thread, or changes nothing. -/
inductive Performs (l : List A) (st : Status (ListCall A) (ListResult A)) :
    List A → Status (ListCall A) (ListResult A) → Prop
  /-- It changes nothing. -/
  | silent : Performs l st l st
  /-- It performs the call. -/
  | call {c : ListCall A} (hst : st = .invoked c) : Performs l st (c.spec l).2 (.performed (c.spec l).1)

/-- The walks do not see a window that is taken out, but for one that stands at it. -/
theorem Stands.filter {b : A} (h : Stands w l none x a) (hforward : w.Forward l) (hnodup : l.Nodup)
    (hnext : w'.nextOf b = w.nextOf b) : Stands w' (l.filter fun z => z ≠ b) (some b) x a := by
  cases h with
  | unlinked hout _ _ => cases hout
  | @linked s h =>
    have hrest := h.filter fun z => z ≠ b
    by_cases hab : a = b
    · subst hab
      obtain ⟨p, rfl, hx⟩ := h
      have hnotMem : a ∉ s := (List.nodup_cons.mp (List.nodup_append.mp hnodup).2.1).1
      have hs : s.filter (fun z => z ≠ a) = s := by
        apply List.filter_eq_self.mpr
        intro z hz
        simpa using fun heq : z = a => hnotMem (heq ▸ hz)
      rw [List.filter_cons_of_neg (by simp), hs] at hrest
      exact .unlinked rfl (hnext.trans (hforward.next p a s rfl)) hrest
    · rw [List.filter_cons_of_pos (by simpa using hab)] at hrest
      exact .linked hrest

/-- **The link past a window**: it is out, and the walks see the others. -/
theorem At.unlink {sm : CommonSm A} (h : w.Holds l) (hsm : w.heap a = some sm)
    (hunlink : unlinkForward w sm = some w') :
    At w' (l.filter fun z => z ≠ a) (some a) (.destroyNext a) (.performed .invalid) ∧
      ∀ x b, Stands w l none x b → Stands w' (l.filter fun z => z ≠ a) (some a) x b := by
  have ha : a ∈ l := h.live a (by rw [hsm, Option.isSome_some])
  obtain ⟨sm', w₁, w₂, hsm', hunlink', hsm₁, hback, hholds, hforward⟩ := h.unlink ha
  obtain rfl := Option.some.inj (hsm.symm.trans hsm')
  obtain rfl := Option.some.inj (hunlink.symm.trans hunlink')
  constructor
  · exact .finishing rfl (.destroyNext hforward hsm₁ hback hholds)
  · intro x b hs
    apply hs.filter h.forward h.list.nodup
    rw [Windows.nextOf, Windows.nextOf, hsm₁, hsm]

/-- **One statement of the thread that has `sem_system`.** -/
theorem At.step {st : Status (ListCall A) (ListResult A)} {stands : A → Prop} (h : At w l out pc st)
    (hregular : pc.Regular w stands) (hstmt : systemStmt w pc = some (.next pc' w')) :
    ∃ l' out' st', Performs l st l' st' ∧ At w' l' out' pc' st' ∧
      ∀ x a, stands a → Stands w l out x a → Stands w' l' out' x a := by
  cases h with
  | @malloc malloc smType smId smText smProc h =>
    cases malloc with
    | none =>
      cases hstmt
      exact ⟨l, none, _, .call rfl, .finishing rfl (.unlock h), fun _ _ _ hs => hs⟩
    | some node =>
      cases hstmt
      exact ⟨l, none, _, .silent, .adding ⟨w, _, h, hregular, rfl, rfl⟩ rfl, fun _ _ _ hs => hs.keep⟩
  | @adding pc node _ _ _ _ h hpc =>
    cases pc with
    | addFirst n =>
      obtain rfl : n = node := hpc
      rw [systemStmt, h.forward.first] at hstmt
      cases l with
      | nil =>
        cases hstmt
        exact ⟨[], none, _, .silent, .adding h ⟨rfl, rfl⟩, fun _ _ _ hs => hs⟩
      | cons temp l =>
        cases hstmt
        exact ⟨_, none, _, .silent, .adding h ⟨rfl, List.mem_cons_self⟩, fun _ _ _ hs => hs⟩
    | addWhile n temp =>
      obtain ⟨rfl, htemp⟩ := hpc
      obtain ⟨sm, hsm, heq⟩ := Option.map_eq_some_iff.mp hstmt
      have hnext : w.nextOf temp = some sm.next := by rw [Windows.nextOf, hsm, Option.map_some]
      cases hsmnext : sm.next with
      | none =>
        rw [hsmnext] at heq hnext
        cases heq
        exact ⟨l, none, _, .silent, .adding h ⟨rfl, h.forward.last htemp hnext⟩, fun _ _ _ hs => hs⟩
      | some next =>
        rw [hsmnext] at heq hnext
        cases heq
        exact ⟨l, none, _, .silent, .adding h ⟨rfl, htemp, next, hnext⟩, fun _ _ _ hs => hs⟩
    | addNext n temp =>
      obtain ⟨rfl, htemp, -⟩ := hpc
      obtain ⟨sm, hsm, hrest⟩ := Option.bind_eq_some_iff.mp hstmt
      obtain ⟨next, hsmnext, heq⟩ := Option.map_eq_some_iff.mp hrest
      cases heq
      have hnext : w.nextOf temp = some (some next) := by
        rw [Windows.nextOf, hsm, Option.map_some, hsmnext]
      exact ⟨l, none, _, .silent, .adding h ⟨rfl, h.forward.mem_next htemp hnext⟩, fun _ _ _ hs => hs⟩
    | addLink n temp =>
      obtain ⟨rfl, hlast⟩ := hpc
      obtain ⟨w₁, w₂, hlink, hnew, hholds, hforward⟩ := h.addLink hlast
      rw [systemStmt, hlink] at hstmt
      cases hstmt
      have hat : At w' (l ++ [n]) none (.addPrev n temp) (.performed (.handle (some n))) :=
        .finishing rfl (.addPrev (some temp) hforward rfl rfl hnew hholds)
      exact ⟨_, none, _, .call rfl, hat, fun _ _ _ hs => hs.append n⟩
    | addHead n =>
      obtain ⟨rfl, rfl⟩ := hpc
      obtain ⟨w₂, hnew, hholds, hforward⟩ := h.addHead
      have hat : At _ [n] none (.addHeadPrev n) (.performed (.handle (some n))) :=
        .finishing rfl (.addPrev none hforward rfl rfl hnew hholds)
      cases hstmt
      exact ⟨_, none, _, .call rfl, hat, fun _ _ _ hs => hs.append n⟩
    | _ => cases hpc
  | @removing pc b h hpc =>
    cases pc with
    | destroyTest hsm =>
      obtain rfl : hsm = b := hpc
      obtain ⟨sm, hsm, heq⟩ := Option.map_eq_some_iff.mp hstmt
      cases hprev : sm.prev with
      | none =>
        rw [hprev] at heq
        cases heq
        exact ⟨l, none, _, .silent, .removing h ⟨rfl, sm, hsm, hprev⟩, fun _ _ _ hs => hs⟩
      | some prev =>
        rw [hprev] at heq
        cases heq
        refine ⟨l, none, _, .silent, .removing h ⟨rfl, sm, hsm, ?_⟩, fun _ _ _ hs => hs⟩
        rw [hprev, Option.isSome_some]
    | destroyForward hsm =>
      obtain ⟨rfl, -⟩ := hpc
      obtain ⟨sm, hsm, hrest⟩ := Option.bind_eq_some_iff.mp hstmt
      obtain ⟨prev, hprev, hrest⟩ := Option.bind_eq_some_iff.mp hrest
      obtain ⟨w₁, hmodify, heq⟩ := Option.map_eq_some_iff.mp hrest
      have hunlink : unlinkForward w sm = some w₁ := by
        rw [unlinkForward, hprev]
        exact hmodify
      cases heq
      obtain ⟨hat, hstands⟩ := At.unlink h hsm hunlink
      exact ⟨_, _, _, .call rfl, hat, fun x a _ => hstands x a⟩
    | destroyFirst hsm =>
      obtain ⟨rfl, sm', hsm', hprev⟩ := hpc
      obtain ⟨sm, hsm, heq⟩ := Option.map_eq_some_iff.mp hstmt
      obtain rfl := Option.some.inj (hsm.symm.trans hsm')
      cases heq
      have hunlink : unlinkForward w sm = some { w with smallwinList := sm.next } := by
        rw [unlinkForward, hprev]
      obtain ⟨hat, hstands⟩ := At.unlink h hsm hunlink
      exact ⟨_, _, _, .call rfl, hat, fun x a _ => hstands x a⟩
    | _ => cases hpc
  | finishing hunlinked h =>
    subst hunlinked
    cases h with
    | unlock h => cases hstmt
    | next hforward hstmt' hout hrest =>
      cases hstmt.symm.trans hstmt'
      refine ⟨l, _, _, .silent, .finishing rfl hrest, ?_⟩
      intro x a hstands hs
      cases hs with
      | linked h => exact .linked h
      | unlinked hout' hnext h =>
        rcases hout a hout' with ⟨hkeep, hsame⟩ | rfl
        · exact .unlinked hkeep (hsame.trans hnext) h
        · exact absurd hstands hregular

/-- **It reads and writes no node that is not allocated.** -/
theorem At.isSome {st : Status (ListCall A) (ListResult A)} {stands : A → Prop} (h : At w l out pc st)
    (hregular : pc.Regular w stands) : (systemStmt w pc).isSome := by
  cases h with
  | @malloc malloc _ _ _ _ _ => cases malloc <;> rfl
  | @adding pc node _ _ _ _ h hpc =>
    cases pc with
    | addFirst n =>
      rw [systemStmt]
      split <;> rfl
    | addWhile n temp =>
      rw [systemStmt, Option.isSome_map]
      exact h.forward.isSome hpc.2
    | addNext n temp =>
      obtain ⟨-, -, next, hnext⟩ := hpc
      obtain ⟨sm, hsm, hsmnext⟩ := Option.map_eq_some_iff.mp hnext
      rw [systemStmt, hsm, Option.bind_some, hsmnext]
      rfl
    | addLink n temp =>
      obtain ⟨rfl, hlast⟩ := hpc
      obtain ⟨w₁, -, hlink, -⟩ := h.addLink hlast
      rw [systemStmt, hlink]
      rfl
    | addHead n => rfl
    | _ => cases hpc
  | @removing pc b h hpc =>
    cases pc with
    | destroyTest hsm =>
      rw [systemStmt, Option.isSome_map]
      exact hregular
    | destroyForward hsm =>
      obtain ⟨rfl, sm, hsm, hprev⟩ := hpc
      obtain ⟨prev, hprev⟩ := Option.isSome_iff_exists.mp hprev
      obtain ⟨sm', w₁, -, hsm', hunlink, -⟩ := h.unlink (h.live _ (by rw [hsm, Option.isSome_some]))
      obtain rfl := Option.some.inj (hsm.symm.trans hsm')
      rw [unlinkForward, hprev] at hunlink
      have hmodify : (w.modify prev fun k => { k with next := sm.next }) = some w₁ := hunlink
      rw [systemStmt, hsm, Option.bind_some, hprev, Option.bind_some, hmodify]
      rfl
    | destroyFirst hsm =>
      obtain ⟨rfl, sm, hsm, -⟩ := hpc
      rw [systemStmt, hsm]
      rfl
    | _ => cases hpc
  | finishing _ h =>
    cases h with
    | unlock h => rfl
    | next _ hstmt _ _ =>
      rw [hstmt]
      rfl

/-- `unlock_system` is the last statement. -/
theorem systemStmt_done {r : ListResult A} (h : systemStmt w pc = some (.done r)) : pc = .unlock r := by
  cases pc with
  | unlock r' =>
    cases h
    rfl
  | malloc malloc _ _ _ _ => cases malloc <;> cases h
  | addFirst n =>
    rw [systemStmt] at h
    split at h <;> cases h
  | addWhile | destroyTest | destroyNext =>
    obtain ⟨sm, -, heq⟩ := Option.map_eq_some_iff.mp h
    split at heq <;> cases heq
  | addNext | destroyForward | destroyBackward => simp [systemStmt, Option.bind_eq_some_iff] at h
  | addLink | addPrev | addNull | addHeadPrev | destroyFirst | destroyFree =>
    obtain ⟨_, -, heq⟩ := Option.map_eq_some_iff.mp h
    cases heq
  | addHead => cases h

/-- At its end the windows are in memory. -/
theorem At.done {st : Status (ListCall A) (ListResult A)} {r : ListResult A} (h : At w l out pc st)
    (hstmt : systemStmt w pc = some (.done r)) : w.Holds l ∧ out = none ∧ st = .performed r := by
  obtain rfl := systemStmt_done hstmt
  cases h with
  | adding _ hpc => cases hpc
  | removing _ hpc => cases hpc
  | finishing hout h =>
    cases h with
    | unlock h => exact ⟨h, hout.symm, rfl⟩
    | next _ hstmt' _ _ => cases hstmt.symm.trans hstmt'

end ListThreads

end SmIpc.Sm
