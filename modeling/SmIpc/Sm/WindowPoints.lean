import SmIpc.Sm.WindowLinks

/-! # The window list is linearizable

`sm_create_smallwin` and `sm_destroy_smallwin` take effect at their first write to a link, `sm_is_smallwin`
at its last read of one: the one that brings it to the window it looks for, or to the end of the list. So a
walk that takes no semaphore answers as if it had been done at one moment, however many windows were created
in front of it and destroyed behind it, as long as no node it stands at is freed. The machines of the other
files take `sm_is_smallwin` as one step.

* `ListThreads.Inv` — the invariant; `Inv.step` keeps it over one step.
* **`windowList_linearizable`** — the histories, the memory, and that no statement touches a freed node.
* **`windowList_solo`** — what is asked of the frees holds when one thread does all that walks and frees. -/

namespace SmIpc.Sm

open DoublyLinked (Passed)
open Linearizable (CallEvent Explained Linearization Status)
open Sections (history)

universe u

variable {A : Type u} [DecidableEq A]

namespace ListThreads

section Places

variable {w w' : Windows A} {l l' : List A} {holder holder' : Option ℕ} {out out' : Option A} {tid : ℕ}
  {x : A}

/-- The node a walk for `x` has come to, and what its thread is doing. -/
inductive Sees (w : Windows A) (l : List A) (out : Option A) (x : A) :
    Option A → Status (ListCall A) (ListResult A) → Prop
  /-- The end of the list. -/
  | stop : Sees w l out x none (.performed (.found false))
  /-- The window it looks for. -/
  | found : Sees w l out x (some x) (.performed (.found true))
  /-- Another window. -/
  | other {a : A} (hne : a ≠ x) (h : Stands w l out x a) :
      Sees w l out x (some a) (.invoked (.isSmallwin (some x)))

/-- **What a walk finds is read off the link it follows**: at its end, or at the window it looks for, the call
is performed. -/
theorem Sees.load {s : List A} (h : Passed l x s) :
    ∃ st, Performs l (.invoked (.isSmallwin (some x))) l st ∧ Sees w l out x s.head? st := by
  cases s with
  | nil =>
    refine ⟨.performed (.found false), ?_, .stop⟩
    have hperforms := Performs.call (l := l) (c := .isSmallwin (some x)) rfl
    rwa [ListCall.spec, decide_eq_false h.notMem] at hperforms
  | cons a s =>
    by_cases hax : a = x
    · subst hax
      refine ⟨.performed (.found true), ?_, .found⟩
      have hperforms := Performs.call (l := l) (c := .isSmallwin (some a)) rfl
      rwa [ListCall.spec, decide_eq_true h.mem] at hperforms
    · exact ⟨_, .silent, .other hax (.linked h)⟩

/-- **What a thread at this place is doing.** -/
inductive Agrees (w : Windows A) (l : List A) (holder : Option ℕ) (out : Option A) (tid : ℕ) :
    ListPlace A → Status (ListCall A) (ListResult A) → Prop
  /-- It is in no call. -/
  | idle : Agrees w l holder out tid .idle .idle
  /-- It is at the start of a function. -/
  | called {c : ListCall A} : Agrees w l holder out tid (.called c) (.invoked c)
  /-- It has `sem_system`. -/
  | system {pc : SystemPc A} {st : Status (ListCall A) (ListResult A)} (hholder : holder = some tid)
      (h : At w l out pc st) : Agrees w l holder out tid (.system pc) st
  /-- It is before a walk. -/
  | start {x : A} : Agrees w l holder out tid (.walking x .start) (.invoked (.isSmallwin (some x)))
  /-- It has read a link. -/
  | test {x : A} {temp : Option A} {st : Status (ListCall A) (ListResult A)} (h : Sees w l out x temp st) :
      Agrees w l holder out tid (.walking x (.test temp)) st
  /-- It is about to read one. -/
  | next {x a : A} (hne : a ≠ x) (h : Stands w l out x a) :
      Agrees w l holder out tid (.walking x (.next a)) (.invoked (.isSmallwin (some x)))
  /-- It is about to return. -/
  | leaving {r : ListResult A} : Agrees w l holder out tid (.leaving r) (.performed r)

/-- **A step of the thread that has `sem_system`, or takes it**, is one the others do not see. -/
theorem Agrees.mono {p : ListPlace A} {st : Status (ListCall A) (ListResult A)}
    (h : Agrees w l holder out tid p st) (hne : holder ≠ some tid)
    (hstands : ∀ x a, p.standsAt = some a → Stands w l out x a → Stands w' l' out' x a) :
    Agrees w' l' holder' out' tid p st := by
  cases h with
  | idle => exact .idle
  | called => exact .called
  | system hholder _ => exact absurd hholder hne
  | start => exact .start
  | test h =>
    cases h with
    | stop => exact .test .stop
    | found => exact .test .found
    | other hne h => exact .test (.other hne (hstands _ _ rfl h))
  | next hne h => exact .next hne (hstands _ _ rfl h)
  | leaving => exact .leaving

end Places

/-! ## The invariant -/

/-- **The invariant**: the windows `l`, the one that is out and not freed, and what each thread is doing. -/
structure Inv (h : List (CallEvent (ListCall A) (ListResult A))) (s : ListThreads A) (l : List A)
    (out : Option A) (status : ℕ → Status (ListCall A) (ListResult A)) : Prop where
  /-- The history is one of calls performed at one point each. -/
  explained : Explained ListCall.spec [] h l status
  /-- The threads are where this says. -/
  agrees : ∀ tid, Agrees s.windows l s.holder out tid (s.threads tid) (status tid)
  /-- A thread that has `sem_system` is between its two calls. -/
  held : ∀ tid, s.holder = some tid → ∃ pc, s.threads tid = .system pc
  /-- When no thread has it the windows are in memory. -/
  free : s.holder = none → s.windows.Holds l ∧ out = none

variable {h h' : List (CallEvent (ListCall A) (ListResult A))} {s t : ListThreads A} {l l' : List A}
  {out out' : Option A} {status : ℕ → Status (ListCall A) (ListResult A)} {tid : ℕ} {p p' : ListPlace A}
  {st st' : Status (ListCall A) (ListResult A)}

/-- The start. -/
theorem Inv.init : Inv [] (init A) [] none fun _ => .idle := by
  refine ⟨.nil, fun _ => .idle, ?_, fun _ => ⟨.empty, rfl⟩⟩
  intro tid hholder
  cases hholder

/-- What the thread at a place is doing. -/
theorem Inv.at_place (hi : Inv h s l out status) (hplace : s.threads tid = p) :
    ∃ st, status tid = st ∧ Agrees s.windows l s.holder out tid p st :=
  ⟨_, rfl, hplace ▸ hi.agrees tid⟩

/-- A walk sees a list at every moment. -/
theorem Inv.forward (hi : Inv h s l out status) : s.windows.Forward l := by
  cases hholder : s.holder with
  | none => exact (hi.free hholder).1.forward
  | some tid =>
    obtain ⟨pc, hplace⟩ := hi.held tid hholder
    obtain ⟨st, -, hown⟩ := hi.at_place hplace
    cases hown with
    | system _ hat => exact hat.forward

/-- The history when a step performs a call, or changes nothing. -/
theorem Inv.performs (hi : Inv h s l out status) (hst : status tid = st) (hperforms : Performs l st l' st') :
    Explained ListCall.spec [] h l' (Function.update status tid st') := by
  cases hperforms with
  | silent =>
    rw [← hst, Function.update_eq_self]
    exact hi.explained
  | call heq => exact hi.explained.perform tid (hst.trans heq)

/-- One thread moves, and the others are where they were. -/
theorem agrees_place {w : Windows A} {holder : Option ℕ} (hown : Agrees w l' holder out' tid p' st')
    (hothers : ∀ j, j ≠ tid → Agrees w l' holder out' j (s.threads j) (status j)) (j : ℕ) :
    Agrees w l' holder out' j ((s.place tid p').threads j) (Function.update status tid st' j) := by
  show Agrees w l' holder out' j (Function.update s.threads tid p' j) _
  by_cases hj : j = tid
  · subst hj
    rwa [Function.update_self, Function.update_self]
  · rw [Function.update_of_ne hj, Function.update_of_ne hj]
    exact hothers j hj

/-- **A step of a thread that has not `sem_system`** leaves the memory. -/
theorem Inv.place (hi : Inv h s l out status) (hplace : s.threads tid = p) (hp : ∀ pc, p ≠ .system pc)
    (hexplained : Explained ListCall.spec [] h' l (Function.update status tid st'))
    (hown : Agrees s.windows l s.holder out tid p' st') :
    Inv h' (s.place tid p') l out (Function.update status tid st') := by
  refine ⟨hexplained, agrees_place hown fun j _ => hi.agrees j, ?_, hi.free⟩
  intro j hj
  obtain ⟨pc, hpc⟩ := hi.held j hj
  have hne : j ≠ tid := by
    rintro rfl
    exact hp pc (hplace.symm.trans hpc)
  exact ⟨pc, (Function.update_of_ne hne _ _).trans hpc⟩

/-- **A thread takes `sem_system`.** -/
theorem Inv.lock (hi : Inv h s l out status) (hst : status tid = st) (hfree : s.holder = none)
    {pc : SystemPc A} (hat : s.windows.Holds l → At s.windows l none pc st) :
    Inv h { s.place tid (.system pc) with holder := some tid } l out status := by
  obtain ⟨hholds, rfl⟩ := hi.free hfree
  have hstatus : Function.update status tid st = status := by rw [← hst, Function.update_eq_self]
  rw [← hstatus]
  refine ⟨hstatus.symm ▸ hi.explained, ?_, ?_, ?_⟩
  · apply agrees_place (.system rfl (hat hholds))
    intro j _
    refine (hi.agrees j).mono ?_ fun _ _ _ hs => hs
    rw [hfree]
    exact Option.some_ne_none j |>.symm
  · intro j hj
    obtain rfl := Option.some.inj hj
    exact ⟨pc, Function.update_self _ _ _⟩
  · intro hnone
    cases hnone

/-- **The start of a function.** -/
theorem Inv.enter (hi : Inv h s l out status) {c : ListCall A} (hplace : s.threads tid = .called c)
    (henter : s.enter tid c = some t) : ∃ l' out' status', Inv h t l' out' status' := by
  obtain ⟨st, hst, hown⟩ := hi.at_place hplace
  obtain rfl : st = .invoked c := by
    cases hown
    rfl
  have hdone : ∀ {r}, ListCall.spec l c = (r, l) →
      Inv h (s.place tid (.leaving r)) l out (Function.update status tid (.performed r)) := by
    intro r hspec
    have hexplained := hi.explained.perform tid hst
    rw [hspec] at hexplained
    exact hi.place hplace (by simp) hexplained .leaving
  cases c with
  | isSmallwin x =>
    cases x with
    | none =>
      cases henter
      exact ⟨l, out, _, hdone rfl⟩
    | some x =>
      cases henter
      exact ⟨l, out, _, hi.place hplace (by simp) (hi.performs hst .silent) .start⟩
  | destroy hsm =>
    cases hsm with
    | none =>
      cases henter
      exact ⟨l, out, _, hdone rfl⟩
    | some a =>
      simp only [ListThreads.enter] at henter
      split at henter
      · rename_i hfree
        cases henter
        exact ⟨l, out, _, hi.lock hst hfree fun hholds => .removing hholds rfl⟩
      · cases henter
  | create malloc smType smId smText smProc =>
    simp only [ListThreads.enter] at henter
    split at henter
    · rename_i hfree
      cases henter
      exact ⟨l, out, _, hi.lock hst hfree fun hholds => .malloc hholds⟩
    · cases henter

/-- **A read of a walk.** -/
theorem Inv.load (hi : Inv h s l out status) {x : A} {pc : WalkPc A} (hplace : s.threads tid = .walking x pc)
    {rest : List A} (hpassed : Passed l x rest) (hst : status tid = .invoked (.isSmallwin (some x))) :
    ∃ l' out' status', Inv h (s.place tid (.walking x (.test rest.head?))) l' out' status' := by
  obtain ⟨st, hperforms, hsees⟩ := Sees.load hpassed
  exact ⟨l, out, _, hi.place hplace (by simp) (hi.performs hst hperforms) (.test hsees)⟩

/-- **One step that meets the condition keeps the invariant.** -/
theorem Inv.step (hi : Inv h s l out status) {i : ListMove A}
    {o : Option (CallEvent (ListCall A) (ListResult A))} (hregular : s.Regular i) (hs : Steps s i o t) :
    ∃ l' out' status', Inv (h ++ o.toList) t l' out' status' := by
  cases hs with
  | @call tid c hplace =>
    obtain ⟨st, hst, hown⟩ := hi.at_place hplace
    cases hown
    exact ⟨l, out, _, hi.place hplace (by simp) (hi.explained.invoke tid c hst) .called⟩
  | enter hplace henter =>
    rw [Option.toList_none, List.append_nil]
    exact hi.enter hplace henter
  | @done tid pc r hplace hstmt =>
    rw [Option.toList_none, List.append_nil]
    obtain ⟨st, hst, hown⟩ := hi.at_place hplace
    cases hown with
    | system hholder hat =>
      obtain ⟨hholds, rfl, rfl⟩ := hat.done hstmt
      refine ⟨l, none, _, hi.performs hst .silent, ?_, ?_, fun _ => ⟨hholds, rfl⟩⟩
      · refine agrees_place .leaving fun j hj => (hi.agrees j).mono ?_ fun _ _ _ hs => hs
        exact fun hother => hj (Option.some.inj (hother.symm.trans hholder))
      · intro j hj
        cases hj
  | @next tid pc pc' w hplace hstmt =>
    rw [Option.toList_none, List.append_nil]
    have hpc : pc.Regular s.windows fun a => ∃ j, (s.threads j).standsAt = some a := by
      rwa [Regular, hplace] at hregular
    obtain ⟨st, hst, hown⟩ := hi.at_place hplace
    cases hown with
    | system hholder hat =>
      obtain ⟨l', out', st', hperforms, hat', hstands⟩ := hat.step hpc hstmt
      refine ⟨l', out', _, hi.performs hst hperforms, ?_, ?_, ?_⟩
      · refine agrees_place (.system hholder hat') fun j hj => (hi.agrees j).mono ?_ ?_
        · exact fun hother => hj (Option.some.inj (hother.symm.trans hholder))
        · exact fun x a hat hs => hstands x a ⟨j, hat⟩ hs
      · intro j hj
        obtain rfl : tid = j := Option.some.inj (hholder.symm.trans hj)
        exact ⟨pc', Function.update_self _ _ _⟩
      · intro hfree
        cases hholder.symm.trans hfree
  | @found tid x pc value hplace hstmt =>
    rw [Option.toList_none, List.append_nil]
    obtain ⟨st, hst, hown⟩ := hi.at_place hplace
    obtain rfl : st = .performed (.found value) := by
      cases hown with
      | start => cases hstmt
      | test hsees =>
        cases hsees with
        | stop =>
          cases hstmt
          rfl
        | found =>
          rw [walkStmt, if_pos rfl] at hstmt
          cases hstmt
          rfl
        | other hne _ =>
          rw [walkStmt, if_neg hne] at hstmt
          cases hstmt
      | next _ _ =>
        obtain ⟨sm, -, heq⟩ := Option.map_eq_some_iff.mp hstmt
        cases heq
    exact ⟨l, out, _, hi.place hplace (by simp) (hi.performs hst .silent) .leaving⟩
  | @walk tid x pc pc' hplace hstmt =>
    rw [Option.toList_none, List.append_nil]
    obtain ⟨st, hst, hown⟩ := hi.at_place hplace
    cases hown with
    | start =>
      cases hstmt
      rw [hi.forward.first]
      exact hi.load hplace (.start l x) hst
    | test hsees =>
      cases hsees with
      | stop => cases hstmt
      | found =>
        rw [walkStmt, if_pos rfl] at hstmt
        cases hstmt
      | other hne hstands =>
        rw [walkStmt, if_neg hne] at hstmt
        cases hstmt
        exact ⟨l, out, _, hi.place hplace (by simp) (hi.performs hst .silent) (.next hne hstands)⟩
    | @next x a hne hstands =>
      obtain ⟨sm, hsm, heq⟩ := Option.map_eq_some_iff.mp hstmt
      cases heq
      obtain ⟨rest, hnext, hpassed⟩ := hstands.rest hi.forward hne
      rw [Windows.nextOf, hsm, Option.map_some] at hnext
      rw [Option.some.inj hnext]
      exact hi.load hplace hpassed hst
  | @ret tid r hplace =>
    obtain ⟨st, hst, hown⟩ := hi.at_place hplace
    cases hown
    exact ⟨l, out, _, hi.place hplace (by simp) (hi.explained.respond tid hst) .idle⟩

/-- Every run keeps the invariant. -/
theorem Inv.run {moves : List (ListMove A)} {os : List (Option (CallEvent (ListCall A) (ListResult A)))}
    (hregular : StepMachine.Along ListThreads.step Regular (ListThreads.init A) moves)
    (hrun : StepMachine.run ListThreads.step (ListThreads.init A) moves = some (os, s)) :
    ∃ l out status, Inv (history os) s l out status := by
  refine StepMachine.run_induction_along ListThreads.step Regular
    (fun _ os s => ∃ l out status, Inv (history os) s l out status) ⟨[], none, _, .init⟩ ?_ hregular hrun
  rintro is os s i o t - ⟨l, out, status, hi⟩ hi' hs
  have hhist : history (os ++ [o]) = history os ++ o.toList := by
    rw [history, List.filterMap_append]
    cases o <;> rfl
  rw [hhist]
  exact hi.step hi' (step_cases hs)

/-- The thread is at a statement of one of the functions. -/
def Inside (s : ListThreads A) (tid : ℕ) : Prop :=
  (∃ pc, s.threads tid = .system pc) ∨ ∃ x pc, s.threads tid = .walking x pc

/-- **No statement reads or writes a node that is not allocated.** -/
theorem Inv.isSome (hi : Inv h s l out status) (hinside : s.Inside tid) (hregular : s.Regular (.go tid)) :
    (ListThreads.step s (.go tid)).isSome := by
  rcases hinside with ⟨pc, hplace⟩ | ⟨x, pc, hplace⟩
  · have hpc : pc.Regular s.windows fun a => ∃ j, (s.threads j).standsAt = some a := by
      rwa [Regular, hplace] at hregular
    obtain ⟨st, -, hown⟩ := hi.at_place hplace
    cases hown with
    | system _ hat =>
      have hstmt := hat.isSome hpc
      simp only [ListThreads.step, hplace, Option.isSome_map]
      exact hstmt
  · simp only [ListThreads.step, hplace, Option.isSome_map]
    obtain ⟨st, -, hown⟩ := hi.at_place hplace
    cases hown with
    | start => rfl
    | @test _ temp _ _ => cases temp <;> rfl
    | next hne hstands =>
      obtain ⟨rest, hnext, -⟩ := hstands.rest hi.forward hne
      obtain ⟨sm, hsm, -⟩ := Option.map_eq_some_iff.mp hnext
      rw [walkStmt, hsm]
      rfl

end ListThreads

/-- **The window list is linearizable**, `sm_is_smallwin` with it. In every run of any number of threads, in
which `malloc` gives nodes that are not in use, windows that are destroyed are allocated, and no node is
freed while another thread's walk stands at it: the history is one of calls that take effect at one point
each; `next` visits the windows `l` these leave, at every moment; whenever `sem_system` is free the list in
memory is `l`, in both directions; no thread comes to a statement that touches a freed node; and once no
thread is in a call, there is an order of the calls that explains what they returned. -/
theorem windowList_linearizable (moves : List (ListMove A))
    (hregular : StepMachine.Along ListThreads.step ListThreads.Regular (.init A) moves)
    (os : List (Option (CallEvent (ListCall A) (ListResult A)))) (s : ListThreads A)
    (hrun : StepMachine.run ListThreads.step (.init A) moves = some (os, s)) :
    ∃ l status, Explained ListCall.spec [] (history os) l status ∧ s.windows.Forward l ∧
      (s.holder = none → s.windows.Holds l) ∧
      (∀ tid, s.Inside tid → s.Regular (.go tid) → (ListThreads.step s (.go tid)).isSome) ∧
      ((∀ tid, s.threads tid = .idle) →
        ∃ order, Linearization ListCall.spec [] (history os) l order) := by
  obtain ⟨l, out, status, hi⟩ := ListThreads.Inv.run hregular hrun
  refine ⟨l, status, hi.explained, hi.forward, fun hfree => (hi.free hfree).1,
    fun tid hinside hgo => hi.isSome hinside hgo, ?_⟩
  intro hidle
  apply hi.explained.linearization
  intro tid
  obtain ⟨st, hst, hown⟩ := hi.at_place (hidle tid)
  cases hown
  exact hst

/-- Thread 1 creates window 1, and window 2 while thread 0 walks for it; then thread 0 destroys window 1 while
thread 2, which has passed it, walks for window 3. -/
def ListMove.overlap : List (ListMove ℕ) :=
  .call 1 (.create (some 1) 0 0 none none) :: List.replicate 8 (.go 1) ++
    [.call 1 (.create (some 2) 0 0 none none), .call 0 (.isSmallwin (some 2)), .go 0, .go 0, .go 0] ++
    List.replicate 5 (.go 1) ++ List.replicate 3 (.go 0) ++ List.replicate 4 (.go 1) ++
    [.call 2 (.isSmallwin (some 3)), .go 2, .go 2, .go 2, .go 2, .call 0 (.destroy (some 1))] ++
    List.replicate 8 (.go 0) ++ List.replicate 4 (.go 2)

/-- Thread 0 has found window 2 before the last of its links is stored, and thread 2 stands at window 2 when
window 1 is freed. -/
theorem windowList_linearizable_overlap : ∃ os s,
    StepMachine.run ListThreads.step (.init ℕ) ListMove.overlap = some (os, s) ∧
      history os = [.invoke 1 (.create (some 1) 0 0 none none), .respond 1 (.handle (some 1)),
        .invoke 1 (.create (some 2) 0 0 none none), .invoke 0 (.isSmallwin (some 2)),
        .respond 0 (.found true), .respond 1 (.handle (some 2)), .invoke 2 (.isSmallwin (some 3)), .invoke 0 (.destroy (some 1)),
        .respond 0 .invalid, .respond 2 (.found false)] ∧
      ∃ l status, Explained ListCall.spec [] (history os) l status ∧ s.windows.Holds l := by
  obtain ⟨os, s, hrun, hhist, hfree⟩ : ∃ os s,
      StepMachine.run ListThreads.step (.init ℕ) ListMove.overlap = some (os, s) ∧
        history os = [.invoke 1 (.create (some 1) 0 0 none none), .respond 1 (.handle (some 1)),
          .invoke 1 (.create (some 2) 0 0 none none), .invoke 0 (.isSmallwin (some 2)),
          .respond 0 (.found true), .respond 1 (.handle (some 2)), .invoke 2 (.isSmallwin (some 3)), .invoke 0 (.destroy (some 1)),
          .respond 0 .invalid, .respond 2 (.found false)] ∧ s.holder = none := ⟨_, _, rfl, rfl, rfl⟩
  obtain ⟨l, status, hexplained, -, hholds, -, -⟩ := windowList_linearizable ListMove.overlap (by
    iterate 2 refine StepMachine.along_cons trivial rfl ?_
    refine StepMachine.along_cons rfl rfl ?_
    iterate 12 refine StepMachine.along_cons trivial rfl ?_
    refine StepMachine.along_cons rfl rfl ?_
    iterate 17 refine StepMachine.along_cons trivial rfl ?_
    refine StepMachine.along_cons rfl rfl ?_
    iterate 3 refine StepMachine.along_cons trivial rfl ?_
    refine StepMachine.along_cons ?_ rfl ?_
    · -- no thread stands at window 1
      rintro ⟨j, hj⟩
      rcases j with _ | _ | _ | j <;> cases hj
    iterate 6 refine StepMachine.along_cons trivial rfl ?_
    trivial) os s hrun
  exact ⟨os, s, hrun, hhist, l, status, hexplained, hholds hfree⟩

/-! ## One thread that walks -/

/-- The call is a creation. -/
def ListCall.Creates : ListCall A → Prop
  | .create _ _ _ _ _ => True
  | _ => False

/-- The statement is none of `sm_destroy_smallwin`. -/
def SystemPc.Creates : SystemPc A → Prop
  | .destroyTest _ | .destroyForward _ | .destroyFirst _ | .destroyNext _ | .destroyBackward _
  | .destroyFree _ => False
  | _ => True

/-- The thread neither walks nor destroys a window. -/
def ListPlace.Creates : ListPlace A → Prop
  | .called c => c.Creates
  | .system pc => pc.Creates
  | .walking _ _ => False
  | _ => True

namespace ListThreads

/-- What is asked of a step where no walk is looked at. -/
def Allocates (s : ListThreads A) : ListMove A → Prop
  | .call _ _ => True
  | .go tid =>
      match s.threads tid with
      | .system pc => pc.Regular s.windows fun _ => False
      | _ => True

/-- Every thread but the scheduler creates windows only. -/
def Solo (s : ListThreads A) : Prop := ∀ tid, tid ≠ 0 → (s.threads tid).Creates

variable {s t : ListThreads A} {tid : ℕ} {p : ListPlace A}

omit [DecidableEq A] in
/-- No thread is in a call. -/
theorem Solo.init : (init A).Solo := fun _ _ => trivial

/-- A creation goes on. -/
theorem creates_stmt {w w' : Windows A} {pc pc' : SystemPc A} (h : pc.Creates)
    (hstmt : systemStmt w pc = some (.next pc' w')) : pc'.Creates := by
  cases pc with
  | malloc malloc _ _ _ _ =>
    cases malloc <;>
    · cases hstmt
      trivial
  | addFirst n =>
    rw [systemStmt] at hstmt
    split at hstmt <;>
    · cases hstmt
      trivial
  | addWhile n temp =>
    obtain ⟨sm, -, heq⟩ := Option.map_eq_some_iff.mp hstmt
    split at heq <;>
    · cases heq
      trivial
  | addNext n temp =>
    obtain ⟨sm, -, hrest⟩ := Option.bind_eq_some_iff.mp hstmt
    obtain ⟨next, -, heq⟩ := Option.map_eq_some_iff.mp hrest
    cases heq
    trivial
  | addLink | addPrev | addNull | addHeadPrev =>
    obtain ⟨w₁, -, heq⟩ := Option.map_eq_some_iff.mp hstmt
    cases heq
    trivial
  | addHead =>
    cases hstmt
    trivial
  | unlock => cases hstmt
  | _ => cases h

omit [DecidableEq A] in
/-- One thread moves. -/
theorem Solo.place (h : s.Solo) {w : Windows A} {holder : Option ℕ} (hp : tid ≠ 0 → p.Creates) :
    Solo ⟨w, holder, Function.update s.threads tid p⟩ := by
  intro j hj
  show (Function.update s.threads tid p j).Creates
  by_cases hjt : j = tid
  · subst hjt
    rw [Function.update_self]
    exact hp hj
  · rw [Function.update_of_ne hjt]
    exact h j hj

/-- **One step keeps the walks and the destructions to the scheduler.** -/
theorem Solo.step (h : s.Solo) {i : ListMove A} {o : Option (CallEvent (ListCall A) (ListResult A))}
    (hcalls : ∀ tid c, i = .call tid c → tid ≠ 0 → c.Creates) (hs : Steps s i o t) : t.Solo := by
  cases hs with
  | @call tid c _ => exact h.place (hcalls tid c rfl)
  | @enter tid c t hplace henter =>
    have hc : tid ≠ 0 → c.Creates := by
      intro hne
      have hcreates := h tid hne
      rwa [hplace] at hcreates
    cases c with
    | isSmallwin x =>
      cases x with
      | none =>
        cases henter
        exact h.place fun _ => trivial
      | some x =>
        cases henter
        exact h.place fun hne => hc hne
    | destroy hsm =>
      cases hsm with
      | none =>
        cases henter
        exact h.place fun _ => trivial
      | some a =>
        simp only [enter] at henter
        split at henter
        · cases henter
          exact h.place fun hne => hc hne
        · cases henter
    | create malloc _ _ _ _ =>
      simp only [enter] at henter
      split at henter
      · cases henter
        exact h.place fun _ => trivial
      · cases henter
  | done _ _ => exact h.place fun _ => trivial
  | @next tid pc pc' w hplace hstmt =>
    apply h.place
    intro hne
    have hcreates := h tid hne
    rw [hplace] at hcreates
    exact creates_stmt hcreates hstmt
  | found _ _ => exact h.place fun _ => trivial
  | @walk tid x pc pc' hplace _ =>
    apply h.place
    intro hne
    have hcreates := h tid hne
    rwa [hplace] at hcreates
  | ret _ => exact h.place fun _ => trivial

omit [DecidableEq A] in
/-- **Then no node is freed while a walk stands at it.** -/
theorem Solo.regular (h : s.Solo) {i : ListMove A} (hi : s.Allocates i) : s.Regular i := by
  cases i with
  | call tid c => trivial
  | go tid =>
    rw [Allocates] at hi
    rw [Regular]
    cases hplace : s.threads tid with
    | system pc =>
      rw [hplace] at hi
      cases pc with
      | destroyFree a =>
        rintro ⟨j, hj⟩
        by_cases htid : tid = 0
        · by_cases hj0 : j = 0
          · -- the scheduler does one thing at a time
            rw [hj0, ← htid, hplace] at hj
            cases hj
          · have hcreates := h j hj0
            cases hpj : s.threads j with
            | walking x pc =>
              rw [hpj] at hcreates
              exact hcreates
            | _ =>
              rw [hpj] at hj
              cases hj
        · have hcreates := h tid htid
          rw [hplace] at hcreates
          exact hcreates
      | malloc malloc _ _ _ _ => cases malloc <;> exact hi
      | _ => exact hi
    | _ => trivial

end ListThreads

/-- **When one thread does all that walks and frees**, as the scheduler does where no thread calls
`express_message`, the walk needs no semaphore: in every run in which the other threads create windows only,
`malloc` gives nodes that are not in use and the windows that are destroyed are allocated, no node is freed
while a walk stands at it, and no thread comes to a statement that touches a freed node. -/
theorem windowList_solo (moves : List (ListMove A))
    (hcalls : ∀ tid c, .call tid c ∈ moves → tid ≠ 0 → c.Creates)
    (hallocates : StepMachine.Along ListThreads.step ListThreads.Allocates (.init A) moves)
    (os : List (Option (CallEvent (ListCall A) (ListResult A)))) (s : ListThreads A)
    (hrun : StepMachine.run ListThreads.step (.init A) moves = some (os, s)) :
    StepMachine.Along ListThreads.step ListThreads.Regular (.init A) moves ∧
      ∀ tid, s.Inside tid → s.Allocates (.go tid) → (ListThreads.step s (.go tid)).isSome := by
  have hboth : StepMachine.Along ListThreads.step
      (fun s i => (∀ tid c, i = .call tid c → tid ≠ 0 → c.Creates) ∧ s.Allocates i) (.init A) moves := by
    refine StepMachine.along_and (StepMachine.along_of_forall_mem _ ?_ _) hallocates
    rintro i hi s tid c rfl hne
    exact hcalls tid c hi hne
  have hall : s.Solo ∧ StepMachine.Along ListThreads.step ListThreads.Regular (.init A) moves := by
    refine StepMachine.run_induction_along ListThreads.step _
      (fun is _ s => s.Solo ∧ StepMachine.Along ListThreads.step ListThreads.Regular (.init A) is)
      ⟨.init, trivial⟩ ?_ hboth hrun
    rintro is os s i o t hr ⟨hsolo, halong⟩ ⟨hi, hallocates⟩ hs
    refine ⟨hsolo.step hi (ListThreads.step_cases hs), ?_⟩
    exact (StepMachine.along_snoc _ _ _ _ _ _ _ hr).mpr ⟨halong, hsolo.regular hallocates⟩
  obtain ⟨hsolo, hregular⟩ := hall
  obtain ⟨l, out, status, hinv⟩ := ListThreads.Inv.run hregular hrun
  exact ⟨hregular, fun tid hinside hgo => hinv.isSome hinside (hsolo.regular hgo)⟩

/-- Thread 1 creates window 1 while the scheduler is in a walk of the empty list; then the scheduler destroys
it. -/
def ListMove.scheduler : List (ListMove ℕ) :=
  [.call 0 (.isSmallwin (some 1)), .go 0, .call 1 (.create (some 1) 0 0 none none), .go 1, .go 1, .go 0,
    .go 0, .go 0] ++ List.replicate 6 (.go 1) ++ .call 0 (.destroy (some 1)) :: List.replicate 4 (.go 0)

/-- The scheduler is about to free the window, and may. -/
theorem windowList_solo_free : ∃ os s,
    StepMachine.run ListThreads.step (.init ℕ) ListMove.scheduler = some (os, s) ∧
      s.threads 0 = .system (.destroyFree 1) ∧ (ListThreads.step s (.go 0)).isSome := by
  obtain ⟨os, s, hrun, hplace⟩ : ∃ os s,
      StepMachine.run ListThreads.step (.init ℕ) ListMove.scheduler = some (os, s) ∧
        s.threads 0 = .system (.destroyFree 1) := ⟨_, _, rfl, rfl⟩
  obtain ⟨-, hsafe⟩ := windowList_solo ListMove.scheduler (by
    intro tid c hcall hne
    have hcalls : (tid = 0 ∧ c = .isSmallwin (some 1)) ∨ (tid = 1 ∧ c = .create (some 1) 0 0 none none) ∨
        tid = 0 ∧ c = .destroy (some 1) := by
      simpa [ListMove.scheduler] using hcall
    rcases hcalls with ⟨rfl, -⟩ | ⟨rfl, rfl⟩ | ⟨rfl, -⟩
    · exact absurd rfl hne
    · trivial
    · exact absurd rfl hne) (by
    iterate 4 refine StepMachine.along_cons trivial rfl ?_
    refine StepMachine.along_cons rfl rfl ?_
    iterate 11 refine StepMachine.along_cons trivial rfl ?_
    refine StepMachine.along_cons rfl rfl ?_
    iterate 2 refine StepMachine.along_cons trivial rfl ?_
    trivial) os s hrun
  refine ⟨os, s, hrun, hplace, hsafe 0 (.inl ⟨_, hplace⟩) ?_⟩
  rw [ListThreads.Allocates, hplace]
  exact id

end SmIpc.Sm
