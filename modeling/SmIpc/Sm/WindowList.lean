import Mathlib.Data.List.Nodup
import SmIpc.Lib.DoublyLinked
import SmIpc.Lib.Machine
import SmIpc.Sm.Window

/-! # The window list is a well-formed doubly linked list

`Windows.Holds w l` says that the heap of nodes holds exactly the windows `l`, linked in both
directions from `smallwin_list`. Creating a window appends it (`Windows.Holds.link`), destroying one
takes it out (`Windows.Holds.destroy`), and `sm_is_smallwin` finds exactly the windows of `l`
(`Windows.Holds.isSmallwin`).

Over these, every sequence of creations and destructions of live windows keeps the list well formed,
with the live windows in creation order (`windows_wellFormed`). -/

namespace SmIpc.Sm

open DoublyLinked (IsList Link)

universe u

variable {A : Type u}

namespace Windows

/-- The link cells of the nodes. -/
def links (w : Windows A) (a : A) : Option (Link A) :=
  (w.heap a).map fun sm => ⟨sm.prev, sm.next⟩

/-- The nodes in memory are exactly the windows `l`, linked in that order. -/
structure Holds (w : Windows A) (l : List A) : Prop where
  /-- The doubly linked list reached from `smallwin_list`. -/
  list : IsList w.links w.smallwinList l
  /-- No other node is allocated. -/
  live : ∀ a, (w.heap a).isSome → a ∈ l

variable {w : Windows A} {l p s : List A} {a : A}

/-- No window, an empty list. -/
theorem Holds.empty : (Windows.empty A).Holds [] :=
  ⟨IsList.nil _, fun a h => by simp [Windows.empty] at h⟩

/-- The node of a window, with its neighbours. -/
theorem node_of_isList {first : Option A} (h : IsList w.links first (p ++ a :: s)) :
    ∃ sm, w.heap a = some sm ∧ sm.prev = p.getLast? ∧ sm.next = s.head? := by
  obtain ⟨sm, hsm, hlink⟩ := Option.map_eq_some_iff.mp h.link_mid
  exact ⟨sm, hsm, congrArg Link.prev hlink, congrArg Link.next hlink⟩

/-- The `next` of a link cell is that of the node. -/
theorem bind_next (w : Windows A) (a : A) :
    (w.links a).bind Link.next = (w.heap a).bind CommonSm.next := by
  rw [links]
  cases w.heap a <;> rfl

/-- The `prev` of a link cell is that of the node. -/
theorem bind_prev (w : Windows A) (a : A) :
    (w.links a).bind Link.prev = (w.heap a).bind CommonSm.prev := by
  rw [links]
  cases w.heap a <;> rfl

/-- A write to an allocated node. -/
theorem modify_eq [DecidableEq A] {sm : CommonSm A} (h : w.heap a = some sm) (f : CommonSm A → CommonSm A) :
    w.modify a f = some { w with heap := Function.update w.heap a (some (f sm)) } := by
  rw [modify, h, Option.map_some]

/-- The loop to the last node stops there. -/
theorem lastLoop_eq {first : Option A} (h : IsList w.links first (p ++ a :: s)) {fuel : ℕ}
    (hfuel : s.length < fuel) : lastLoop w fuel a = (a :: s).getLast? := by
  induction s generalizing p a fuel with
  | nil =>
    obtain ⟨sm, hsm, -, hnext⟩ := node_of_isList h
    obtain ⟨fuel, rfl⟩ := Nat.exists_eq_succ_of_ne_zero (Nat.ne_zero_of_lt hfuel)
    simp [lastLoop, hsm, hnext]
  | cons b s ih =>
    obtain ⟨sm, hsm, -, hnext⟩ := node_of_isList h
    obtain ⟨fuel, rfl⟩ := Nat.exists_eq_succ_of_ne_zero (Nat.ne_zero_of_lt hfuel)
    rw [List.length_cons] at hfuel
    rw [List.append_cons p a (b :: s)] at h
    simp only [lastLoop, hsm, hnext, List.head?_cons]
    rw [ih h (by omega), List.getLast?_cons_cons]

variable [DecidableEq A]

/-- The loop of `sm_is_smallwin` looks through the rest of the list. -/
theorem isSmallwinLoop_eq {first : Option A} (h : IsList w.links first (p ++ s)) {fuel : ℕ}
    (hfuel : s.length ≤ fuel) (x : A) : isSmallwinLoop w x fuel s.head? = some (decide (x ∈ s)) := by
  induction s generalizing p fuel with
  | nil => cases fuel <;> simp [isSmallwinLoop]
  | cons b s ih =>
    obtain ⟨sm, hsm, -, hnext⟩ := node_of_isList h
    rw [List.length_cons] at hfuel
    obtain ⟨fuel, rfl⟩ := Nat.exists_eq_succ_of_ne_zero (show fuel ≠ 0 by omega)
    rw [List.append_cons p b s] at h
    -- the induction moves the node just looked at into the part already passed
    have hrest : isSmallwinLoop w x fuel s.head? = some (decide (x ∈ s)) := ih h (by omega)
    by_cases hb : b = x
    · simp [isSmallwinLoop, hb]
    · simp [isSmallwinLoop, hsm, hnext, hrest, hb, Ne.symm hb]

/-- **`sm_is_smallwin` finds exactly the windows of the list**, and its loop ends. -/
theorem Holds.isSmallwin (h : w.Holds l) {fuel : ℕ} (hfuel : l.length ≤ fuel) (x : Option A) :
    smIsSmallwin fuel w x = some (decide (∃ a ∈ l, x = some a)) := by
  cases x with
  | none => simp [smIsSmallwin]
  | some x =>
    have hloop := isSmallwinLoop_eq (p := []) h.list hfuel x
    rw [smIsSmallwin, h.list.first_eq, hloop]
    simp

/-- **Linking a new node appends its window.** -/
theorem Holds.link (h : w.Holds l) (ha : a ∉ l) {fuel : ℕ} (hfuel : l.length ≤ fuel)
    (sm : CommonSm A) : ∃ w', smLinkSmallwin fuel w a sm = some w' ∧ w'.Holds (l ++ [a]) := by
  set w₁ : Windows A := { w with heap := Function.update w.heap a (some sm) } with hw₁
  have hkeep₁ : ∀ z, z ≠ a → w₁.heap z = w.heap z := fun z hz => Function.update_of_ne hz _ _
  have hlist₁ : IsList w₁.links w₁.smallwinList l := by
    refine h.list.congr ?_
    intro z hz
    rw [links, hkeep₁ z (fun hza => ha (hza ▸ hz)), links]
  have hlive₁ : ∀ z, (w₁.heap z).isSome → z ∈ l ++ [a] := fun z hz => by
    by_cases hza : z = a
    · simp [hza]
    · rw [hkeep₁ z hza] at hz
      exact List.mem_append_left _ (h.live z hz)
  have hnew₁ : w₁.heap a = some sm := Function.update_self _ _ _
  rw [smLinkSmallwin, ← hw₁, smAddSmallwinList]
  cases l with
  | nil =>
    rw [hlist₁.first_eq, List.head?_nil]
    simp only [modify_eq (w := { w₁ with smallwinList := some a }) hnew₁]
    refine ⟨_, rfl, ?_, ?_⟩
    · have hnil : IsList w₁.links none ([] : List A) := IsList.nil _
      apply hnil.append (by simp)
      · simp [links]
      · simp
      · simp
    · intro z hz
      by_cases hza : z = a
      · simp [hza]
      · exact hlive₁ z (by simpa [Function.update_of_ne hza] using hz)
  | cons b l =>
    obtain ⟨z, hz⟩ : ∃ z, (b :: l).getLast? = some z :=
      ⟨_, List.getLast?_eq_some_getLast (List.cons_ne_nil b l)⟩
    -- the list is not empty: its last node `z` is the one linked to
    obtain ⟨q, hq⟩ := List.getLast?_eq_some_iff.mp hz
    have hzmem : z ∈ b :: l := List.mem_of_getLast? hz
    have hza : z ≠ a := fun hza => ha (hza ▸ hzmem)
    obtain ⟨k, hk, hkprev, hknext⟩ := node_of_isList (s := []) (hq ▸ hlist₁)
    have hloop : lastLoop w₁ fuel b = some z := by
      rw [lastLoop_eq (p := []) hlist₁ (by rw [List.length_cons] at hfuel; omega), hz]
    rw [hlist₁.first_eq, List.head?_cons]
    simp only [hloop, Option.bind_eq_bind, Option.bind_some, modify_eq hk]
    have hnew₂ : Function.update w₁.heap z (some { k with next := some a }) a = some sm := by
      rw [Function.update_of_ne hza.symm, hnew₁]
    rw [modify_eq hnew₂]
    refine ⟨_, rfl, ?_, ?_⟩
    · have hfirst : w₁.smallwinList = w₁.smallwinList.or (some a) := by
        rw [hlist₁.first_eq, List.head?_cons, Option.some_or]
      show IsList _ w₁.smallwinList _
      rw [hfirst]
      apply hlist₁.append ha
      · simp [links, hz]
      · intro x hx hlast
        rw [hz] at hlast
        obtain rfl := Option.some.inj hlast
        simp [links, Function.update_of_ne hza, hk]
      · intro x hx hne
        have hxa : x ≠ a := fun hxa => ha (hxa ▸ hx)
        have hxz : x ≠ z := fun hxz => hne (hxz ▸ hz)
        simp [links, Function.update_of_ne hxa, Function.update_of_ne hxz]
    · intro x hx
      by_cases hxa : x = a
      · simp [hxa]
      · by_cases hxz : x = z
        · rw [hxz]
          exact List.mem_append_left _ hzmem
        · exact hlive₁ x (by simpa [Function.update_of_ne hxa, Function.update_of_ne hxz] using hx)

/-- The node before gets the node after as its `next`; without a node before, the list starts there. -/
theorem unlinkForward_eq (sm : CommonSm A) (hlive : ∀ z, sm.prev = some z → (w.heap z).isSome) :
    ∃ w', unlinkForward w sm = some w' ∧
      w'.smallwinList = (if sm.prev = none then sm.next else w.smallwinList) ∧
      ∀ z, w'.heap z = if sm.prev = some z then
        (w.heap z).map fun k => { k with next := sm.next } else w.heap z := by
  rw [unlinkForward]
  cases hprev : sm.prev with
  | none => exact ⟨_, rfl, rfl, fun z => rfl⟩
  | some y =>
    obtain ⟨k, hk⟩ := Option.isSome_iff_exists.mp (hlive y hprev)
    refine ⟨_, modify_eq hk _, rfl, ?_⟩
    intro z
    by_cases hz : y = z
    · subst hz
      simp [hk]
    · simp [hz, Function.update_of_ne (Ne.symm hz)]

/-- The node after gets the node before as its `prev`. -/
theorem unlinkBackward_eq (sm : CommonSm A) (hlive : ∀ z, sm.next = some z → (w.heap z).isSome) :
    ∃ w', unlinkBackward w sm = some w' ∧ w'.smallwinList = w.smallwinList ∧
      ∀ z, w'.heap z = if sm.next = some z then
        (w.heap z).map fun k => { k with prev := sm.prev } else w.heap z := by
  rw [unlinkBackward]
  cases hnext : sm.next with
  | none => exact ⟨_, rfl, rfl, fun z => rfl⟩
  | some y =>
    obtain ⟨k, hk⟩ := Option.isSome_iff_exists.mp (hlive y hnext)
    refine ⟨_, modify_eq hk _, rfl, ?_⟩
    intro z
    by_cases hz : y = z
    · subst hz
      simp [hk]
    · simp [hz, Function.update_of_ne (Ne.symm hz)]

/-- **Destroying a window takes it out of the list and frees it.** -/
theorem Holds.destroy (h : w.Holds (p ++ a :: s)) :
    ∃ w', smDestroySmallwin w (some a) = some w' ∧ w'.Holds (p ++ s) := by
  have hnd := h.list.nodup
  obtain ⟨hpnd, hasnd, hdisj⟩ := List.nodup_append.mp hnd
  have hap : a ∉ p := fun ha => hdisj a ha a (by simp) rfl
  have has : a ∉ s := (List.nodup_cons.mp hasnd).1
  have hisSome : ∀ z ∈ p ++ a :: s, (w.heap z).isSome := fun z hz => by
    obtain ⟨q, t, hqt⟩ := List.append_of_mem hz
    obtain ⟨k, hk, -⟩ := node_of_isList (hqt ▸ h.list)
    rw [hk, Option.isSome_some]
  obtain ⟨sm, hsm, hprev, hnext⟩ := node_of_isList h.list
  -- the two neighbours are other nodes of the list
  have hprev_mem : ∀ z, sm.prev = some z → z ∈ p := fun z hz =>
    List.mem_of_getLast? (hprev ▸ hz)
  have hnext_mem : ∀ z, sm.next = some z → z ∈ s := fun z hz =>
    List.mem_of_head? (hnext ▸ hz)
  obtain ⟨w₁, hf, hfirst₁, hheap₁⟩ := unlinkForward_eq (w := w) sm fun z hz =>
    hisSome z (by simp [hprev_mem z hz])
  have hsm₁ : w₁.heap a = some sm := by
    rw [hheap₁, if_neg (fun hz => hap (hprev_mem a hz)), hsm]
  obtain ⟨w₂, hb, hfirst₂, hheap₂⟩ := unlinkBackward_eq (w := w₁) sm fun z hz => by
    rw [hheap₁, if_neg (fun hz' => hdisj z (hprev_mem z hz') z (by simp [hnext_mem z hz]) rfl)]
    exact hisSome z (by simp [hnext_mem z hz])
  have hheap : ∀ z, w₂.heap z = if s.head? = some z then
      (w₁.heap z).map fun k => { k with prev := p.getLast? } else w₁.heap z := by
    simpa only [hprev, hnext] using hheap₂
  refine ⟨{ w₂ with heap := Function.update w₂.heap a none }, ?_, ?_, ?_⟩
  · simp only [smDestroySmallwin, hsm, hsm₁, hf, hb, Option.bind_eq_bind, Option.bind_some]
  · have hfirst : w₂.smallwinList = (p ++ s).head? := by
      rw [hfirst₂, hfirst₁, hprev, hnext, h.list.first_eq]
      cases p with
      | nil => simp
      | cons b p => simp
    show IsList _ w₂.smallwinList _
    rw [hfirst]
    apply h.list.remove
    · intro z hz
      have hza : z ≠ a := fun hza => hap (hza ▸ hz)
      have hzs : ¬ s.head? = some z := fun hz' =>
        hdisj z hz z (List.mem_cons_of_mem a (List.mem_of_head? hz')) rfl
      simp only [links, Function.update_of_ne hza, hheap, if_neg hzs, hheap₁, hprev, hnext]
      split <;> simp [Function.comp_def]
    · intro z hz
      have hza : z ≠ a := fun hza => has (hza ▸ hz)
      have hzp : sm.prev ≠ some z := fun hz' => hdisj z (hprev_mem z hz') z (by simp [hz]) rfl
      simp only [links, Function.update_of_ne hza, hheap, hheap₁, if_neg hzp]
      split <;> simp [Function.comp_def]
  · intro z hz
    have hza : z ≠ a := fun hza => by simp [hza] at hz
    have hz₀ : (w.heap z).isSome := by
      simp only [Function.update_of_ne hza, hheap, hheap₁] at hz
      split at hz <;> split at hz <;> simpa using hz
    have hmem := h.live z hz₀
    simp only [List.mem_append, List.mem_cons, hza, false_or] at hmem
    exact List.mem_append.mpr hmem

end Windows

/-! ## Sequences of calls -/

/-- A call that changes the window list, with what `malloc` answers. -/
inductive WinCall (A : Type u) where
  /-- `sm_create_smallwin`. -/
  | create (malloc : Option A) (smType smId : UInt16) (smText : Option (ℕ → UInt8))
      (smProc : SmProc)
  /-- `sm_destroy_smallwin`. -/
  | destroy (hsm : A)

/-- **The live windows, in creation order**: a window created goes to the end and one destroyed
leaves. `malloc` answers with a node that is not live, and only live windows are destroyed. -/
def WinCall.live [DecidableEq A] : StepMachine (List A) (WinCall A) (Option A)
  | l, .create none _ _ _ _ => some (none, l)
  | l, .create (some a) _ _ _ _ => if a ∈ l then none else some (some a, l ++ [a])
  | l, .destroy a => if a ∈ l then some (none, l.erase a) else none

/-- A call as the code executes it: on the nodes and the message ring. -/
def WinCall.exec [DecidableEq A] (hsmOf : A → Hsm) (fuel : ℕ) : StepMachine (Windows A × Msgq) (WinCall A) (Option A)
  | (w, q), .create malloc smType smId smText smProc =>
      smCreateSmallwin hsmOf fuel w q malloc smType smId smText smProc
  | (w, q), .destroy a => (smDestroySmallwin w (some a)).map fun w => (none, w, q)

variable [DecidableEq A]

/-- One call: what it does to the live windows it does to the list in memory. -/
theorem WinCall.exec_holds (hsmOf : A → Hsm) (fuel : ℕ) {w : Windows A} (q : Msgq) {l l' : List A}
    {c : WinCall A} {o : Option A} (h : w.Holds l) (hfuel : l.length ≤ fuel)
    (hlive : WinCall.live l c = some (o, l')) :
    l'.length ≤ l.length + 1 ∧
      ∃ w' q', WinCall.exec hsmOf fuel (w, q) c = some (o, w', q') ∧ w'.Holds l' := by
  cases c with
  | create malloc smType smId smText smProc =>
    cases malloc with
    | none =>
      obtain ⟨rfl, rfl⟩ := Prod.mk.inj (Option.some.inj hlive)
      exact ⟨Nat.le_succ _, w, q, rfl, h⟩
    | some a =>
      rw [live] at hlive
      split at hlive
      · cases hlive
      · rename_i ha
        obtain ⟨rfl, rfl⟩ := Prod.mk.inj (Option.some.inj hlive)
        obtain ⟨w', hw', h'⟩ := h.link ha hfuel (newCommonSm smType smId smText smProc)
        refine ⟨by simp, w', (pushMessage q (hsmOf a) smmCreate 0 0).2, ?_, h'⟩
        simp only [exec, smCreateSmallwin, hw', Option.bind_eq_bind, Option.bind_some]
  | destroy a =>
    rw [live] at hlive
    split at hlive
    · rename_i ha
      obtain ⟨rfl, rfl⟩ := Prod.mk.inj (Option.some.inj hlive)
      -- the window destroyed splits the list into what is before it and after it
      obtain ⟨p, s, hnotin, rfl, herase⟩ := List.exists_erase_eq ha
      obtain ⟨w', hw', h'⟩ := h.destroy
      rw [herase]
      refine ⟨by simp; omega, w', q, ?_, h'⟩
      rw [exec, hw', Option.map_some]
    · cases hlive

/-- **Every sequence of calls runs, and keeps the list in memory the live windows.** -/
theorem WinCall.run_holds (hsmOf : A → Hsm) (fuel : ℕ) {w : Windows A} (q : Msgq) {l l' : List A}
    {calls : List (WinCall A)} {os : List (Option A)} (h : w.Holds l)
    (hfuel : l.length + calls.length ≤ fuel)
    (hlive : StepMachine.run WinCall.live l calls = some (os, l')) :
    l'.length ≤ l.length + calls.length ∧
      ∃ w' q', StepMachine.run (WinCall.exec hsmOf fuel) (w, q) calls = some (os, w', q') ∧
        w'.Holds l' := by
  induction calls generalizing w q l os with
  | nil =>
    obtain ⟨rfl, rfl⟩ : [] = os ∧ l = l' := by simpa using hlive
    exact ⟨Nat.le_refl _, w, q, rfl, h⟩
  | cons c calls ih =>
    rw [List.length_cons] at hfuel
    obtain ⟨o, l₁, os', hc, hrest, rfl⟩ := (StepMachine.run_cons _ _ _ _ _ _).mp hlive
    obtain ⟨hlen, w₁, q₁, hexec, h₁⟩ := WinCall.exec_holds hsmOf fuel q h (by omega) hc
    obtain ⟨hlen', w', q', hrun, h'⟩ := ih q₁ h₁ (by omega) hrest
    refine ⟨by rw [List.length_cons]; omega, w', q', ?_, h'⟩
    exact (StepMachine.run_cons _ _ _ _ _ _).mpr ⟨o, (w₁, q₁), os', hexec, hrun, rfl⟩

/-- **The window list is a well-formed doubly linked list of the live windows.** Take any sequence of
creations, in which `malloc` answers with nodes that are not live, and destructions of live windows,
and let `l` be the live windows in creation order. With fuel for as many nodes as there are calls
the calls run; from `smallwin_list` the nodes of `l` are reached in order, each once, with `prev`
and `next` its neighbours; and `sm_is_smallwin` ends, and tells exactly whether a window is live. -/
theorem windows_wellFormed (hsmOf : A → Hsm) (q : Msgq) (calls : List (WinCall A))
    (os : List (Option A)) (l : List A)
    (hlive : StepMachine.run WinCall.live [] calls = some (os, l)) (fuel : ℕ)
    (hfuel : calls.length ≤ fuel) :
    ∃ w q', StepMachine.run (WinCall.exec hsmOf fuel) (Windows.empty A, q) calls =
        some (os, w, q') ∧
      l.Nodup ∧ w.smallwinList = l.head? ∧
      (∀ p a s, l = p ++ a :: s →
        ∃ sm, w.heap a = some sm ∧ sm.prev = p.getLast? ∧ sm.next = s.head?) ∧
      (∀ a b, a ∈ l → ((w.heap a).bind CommonSm.next = some b ↔
        b ∈ l ∧ (w.heap b).bind CommonSm.prev = some a)) ∧
      ∀ x, smIsSmallwin fuel w x = some (decide (∃ a ∈ l, x = some a)) := by
  obtain ⟨hlen, w, q', hrun, h⟩ := WinCall.run_holds hsmOf fuel q
    (Windows.Holds.empty (A := A)) (by simpa using hfuel) hlive
  rw [List.length_nil, Nat.zero_add] at hlen
  refine ⟨w, q', hrun, h.list.nodup, h.list.first_eq, ?_, ?_, ?_⟩
  · rintro p a s rfl
    exact Windows.node_of_isList h.list
  · intro a b ha
    have hiff := h.list.next_eq_iff ha (b := b)
    rwa [Windows.bind_next, Windows.bind_prev] at hiff
  · exact h.isSmallwin (by omega)

/-- Two windows are created, the first is destroyed, and its address is handed out again. -/
theorem windows_wellFormed_reuse :
    let q := initMsgq 4 fun _ => ⟨0, 0, 0, 0⟩
    let calls : List (WinCall ℕ) := [.create (some 1) 0 0 none none, .create (some 2) 0 0 none none,
      .destroy 1, .create (some 1) 0 0 none none]
    ∃ w q', StepMachine.run (WinCall.exec UInt32.ofNat 4) (Windows.empty ℕ, q) calls =
        some ([some 1, some 2, none, some 1], w, q') ∧
      smIsSmallwin 4 w (some 1) = some true ∧ smIsSmallwin 4 w (some 3) = some false := by
  intro q calls
  obtain ⟨w, q', hrun, -, -, -, -, hfind⟩ := windows_wellFormed UInt32.ofNat q calls
    [some 1, some 2, none, some 1] [2, 1] rfl 4 (by decide)
  exact ⟨w, q', hrun, hfind (some 1), hfind (some 3)⟩

end SmIpc.Sm
