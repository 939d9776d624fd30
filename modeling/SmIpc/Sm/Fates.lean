import SmIpc.Lib.PairedLists
import SmIpc.Sm.SystemSteps

/-! # What becomes of a message

Every message that `push_message` accepts is on the books from then on. `Sys.notes` is what a step adds to
them: a message accepted or popped, one handed to `run_sm` or dropped since `sm_is_smallwin` found no window,
and a handle whose messages `erase_message` has blanked.

* `Fate` relates a message as it was accepted to the same message as it was popped or is still queued: it is
  intact, or its handle was erased after it was posted.
* `Books` is the invariant; `Books.acts` keeps it over one step.
* `messages_accounted` — in every run the messages resolved, in hand and still queued are accepted ones,
  intact, in the order they were accepted and each once, and what is missing was erased. -/

namespace SmIpc.Sm

/-- An entry in the books. -/
inductive Note where
  /-- `push_message` accepted a message. -/
  | accepted (e : Message × Post)
  /-- The scheduler popped it. -/
  | popped (e : Message × Post)
  /-- The scheduler found no window for it. -/
  | dropped (e : Message × Post)
  /-- The scheduler handed it to `run_sm`. -/
  | handed (e : Message × Post)
  /-- `erase_message` blanked the messages for a handle. -/
  | erased (hsm : Hsm) (time : ℕ)
  deriving DecidableEq, Repr

namespace Note

/-- The message, if it was accepted. -/
def accepted? : Note → Option (Message × Post)
  | accepted e => some e
  | _ => none

/-- The message, if it was popped. -/
def popped? : Note → Option (Message × Post)
  | popped e => some e
  | _ => none

/-- The message, if the scheduler is done with it. -/
def resolved? : Note → Option (Message × Post)
  | dropped e | handed e => some e
  | _ => none

end Note

namespace Sys

/-- What `push_message` adds. -/
def acceptNotes (s : Sys) (m : Message) (origin : Origin) : List Note :=
  if (pushMessage s.q m.hsm m.message m.param1 m.param2).1 = 1 then
    [.accepted (m, ⟨s.now, origin⟩)]
  else []

/-- What a step adds to the books. -/
def notes (s : Sys) : SysStep → List Note
  | .pop =>
      match popMessage s.q with
      | some ((_, some m), _) => [.popped (m, s.posts.headD ⟨0, .sender⟩)]
      | _ => []
  | .test =>
      match s.hand with
      | some ⟨m, p, none⟩ => if (s.windowAt m.hsm).isSome then [] else [.dropped (m, p)]
      | _ => []
  | .enterHand =>
      match s.hand with
      | some ⟨m, p, some _⟩ => [.handed (m, p)]
      | _ => []
  | .erase tid =>
      match s.threads tid with
      | .running m _ .destroyed :: _ => [.erased m.hsm s.now]
      | _ => []
  | .createPush _ =>
      match s.creating with
      | some (_, w) => s.acceptNotes (createMsg w) (.creation w.born)
      | none => []
  | .push _ m | .send _ m => s.acceptNotes m .sender
  | .tickSend =>
      match s.ticker with
      | .sending i => s.acceptNotes ((s.ticks i).message i) (.tick (s.registered i))
      | _ => []
  | _ => []

/-- `Sys.step` with what it adds to the books. -/
def noted : StepMachine Sys SysStep (List Note) :=
  fun s i => (s.step i).map fun r => (s.notes i, r.2)

/-- The message in hand. -/
def inHand (s : Sys) : List (Message × Post) := s.hand.toList.map fun h => (h.m, h.post)

/-- The queued messages that are not blank. -/
def live (s : Sys) : List (Message × Post) := s.entries.filter fun e => e.1.hsm ≠ skInvalidHsm

end Sys

/-! ## The invariant -/

/-- A message as it was accepted, and as it was popped or is queued. -/
structure Fate (ns : List Note) (a b : Message × Post) : Prop where
  /-- The post is the same. -/
  post : b.2 = a.2
  /-- The message is intact, or it was erased after it was posted. -/
  message : b.1 = a.1 ∨
    b.1 = blankAll a.1 ∧ ∃ time, a.2.time < time ∧ .erased a.1.hsm time ∈ ns

theorem Fate.mono {ns more : List Note} {a b : Message × Post} (h : Fate ns a b) :
    Fate (ns ++ more) a b := by
  refine ⟨h.post, h.message.imp_right ?_⟩
  rintro ⟨hblank, time, hlt, hmem⟩
  exact ⟨hblank, time, hlt, List.mem_append_left _ hmem⟩

/-- **The books agree with the state.** -/
structure Books (ns : List Note) (s : Sys) : Prop where
  /-- What was accepted was popped or is queued, in this order. -/
  fates : List.Forall₂ (Fate ns) (ns.filterMap Note.accepted?) (ns.filterMap Note.popped? ++ s.entries)
  /-- What was popped, and not erased before, is resolved or in hand. -/
  resolved : ns.filterMap Note.resolved? ++ s.inHand =
    (ns.filterMap Note.popped?).filter fun e => e.1.hsm ≠ skInvalidHsm
  /-- Messages were accepted one after the other. -/
  increasing : (ns.filterMap Note.accepted?).Pairwise fun a b => a.2.time < b.2.time
  /-- All were accepted in the past. -/
  past : ∀ a ∈ ns.filterMap Note.accepted?, a.2.time < s.now
  /-- No message is accepted for the null handle. -/
  nonzero : ∀ a ∈ ns.filterMap Note.accepted?, a.1.hsm ≠ skInvalidHsm

namespace Books

variable {ns : List Note} {s t : Sys} {i : SysStep} {o : SysEvent}

theorem init (mem : ℤ → Message) : Books [] (Sys.init mem) := by
  have hentries : (Sys.init mem).entries = [] := by
    simp [Sys.entries, Sys.init]
  refine ⟨?_, rfl, List.Pairwise.nil, ?_, ?_⟩
  · rw [hentries]
    exact List.Forall₂.nil
  · exact fun a ha => absurd ha List.not_mem_nil
  · exact fun a ha => absurd ha List.not_mem_nil

/-- A step that adds nothing and leaves the queue and the message in hand. -/
theorem nothing (h : Books ns s) (hentries : t.entries = s.entries) (hhand : t.inHand = s.inHand)
    (hnow : t.now = s.now + 1) : Books (ns ++ []) t := by
  rw [List.append_nil]
  refine ⟨hentries ▸ h.fates, hhand ▸ h.resolved, h.increasing, fun a ha => ?_, h.nonzero⟩
  rw [hnow]
  exact Nat.lt_succ_of_lt (h.past a ha)

/-- What `push_message` adds goes with what it does to the queue. -/
theorem acceptNotes_cases (hq : Sys.QueueWf s.q s.posts) (m : Message) (origin : Origin) :
    (s.acceptNotes m origin = [.accepted (m, ⟨s.now, origin⟩)] ∧ m.hsm ≠ skInvalidHsm ∧
        (s.post m origin).entries = s.entries ++ [(m, ⟨s.now, origin⟩)]) ∨
      s.acceptNotes m origin = [] ∧ (s.post m origin).entries = s.entries := by
  have hfull : getNmessage s.q < smallwinNmsgq ↔ s.q.contents.length + 1 < s.q.size := by
    rw [Msgq.getNmessage_eq hq.valid, Msgq.size, hq.size]
    omega
  rcases (Sys.post_cases hq m origin).2 with ⟨hne, hroom, hentries⟩ | ⟨hno, hentries⟩
  · obtain ⟨hok, -⟩ := Msgq.pushMessage_spec hq.valid hne m.message m.param1 m.param2
    obtain ⟨q', hq', -⟩ := hok (hfull.mp hroom)
    refine .inl ⟨?_, hne, hentries⟩
    rw [Sys.acceptNotes, hq', if_pos rfl]
  · -- a refused message returns 0
    refine .inr ⟨?_, hentries⟩
    by_cases hne : m.hsm = skInvalidHsm
    · rw [Sys.acceptNotes, hne, Msgq.pushMessage_invalid, if_neg Int.zero_ne_one]
    · obtain ⟨-, hrefused⟩ := Msgq.pushMessage_spec hq.valid hne m.message m.param1 m.param2
      rw [Sys.acceptNotes, hrefused fun hr => hno ⟨hne, hfull.mpr hr⟩, if_neg Int.zero_ne_one]

/-- A `push_message` enters its message if it accepts it. -/
theorem post (h : Books ns s) (hq : Sys.QueueWf s.q s.posts) (m : Message) (origin : Origin)
    (hentries : t.entries = (s.post m origin).entries) (hhand : t.inHand = s.inHand)
    (hnow : t.now = s.now + 1) : Books (ns ++ s.acceptNotes m origin) t := by
  rcases acceptNotes_cases hq m origin with ⟨hnotes, hne, hpost⟩ | ⟨hnotes, hpost⟩
  · rw [hnotes]
    constructor <;>
      simp only [PairedLists.filterMap_snoc, Note.accepted?, Note.popped?, Note.resolved?, Option.toList_some,
        Option.toList_none, List.append_nil]
    case fates =>
      rw [hentries, hpost, ← List.append_assoc]
      refine List.rel_append (h.fates.imp fun _ _ => Fate.mono) ?_
      exact List.Forall₂.cons ⟨rfl, .inl rfl⟩ List.Forall₂.nil
    case resolved => rw [hhand, h.resolved]
    case increasing =>
      refine List.pairwise_append.mpr ⟨h.increasing, List.pairwise_singleton _ _, ?_⟩
      intro a ha b hb
      rw [List.mem_singleton.mp hb]
      exact h.past a ha
    case past =>
      intro a ha
      rw [hnow]
      rcases List.mem_append.mp ha with ha | ha
      · exact Nat.lt_succ_of_lt (h.past a ha)
      · rw [List.mem_singleton.mp ha]
        exact Nat.lt_succ_self _
    case nonzero =>
      intro a ha
      rcases List.mem_append.mp ha with ha | ha
      · exact h.nonzero a ha
      · rw [List.mem_singleton.mp ha]
        exact hne
  · rw [hnotes]
    exact h.nothing (hentries.trans hpost) hhand hnow

/-- A note that accepts no message keeps what is known of those that were. -/
theorem note (h : Books ns s) {x : Note} (hx : x.accepted? = none) (hnow : t.now = s.now + 1)
    (hfates : List.Forall₂ (Fate (ns ++ [x])) (ns.filterMap Note.accepted?)
      (ns.filterMap Note.popped? ++ (x.popped?.toList ++ t.entries)))
    (hresolved : ns.filterMap Note.resolved? ++ (x.resolved?.toList ++ t.inHand) =
      (ns.filterMap Note.popped? ++ x.popped?.toList).filter fun e => e.1.hsm ≠ skInvalidHsm) :
    Books (ns ++ [x]) t := by
  constructor <;>
    simp only [PairedLists.filterMap_snoc, hx, Option.toList_none, List.append_nil, List.append_assoc]
  case fates => exact hfates
  case resolved => exact hresolved
  case increasing => exact h.increasing
  case past =>
    intro a ha
    rw [hnow]
    exact Nat.lt_succ_of_lt (h.past a ha)
  case nonzero => exact h.nonzero

/-- The message that is popped was the oldest in the queue. -/
theorem pop (h : Books ns s) (hq : Sys.QueueWf s.q s.posts) {v : ℤ} {m : Message} {q : Msgq}
    (hhand : s.hand = none) (hpop : popMessage s.q = some ((v, some m), q)) :
    Books (ns ++ [.popped (m, s.posts.headD ⟨0, .sender⟩)]) (Sys.tick { s with
      q := q
      posts := s.posts.tail
      hand := if m.hsm = skInvalidHsm then none
        else some ⟨m, s.posts.headD ⟨0, .sender⟩, none⟩ }) := by
  have hnone : s.inHand = [] := by rw [Sys.inHand, hhand]; rfl
  obtain ⟨-, hentries⟩ := Sys.pop_entries hq hpop
  refine h.note rfl rfl ?_ ?_
  · have hfates : List.Forall₂ (Fate (ns ++ [.popped (m, s.posts.headD ⟨0, .sender⟩)]))
        (ns.filterMap Note.accepted?) (ns.filterMap Note.popped? ++ s.entries) :=
      h.fates.imp fun _ _ => Fate.mono
    rw [hentries] at hfates
    exact hfates
  · have hresolved := h.resolved
    rw [hnone, List.append_nil] at hresolved
    rw [List.filter_append, ← hresolved]
    -- one for the null handle is not taken in hand
    by_cases hm : m.hsm = skInvalidHsm
    · simp [Note.resolved?, Note.popped?, Sys.inHand, Sys.tick, hm]
    · simp [Note.resolved?, Note.popped?, Sys.inHand, Sys.tick, hm]

/-- The scheduler is done with the message in hand. -/
theorem resolve (h : Books ns s) {x : Note} {e : Message × Post} (hx : x.accepted? = none)
    (hpopped : x.popped? = none) (hres : x.resolved? = some e) (hhand : s.inHand = [e])
    (hentries : t.entries = s.entries) (hempty : t.inHand = []) (hnow : t.now = s.now + 1) :
    Books (ns ++ [x]) t := by
  refine h.note hx hnow ?_ ?_
  · rw [hpopped, hentries]
    exact h.fates.imp fun _ _ => Fate.mono
  · rw [hres, hempty, hpopped, Option.toList_none, List.append_nil, List.append_nil, ← h.resolved, hhand]
    rfl

/-- Erasing a handle blanks the queued messages for it, all of which were posted before. -/
theorem erase (h : Books ns s) {hsm : Hsm}
    (hentries : t.entries = s.entries.map fun e => (if e.1.hsm = hsm then blankAll e.1 else e.1, e.2))
    (hhand : t.inHand = s.inHand) (hnow : t.now = s.now + 1) :
    Books (ns ++ [.erased hsm s.now]) t := by
  refine h.note rfl hnow ?_ ?_
  · rw [hentries]
    refine PairedLists.forall₂_append_map h.fates (fun a _ b => Fate.mono) fun a ha b hab => ?_
    by_cases hhit : b.1.hsm = hsm
    · refine ⟨hab.post, .inr ?_⟩
      rw [if_pos hhit]
      refine ⟨rfl, ?_⟩
      rcases hab.message with hsame | ⟨-, time, hlt, hmem⟩
      · -- it was intact until now
        refine ⟨s.now, h.past a ha, ?_⟩
        rw [← hsame, hhit]
        exact List.mem_append_right _ List.mem_cons_self
      · exact ⟨time, hlt, List.mem_append_left _ hmem⟩
    · rw [if_neg hhit]
      exact hab.mono
  · rw [hhand]
    exact h.resolved.trans (by simp [Note.popped?])

/-- **One step keeps the books.** -/
theorem step (h : Books ns s) (hwf : s.Wf) {os : List Note} (hs : s.noted i = some (os, t)) :
    Books (ns ++ os) t := by
  obtain ⟨⟨o, t⟩, hstep, heq⟩ := Option.map_eq_some_iff.mp hs
  obtain ⟨rfl, rfl⟩ := Prod.mk.inj heq
  have ha := (Sys.step_cases hstep).2
  clear hs hstep heq
  have hq := hwf.queue
  cases ha with
  | popEmpty hpop =>
    obtain ⟨-, hc⟩ := Sys.popEmpty_contents hq hpop
    simp only [Sys.notes, hpop]
    refine h.nothing ?_ rfl rfl
    rw [Sys.entries, Sys.entries, ← hc]
    rfl
  | pop hhand hidle hpop =>
    simp only [Sys.notes, hpop]
    exact h.pop hq hhand hpop
  | @test m p hhand =>
    simp only [Sys.notes, hhand]
    have hin : s.inHand = [(m, p)] := by rw [Sys.inHand, hhand]; rfl
    cases hat : s.windowAt m.hsm with
    | none => exact h.resolve rfl rfl rfl hin rfl rfl rfl
    | some w => exact h.nothing rfl hin.symm rfl
  | @enterHand m p born hhand =>
    simp only [Sys.notes, hhand]
    have hin : s.inHand = [(m, p)] := by rw [Sys.inHand, hhand]; rfl
    exact h.resolve rfl rfl rfl hin rfl rfl rfl
  | erase hstack =>
    simp only [Sys.notes, hstack]
    exact h.erase (Sys.erase_entries hq _).2 rfl rfl
  | createPush hcreating =>
    simp only [Sys.notes, hcreating]
    exact h.post hq _ _ rfl rfl rfl
  | push _ => exact h.post hq _ _ rfl rfl rfl
  | send _ _ => exact h.post hq _ _ rfl rfl rfl
  | tickSend hpc _ =>
    simp only [Sys.notes, hpc]
    exact h.post hq _ _ rfl rfl rfl
  | _ => exact h.nothing rfl rfl rfl

/-- Every run keeps them. -/
theorem run {mem : ℤ → Message} {steps : List SysStep} {os : List (List Note)}
    (hrun : StepMachine.run Sys.noted (Sys.init mem) steps = some (os, s)) :
    Books os.flatten s := by
  refine (StepMachine.run_induction Sys.noted (fun _ os s => s.Wf ∧ Books os.flatten s)
    ⟨Sys.Wf.init mem, init mem⟩ ?_ hrun).2
  rintro is os u i o t - ⟨hwf, hbooks⟩ hs
  obtain ⟨r, hstep, heq⟩ := Option.map_eq_some_iff.mp hs
  obtain ⟨-, rfl⟩ := Prod.mk.inj heq
  refine ⟨hwf.acts (Sys.step_cases hstep).2, ?_⟩
  rw [List.flatten_append, List.flatten_singleton]
  exact hbooks.step hwf hs

/-- The messages popped intact, and those still queued, are accepted ones in the order they were. -/
theorem sublist (h : Books ns s) :
    (ns.filterMap Note.resolved? ++ s.inHand ++ s.live).Sublist (ns.filterMap Note.accepted?) := by
  rw [h.resolved, Sys.live, ← List.filter_append]
  apply PairedLists.sublist_of_forall₂ h.fates
  intro a b hab hb
  rcases hab.message with hsame | ⟨hblank, -⟩
  · exact Prod.ext hsame hab.post
  · -- a blank message names the null handle
    rw [hblank] at hb
    exact absurd rfl (of_decide_eq_true hb)

/-- What is missing was erased. -/
theorem complete (h : Books ns s) {a : Message × Post} (ha : a ∈ ns.filterMap Note.accepted?) :
    a ∈ ns.filterMap Note.resolved? ++ s.inHand ++ s.live ∨
      ∃ time, a.2.time < time ∧ .erased a.1.hsm time ∈ ns := by
  obtain ⟨b, hb, hfate⟩ := PairedLists.exists_of_forall₂ h.fates ha
  rcases hfate.message with hsame | ⟨-, herased⟩
  · left
    rw [h.resolved, Sys.live, ← List.filter_append, ← Prod.ext hsame hfate.post]
    exact List.mem_filter.mpr ⟨hb, decide_eq_true (hsame ▸ h.nonzero a ha)⟩
  · exact .inr herased

end Books

/-- **Every message is accounted for.** In every run, the messages the scheduler has handed to `run_sm` or
dropped, the one it has in hand and those that are queued and not blank are, one after the other, messages
that `push_message` accepted: intact, in the order they were accepted, and each once. A message accepted
that is not among them was erased after it was posted. -/
theorem messages_accounted (mem : ℤ → Message) (steps : List SysStep) (os : List (List Note)) (s : Sys)
    (hrun : StepMachine.run Sys.noted (Sys.init mem) steps = some (os, s)) :
    (os.flatten.filterMap Note.resolved? ++ s.inHand ++ s.live).Sublist
        (os.flatten.filterMap Note.accepted?) ∧
      (os.flatten.filterMap Note.accepted?).Pairwise (fun a b => a.2.time < b.2.time) ∧
      ∀ a ∈ os.flatten.filterMap Note.accepted?,
        a ∈ os.flatten.filterMap Note.resolved? ++ s.inHand ++ s.live ∨
          ∃ time, a.2.time < time ∧ .erased a.1.hsm time ∈ os.flatten :=
  have hbooks := Books.run hrun
  ⟨hbooks.sublist, hbooks.increasing, fun _ ha => hbooks.complete ha⟩

/-- The law at a window that is created and handed its `SMM_CREATE`. -/
theorem messages_accounted_create : ∃ os s,
    StepMachine.run Sys.noted (Sys.init fun _ => ⟨0, 0, 0, 0⟩)
        [.createLink 1 (some 64) (some 1), .createPush 1, .pop, .test, .enterHand] = some (os, s) ∧
      os.flatten.filterMap Note.resolved? = [(⟨64, smmCreate, 0, 0⟩, ⟨1, .creation 0⟩)] ∧
      (os.flatten.filterMap Note.resolved? ++ s.inHand ++ s.live).Sublist
        (os.flatten.filterMap Note.accepted?) := by
  obtain ⟨os, s, hrun, hresolved⟩ : ∃ os s,
      StepMachine.run Sys.noted (Sys.init fun _ => ⟨0, 0, 0, 0⟩)
          [.createLink 1 (some 64) (some 1), .createPush 1, .pop, .test, .enterHand] = some (os, s) ∧
        os.flatten.filterMap Note.resolved? = [(⟨64, smmCreate, 0, 0⟩, ⟨1, .creation 0⟩)] :=
    ⟨_, _, rfl, rfl⟩
  exact ⟨os, s, hrun, hresolved, (messages_accounted _ _ os s hrun).1⟩

end SmIpc.Sm
