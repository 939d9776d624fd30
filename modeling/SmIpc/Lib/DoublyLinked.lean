import Mathlib.Data.List.Basic

/-! # Doubly linked lists

Lists of nodes linked in both directions through a memory that gives each node its link cell.

* **`IsList links first l`** — following the links from `first` visits exactly the nodes of `l`, in
  order, each once: the first node's `prev` and the last node's `next` are null, and each other link
  is the neighbour on that side. No node occurs twice, so the list is acyclic.
* **`IsList.append`** and **`IsList.remove`** — the two cell patterns that add a node at the end and
  take a node out, whatever the rest of the memory does. -/

universe u

namespace DoublyLinked

variable {A : Type u}

/-- The link cell of a node; a null pointer is `none`. -/
structure Link (A : Type u) where
  /-- The node before. -/
  prev : Option A
  /-- The node after. -/
  next : Option A

/-- The memory holds the doubly linked list `l`, entered at `first`. -/
structure IsList (links : A → Option (Link A)) (first : Option A) (l : List A) : Prop where
  /-- No node occurs twice. -/
  nodup : l.Nodup
  /-- The list is entered at its first node. -/
  first_eq : first = l.head?
  /-- Each node's links are its neighbours in `l`. -/
  link : ∀ p a s, l = p ++ a :: s → links a = some ⟨p.getLast?, s.head?⟩

variable {links links' : A → Option (Link A)} {first : Option A} {l p s : List A} {a : A}

/-- The empty list is held by any memory. -/
theorem IsList.nil (links : A → Option (Link A)) : IsList links none [] :=
  ⟨List.nodup_nil, rfl, fun p a s h => by simp at h⟩

/-- Only the links of the nodes in the list matter. -/
theorem IsList.congr (h : IsList links first l) (hkeep : ∀ z ∈ l, links' z = links z) :
    IsList links' first l :=
  ⟨h.nodup, h.first_eq, fun p a s hl => by rw [hkeep a (by simp [hl]), h.link p a s hl]⟩

/-- The links of a node inside the list. -/
theorem IsList.link_mid (h : IsList links first (p ++ a :: s)) :
    links a = some ⟨p.getLast?, s.head?⟩ := h.link p a s rfl

/-- **`next` and `prev` are inverse** along the list. -/
theorem IsList.next_eq_iff (h : IsList links first l) {b : A} (ha : a ∈ l) :
    (links a).bind Link.next = some b ↔ b ∈ l ∧ (links b).bind Link.prev = some a := by
  constructor
  · intro hnext
    obtain ⟨p, s, rfl⟩ := List.append_of_mem ha
    rw [h.link_mid] at hnext
    obtain ⟨q, rfl⟩ := List.head?_eq_some_iff.mp hnext
    rw [h.link (p ++ [a]) b q (by simp)]
    simp
  · rintro ⟨hb, hprev⟩
    obtain ⟨p, s, rfl⟩ := List.append_of_mem hb
    rw [h.link_mid] at hprev
    obtain ⟨q, rfl⟩ := List.getLast?_eq_some_iff.mp hprev
    rw [h.link q a (b :: s) (by simp)]
    rfl

/-- A split of `l ++ [a]` is at `a` itself, or inside `l`. -/
theorem split_concat {q t : List A} {b : A} (h : l ++ [a] = q ++ b :: t) :
    (q = l ∧ b = a ∧ t = []) ∨ ∃ t', t = t' ++ [a] ∧ l = q ++ b :: t' := by
  rcases List.eq_nil_or_concat t with rfl | ⟨t', c, rfl⟩
  · obtain ⟨h₁, h₂⟩ := List.append_inj' h rfl
    exact Or.inl ⟨h₁.symm, (List.singleton_inj.mp h₂).symm, rfl⟩
  · rw [List.concat_eq_append, ← List.cons_append, ← List.append_assoc] at h
    obtain ⟨h₁, h₂⟩ := List.append_inj' h rfl
    obtain rfl := List.singleton_inj.mp h₂
    exact Or.inr ⟨t', List.concat_eq_append, h₁⟩

/-- **Adding a node at the end.** The new node points back to the last one, whose `next` is set; the
links of the other nodes stay. -/
theorem IsList.append (h : IsList links first l) (ha : a ∉ l)
    (hnew : links' a = some ⟨l.getLast?, none⟩)
    (hlast : ∀ z ∈ l, l.getLast? = some z →
      links' z = (links z).map fun k => { k with next := some a })
    (hkeep : ∀ z ∈ l, l.getLast? ≠ some z → links' z = links z) :
    IsList links' (first.or (some a)) (l ++ [a]) := by
  refine ⟨?_, ?_, ?_⟩
  · exact List.nodup_append.mpr ⟨h.nodup, by simp, fun x hx y hy hxy => by
      rw [hxy, List.mem_singleton.mp hy] at hx
      exact ha hx⟩
  · rw [List.head?_append, h.first_eq, List.head?_singleton]
  · intro q b t hsplit
    rcases split_concat hsplit with ⟨rfl, rfl, rfl⟩ | ⟨t', rfl, rfl⟩
    · exact hnew
    · have hb : b ∈ q ++ b :: t' := by simp
      cases t' with
      | nil =>
        rw [hlast b hb (by simp), h.link_mid]
        rfl
      | cons c t' =>
        have hne : (q ++ b :: c :: t').getLast? ≠ some b := by
          intro hlast'
          -- a last node equal to `b` would be in the list a second time
          have hmem : b ∈ c :: t' := by
            rw [List.getLast?_append_cons, List.getLast?_cons_cons] at hlast'
            exact List.mem_of_getLast? hlast'
          have hnd := h.nodup
          rw [List.nodup_append] at hnd
          exact (List.nodup_cons.mp hnd.2.1).1 hmem
        rw [hkeep b hb hne, h.link_mid]
        simp

/-- **Taking a node out.** The node before is linked to the node after, in both directions; the links
of the other nodes stay. -/
theorem IsList.remove [DecidableEq A] (h : IsList links first (p ++ a :: s))
    (hpred : ∀ z ∈ p, links' z = if p.getLast? = some z then
      (links z).map fun k => { k with next := s.head? } else links z)
    (hsucc : ∀ z ∈ s, links' z = if s.head? = some z then
      (links z).map fun k => { k with prev := p.getLast? } else links z) :
    IsList links' (p ++ s).head? (p ++ s) := by
  -- the nodes that stay keep their order, so they stay different
  have hnd := h.nodup
  have hsub : (p ++ s).Sublist (p ++ a :: s) := (List.sublist_cons_self a s).append_left p
  have hnodup := hnd.sublist hsub
  refine ⟨hnodup, rfl, ?_⟩
  intro q b t hsplit
  rcases List.append_eq_append_iff.mp hsplit with ⟨c, rfl, hs⟩ | ⟨c, hp, ht⟩
  · -- the node is after the one taken out
    subst hs
    have hold := h.link (p ++ a :: c) b t (by simp)
    rw [hsucc b (by simp), hold]
    cases c with
    | nil => simp
    | cons d c =>
      have hne : some d ≠ some b := by
        intro hdb
        obtain rfl := Option.some.inj hdb
        have := (List.nodup_append.mp hnodup).2.1
        simp at this
      rw [List.cons_append, List.head?_cons, if_neg hne]
      simp [List.getLast?_append, List.getLast?_cons]
  · -- the node is before it
    cases c with
    | nil =>
      rw [List.nil_append] at ht
      subst ht
      rw [List.append_nil] at hp
      subst hp
      have hold := h.link (p ++ [a]) b t (by simp)
      rw [hsucc b (by simp), hold]
      simp
    | cons d c =>
      rw [List.cons_append] at ht
      obtain ⟨rfl, rfl⟩ := List.cons_eq_cons.mp ht
      subst hp
      have hold := h.link q b (c ++ a :: s) (by simp)
      rw [hpred b (by simp), hold]
      cases c with
      | nil => simp
      | cons d c =>
        have hne : (q ++ b :: d :: c).getLast? ≠ some b := by
          intro hlast
          rw [List.getLast?_append_cons, List.getLast?_cons_cons] at hlast
          have hmem : b ∈ d :: c := List.mem_of_getLast? hlast
          have := (List.nodup_append.mp (List.nodup_append.mp hnodup).1).2.1
          exact (List.nodup_cons.mp this).1 hmem
        rw [if_neg hne]
        simp

/-! ## Readers

A reader walks along the list for `x` while nodes are added at the end and taken out: it is about to see
`s`, and has passed what is before. -/

/-- **The reader has passed what is before `s`**, and `x` is not there. -/
def Passed (l : List A) (x : A) (s : List A) : Prop := ∃ p, l = p ++ s ∧ x ∉ p

variable {x : A}

/-- It starts at the first node. -/
theorem Passed.start (l : List A) (x : A) : Passed l x l := ⟨[], rfl, List.not_mem_nil⟩

/-- It passes a node that is not `x`. -/
theorem Passed.tail (h : Passed l x (a :: s)) (hne : a ≠ x) : Passed l x s := by
  obtain ⟨p, rfl, hx⟩ := h
  refine ⟨p ++ [a], by simp, ?_⟩
  simp [hx, hne.symm]

/-- It has come to `x`. -/
theorem Passed.mem (h : Passed l x (x :: s)) : x ∈ l := by
  obtain ⟨p, rfl, -⟩ := h
  exact List.mem_append_right p List.mem_cons_self

/-- It has come to the end. -/
theorem Passed.notMem (h : Passed l x []) : x ∉ l := by
  obtain ⟨p, rfl, hx⟩ := h
  rwa [List.append_nil]

/-- A node that is added it will see. -/
theorem Passed.append (h : Passed l x s) (b : A) : Passed (l ++ [b]) x (s ++ [b]) := by
  obtain ⟨p, rfl, hx⟩ := h
  exact ⟨p, List.append_assoc p s [b], hx⟩

/-- A node that is taken out it will not see. -/
theorem Passed.filter (h : Passed l x s) (keep : A → Bool) : Passed (l.filter keep) x (s.filter keep) := by
  obtain ⟨p, rfl, hx⟩ := h
  refine ⟨p.filter keep, List.filter_append p s, ?_⟩
  exact fun hmem => hx (List.mem_of_mem_filter hmem)

end DoublyLinked
