import Mathlib.Data.List.Forall2

/-! # Lists kept side by side

A list that grows at its end, with the items picked from it (`filterMap_snoc`), and two lists whose items are
related one by one: the second one changed item by item (`forall₂_append_map`), the items of the second that
are those of the first (`sublist_of_forall₂`), the items of a kind that is never changed
(`filter_eq_of_forall₂`), and the counterpart of an item (`exists_of_forall₂`). -/

namespace PairedLists

variable {α β : Type*}

/-- What a step adds to the items picked from what the steps before gave. -/
theorem filterMap_snoc (f : α → Option β) (l : List α) (x : α) :
    (l ++ [x]).filterMap f = l.filterMap f ++ (f x).toList := by
  rw [List.filterMap_append]
  cases hx : f x <;> simp [hx]

/-- The second part of the right list is changed item by item. -/
theorem forall₂_append_map {R S : α → β → Prop} {f : β → β} {l : List α} {l₁ l₂ : List β}
    (h : List.Forall₂ R l (l₁ ++ l₂)) (h₁ : ∀ a ∈ l, ∀ b, R a b → S a b)
    (h₂ : ∀ a ∈ l, ∀ b, R a b → S a (f b)) : List.Forall₂ S l (l₁ ++ l₂.map f) := by
  induction l₁ generalizing l with
  | nil =>
    apply List.forall₂_map_right_iff.mpr
    rw [List.nil_append] at h
    induction h with
    | nil => exact List.Forall₂.nil
    | cons hab _ ih =>
      refine List.Forall₂.cons (h₂ _ List.mem_cons_self _ hab) (ih ?_ ?_)
      · exact fun a ha => h₁ a (List.mem_cons_of_mem _ ha)
      · exact fun a ha => h₂ a (List.mem_cons_of_mem _ ha)
  | cons b l₁ ih =>
    obtain ⟨a, l, hab, hrest, rfl⟩ := List.forall₂_cons_right_iff.mp h
    refine List.Forall₂.cons (h₁ a List.mem_cons_self b hab) (ih hrest ?_ ?_)
    · exact fun a ha => h₁ a (List.mem_cons_of_mem _ ha)
    · exact fun a ha => h₂ a (List.mem_cons_of_mem _ ha)

/-- What is intact on the right is on the left, in the same order. -/
theorem sublist_of_forall₂ {R : α → α → Prop} {p : α → Bool} {l l' : List α}
    (h : List.Forall₂ R l l') (hp : ∀ a b, R a b → p b → b = a) : (l'.filter p).Sublist l := by
  induction h with
  | nil => exact List.Sublist.refl _
  | @cons a b l l' hab _ ih =>
    rw [List.filter_cons]
    split
    · obtain rfl := hp a b hab ‹_›
      exact ih.cons_cons _
    · exact ih.cons _

/-- Where the items of a kind are paired with themselves, the two lists have the same items of that kind. -/
theorem filter_eq_of_forall₂ {R : α → α → Prop} {p : α → Bool} {l l' : List α}
    (h : List.Forall₂ R l l') (hp : ∀ a b, R a b → b = a ∨ p a = false ∧ p b = false) :
    l.filter p = l'.filter p := by
  induction h with
  | nil => rfl
  | @cons a b l l' hab _ ih =>
    rcases hp a b hab with rfl | ⟨ha, hb⟩
    · rw [List.filter_cons, List.filter_cons, ih]
    · rw [List.filter_cons_of_neg (by simp [ha]), List.filter_cons_of_neg (by simp [hb]), ih]

/-- What is on the left has its counterpart on the right. -/
theorem exists_of_forall₂ {R : α → β → Prop} {l : List α} {l' : List β}
    (h : List.Forall₂ R l l') {a : α} (ha : a ∈ l) : ∃ b ∈ l', R a b := by
  induction h with
  | nil => cases ha
  | @cons a' b' l l' hab _ ih =>
    rcases List.mem_cons.mp ha with rfl | ha
    · exact ⟨b', List.mem_cons_self, hab⟩
    · obtain ⟨b, hb, hR⟩ := ih ha
      exact ⟨b, List.mem_cons_of_mem _ hb, hR⟩

end PairedLists
