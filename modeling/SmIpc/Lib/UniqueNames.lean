import Mathlib.Data.List.Perm.Basic
import Mathlib.Data.Set.Function

/-! # Names that are claimed before they are given

A table whose live entries have names, and the names that are claimed: they have been found unused and are yet
to be given to an entry. `Apart` says that no two live entries have the same name, and that no claimed name
is claimed twice or in use. This file gives what keeps it:

* entries that go, names of other entries that change, and claims that are given up (`Apart.mono`);
* a claim to a name that is neither in use nor claimed (`apart_cons`);
* an entry that becomes live under a claimed name (`Apart.publish`). -/

namespace UniqueNames

variable {α β : Type*}

/-- The names of the live entries differ, and the claimed names differ from each other and from those. -/
structure Apart (live : Set α) (name : α → β) (claimed : List β) : Prop where
  /-- The names in use. -/
  injOn : Set.InjOn name live
  /-- The claims. -/
  nodup : claimed.Nodup
  /-- A claimed name is not in use. -/
  unused : ∀ x ∈ claimed, ∀ a ∈ live, name a ≠ x

variable {live live' : Set α} {name name' : α → β} {claimed claimed' : List β}

theorem apart_empty (name : α → β) : Apart ∅ name [] :=
  ⟨Set.injOn_empty name, List.nodup_nil, fun _ hx => absurd hx List.not_mem_nil⟩

/-- The order of the claims does not matter. -/
theorem apart_perm (h : claimed.Perm claimed') :
    Apart live name claimed ↔ Apart live name claimed' := by
  constructor
  · rintro ⟨hinj, hnodup, hunused⟩
    exact ⟨hinj, h.nodup_iff.mp hnodup, fun x hx => hunused x (h.mem_iff.mpr hx)⟩
  · rintro ⟨hinj, hnodup, hunused⟩
    exact ⟨hinj, h.nodup_iff.mpr hnodup, fun x hx => hunused x (h.mem_iff.mp hx)⟩

/-- Fewer live entries with the names they had, and fewer claims. -/
theorem Apart.mono (h : Apart live name claimed) (hlive : live' ⊆ live)
    (hname : ∀ a ∈ live', name' a = name a) (hclaimed : claimed'.Sublist claimed) :
    Apart live' name' claimed' := by
  refine ⟨(h.injOn.mono hlive).congr fun a ha => (hname a ha).symm, h.nodup.sublist hclaimed, ?_⟩
  intro x hx a ha
  rw [hname a ha]
  exact h.unused x (hclaimed.subset hx) a (hlive ha)

/-- A further claim needs a name that is neither in use nor claimed. -/
theorem apart_cons {x : β} :
    Apart live name (x :: claimed) ↔
      (∀ a ∈ live, name a ≠ x) ∧ x ∉ claimed ∧ Apart live name claimed := by
  constructor
  · rintro ⟨hinj, hnodup, hunused⟩
    obtain ⟨hx, hnodup'⟩ := List.nodup_cons.mp hnodup
    exact ⟨hunused x List.mem_cons_self, hx, hinj, hnodup',
      fun y hy => hunused y (List.mem_cons_of_mem x hy)⟩
  · rintro ⟨hx, hnot, hinj, hnodup, hunused⟩
    refine ⟨hinj, List.nodup_cons.mpr ⟨hnot, hnodup⟩, ?_⟩
    intro y hy
    rcases List.mem_cons.mp hy with rfl | hy
    · exact hx
    · exact hunused y hy

/-- An entry becomes live under a name that was claimed for it. -/
theorem Apart.publish {a : α} (h : Apart live name (name a :: claimed)) :
    Apart (insert a live) name claimed := by
  obtain ⟨hfree, hnot, hrest⟩ := apart_cons.mp h
  have ha : a ∉ live := fun ha => hfree a ha rfl
  refine ⟨(Set.injOn_insert ha).mpr ⟨hrest.injOn, ?_⟩, hrest.nodup, ?_⟩
  · rintro ⟨b, hb, heq⟩
    exact hfree b hb heq
  · intro x hx b hb
    rcases Set.mem_insert_iff.mp hb with rfl | hb
    · rintro rfl
      exact hnot hx
    · exact hrest.unused x hx b hb

end UniqueNames
