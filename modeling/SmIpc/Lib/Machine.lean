import Mathlib.Data.List.Induction
import Mathlib.Logic.Relation
import SmIpc.Lib.PairedLists

/-! # Step machines and their runs

A step machine is a partial function from a state and an input to an output and a next state; the
input resolves every choice a step leaves open (which thread moves, which address is handed out),
so that a run is a computation. This file gives the rules the later files reason with:

* **`run`** executes a list of inputs and collects the outputs; `run_snoc` peels the last step.
* **`Steps`** forgets the inputs and outputs; `exists_run` gives a run for what its closure reaches.
* **`Along`** says that every step of a run, taken from the state it is taken in, meets a condition;
  `along_congr` replaces the condition.
* **`run_induction`** and **`run_induction_along`** are the invariant rules: what holds of the empty
  run and is kept by one more step holds of every run.
* **`run_safe_along`** concludes from an invariant about every output of a run.
* **`run_induction_ghost`** is the invariant rule with a value computed from the inputs and outputs so
  far, **`run_induction_counts`** the one with the numbers of steps of two kinds.
* **`run_refines`** turns a step-wise simulation into equality of the outputs of whole runs, and
  **`run_realizes`** gives the runs of a machine that never gets stuck as runs of an abstract side that
  is a relation (`RelRun`).
* **`run_simulates`** matches the runs of a machine by those of a coarser one, which may stutter, and
  **`run_finishes`** those of a machine that takes an abstract step piece by piece.
* **`Throughout`** says that every state of a run has a property; **`throughout_of_along`** proves it from
  an invariant, **`throughout_iff_along_of`** and **`throughout_iff_along`** turn it into a condition on
  the steps.
* **`run_countdown`** bounds the length of the runs of a machine whose steps count down, and says what they
  put out; **`exists_run_rest`** runs it to its end. -/

universe u v w x

/-- A step machine on states `σ` with inputs `ι` and outputs `ο`: `none` is a step that cannot be
taken. -/
abbrev StepMachine (σ : Type u) (ι : Type v) (ο : Type w) := σ → ι → Option (ο × σ)

namespace StepMachine

variable {σ : Type u} {ι : Type v} {ο : Type w} {τ : Type x}

/-- Run a list of inputs, collecting the outputs in order. -/
def run (f : StepMachine σ ι ο) : σ → List ι → Option (List ο × σ)
  | s, [] => some ([], s)
  | s, i :: is => (f s i).bind fun r => (run f r.2 is).map fun t => (r.1 :: t.1, t.2)

@[simp] theorem run_nil (f : StepMachine σ ι ο) (s : σ) : run f s [] = some ([], s) := rfl

/-- Cons reading of `run`: the first step, then the rest from where it leads. -/
theorem run_cons (f : StepMachine σ ι ο) (s t : σ) (i : ι) (is : List ι) (os : List ο) :
    run f s (i :: is) = some (os, t) ↔
      ∃ o u os', f s i = some (o, u) ∧ run f u is = some (os', t) ∧ os = o :: os' := by
  simp only [run, Option.bind_eq_some_iff, Option.map_eq_some_iff, Prod.exists, Prod.mk.injEq]
  constructor
  · rintro ⟨o, u, hf, os', t', hr, rfl, rfl⟩
    exact ⟨o, u, os', hf, hr, rfl⟩
  · rintro ⟨o, u, os', hf, hr, rfl⟩
    exact ⟨o, u, hf, os', t, hr, rfl, rfl⟩

/-- A run over an appended input list is a run over each part. -/
theorem run_append (f : StepMachine σ ι ο) (s t : σ) (is js : List ι) (os : List ο) :
    run f s (is ++ js) = some (os, t) ↔
      ∃ u os₁ os₂, run f s is = some (os₁, u) ∧ run f u js = some (os₂, t) ∧ os = os₁ ++ os₂ := by
  induction is generalizing s os with
  | nil =>
    constructor
    · intro h; exact ⟨s, [], os, rfl, h, rfl⟩
    · rintro ⟨u, os₁, os₂, h₁, h₂, rfl⟩
      obtain ⟨rfl, rfl⟩ : [] = os₁ ∧ s = u := by simpa using h₁
      exact h₂
  | cons i is ih =>
    rw [List.cons_append, run_cons]
    constructor
    · rintro ⟨o, u, os', hf, hr, rfl⟩
      -- the first step goes with the first part
      obtain ⟨v, os₁, os₂, h₁, h₂, rfl⟩ := (ih u os').mp hr
      exact ⟨v, o :: os₁, os₂, (run_cons f s v i is _).mpr ⟨o, u, os₁, hf, h₁, rfl⟩, h₂, rfl⟩
    · rintro ⟨v, os₁, os₂, h₁, h₂, rfl⟩
      obtain ⟨o, u, os', hf, hr, rfl⟩ := (run_cons f s v i is os₁).mp h₁
      exact ⟨o, u, os' ++ os₂, hf, (ih u _).mpr ⟨v, os', os₂, hr, h₂, rfl⟩, rfl⟩

/-- A run followed by a step and a run is a run. -/
theorem run_append_cons {f : StepMachine σ ι ο} {s u v t : σ} {is js : List ι} {i : ι} {o : ο}
    {os₁ os₂ : List ο} (h₁ : run f s is = some (os₁, u)) (hf : f u i = some (o, v))
    (h₂ : run f v js = some (os₂, t)) :
    run f s (is ++ i :: js) = some (os₁ ++ o :: os₂, t) :=
  (run_append f s t is _ _).mpr
    ⟨u, os₁, o :: os₂, h₁, (run_cons f u t i js _).mpr ⟨o, v, os₂, hf, h₂, rfl⟩, rfl⟩

/-- A run with one more input is the run without it followed by one step. -/
theorem run_snoc (f : StepMachine σ ι ο) (s t : σ) (is : List ι) (i : ι) (os : List ο) :
    run f s (is ++ [i]) = some (os, t) ↔
      ∃ u os' o, run f s is = some (os', u) ∧ f u i = some (o, t) ∧ os = os' ++ [o] := by
  rw [run_append]
  constructor
  · rintro ⟨u, os₁, os₂, h₁, h₂, rfl⟩
    obtain ⟨o, v, os', hf, hr, rfl⟩ := (run_cons f u t i [] os₂).mp h₂
    obtain ⟨rfl, rfl⟩ : [] = os' ∧ v = t := by simpa using hr
    exact ⟨u, os₁, o, h₁, hf, rfl⟩
  · rintro ⟨u, os', o, h₁, hf, rfl⟩
    exact ⟨u, os', [o], h₁, (run_cons f u t i [] _).mpr ⟨o, t, [], hf, rfl, rfl⟩, rfl⟩

/-- Some input leads from `s` to `t`. -/
def Steps (f : StepMachine σ ι ο) (s t : σ) : Prop := ∃ i o, f s i = some (o, t)

/-- What is reachable is reached by a run. -/
theorem exists_run (f : StepMachine σ ι ο) {s t : σ} (h : Relation.ReflTransGen (Steps f) s t) :
    ∃ is os, run f s is = some (os, t) := by
  induction h with
  | refl => exact ⟨[], [], rfl⟩
  | @tail u v _ hstep ih =>
    obtain ⟨is, os, hr⟩ := ih
    obtain ⟨i, o, hf⟩ := hstep
    exact ⟨is ++ [i], os ++ [o], (run_snoc f s v is i _).mpr ⟨u, os, o, hr, hf, rfl⟩⟩

/-- Every step of the run from `s` over the inputs meets the condition `C`, read in the state the
step is taken from. -/
def Along (f : StepMachine σ ι ο) (C : σ → ι → Prop) : σ → List ι → Prop
  | _, [] => True
  | s, i :: is => C s i ∧ ∀ o t, f s i = some (o, t) → Along f C t is

/-- A step that is taken and meets the condition, before a run that does. -/
theorem along_cons {f : StepMachine σ ι ο} {C : σ → ι → Prop} {s t : σ} {i : ι} {o : ο}
    {is : List ι} (hC : C s i) (hf : f s i = some (o, t)) (hrest : Along f C t is) :
    Along f C s (i :: is) := by
  refine ⟨hC, ?_⟩
  intro o' t' hf'
  obtain ⟨-, rfl⟩ := Prod.mk.inj (Option.some.inj (hf.symm.trans hf'))
  exact hrest

/-- A condition that holds of every input in every state is met by a run over these inputs. -/
theorem along_of_forall_mem (f : StepMachine σ ι ο) {C : σ → ι → Prop} {is : List ι}
    (h : ∀ i ∈ is, ∀ s, C s i) (s : σ) : Along f C s is := by
  induction is generalizing s with
  | nil => trivial
  | cons i is ih =>
    refine ⟨h i List.mem_cons_self s, fun _ t _ => ih (fun j hj => h j ?_) t⟩
    exact List.mem_cons_of_mem i hj

/-- A condition that always holds is met by every run. -/
theorem along_of_forall (f : StepMachine σ ι ο) {C : σ → ι → Prop} (h : ∀ s i, C s i) (s : σ)
    (is : List ι) : Along f C s is :=
  along_of_forall_mem f (fun i _ s => h s i) s

/-- A run meets two conditions if it meets each. -/
theorem along_and {f : StepMachine σ ι ο} {C D : σ → ι → Prop} {s : σ} {is : List ι} (hC : Along f C s is)
    (hD : Along f D s is) : Along f (fun s i => C s i ∧ D s i) s is := by
  induction is generalizing s with
  | nil => trivial
  | cons i is ih => exact ⟨⟨hC.1, hD.1⟩, fun o t hf => ih (hC.2 o t hf) (hD.2 o t hf)⟩

/-- Conditions that are the same for the steps that can be taken are met by the same runs. -/
theorem along_congr {f : StepMachine σ ι ο} {C D : σ → ι → Prop}
    (h : ∀ s i o t, f s i = some (o, t) → (C s i ↔ D s i)) {s t : σ} {is : List ι} {os : List ο}
    (hr : run f s is = some (os, t)) : Along f C s is ↔ Along f D s is := by
  induction is generalizing s os with
  | nil => exact Iff.rfl
  | cons i is ih =>
    obtain ⟨o, u, os', hf, hr', rfl⟩ := (run_cons f s t i is os).mp hr
    have hrest : ∀ o' v, f s i = some (o', v) → (Along f C v is ↔ Along f D v is) := by
      intro o' v hv
      obtain ⟨-, rfl⟩ := Prod.mk.inj (Option.some.inj (hf.symm.trans hv))
      exact ih hr'
    exact and_congr (h s i o u hf) (forall₃_congr hrest)

/-- A run meets a condition with one more input exactly when the shorter run does and the last step
does, in the state it is taken from. -/
theorem along_snoc (f : StepMachine σ ι ο) (C : σ → ι → Prop) (s u : σ) (is : List ι) (i : ι)
    (os : List ο) (hr : run f s is = some (os, u)) :
    Along f C s (is ++ [i]) ↔ Along f C s is ∧ C u i := by
  induction is generalizing s os with
  | nil =>
    obtain ⟨rfl, rfl⟩ : [] = os ∧ s = u := by simpa using hr
    simp [Along]
  | cons j is ih =>
    obtain ⟨o, v, os', hf, hr', rfl⟩ := (run_cons f s u j is os).mp hr
    -- the first step leads to one state only
    have hv : ∀ o' t, f s j = some (o', t) → t = v := by
      intro o' t h
      rw [hf] at h
      exact (Prod.mk.inj (Option.some.inj h)).2.symm
    simp only [List.cons_append, Along]
    constructor
    · rintro ⟨hC, hrest⟩
      have hs := (ih v os' hr').mp (hrest o v hf)
      exact ⟨⟨hC, fun o' t ht => hv o' t ht ▸ hs.1⟩, hs.2⟩
    · rintro ⟨⟨hC, hrest⟩, hi⟩
      exact ⟨hC, fun o' t ht => hv o' t ht ▸ (ih v os' hr').mpr ⟨hrest o v hf, hi⟩⟩

/-- **Invariant rule, with a condition on the steps.** What holds of the empty run, and is kept by
every further step that meets the condition, holds of every run whose steps all meet it. -/
theorem run_induction_along (f : StepMachine σ ι ο) (C : σ → ι → Prop) {s₀ : σ}
    (P : List ι → List ο → σ → Prop) (h₀ : P [] [] s₀)
    (hstep : ∀ is os s i o t, run f s₀ is = some (os, s) → P is os s → C s i →
      f s i = some (o, t) → P (is ++ [i]) (os ++ [o]) t)
    {is : List ι} {os : List ο} {s : σ} (hC : Along f C s₀ is) (hr : run f s₀ is = some (os, s)) :
    P is os s := by
  induction is using List.reverseRecOn generalizing os s with
  | nil =>
    obtain ⟨rfl, rfl⟩ : [] = os ∧ s₀ = s := by simpa using hr
    exact h₀
  | append_singleton is i ih =>
    -- the induction peels the last step, so the invariant is used where it holds
    obtain ⟨u, os', o, hu, hf, rfl⟩ := (run_snoc f s₀ s is i os).mp hr
    obtain ⟨hC', hi⟩ := (along_snoc f C s₀ u is i os' hu).mp hC
    exact hstep is os' u i o s hu (ih hC' hu) hi hf

/-- **Invariant rule.** What holds of the empty run and is kept by every further step holds of
every run. -/
theorem run_induction (f : StepMachine σ ι ο) {s₀ : σ} (P : List ι → List ο → σ → Prop)
    (h₀ : P [] [] s₀)
    (hstep : ∀ is os s i o t, run f s₀ is = some (os, s) → P is os s →
      f s i = some (o, t) → P (is ++ [i]) (os ++ [o]) t)
    {is : List ι} {os : List ο} {s : σ} (hr : run f s₀ is = some (os, s)) : P is os s :=
  run_induction_along f (fun _ _ => True) P h₀
    (fun is os s i o t hr hP _ hf => hstep is os s i o t hr hP hf)
    (along_of_forall f (fun _ _ => trivial) s₀ is) hr

/-- **Safety rule.** If every step that meets the condition keeps an invariant and has an output with a
property, then every output of a run whose steps all meet the condition has it. -/
theorem run_safe_along (f : StepMachine σ ι ο) (C : σ → ι → Prop) (I : σ → Prop) (P : ο → Prop)
    {s₀ : σ} (h₀ : I s₀)
    (hstep : ∀ s i o t, I s → C s i → f s i = some (o, t) → I t ∧ P o)
    {is : List ι} {os : List ο} {s : σ} (hC : Along f C s₀ is) (hr : run f s₀ is = some (os, s)) :
    I s ∧ ∀ o ∈ os, P o := by
  refine run_induction_along f C (fun _ os s => I s ∧ ∀ o ∈ os, P o) ?_ ?_ hC hr
  · exact ⟨h₀, fun o ho => absurd ho List.not_mem_nil⟩
  · rintro is os u i o t - ⟨hIu, hos⟩ hCi hf
    obtain ⟨hIt, ho⟩ := hstep u i o t hIu hCi hf
    refine ⟨hIt, ?_⟩
    intro o' ho'
    rcases List.mem_append.mp ho' with ho' | ho'
    · exact hos o' ho'
    · rwa [List.mem_singleton.mp ho']

/-- **Invariant rule, with a ghost value.** What holds of a state and of a value computed from the inputs
and outputs so far, and is kept by every step that meets the condition, holds after every run whose steps
all meet it. -/
theorem run_induction_ghost {γ : Type*} (f : StepMachine σ ι ο) (C : σ → ι → Prop) (g : γ → ι → ο → γ)
    (P : γ → σ → Prop)
    (hstep : ∀ c s i o t, P c s → C s i → f s i = some (o, t) → P (g c i o) t)
    {c : γ} {s t : σ} {is : List ι} {os : List ο} (h₀ : P c s) (hC : Along f C s is)
    (hr : run f s is = some (os, t)) :
    P ((is.zip os).foldl (fun c io => g c io.1 io.2) c) t := by
  induction is generalizing c s os with
  | nil =>
    obtain ⟨rfl, rfl⟩ : [] = os ∧ s = t := by simpa using hr
    exact h₀
  | cons i is ih =>
    obtain ⟨o, u, os', hf, hr', rfl⟩ := (run_cons f s t i is os).mp hr
    rw [List.zip_cons_cons, List.foldl_cons]
    exact ih (hstep c s i o u h₀ hC.1 hf) (hC.2 o u hf) hr'

/-- Counting as a value computed step by step. -/
theorem foldl_counts {α : Type*} (p q : α → Bool) (l : List α) (a b : ℕ) :
    l.foldl (fun c x => (c.1 + if p x then 1 else 0, c.2 + if q x then 1 else 0)) (a, b) =
      (a + l.countP p, b + l.countP q) := by
  induction l generalizing a b with
  | nil => rfl
  | cons x l ih =>
    rw [List.foldl_cons, ih, List.countP_cons, List.countP_cons]
    simp only [Prod.mk.injEq]
    constructor <;> omega

/-- **Invariant rule, with two counters.** What holds of the numbers of steps of two kinds and of the
state, at first with none of them, and is kept by every step that meets the condition, holds after every
run whose steps all meet it. -/
theorem run_induction_counts (f : StepMachine σ ι ο) (C : σ → ι → Prop) (p q : ι → ο → Bool)
    (P : ℕ → ℕ → σ → Prop)
    (hstep : ∀ a b s i o t, P a b s → C s i → f s i = some (o, t) →
      P (a + if p i o then 1 else 0) (b + if q i o then 1 else 0) t)
    {s t : σ} {is : List ι} {os : List ο} (h₀ : P 0 0 s) (hC : Along f C s is)
    (hr : run f s is = some (os, t)) :
    P ((is.zip os).countP fun io => p io.1 io.2) ((is.zip os).countP fun io => q io.1 io.2) t := by
  have hghost := run_induction_ghost f C
    (fun c i o => (c.1 + if p i o then 1 else 0, c.2 + if q i o then 1 else 0))
    (fun c s => P c.1 c.2 s) (fun c s i o t h hi hf => hstep c.1 c.2 s i o t h hi hf)
    (c := (0, 0)) h₀ hC hr
  rw [foldl_counts (fun io : ι × ο => p io.1 io.2) (fun io => q io.1 io.2)] at hghost
  simpa only [Nat.zero_add] using hghost

/-- A run whose last output lacks a property is one not all of whose outputs have it. -/
theorem run_getLast_not {f : StepMachine σ ι ο} {P : ο → Prop} {s t : σ} {is : List ι} {os : List ο}
    {o : ο} (hr : run f s is = some (os, t)) (hlast : os.getLast? = some o) (hnot : ¬ P o) :
    ∃ os t, run f s is = some (os, t) ∧ os.getLast? = some o ∧ ¬ ∀ o ∈ os, P o :=
  ⟨os, t, hr, hlast, fun hall => hnot (hall o (List.mem_of_getLast? hlast))⟩

/-- Every state the run from `s` over the inputs goes through, the first and the last included, has
the property. -/
def Throughout (f : StepMachine σ ι ο) (P : σ → Prop) (s : σ) (is : List ι) : Prop :=
  ∀ before after os t, is = before ++ after → run f s before = some (os, t) → P t

/-- A run whose steps all meet a condition has first parts that do. -/
theorem along_append_left (f : StepMachine σ ι ο) (C : σ → ι → Prop) {s : σ} {is js : List ι}
    (h : Along f C s (is ++ js)) : Along f C s is := by
  induction is generalizing s with
  | nil => trivial
  | cons i is ih => exact ⟨h.1, fun o t hf => ih (h.2 o t hf)⟩

/-- **Invariant rule, for all states of a run.** If an invariant is kept by the steps that meet a
condition, every state of a run whose steps all meet it has what the invariant implies. -/
theorem throughout_of_along (f : StepMachine σ ι ο) (C : σ → ι → Prop) (J P : σ → Prop) {s₀ : σ}
    (h₀ : J s₀) (hJ : ∀ s, J s → P s)
    (hstep : ∀ s i o t, J s → C s i → f s i = some (o, t) → J t) {is : List ι}
    (hC : Along f C s₀ is) : Throughout f P s₀ is := by
  rintro before after os t rfl hr
  refine hJ t (run_induction_along f C (fun _ _ s => J s) h₀ ?_ (along_append_left f C hC) hr)
  intro _ _ s i o t _ hJs hCi hf
  exact hstep s i o t hJs hCi hf

/-- A run with one more input goes through the states of the run without it, and the last one. -/
theorem throughout_snoc (f : StepMachine σ ι ο) (P : σ → Prop) {s t : σ} {is : List ι} {i : ι}
    {os : List ο} (hr : run f s (is ++ [i]) = some (os, t)) :
    Throughout f P s (is ++ [i]) ↔ Throughout f P s is ∧ P t := by
  constructor
  · intro h
    refine ⟨fun before after os' t' heq => h before (after ++ [i]) os' t' ?_,
      h (is ++ [i]) [] os t (List.append_nil _).symm hr⟩
    rw [heq, List.append_assoc]
  · rintro ⟨h, ht⟩ before after os' t' heq hr'
    -- a first part of the longer run is the whole of it, or one of the shorter run
    rcases List.eq_nil_or_concat after with rfl | ⟨after', x, rfl⟩
    · rw [List.append_nil] at heq
      rw [← heq, hr] at hr'
      obtain ⟨-, rfl⟩ := Prod.mk.inj (Option.some.inj hr')
      exact ht
    · rw [List.concat_eq_append, ← List.append_assoc] at heq
      exact h before after' os' t' (List.append_inj' heq rfl).1 hr'

/-- **Properties of all states as conditions on the steps, through an invariant.** If a step from a
state with the invariant leads to one with the invariant when it meets the condition, and to one
without the property when it does not, then every state of a run has the property exactly when all its
steps meet the condition. -/
theorem throughout_iff_along_of (f : StepMachine σ ι ο) (C : σ → ι → Prop) (J P : σ → Prop) {s₀ : σ}
    (h₀ : J s₀) (hJ : ∀ s, J s → P s)
    (hstep : ∀ s i o t, J s → f s i = some (o, t) → (C s i → J t) ∧ (¬ C s i → ¬ P t))
    {is : List ι} {os : List ο} {s : σ} (hr : run f s₀ is = some (os, s)) :
    Throughout f P s₀ is ↔ Along f C s₀ is := by
  have hgood : (Along f C s₀ is → J s) ∧ (Throughout f P s₀ is ↔ Along f C s₀ is) := by
    refine run_induction f
      (fun is _ s => (Along f C s₀ is → J s) ∧ (Throughout f P s₀ is ↔ Along f C s₀ is)) ?_ ?_ hr
    · refine ⟨fun _ => h₀, fun _ => trivial, ?_⟩
      intro _ before after os t heq hr
      obtain ⟨rfl, -⟩ := List.append_eq_nil_iff.mp heq.symm
      obtain ⟨rfl, rfl⟩ : [] = os ∧ s₀ = t := by simpa using hr
      exact hJ s₀ h₀
    · rintro is os u i o t hu ⟨hJu, ih⟩ hf
      have hsnoc : run f s₀ (is ++ [i]) = some (os ++ [o], t) :=
        (run_snoc f s₀ t is i _).mpr ⟨u, os, o, hu, hf, rfl⟩
      rw [throughout_snoc f P hsnoc, along_snoc f C s₀ u is i os hu, ih]
      constructor
      · rintro ⟨hC, hi⟩
        exact (hstep u i o t (hJu hC) hf).1 hi
      · refine and_congr_right fun hC => ⟨?_, ?_⟩
        · intro hPt
          -- a step that missed the condition would have lost the property
          by_contra hi
          exact (hstep u i o t (hJu hC) hf).2 hi hPt
        · intro hi
          exact hJ t ((hstep u i o t (hJu hC) hf).1 hi)
  exact hgood.2

/-- **Properties of all states as conditions on the steps.** If, from a state with the property, a
step leads to one with the property exactly when it meets the condition, then every state of a run
has the property exactly when all its steps meet the condition. -/
theorem throughout_iff_along (f : StepMachine σ ι ο) (C : σ → ι → Prop) (I P : σ → Prop) {s₀ : σ}
    (h₀ : I s₀) (hP₀ : P s₀) (hI : ∀ s i o t, I s → f s i = some (o, t) → I t)
    (hstep : ∀ s i o t, I s → P s → f s i = some (o, t) → (P t ↔ C s i))
    {is : List ι} {os : List ο} {s : σ} (hr : run f s₀ is = some (os, s)) :
    Throughout f P s₀ is ↔ Along f C s₀ is := by
  refine throughout_iff_along_of f C (fun s => I s ∧ P s) P ⟨h₀, hP₀⟩ (fun _ h => h.2) ?_ hr
  rintro s i o t ⟨hIs, hPs⟩ hf
  have hiff := hstep s i o t hIs hPs hf
  exact ⟨fun hC => ⟨hI s i o t hIs hf, hiff.mpr hC⟩, fun hC hPt => hC (hiff.mp hPt)⟩

/-- **Refinement of whole runs.** If related states answer every input alike and lead to related
states, then every run of the concrete machine is a run of the abstract one with the same
outputs. -/
theorem run_refines (f : StepMachine σ ι ο) (g : StepMachine τ ι ο) (R : σ → τ → Prop)
    (hsim : ∀ s t i o s', R s t → f s i = some (o, s') → ∃ t', g t i = some (o, t') ∧ R s' t')
    {s s' : σ} {t : τ} {is : List ι} {os : List ο} (hR : R s t)
    (hr : run f s is = some (os, s')) : ∃ t', run g t is = some (os, t') ∧ R s' t' := by
  induction is generalizing s t os with
  | nil =>
    obtain ⟨rfl, rfl⟩ : [] = os ∧ s = s' := by simpa using hr
    exact ⟨t, rfl, hR⟩
  | cons i is ih =>
    obtain ⟨o, u, os', hf, hr', rfl⟩ := (run_cons f s s' i is os).mp hr
    obtain ⟨t₁, hg, hR₁⟩ := hsim s t i o u hR hf
    obtain ⟨t', hrun, hR'⟩ := ih hR₁ hr'
    exact ⟨t', (run_cons g t t' i is _).mpr ⟨o, t₁, os', hg, hrun, rfl⟩, hR'⟩

section Simulation

variable {κ π α : Type*}

/-- The machine takes one step from `t` to `t'` with an input of a kind, and `v` is seen of its output; or it
takes none, if nothing is to be seen. -/
def Answers (g : StepMachine τ κ π) (A : κ → Prop) (seen : π → Option α) (t : τ) (v : Option α) (t' : τ) :
    Prop :=
  (t' = t ∧ v = none) ∨ ∃ j p, A j ∧ g t j = some (p, t') ∧ seen p = v

/-- **Simulation of whole runs, with steps that stutter.** If from related states every step of the concrete
machine that meets a condition is answered by the abstract one, with the same seen, then every run of the
concrete machine whose steps meet the condition is matched by a run of the abstract one that is no longer
and of which the same is seen. -/
theorem run_simulates (f : StepMachine σ ι ο) (g : StepMachine τ κ π) (C : σ → ι → Prop) (A : κ → Prop)
    (R : σ → τ → Prop) (seen : ο → Option α) (seen' : π → Option α)
    (hstep : ∀ s t i o s', R s t → C s i → f s i = some (o, s') →
      ∃ t', Answers g A seen' t (seen o) t' ∧ R s' t')
    {s s' : σ} {t : τ} {is : List ι} {os : List ο} (hR : R s t) (hC : Along f C s is)
    (hr : run f s is = some (os, s')) :
    ∃ js ps t', run g t js = some (ps, t') ∧ R s' t' ∧ (∀ j ∈ js, A j) ∧ js.length ≤ is.length ∧
      ps.filterMap seen' = os.filterMap seen := by
  refine run_induction_along f C
    (fun is os s' => ∃ js ps t', run g t js = some (ps, t') ∧ R s' t' ∧ (∀ j ∈ js, A j) ∧
      js.length ≤ is.length ∧ ps.filterMap seen' = os.filterMap seen)
    ⟨[], [], t, rfl, hR, fun _ hj => absurd hj List.not_mem_nil, Nat.le_refl 0, rfl⟩ ?_ hC hr
  rintro is os s i o s' - ⟨js, ps, t', hrun, hR, hA, hlen, hseen⟩ hC hf
  obtain ⟨u, hanswer, hR'⟩ := hstep s t' i o s' hR hC hf
  rcases hanswer with ⟨rfl, hnone⟩ | ⟨j, p, hj, hg, hv⟩
  · refine ⟨js, ps, u, hrun, hR', hA, ?_, ?_⟩
    · rw [List.length_append]
      exact Nat.le_add_right_of_le hlen
    · rw [PairedLists.filterMap_snoc, hnone, hseen]
      exact (List.append_nil _).symm
  · refine ⟨js ++ [j], ps ++ [p], u, ?_, hR', ?_, ?_, ?_⟩
    · exact (run_snoc g t u js j _).mpr ⟨t', ps, p, hrun, hg, rfl⟩
    · intro i hi
      rcases List.mem_append.mp hi with hi | hi
      · exact hA i hi
      · rw [List.mem_singleton.mp hi]
        exact hj
    · rw [List.length_append, List.length_append]
      exact Nat.add_le_add_right hlen 1
    · rw [PairedLists.filterMap_snoc, PairedLists.filterMap_snoc, hv, hseen]

end Simulation

/-- **Refinement by finishing what was begun.** A machine works on a step of the abstract side piece by
piece, and shows when it begins one. `finish` is what it has still to put out for the step it is in, and the
abstract state it will then be in. If every step agrees with the abstract one it begins, up to `finish`, then
so does a whole run. -/
theorem run_finishes {κ δ : Type*} (f : StepMachine σ ι (Option κ × List δ)) (g : StepMachine τ κ (List δ))
    (finish : σ → List δ × τ)
    (hstep : ∀ s i o s', f s i = some (o, s') →
      ∃ ps, run g (finish s).2 o.1.toList = some (ps, (finish s').2) ∧
        (finish s).1 ++ ps.flatten = o.2 ++ (finish s').1)
    {s s' : σ} {is : List ι} {os : List (Option κ × List δ)} (hr : run f s is = some (os, s')) :
    ∃ ps, run g (finish s).2 (os.filterMap Prod.fst) = some (ps, (finish s').2) ∧
      (finish s).1 ++ ps.flatten = os.flatMap Prod.snd ++ (finish s').1 := by
  induction is generalizing s os with
  | nil =>
    obtain ⟨rfl, rfl⟩ : [] = os ∧ s = s' := by simpa using hr
    exact ⟨[], rfl, List.append_nil _⟩
  | cons i is ih =>
    obtain ⟨⟨k, o⟩, u, os', hf, hr', rfl⟩ := (run_cons f s s' i is os).mp hr
    obtain ⟨ps₁, h₁, hflat₁⟩ := hstep s i (k, o) u hf
    obtain ⟨ps₂, h₂, hflat₂⟩ := ih hr'
    have hbegun : ((k, o) :: os').filterMap Prod.fst = k.toList ++ os'.filterMap Prod.fst := by
      cases k <;> rfl
    refine ⟨ps₁ ++ ps₂, ?_, ?_⟩
    · rw [hbegun]
      exact (run_append g _ _ _ _ _).mpr ⟨_, ps₁, ps₂, h₁, h₂, rfl⟩
    · rw [List.flatten_append, ← List.append_assoc, hflat₁, List.append_assoc, hflat₂, List.flatMap_cons,
        List.append_assoc]

/-- The runs of an abstract side given as a relation between a state, an input, an output and a next
state. -/
def RelRun (S : τ → ι → ο → τ → Prop) : τ → List ι → List ο → τ → Prop
  | t, [], [], t' => t = t'
  | t, i :: is, o :: os, t' => ∃ u, S t i o u ∧ RelRun S u is os t'
  | _, [], _ :: _, _ => False
  | _, _ :: _, [], _ => False

/-- **Realisation of whole runs.** If from related states every input can be taken, and what it gives is
a step of the abstract side to related states, then every list of inputs can be run, and its run is
one of the abstract side. -/
theorem run_realizes (f : StepMachine σ ι ο) (S : τ → ι → ο → τ → Prop) (R : σ → τ → Prop)
    (hsim : ∀ s t i, R s t → ∃ o s' t', f s i = some (o, s') ∧ S t i o t' ∧ R s' t')
    {s : σ} {t : τ} (hR : R s t) (is : List ι) :
    ∃ os s' t', run f s is = some (os, s') ∧ RelRun S t is os t' ∧ R s' t' := by
  induction is generalizing s t with
  | nil => exact ⟨[], s, t, rfl, rfl, hR⟩
  | cons i is ih =>
    obtain ⟨o, s₁, t₁, hf, hS, hR₁⟩ := hsim s t i hR
    obtain ⟨os, s', t', hrun, hrel, hR'⟩ := ih hR₁
    refine ⟨o :: os, s', t', ?_, ⟨t₁, hS, hrel⟩, hR'⟩
    exact (run_cons f s s' i is _).mpr ⟨o, s₁, os, hf, hrun, rfl⟩

/-! ### Runs that end -/

section Countdown

variable {δ : Type*} {f : StepMachine σ ι ο} {C : ι → Prop} {g : ο → List δ} {R : σ → List δ → ℕ → Prop}

/-- **Countdown rule.** If with `n` steps and the items `todo` to go every step with an input of a kind
leaves fewer steps, and puts out the first part of the items, then so does a run: it takes at most `n`
steps, and puts out a first part of the items. -/
theorem run_countdown
    (hstep : ∀ s i o t todo n, R s todo n → C i → f s i = some (o, t) →
      ∃ todo' n', R t todo' n' ∧ n' < n ∧ todo = g o ++ todo')
    {s t : σ} {is : List ι} {os : List ο} {todo : List δ} {n : ℕ} (hR : R s todo n)
    (hC : ∀ i ∈ is, C i) (hr : run f s is = some (os, t)) :
    ∃ todo' n', R t todo' n' ∧ is.length + n' ≤ n ∧ todo = os.flatMap g ++ todo' := by
  induction is generalizing s os todo n with
  | nil =>
    obtain ⟨rfl, rfl⟩ : [] = os ∧ s = t := by simpa using hr
    exact ⟨todo, n, hR, Nat.le_of_eq (Nat.zero_add n), rfl⟩
  | cons i is ih =>
    obtain ⟨o, u, os', hf, hr', rfl⟩ := (run_cons f s t i is os).mp hr
    obtain ⟨todo₁, n₁, hR₁, hlt, rfl⟩ := hstep s i o u todo n hR (hC i List.mem_cons_self) hf
    obtain ⟨todo', n', hR', hle, rfl⟩ :=
      ih hR₁ (fun j hj => hC j (List.mem_cons_of_mem i hj)) hr'
    refine ⟨todo', n', hR', ?_, ?_⟩
    · rw [List.length_cons]
      omega
    · rw [List.flatMap_cons, List.append_assoc]

/-- **Such a machine comes to rest**: some run ends where no step with such an input can be taken. -/
theorem exists_run_rest
    (hstep : ∀ s i o t todo n, R s todo n → C i → f s i = some (o, t) →
      ∃ todo' n', R t todo' n' ∧ n' < n ∧ todo = g o ++ todo')
    {s : σ} {todo : List δ} {n : ℕ} (hR : R s todo n) :
    ∃ is os t, (∀ i ∈ is, C i) ∧ run f s is = some (os, t) ∧ ∀ i, C i → f t i = none := by
  induction n using Nat.strongRecOn generalizing s todo with
  | _ n ih =>
    by_cases hrest : ∀ i, C i → f s i = none
    · exact ⟨[], [], s, fun i hi => absurd hi List.not_mem_nil, rfl, hrest⟩
    · push Not at hrest
      obtain ⟨i, hi, hne⟩ := hrest
      obtain ⟨⟨o, u⟩, hf⟩ := Option.ne_none_iff_exists'.mp hne
      obtain ⟨todo', n', hR', hlt, -⟩ := hstep s i o u todo n hR hi hf
      obtain ⟨is, os, t, hC, hr, hrest⟩ := ih n' hlt hR'
      refine ⟨i :: is, o :: os, t, ?_, (run_cons f s t i is _).mpr ⟨o, u, os, hf, hr, rfl⟩, hrest⟩
      intro j hj
      rcases List.mem_cons.mp hj with rfl | hj
      · exact hi
      · exact hC j hj

end Countdown

end StepMachine
