import Mathlib.Data.List.Basic

/-! Transition systems given by a step function.

A concurrent program is a set of tasks whose atomic steps interleave; every
interleaving is a list of labels, and the labels carry whatever the environment
chooses at that step (the bytes a peer sends, the clock, which task runs). A
`System` says where a label is enabled and what it does. `Steps` are the runs
whose every step is allowed by a condition `C` on the label and the state it is
taken in; `Reachable` puts no condition.

`Reach.invariant` is the induction every safety theorem rests on, and
`reach_of_run` turns an executed run into a reached state. A `Trace` is a run together with
its labels, and a `Simulation` takes the runs of one system to runs of another. -/
namespace Rps.Base

/-- What each label does to a state; `none` where it is not enabled. -/
structure System (σ α : Type) where
  init : σ
  step : α → σ → Option σ

namespace System
variable {σ α : Type} (S : System σ α)

/-- `t` is reached from `s` by steps that `C` allows where they are taken. -/
inductive Steps (C : α → σ → Prop) (s : σ) : σ → Prop where
  | refl : Steps C s s
  | step {t u : σ} {a : α} : Steps C s t → C a t → S.step a t = some u → Steps C s u

/-- Reached from the initial state by allowed steps. -/
def Reach (C : α → σ → Prop) (t : σ) : Prop := S.Steps C S.init t

/-- Reached from the initial state by any steps at all. -/
def Reachable (t : σ) : Prop := S.Reach (fun _ _ => True) t

variable {S} {C : α → σ → Prop}

theorem Steps.trans {s t u : σ} (h : S.Steps C s t) (h' : S.Steps C t u) : S.Steps C s u := by
  induction h' with
  | refl => exact h
  | step _ hc hs ih => exact .step ih hc hs

theorem Steps.mono {D : α → σ → Prop} (hCD : ∀ a s, C a s → D a s) {s t : σ}
    (h : S.Steps C s t) : S.Steps D s t := by
  induction h with
  | refl => exact .refl
  | step _ hc hs ih => exact .step ih (hCD _ _ hc) hs

/-- What holds at the start of a run and survives every allowed step holds at its end. -/
theorem Steps.invariant {I : σ → Prop} {s t : σ} (h : S.Steps C s t) (hs : I s)
    (hstep : ∀ a u v, I u → C a u → S.step a u = some v → I v) : I t := by
  induction h with
  | refl => exact hs
  | step _ hc ha ih => exact hstep _ _ _ ih hc ha

theorem Reach.invariant {I : σ → Prop} {t : σ} (h : S.Reach C t) (hinit : I S.init)
    (hstep : ∀ a u v, I u → C a u → S.step a u = some v → I v) : I t :=
  Steps.invariant h hinit hstep

theorem Reach.steps {s t : σ} (h : S.Reach C s) (h' : S.Steps C s t) : S.Reach C t :=
  Steps.trans h h'

theorem Reach.reachable {t : σ} (h : S.Reach C t) : S.Reachable t :=
  Steps.mono (fun _ _ _ => trivial) h

/-! ### Executed runs -/

variable (S) (C)

/-- Take the labels in order, each only where it is enabled and allowed. -/
def run [∀ a s, Decidable (C a s)] : List α → σ → Option σ
  | [], s => some s
  | a :: rest, s => if C a s then (S.step a s).bind (run rest) else none

variable {S} {C}

theorem steps_of_run [∀ a s, Decidable (C a s)] {as : List α} {s t : σ}
    (h : S.run C as s = some t) : S.Steps C s t := by
  induction as generalizing s with
  | nil =>
    obtain rfl : s = t := by simpa [run] using h
    exact .refl
  | cons a rest ih =>
    by_cases hc : C a s
    · simp only [run, hc, if_true, Option.bind_eq_some_iff] at h
      obtain ⟨u, hu, hrest⟩ := h
      exact Steps.trans (.step .refl hc hu) (ih hrest)
    · simp [run, hc] at h

/-- A run that ends where `p` holds reaches such a state. -/
theorem reach_of_run [∀ a s, Decidable (C a s)] (as : List α) (p : σ → Bool)
    (h : (S.run C as S.init).any p = true) : ∃ t, S.Reach C t ∧ p t = true := by
  cases hr : S.run C as S.init with
  | none => simp [hr] at h
  | some t => exact ⟨t, steps_of_run hr, by simpa [hr] using h⟩

/-! ### Runs and their labels -/

variable (S)

/-- The labels of a run from the initial state, in order, and where it ends. -/
inductive Trace : List α → σ → Prop where
  | nil : Trace [] S.init
  | snoc {as : List α} {s t : σ} {a : α} : Trace as s → S.step a s = some t → Trace (as ++ [a]) t

variable {S}

/-- A run goes through the states between its labels. -/
theorem Trace.cut {before after : List α} {a : α} {u : σ} (h : S.Trace (before ++ a :: after) u) :
    ∃ s t, S.Trace before s ∧ S.step a s = some t := by
  generalize hlabels : before ++ a :: after = labels at h
  induction h generalizing after with
  | nil => simp at hlabels
  | @snoc as s t b htrace hstep ih =>
    rcases List.eq_nil_or_concat after with rfl | ⟨init, last, rfl⟩
    · obtain ⟨rfl, rfl⟩ := List.append_singleton_inj.mp hlabels
      exact ⟨s, t, htrace, hstep⟩
    · rw [List.concat_eq_append, ← List.cons_append, ← List.append_assoc] at hlabels
      obtain ⟨rfl, rfl⟩ := List.append_singleton_inj.mp hlabels
      exact ih rfl

/-- The labels of a run tell where it ends. -/
theorem Trace.unique {as : List α} {s t : σ} (h : S.Trace as s) (h' : S.Trace as t) : s = t := by
  induction h generalizing t with
  | nil =>
    generalize hlabels : ([] : List α) = labels at h'
    cases h' with
    | nil => rfl
    | snoc _ _ => simp at hlabels
  | @snoc as s u a _ hstep ih =>
    generalize hlabels : as ++ [a] = labels at h'
    cases h' with
    | nil => simp at hlabels
    | snoc htrace hstep' =>
      obtain ⟨rfl, rfl⟩ := List.append_singleton_inj.mp hlabels
      obtain rfl := ih htrace
      exact Option.some.inj (hstep.symm.trans hstep')

/-- If a condition on a step decides whether `P` survives it, the condition on all steps of a run decides
whether `P` holds all along. -/
theorem Trace.forall_iff {P : σ → Prop} {C : α → σ → Prop} (hinit : P S.init)
    (hstep : ∀ (as : List α) (a : α) (s t : σ), S.Trace as s → P s → S.step a s = some t → (P t ↔ C a s))
    {as : List α} {s : σ} (h : S.Trace as s) :
    (∀ (before after : List α) (t : σ), as = before ++ after → S.Trace before t → P t) ↔
      ∀ (before : List α) (a : α) (after : List α) (t : σ), as = before ++ a :: after → S.Trace before t → C a t := by
  induction h with
  | nil =>
    constructor
    · intro _ before a after t hlabels
      simp at hlabels
    · intro _ before after t hlabels ht
      obtain ⟨rfl, rfl⟩ := List.nil_eq_append_iff.mp hlabels
      rwa [← Trace.unique .nil ht]
  | @snoc as s u a hs hu ih =>
    constructor
    · intro hall before b after t hlabels ht
      rcases List.eq_nil_or_concat after with rfl | ⟨init, last, rfl⟩
      · obtain ⟨rfl, rfl⟩ := List.append_singleton_inj.mp hlabels
        obtain rfl := Trace.unique hs ht
        have hP := hall as [a] s rfl hs
        exact (hstep as a s u hs hP hu).mp (hall (as ++ [a]) [] u (by simp) (.snoc hs hu))
      · rw [List.concat_eq_append, ← List.cons_append, ← List.append_assoc] at hlabels
        obtain ⟨rfl, -⟩ := List.append_singleton_inj.mp hlabels
        refine ih.mp ?_ before b init t rfl ht
        intro before' after' t' hcut ht'
        exact hall before' (after' ++ [a]) t' (by rw [hcut, List.append_assoc]) ht'
    · intro hall before after t hlabels ht
      have hprefix := ih.mpr (by
        intro before' b after' t' hcut ht'
        exact hall before' b (after' ++ [a]) t' (by rw [hcut, List.append_assoc, List.cons_append]) ht')
      rcases List.eq_nil_or_concat after with rfl | ⟨init, last, rfl⟩
      · rw [List.append_nil] at hlabels
        subst hlabels
        obtain rfl := Trace.unique (.snoc hs hu) ht
        have hP := hprefix as [] s (by simp) hs
        exact (hstep as a s _ hs hP hu).mpr (hall as a [] s rfl hs)
      · rw [List.concat_eq_append, ← List.append_assoc] at hlabels
        obtain ⟨rfl, -⟩ := List.append_singleton_inj.mp hlabels
        exact hprefix before init t rfl ht

theorem trace_of_run {C : α → σ → Prop} [∀ a s, Decidable (C a s)] {as bs : List α} {s t : σ} (hs : S.Trace as s)
    (h : S.run C bs s = some t) : S.Trace (as ++ bs) t := by
  induction bs generalizing as s with
  | nil =>
    obtain rfl : s = t := by simpa [run] using h
    simpa using hs
  | cons b bs ih =>
    by_cases hc : C b s
    · simp only [run, hc, if_true, Option.bind_eq_some_iff] at h
      obtain ⟨u, hu, hrest⟩ := h
      have := ih (.snoc hs hu) hrest
      simpa using this
    · simp [run, hc] at h

/-- Every step of an executed run meets the condition. -/
theorem run_meets {C : α → σ → Prop} [∀ a s, Decidable (C a s)] {before after : List α} {a : α} {s t u : σ}
    (h : S.run C (before ++ a :: after) s = some u) {as : List α} (hs : S.Trace as s) (ht : S.Trace (as ++ before) t) :
    C a t := by
  induction before generalizing as s with
  | nil =>
    rw [List.append_nil] at ht
    obtain rfl := hs.unique ht
    by_contra hc
    simp [run, hc] at h
  | cons b before ih =>
    by_cases hc : C b s
    · simp only [List.cons_append, run, hc, if_true, Option.bind_eq_some_iff] at h
      obtain ⟨v, hv, hrest⟩ := h
      exact ih hrest (.snoc hs hv) (by simpa using ht)
    · simp [run, hc] at h

/-- A run that ends where `p` holds, with its labels. -/
theorem trace_exists (as : List α) (p : σ → Bool) (h : (S.run (fun _ _ => True) as S.init).any p = true) :
    ∃ t, S.Trace as t ∧ p t = true := by
  obtain ⟨t, hrun, hp⟩ := Option.any_eq_true _ _ |>.mp h
  exact ⟨t, by simpa using trace_of_run .nil hrun, hp⟩

theorem Trace.reachable {as : List α} {t : σ} (h : S.Trace as t) : S.Reachable t := by
  induction h with
  | nil => exact .refl
  | snoc _ hstep ih => exact .step ih trivial hstep

/-! ### Simulation -/

/-- Along `R`, each allowed step of `S` is matched by allowed steps of `T`, if by any. -/
structure Simulation {τ β : Type} (S : System σ α) (C : α → σ → Prop) (T : System τ β) (D : β → τ → Prop)
    (R : σ → τ → Prop) : Prop where
  init : R S.init T.init
  step : ∀ {a : α} {s s' : σ} {t : τ}, S.Reach C s → T.Reach D t → R s t → C a s → S.step a s = some s' →
    ∃ t', T.Steps D t t' ∧ R s' t'

theorem Simulation.reach {τ β : Type} {T : System τ β} {D : β → τ → Prop} {R : σ → τ → Prop}
    (h : Simulation S C T D R) {s : σ} (hs : S.Reach C s) : ∃ t, T.Reach D t ∧ R s t := by
  induction hs with
  | refl => exact ⟨T.init, .refl, h.init⟩
  | step hs hc hstep ih =>
    obtain ⟨t, ht, hr⟩ := ih
    obtain ⟨t', hsteps, hr'⟩ := h.step hs ht hr hc hstep
    exact ⟨t', ht.steps hsteps, hr'⟩

end System

end Rps.Base
