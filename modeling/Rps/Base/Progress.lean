import Rps.Base.System

/-! Work that runs out.

Some labels of a system are its own work: steps it takes whatever its users do. A
run of them is `Work`, and a state where none of them is enabled is `Idle`. When each
such step makes a measure smaller, every run of work is bounded by the measure it
starts with (`Work.bounded`), and some run of it ends idle (`exists_idle`). What an
idle state looks like is then the whole question of whether the system can get stuck. -/
namespace Rps.Base.System
variable {σ α : Type}

/-- `n` steps lead from `s` to `t`, every one with a label that `own` admits. -/
inductive Work (S : System σ α) (own : α → Prop) (s : σ) : Nat → σ → Prop where
  | refl : Work S own s 0 s
  | step {n : Nat} {t u : σ} {a : α} : Work S own s n t → own a → S.step a t = some u →
      Work S own s (n + 1) u

/-- No label that `own` admits is enabled. -/
def Idle (S : System σ α) (own : α → Prop) (s : σ) : Prop := ∀ a, own a → S.step a s = none

variable {S : System σ α} {own : α → Prop} {C : α → σ → Prop}

/-- Work that a condition allows everywhere is a run under that condition. -/
theorem Work.steps (hC : ∀ a s, own a → C a s) {s t : σ} {n : Nat} (h : S.Work own s n t) : S.Steps C s t := by
  induction h with
  | refl => exact .refl
  | step _ ha hs ih => exact .step ih (hC _ _ ha) hs

theorem Work.head {s t u : σ} {a : α} {n : Nat} (ha : own a) (hs : S.step a s = some t)
    (h : S.Work own t n u) : S.Work own s (n + 1) u := by
  induction h with
  | refl => exact .step .refl ha hs
  | step _ hb ht ih => exact .step ih hb ht

section Measure
variable {I : σ → Prop} {measure : σ → Nat}

/-- Each step of work costs at least one. -/
theorem Work.bounded
    (hstep : ∀ a s t, I s → own a → S.step a s = some t → I t ∧ measure t < measure s)
    {s t : σ} {n : Nat} (hs : I s) (h : S.Work own s n t) : I t ∧ n + measure t ≤ measure s := by
  induction h with
  | refl => exact ⟨hs, by omega⟩
  | step _ ha hu ih =>
    obtain ⟨hinv, hle⟩ := ih
    obtain ⟨hinv', hlt⟩ := hstep _ _ _ hinv ha hu
    exact ⟨hinv', by omega⟩

/-- Working on until nothing is left to do ends. -/
theorem exists_idle
    (hstep : ∀ a s t, I s → own a → S.step a s = some t → I t ∧ measure t < measure s)
    {s : σ} (hs : I s) : ∃ n t, S.Work own s n t ∧ S.Idle own t := by
  induction hm : measure s using Nat.strongRecOn generalizing s with
  | ind m ih =>
    by_cases hidle : S.Idle own s
    · exact ⟨0, s, .refl, hidle⟩
    · obtain ⟨a, ha, t, ht⟩ : ∃ a, own a ∧ ∃ t, S.step a s = some t := by
        simpa [Idle, Option.ne_none_iff_exists'] using hidle
      obtain ⟨hinv, hlt⟩ := hstep a s t hs ha ht
      obtain ⟨n, u, hwork, hu⟩ := ih (measure t) (hm ▸ hlt) hinv rfl
      exact ⟨n + 1, u, hwork.head ha ht, hu⟩

end Measure

end Rps.Base.System
