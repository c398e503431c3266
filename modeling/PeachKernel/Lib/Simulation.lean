/-
  File:      PeachKernel/Lib/Simulation.lean
  Subject:   Runs of a system whose steps carry labels, and simulations between two such systems.

  * `LabelledRun` -- the steps of a run one after the other, with their labels in order;
  * `Simulates` -- every step of one system is answered by a step of the other with the same label;
    `Simulates.run` -- and so is every run.
-/
import Mathlib.Data.List.Basic

variable {σ τ ι : Type*} {step : σ → ι → σ → Prop} {step' : τ → ι → τ → Prop}

/-! ## 1. Runs -/

/-- A run, with the labels of its steps. -/
inductive LabelledRun (step : σ → ι → σ → Prop) : σ → List ι → σ → Prop where
  | nil (s : σ) : LabelledRun step s [] s
  | cons {s s₁ s₂ : σ} {l : ι} {ls : List ι} (h : step s l s₁) (hr : LabelledRun step s₁ ls s₂) :
      LabelledRun step s (l :: ls) s₂

/-- A run in two parts. -/
theorem LabelledRun.of_append {ls ms : List ι} : ∀ {s s₂ : σ}, LabelledRun step s (ls ++ ms) s₂ →
    ∃ s₁, LabelledRun step s ls s₁ ∧ LabelledRun step s₁ ms s₂ := by
  induction ls with
  | nil => exact fun h => ⟨_, .nil _, h⟩
  | cons l ls ih =>
    intro s s₂ h
    cases h with
    | cons hs hr =>
      obtain ⟨s₁, h₁, h₂⟩ := ih hr
      exact ⟨s₁, .cons hs h₁, h₂⟩

/-! ## 2. Simulations -/

/-- **A simulation**: from related states a step of the first system is a step of the second one,
    with the same label, to related states. -/
def Simulates (step : σ → ι → σ → Prop) (step' : τ → ι → τ → Prop) (r : σ → τ → Prop) : Prop :=
  ∀ ⦃s t l s₁⦄, r s t → step s l s₁ → ∃ t₁, step' t l t₁ ∧ r s₁ t₁

/-- **Runs of the first system are runs of the second one**, label by label. -/
theorem Simulates.run {r : σ → τ → Prop} (h : Simulates step step' r) {s s₁ : σ} {ls : List ι}
    (hr : LabelledRun step s ls s₁) :
    ∀ {t : τ}, r s t → ∃ t₁, LabelledRun step' t ls t₁ ∧ r s₁ t₁ := by
  induction hr with
  | nil s => exact fun hrel => ⟨_, .nil _, hrel⟩
  | cons hs _ ih =>
    intro t hrel
    obtain ⟨t₁, ht, hrel₁⟩ := h hrel hs
    obtain ⟨t₂, hrun, hrel₂⟩ := ih hrel₁
    exact ⟨t₂, .cons ht hrun, hrel₂⟩
