/-
Runs of a labelled transition system, and the invariant rules.

A system here is a partial step function `step : σ → α → Option σ` — the
action is part of the label, `none` means the action is not enabled in
this state — and a run folds it over a list of actions. Everything said
about reachable states goes through two rules:

- `run_inv` — what every step preserves, every run preserves;
- `run_inv_along` — the same for a property that only the steps meeting
  a side condition preserve, for the runs all of whose steps meet it
  (`Along`).
-/
import Mathlib.Data.UInt

namespace Ginfer.Lib

variable {σ α : Type}

/-- Run a list of actions from `s`; `none` when one is not enabled. -/
def run (step : σ → α → Option σ) : σ → List α → Option σ
  | s, [] => some s
  | s, a :: rest =>
    match step s a with
    | none => none
    | some s' => run step s' rest

/-- Every step of the run of `acts` from `s` meets `C` in the state it
is taken from. -/
def Along (step : σ → α → Option σ) (C : σ → α → Prop) : σ → List α → Prop
  | _, [] => True
  | s, a :: rest =>
    C s a ∧ ∀ s', step s a = some s' → Along step C s' rest

variable {step : σ → α → Option σ} {C : σ → α → Prop}

/-- The conditional invariant rule: a property kept by every step that
meets `C` holds at the end of every run whose steps all meet `C`. -/
theorem run_inv_along {P : σ → Prop}
    (hstep : ∀ s a s', C s a → step s a = some s' → P s → P s') :
    ∀ (acts : List α) (s s' : σ), Along step C s acts →
      run step s acts = some s' → P s → P s' := by
  intro acts
  induction acts with
  | nil =>
    intro s s' _ hrun hs
    simp only [run, Option.some.injEq] at hrun
    exact hrun ▸ hs
  | cons a rest ih =>
    intro s s' halong hrun hs
    obtain ⟨hC, hrest⟩ := halong
    simp only [run] at hrun
    split at hrun
    · exact absurd hrun (by simp)
    · next t ht =>
      exact ih t s' (hrest t ht) hrun (hstep s a t hC ht hs)

/-- A condition that the actions of a run meet in every state. -/
theorem along_of_mem :
    ∀ {acts : List α} (s : σ), (∀ a ∈ acts, ∀ t, C t a) →
      Along step C s acts := by
  intro acts
  induction acts with
  | nil => intro _ _; trivial
  | cons a rest ih =>
    intro s hC
    exact ⟨hC a List.mem_cons_self s, fun s' _ =>
      ih s' fun b hb => hC b (List.mem_cons_of_mem a hb)⟩

/-- A check of every step of a run, from the state it is taken from. -/
def checkAlong (step : σ → α → Option σ) (c : σ → α → Bool) : σ → List α → Bool
  | _, [] => true
  | s, a :: rest =>
    c s a && match step s a with
      | none => true
      | some s' => checkAlong step c s' rest

/-- A condition that a check along the run establishes. -/
theorem along_of_check {c : σ → α → Bool} (hc : ∀ s a, c s a = true → C s a) :
    ∀ {acts : List α} {s : σ}, checkAlong step c s acts = true →
      Along step C s acts := by
  intro acts
  induction acts with
  | nil => intro _ _; trivial
  | cons a rest ih =>
    intro s h
    obtain ⟨ha, hrest⟩ := (Bool.and_eq_true _ _).mp h
    refine ⟨hc s a ha, fun s' hs' => ih ?_⟩
    rw [hs'] at hrest
    exact hrest

/-- The invariant rule. -/
theorem run_inv {P : σ → Prop} (hstep : ∀ s a s', step s a = some s' → P s → P s')
    {acts : List α} {s s' : σ} (hrun : run step s acts = some s')
    (hs : P s) : P s' :=
  run_inv_along (C := fun _ _ => True)
    (fun s a s' _ h => hstep s a s' h) acts s s'
    (along_of_mem s fun _ _ _ => trivial) hrun hs

end Ginfer.Lib
