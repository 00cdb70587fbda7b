/-
Runs that are compared.

Two runs of one computation over different services — a buffer with room
and one without, say — are compared up to one exception `limit` of the
second: where the second returns the first returns something related,
where the second throws anything else the first throws the same, and that
is one of the computation's `Own` exceptions; where the second throws
`limit` nothing is said. `Follows` composes along `>>=` (`Follows.bind`),
so a computation need only be gone through once.

Runs that follow each other whatever the limit end alike (`Agrees`).

A run is compared with what it should have computed by `Settles`: it
returns a value with a property, or it throws and a condition holds that
explains it.
-/
import Ginfer.Lib.Outcome

namespace Ginfer.Lib

variable {ε α β γ δ : Type} {limit : ε} {Own : ε → Prop}
  {R : α → β → Prop} {S : γ → δ → Prop}

/-- The first run follows the second, unless that throws `limit`. -/
def Follows (limit : ε) (Own : ε → Prop) (R : α → β → Prop)
    (first : Except ε α) (second : Except ε β) : Prop :=
  match second with
  | .ok b => ∃ a, first = .ok a ∧ R a b
  | .error e => e = limit ∨ first = .error e ∧ Own e

/-- The two runs end alike. -/
def Agrees (R : α → β → Prop) (first : Except ε α) (second : Except ε β) : Prop :=
  match second with
  | .ok b => ∃ a, first = .ok a ∧ R a b
  | .error e => first = .error e

theorem Follows.ok {a : α} {b : β} (h : R a b) :
    Follows limit Own R (.ok a) (.ok b) :=
  ⟨a, rfl, h⟩

theorem Follows.error {e : ε} (h : Own e) :
    Follows limit Own R (.error e : Except ε α) (.error e) :=
  Or.inr ⟨rfl, h⟩

variable {first : Except ε α} {second : Except ε β}

theorem Follows.bind {f : α → Except ε γ} {g : β → Except ε δ}
    (h : Follows limit Own R first second)
    (hfg : ∀ a b, R a b → Follows limit Own S (f a) (g b)) :
    Follows limit Own S (first >>= f) (second >>= g) := by
  cases second with
  | ok b =>
    obtain ⟨a, rfl, hab⟩ := h
    exact hfg a b hab
  | error e =>
    rcases h with rfl | ⟨rfl, hown⟩
    · exact Or.inl rfl
    · exact Or.inr ⟨rfl, hown⟩

theorem Follows.mono {R' : α → β → Prop} (h : Follows limit Own R first second)
    (hR : ∀ a b, R a b → R' a b) : Follows limit Own R' first second := by
  cases second with
  | ok b =>
    obtain ⟨a, ha, hab⟩ := h
    exact ⟨a, ha, hR a b hab⟩
  | error e => exact h

/-- A run that is not about the services follows itself. -/
theorem Follows.refl (h : ∀ e, first = .error e → Own e) :
    Follows limit Own (fun a b => a = b) first first := by
  cases first with
  | ok a => exact ⟨a, rfl, rfl⟩
  | error e => exact Or.inr ⟨rfl, h e rfl⟩

/-- One of two different limits is not what is thrown. -/
theorem Follows.agrees {limit' : ε} (h : Follows limit Own R first second)
    (h' : Follows limit' Own R first second) (hne : limit ≠ limit') :
    Agrees R first second := by
  cases second with
  | ok b => exact h
  | error e =>
    rcases h with rfl | ⟨hfirst, -⟩
    · rcases h' with rfl | ⟨hfirst, -⟩
      · exact absurd rfl hne
      · exact hfirst
    · exact hfirst

/-- A second run that does not throw the limit is agreed with. -/
theorem Follows.agrees_of_ne (h : Follows limit Own R first second)
    (hne : second ≠ .error limit) : Agrees R first second := by
  cases second with
  | ok b => exact h
  | error e =>
    rcases h with rfl | ⟨hfirst, -⟩
    · exact absurd rfl hne
    · exact hfirst

theorem Agrees.mono {R' : α → β → Prop} (h : Agrees R first second)
    (hR : ∀ a b, second = .ok b → R a b → R' a b) :
    Agrees R' first second := by
  cases second with
  | ok b =>
    obtain ⟨a, ha, hab⟩ := h
    exact ⟨a, ha, hR a b rfl hab⟩
  | error e => exact h

/-- Runs that agree with one run agree. -/
theorem Agrees.join {third : Except ε γ} {S : γ → β → Prop} {T : α → γ → Prop}
    (h : Agrees R first second) (h' : Agrees S third second)
    (hT : ∀ a b c, R a b → S c b → T a c) : Agrees T first third := by
  cases second with
  | ok b =>
    obtain ⟨a, rfl, hab⟩ := h
    obtain ⟨c, rfl, hcb⟩ := h'
    exact ⟨a, rfl, hT a b c hab hcb⟩
  | error e =>
    obtain rfl : third = .error e := h'
    exact h

-- ============ settling

/-- The run returns a value as wanted, or throws with a cause. -/
def Settles (P : α → Prop) (Cause : Prop) (run : Except ε α) : Prop :=
  (∃ a, run = .ok a ∧ P a) ∨ (∃ e, run = .error e) ∧ Cause

section

variable {P : α → Prop} {Q : γ → Prop} {Cause Cause' : Prop} {run : Except ε α}

theorem Settles.ok {a : α} (h : P a) : Settles P Cause (.ok a : Except ε α) :=
  Or.inl ⟨a, rfl, h⟩

theorem Settles.bind {f : α → Except ε γ} (h : Settles P Cause run)
    (hcause : Cause → Cause') (hf : ∀ a, P a → Settles Q Cause' (f a)) :
    Settles Q Cause' (run >>= f) := by
  rcases h with ⟨a, rfl, ha⟩ | ⟨⟨e, rfl⟩, hc⟩
  · exact hf a ha
  · exact Or.inr ⟨⟨e, rfl⟩, hcause hc⟩

theorem Settles.mono {P' : α → Prop} (h : Settles P Cause run)
    (hP : ∀ a, P a → P' a) (hcause : Cause → Cause') :
    Settles P' Cause' run := by
  rcases h with ⟨a, ha, hp⟩ | ⟨he, hc⟩
  · exact Or.inl ⟨a, ha, hP a hp⟩
  · exact Or.inr ⟨he, hcause hc⟩

/-- A run that returned has the property. -/
theorem Settles.of_ok {a : α} (h : Settles P Cause run)
    (hrun : run = .ok a) : P a := by
  rcases h with ⟨b, hb, hp⟩ | ⟨⟨e, he⟩, -⟩
  · rw [hrun] at hb
    cases hb
    exact hp
  · rw [hrun] at he
    cases he

/-- A run without a cause to throw returned. -/
theorem Settles.of_not (h : Settles P Cause run) (hno : ¬ Cause) :
    ∃ a, run = .ok a ∧ P a := by
  rcases h with hok | ⟨-, hc⟩
  · exact hok
  · exact absurd hc hno

end

end Ginfer.Lib
