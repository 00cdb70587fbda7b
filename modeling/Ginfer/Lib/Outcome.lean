/-
Calls that may throw, and what survives the throw.

The modelled code reports failure with C++ exceptions, and an exception
does not roll anything back: whatever the call had already written when
it threw stays written. An `Except` result would lose exactly that half,
so a fallible call is a function into `Outcome`, which carries the state
on BOTH branches — `ok s` for a return, `throw e s` for a throw that
leaves `s` behind.

# The rules

An invariant of the state is a property of `Outcome.state`, the state
the caller is left with however the call ended:

- `andThen_keeps` — sequencing: the second half runs only on a return;
- `forEach_keeps` — a loop that stops at the first throw keeps whatever
  its body keeps.

A specification says more, and different things of the two branches:
`o.Ends Q E` is the postcondition `Q` of a return together with the
exceptional postcondition `E` of a throw. It composes the same way
(`Ends.andThen`, `Ends.mono`), and `forEach_ends` is the rule for a loop
whose iterations each need their own precondition and leave the others'
alone.

A call that writes nothing until it returns is a function into `Except`;
`Yields` is the same specification for it.
-/
import Mathlib.Data.UInt

namespace Ginfer.Lib

/-- The exceptions of the C++ standard library the modelled code throws,
with the text it throws them with. `badAlloc` carries no text, `device`
stands for a failed call of the device runtime, and `api` is the server's
own `ApiException`. -/
inductive Exception where
  | invalidArgument (what : String)
  | logicError (what : String)
  | runtimeError (what : String)
  | outOfRange (what : String)
  | lengthError (what : String)
  | overflowError (what : String)
  | badAlloc
  | device
  | api (status : Nat) (type code message : String)
  deriving DecidableEq

/-- How a call ended, with the state it left. -/
inductive Outcome (σ : Type) where
  | ok (s : σ)
  | throw (e : Exception) (s : σ)

namespace Outcome

variable {σ α : Type}

/-- The state the caller is left with, returned or thrown. -/
def state : Outcome σ → σ
  | ok s => s
  | throw _ s => s

/-- The exception, when there is one. -/
def thrown : Outcome σ → Option Exception
  | ok _ => none
  | throw e _ => some e

/-- Sequencing: `f` runs on a return and is skipped on a throw. -/
def andThen (o : Outcome σ) (f : σ → Outcome σ) : Outcome σ :=
  match o with
  | ok s => f s
  | throw e s => throw e s

/-- A loop over `xs`, left at the first throw of its body. -/
def forEach (f : α → σ → Outcome σ) : List α → σ → Outcome σ
  | [], s => ok s
  | x :: rest, s => (f x s).andThen (forEach f rest)

@[simp] theorem state_ok (s : σ) : (ok s).state = s := rfl

@[simp] theorem state_throw (e : Exception) (s : σ) : (throw e s).state = s := rfl

@[simp] theorem thrown_ok (s : σ) : (ok s).thrown = none := rfl

@[simp] theorem thrown_throw (e : Exception) (s : σ) :
    (throw e s).thrown = some e := rfl

@[simp] theorem andThen_ok (s : σ) (f : σ → Outcome σ) :
    (ok s).andThen f = f s := rfl

@[simp] theorem andThen_throw (e : Exception) (s : σ)
    (f : σ → Outcome σ) : (throw e s).andThen f = throw e s := rfl

/-- A call that did not throw returned. -/
theorem eq_ok {o : Outcome σ} (h : o.thrown = none) : o = ok o.state := by
  cases o with
  | ok s => rfl
  | throw e s => cases h

variable {P : σ → Prop}

/-- Sequencing keeps what both halves keep. -/
theorem andThen_keeps {o : Outcome σ} {f : σ → Outcome σ}
    (ho : P o.state) (hf : ∀ s, P s → P (f s).state) :
    P (o.andThen f).state := by
  cases o with
  | ok s => exact hf s ho
  | throw e s => exact ho

/-- A loop keeps what its body keeps. -/
theorem forEach_keeps {f : α → σ → Outcome σ}
    {xs : List α} (hf : ∀ x ∈ xs, ∀ s, P s → P (f x s).state) :
    ∀ s, P s → P (forEach f xs s).state := by
  induction xs with
  | nil =>
    intro s hs
    exact hs
  | cons x rest ih =>
    intro s hs
    have hrest : ∀ y ∈ rest, ∀ t, P t → P (f y t).state :=
      fun y hy => hf y (.tail x hy)
    exact andThen_keeps (hf x (.head _) s hs) (ih hrest)

-- ============ specifications

/-- The call returned with `Q`, or threw with `E`. -/
def Ends (o : Outcome σ) (Q : σ → Prop) (E : Exception → σ → Prop) :
    Prop :=
  match o with
  | ok s => Q s
  | throw e s => E e s

variable {Q Q' : σ → Prop} {E E' : Exception → σ → Prop} {o : Outcome σ}

@[simp] theorem ends_ok (s : σ) : (ok s).Ends Q E ↔ Q s := Iff.rfl

@[simp] theorem ends_throw (e : Exception) (s : σ) :
    (throw e s).Ends Q E ↔ E e s := Iff.rfl

/-- Consequence, on both branches. -/
theorem Ends.mono (h : o.Ends Q E) (hQ : ∀ s, Q s → Q' s)
    (hE : ∀ e s, E e s → E' e s) : o.Ends Q' E' := by
  cases o with
  | ok s => exact hQ s h
  | throw e s => exact hE e s h

/-- Sequencing. -/
theorem Ends.andThen {f : σ → Outcome σ} (h : o.Ends Q E)
    (hf : ∀ s, Q s → (f s).Ends Q' E) : (o.andThen f).Ends Q' E := by
  cases o with
  | ok s => exact hf s h
  | throw e s => exact h

/-- A call that cannot throw returns. -/
theorem Ends.returns (h : o.Ends Q E) (hE : ∀ e s, ¬ E e s) :
    ∃ s, o = ok s ∧ Q s := by
  cases o with
  | ok s => exact ⟨s, rfl, h⟩
  | throw e s => exact absurd h (hE e s)

/-- The loop rule. `P` holds throughout; the iteration at `x` turns its
precondition `A x` into its postcondition `B x`, and leaves alone those of
the iterations with another key. -/
theorem forEach_ends {β : Type} {A B : α → σ → Prop}
    {f : α → σ → Outcome σ} (key : α → β) : ∀ {xs : List α},
    (xs.map key).Nodup →
    (∀ x ∈ xs, ∀ s, P s → A x s → (f x s).Ends (fun s' => P s' ∧ B x s'
      ∧ ∀ y, key y ≠ key x → (A y s → A y s') ∧ (B y s → B y s')) E) →
    ∀ s, P s → (∀ x ∈ xs, A x s) →
      (forEach f xs s).Ends (fun s' => P s' ∧ ∀ x ∈ xs, B x s') E := by
  have hmain : ∀ {xs : List α}, (xs.map key).Nodup →
      (∀ x ∈ xs, ∀ s, P s → A x s → (f x s).Ends (fun s' => P s' ∧ B x s'
        ∧ ∀ y, key y ≠ key x → (A y s → A y s') ∧ (B y s → B y s')) E) →
      ∀ s, P s → (∀ x ∈ xs, A x s) →
        (forEach f xs s).Ends (fun s' => P s' ∧ (∀ x ∈ xs, B x s')
          ∧ ∀ y, key y ∉ xs.map key → B y s → B y s') E := by
    intro xs
    induction xs with
    | nil =>
      intro _ _ s hP _
      exact ⟨hP, fun x hx => absurd hx (by simp), fun y _ => id⟩
    | cons x rest ih =>
      intro hnodup hbody s hP hA
      rw [List.map_cons] at hnodup
      obtain ⟨hx, hrest⟩ := List.nodup_cons.mp hnodup
      show ((f x s).andThen (forEach f rest)).Ends _ _
      refine (hbody x (.head _) s hP (hA x (.head _))).andThen ?_
      intro s₁ hs₁
      obtain ⟨hP₁, hBx, hframe⟩ := hs₁
      have hne : ∀ y ∈ rest, key y ≠ key x := by
        intro y hy heq
        exact hx (heq ▸ List.mem_map_of_mem hy)
      have hA₁ : ∀ y ∈ rest, A y s₁ := fun y hy =>
        (hframe y (hne y hy)).1 (hA y (.tail x hy))
      refine (ih hrest (fun y hy => hbody y (.tail x hy)) s₁
        hP₁ hA₁).mono ?_ (fun _ _ h => h)
      intro s₂ hs₂
      obtain ⟨hP₂, hB₂, hframe₂⟩ := hs₂
      refine ⟨hP₂, ?_, ?_⟩
      · intro y hy
        rcases List.mem_cons.mp hy with rfl | hy
        · exact hframe₂ y hx hBx
        · exact hB₂ y hy
      · intro y hy hB
        rw [List.map_cons, List.mem_cons, not_or] at hy
        exact hframe₂ y hy.2 ((hframe y hy.1).2 hB)
  intro xs hnodup hbody s hP hA
  exact (hmain hnodup hbody s hP hA).mono
    (fun s' h => ⟨h.1, h.2.1⟩) (fun _ _ h => h)

end Outcome

-- ============ calls that only read

variable {α β : Type} {e : Exception}

/-- The call returned with `Q`, or failed with `E`. -/
def Yields (x : Except Exception α) (Q : α → Prop)
    (E : Exception → Prop) : Prop :=
  match x with
  | .ok a => Q a
  | .error e => E e

variable {x : Except Exception α} {Q Q' : α → Prop} {R : β → Prop}
  {E E' : Exception → Prop}

/-- Sequencing. -/
theorem Yields.bind {f : α → Except Exception β} (h : Yields x Q E)
    (hf : ∀ a, Q a → Yields (f a) R E) : Yields (x >>= f) R E := by
  cases x with
  | ok a => exact hf a h
  | error e => exact h

/-- A check that fails with `e`. -/
theorem yields_guard {p : Prop} [Decidable p] (hfail : p → E e)
    (hpass : ¬ p → Yields x Q E) :
    Yields (if p then .error e else x) Q E := by
  split
  · next hp => exact hfail hp
  · next hp => exact hpass hp

/-- A check that was passed. -/
theorem guard_ok {p : Prop} [Decidable p] {a : α} :
    (if p then .error e else x) = .ok a ↔ ¬ p ∧ x = .ok a := by
  split
  · next hp => simp [hp]
  · next hp => simp [hp]

variable {ε : Type}

theorem ok_bind (a : α) (f : α → Except ε β) :
    ((.ok a : Except ε α) >>= f) = f a := rfl

/-- Sequencing, on the returning side, whatever is thrown. -/
theorem bind_ok {x : Except ε α} {f : α → Except ε β} {b : β} :
    (x >>= f) = .ok b ↔ ∃ a, x = .ok a ∧ f a = .ok b := by
  cases x with
  | ok a => simp [Bind.bind, Except.bind]
  | error e => simp [Bind.bind, Except.bind]

/-- So for a result that is worked on. -/
theorem map_ok {x : Except ε α} {f : α → β} {b : β} :
    x.map f = .ok b ↔ ∃ a, x = .ok a ∧ f a = b := by
  cases x with
  | ok a => simp [Except.map]
  | error e => simp [Except.map]

end Ginfer.Lib
