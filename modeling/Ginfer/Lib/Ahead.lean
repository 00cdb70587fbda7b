/-
Two runs of a program, the second ahead of the first.

The programs change a state and may fail. `R d s t` says that `t` is `s`
moved ahead by `d`; a program that moves both by itself keeps them that
far apart, and one that takes more in the second run moves them further.
`Leads R excused extra f g` is that: where `f` returns, `g` returns the
same and is `extra` further ahead, or it fails with an excuse (it ran out
of room).

The rules follow the program: `Leads.bind` adds up, `leads_checked` and
`leads_refuse` are checks that say the same in both runs, `leads_forM` is
a loop. `Ends P f` says of one run that it ends in a state of `P`.
-/
import Mathlib.Data.UInt

namespace Ginfer.Lib

variable {σ ε α β : Type}

/-- A value that is computed with a check. -/
def checked (x : Except ε α) : StateT σ (Except ε) α :=
  fun s => x.map fun a => (a, s)

/-- A check: what it throws where `failed` holds. -/
def refuse (failed : Prop) [Decidable failed] (e : ε) :
    StateT σ (Except ε) Unit :=
  if failed then throw e else pure ()

variable {R : Nat → σ → σ → Prop} {excused : ε → Prop}

/-- The second program returns what the first does, `extra` further ahead,
or has an excuse. -/
def Leads (R : Nat → σ → σ → Prop) (excused : ε → Prop) (extra : Nat)
    (f g : StateT σ (Except ε) α) : Prop :=
  ∀ d s t, R d s t → ∀ a s', f s = .ok (a, s') →
    (∃ t', g t = .ok (a, t') ∧ R (d + extra) s' t')
      ∨ ∃ e, g t = .error e ∧ excused e

theorem leads_pure (a : α) : Leads R excused 0 (pure a) (pure a) := by
  intro d s t h a' s' hrun
  cases hrun
  exact .inl ⟨t, rfl, h⟩

/-- Nothing is asked of the second program where the first throws. -/
theorem leads_throw (e : ε) (extra : Nat) (g : StateT σ (Except ε) α) :
    Leads R excused extra (throw e) g := by
  intro d s t h a s' hrun
  cases hrun

variable {f g : StateT σ (Except ε) α} {f' g' : α → StateT σ (Except ε) β}
  {n : Nat}

/-- One after the other. -/
theorem Leads.bind {m : Nat}
    (h : Leads R excused m f g) (h' : ∀ a, Leads R excused n (f' a) (g' a)) :
    Leads R excused (m + n) (f >>= f') (g >>= g') := by
  intro d s t hR b s'' hrun
  change (f s >>= fun r => f' r.1 r.2) = .ok (b, s'') at hrun
  change (∃ t', (g t >>= fun r => g' r.1 r.2) = .ok (b, t') ∧ _)
    ∨ ∃ e, (g t >>= fun r => g' r.1 r.2) = .error e ∧ _
  cases hf : f s with
  | error e =>
    rw [hf] at hrun
    cases hrun
  | ok r =>
    obtain ⟨a, s'⟩ := r
    rw [hf] at hrun
    rcases h d s t hR a s' hf with ⟨t', ht', hR'⟩ | ⟨e, he, hex⟩
    · rw [ht', ← add_assoc]
      exact h' a (d + m) s' t' hR' b s'' hrun
    · rw [he]
      exact .inr ⟨e, rfl, hex⟩

/-- A program that moves both runs by itself, in front. -/
theorem Leads.before
    (h : Leads R excused 0 f g) (h' : ∀ a, Leads R excused n (f' a) (g' a)) :
    Leads R excused n (f >>= f') (g >>= g') := by
  have hboth := h.bind h'
  rw [zero_add] at hboth
  exact hboth

/-- And behind. -/
theorem Leads.after {m : Nat}
    (h : Leads R excused m f g) (h' : ∀ a, Leads R excused 0 (f' a) (g' a)) :
    Leads R excused m (f >>= f') (g >>= g') :=
  h.bind h'

/-- Values computed with a check, and programs that go on with them. -/
theorem leads_checked_bind {x y : Except ε α} {f g : α → StateT σ (Except ε) β}
    (h : ∀ a, x = .ok a →
      (∃ b, y = .ok b ∧ Leads R excused n (f a) (g b))
        ∨ ∃ e, y = .error e ∧ excused e) :
    Leads R excused n (checked x >>= f) (checked y >>= g) := by
  intro d s t hR b s' hrun
  change ((x.map fun a => (a, s)) >>= fun r => f r.1 r.2) = .ok (b, s') at hrun
  change (∃ t', ((y.map fun a => (a, t)) >>= fun r => g r.1 r.2)
      = .ok (b, t') ∧ _)
    ∨ ∃ e, ((y.map fun a => (a, t)) >>= fun r => g r.1 r.2) = .error e ∧ _
  cases hx : x with
  | error e =>
    rw [hx] at hrun
    cases hrun
  | ok a =>
    rw [hx] at hrun
    rcases h a hx with ⟨b', hy, hlead⟩ | ⟨e, hy, hex⟩
    · rw [hy]
      exact hlead d s t hR b s' hrun
    · rw [hy]
      exact .inr ⟨e, rfl, hex⟩

/-- The same value in both runs. -/
theorem leads_checked {x : Except ε α} {f g : α → StateT σ (Except ε) β}
    (h : ∀ a, x = .ok a → Leads R excused n (f a) (g a)) :
    Leads R excused n (checked x >>= f) (checked x >>= g) :=
  leads_checked_bind fun a hx => .inl ⟨a, hx, h a hx⟩

/-- A check the second run passes where the first does. -/
theorem leads_refuse {p q : Prop} [Decidable p] [Decidable q] {e : ε}
    {f g : StateT σ (Except ε) β} (hpq : ¬ p → ¬ q)
    (h : ¬ p → Leads R excused n f g) :
    Leads R excused n (refuse p e >>= fun _ => f)
      (refuse q e >>= fun _ => g) := by
  unfold refuse
  by_cases hp : p
  · rw [if_pos hp]
    exact leads_throw e n _
  · rw [if_neg hp, if_neg (hpq hp)]
    exact (leads_pure ()).before fun _ => h hp

/-- A branch both runs take. -/
theorem leads_ite {c : Prop} [Decidable c] {f' g' : StateT σ (Except ε) α}
    (h : c → Leads R excused n f g) (h' : ¬ c → Leads R excused n f' g') :
    Leads R excused n (if c then f else f') (if c then g else g') := by
  by_cases hc : c
  · rw [if_pos hc, if_pos hc]
    exact h hc
  · rw [if_neg hc, if_neg hc]
    exact h' hc

/-- A loop whose bodies move ahead by `step`. -/
theorem leads_forM {f g : α → StateT σ (Except ε) Unit} {step : α → Nat} :
    ∀ (l : List α), (∀ a ∈ l, Leads R excused (step a) (f a) (g a)) →
      Leads R excused (l.map step).sum (l.forM f) (l.forM g) := by
  intro l
  induction l with
  | nil => exact fun _ => leads_pure ()
  | cons a rest ih =>
    intro h
    rw [List.map_cons, List.sum_cons]
    exact (h a (.head _)).bind fun _ =>
      ih fun b hb => h b (.tail _ hb)

/-- A loop that moves both runs by itself. -/
theorem leads_forM_same {f : α → StateT σ (Except ε) Unit} (l : List α)
    (h : ∀ a ∈ l, Leads R excused 0 (f a) (f a)) :
    Leads R excused 0 (l.forM f) (l.forM f) := by
  have hloop : Leads R excused (l.map fun _ => 0).sum (l.forM f)
      (l.forM f) := leads_forM l h
  rw [List.map_const', List.sum_replicate_nat, mul_zero] at hloop
  exact hloop

-- ============ a single run

/-- A program that ends, where it does, in a state of `P`. -/
def Ends (P : σ → Prop) (f : StateT σ (Except ε) α) : Prop :=
  ∀ s a s', f s = .ok (a, s') → P s'

variable {P : σ → Prop}

/-- What comes last decides. -/
theorem Ends.last {g : α → StateT σ (Except ε) β} (h : ∀ a, Ends P (g a)) :
    Ends P (f >>= g) := by
  intro s b s'' hrun
  change (f s >>= fun r => g r.1 r.2) = .ok (b, s'') at hrun
  cases hf : f s with
  | error e =>
    rw [hf] at hrun
    cases hrun
  | ok r =>
    rw [hf] at hrun
    exact h r.1 r.2 b s'' hrun

theorem ends_ite {c : Prop} [Decidable c]
    (hf : Ends P f) (hg : Ends P g) : Ends P (if c then f else g) := by
  split
  · exact hf
  · exact hg

end Ginfer.Lib
