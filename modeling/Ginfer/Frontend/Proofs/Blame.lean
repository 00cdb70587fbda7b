/-
Whose error it is.

A flight is built under the control and the budget of the request that
started it, and everybody who waits for it is given its error. An error
lies with the item (`OfItem`) — then it is everybody's who needs the
item — or with the producer (`OfProducer`): its `stop_preparation`, its
deadline, the sum of its items. `Own` is what a request may fail with. The
lemmas say of every check of the source whose error it throws.
-/
import Ginfer.Frontend.MediaCache

namespace Ginfer.Frontend.Media

open Except

variable {Key : Type}

-- ============ the budgets

/-- The two counts that are limited. -/
inductive Measure where
  | rawPatches
  | visionTokens

namespace Measure

def get : Measure → PreprocessStats → Nat
  | rawPatches, stats => stats.rawPatches
  | visionTokens, stats => stats.visionTokens

def grid : Measure → Grid → Nat
  | rawPatches, g => g.patches
  | visionTokens, g => g.tokens

def limit (o : Setup Key) : Measure → Nat
  | rawPatches => o.maxRawPatches
  | visionTokens => o.maxVisionTokens

/-- What the item behind a key counts. -/
def item (o : Setup Key) (m : Measure) (key : Key) : Nat :=
  match (o.content key).decoded with
  | .error _ => 0
  | .ok g => m.grid g

/-- What a list of keys counts. -/
def total (o : Setup Key) (m : Measure) (parts : List Key) : Nat :=
  (parts.map (m.item o)).sum

end Measure

/-- One item exceeds a budget by itself. -/
def ItemOver (o : Setup Key) (key : Key) : Prop :=
  match (o.content key).decoded with
  | .error failure => failure.1 = true
  | .ok g => (∃ m : Measure, m.limit o < m.grid g) ∨ o.liveLimit < g.bytes

/-- The parts of a request exceed its budget. -/
def OverBudget (o : Setup Key) (parts : List Key) : Prop :=
  min (o.maxRawPatches / 4) o.maxVisionTokens < parts.length
    ∨ o.maxEncodedMediaBytes
        < (parts.map fun key => (o.content key).encodedBytes).sum
    ∨ (∃ m : Measure, m.limit o < m.total o parts)
    ∨ ∃ key ∈ parts, ItemOver o key

theorem checkedMul_ok {a b n : Nat} {label : String}
    (h : checkedMul a b label = .ok n) : n = a * b := by
  unfold checkedMul at h
  split at h
  · cases h
  · exact (ok.inj h).symm

theorem checkedMul_error {a b : Nat} {label : String} {e : PrepareError}
    (h : checkedMul a b label = .error e) :
    ∃ what, e = .invalidArgument what := by
  unfold checkedMul at h
  split at h
  · exact ⟨_, (error.inj h).symm⟩
  · cases h

section

variable {o : Setup Key} {stats stats' : PreprocessStats} {g : Grid}
  {e : PrepareError}

theorem addBudget_ok (h : addBudget stats g = .ok stats') (m : Measure) :
    m.get stats' = m.get stats + m.grid g := by
  unfold addBudget at h
  simp only [bind, Except.bind] at h
  split at h
  · cases h
  next spatial hspatial =>
  split at h
  · cases h
  next patches hpatches =>
  split at h
  · cases h
  split at h
  · cases h
  cases h
  have heq : patches = g.patches := by
    rw [checkedMul_ok hpatches, checkedMul_ok hspatial]
    rfl
  cases m with
  | rawPatches =>
    show stats.rawPatches + patches = _
    rw [heq]
    rfl
  | visionTokens =>
    show stats.visionTokens + patches / 4 = _
    rw [heq]
    rfl

theorem addBudget_error (h : addBudget stats g = .error e) :
    ∃ what, e = .invalidArgument what := by
  unfold addBudget at h
  simp only [bind, Except.bind] at h
  split at h
  · next hmul =>
    cases h
    exact checkedMul_error hmul
  split at h
  · next hmul =>
    cases h
    exact checkedMul_error hmul
  split at h
  · next hmul =>
    cases h
    exact checkedMul_error hmul
  split at h
  · next hmul =>
    cases h
    exact checkedMul_error hmul
  · cases h

theorem enforce_error (h : enforceMediaResourceLimits o stats = .error e) :
    (∃ what, e = .budgetExceeded what)
      ∧ ∃ m : Measure, m.limit o < m.get stats := by
  unfold enforceMediaResourceLimits at h
  split at h
  · next hover => exact ⟨⟨_, (error.inj h).symm⟩, .rawPatches, hover⟩
  split at h
  · next hover =>
    exact ⟨⟨_, (error.inj h).symm⟩, .visionTokens, hover⟩
  · cases h

end

-- ============ the blame

/-- The deadline has passed. -/
def Request.expired (q : Request Key) (now : Nat) : Prop :=
  ∃ t, q.deadline = some t ∧ t ≤ now

/-- The error is the request's own: it was cancelled, its deadline has
passed, its parts exceed its budget; other errors are nobody's. -/
def Own (o : Setup Key) (now : Nat) (q : Request Key) : PrepareError → Prop
  | .cancelled _ => q.cancelled = true
  | .queueTimeout _ => q.expired now
  | e => e.isBudget = true → OverBudget o q.parts

/-- The error lies with the item. -/
def OfItem (o : Setup Key) (key : Key) : PrepareError → Prop
  | .cancelled _ => False
  | .queueTimeout _ => False
  | e => e.isBudget = true → ItemOver o key

/-- The error lies with the request whose control the task looks at. -/
def OfProducer (o : Setup Key) (now : Nat) (q : Request Key) : PrepareError → Prop
  | .cancelled _ => q.stop = true
  | .queueTimeout _ => q.expired now
  | e => e.isBudget = true → OverBudget o q.parts

variable {o : Setup Key} {e : PrepareError} {now : Nat} {q : Request Key}

/-- What is neither a cancellation, nor a timeout, nor a budget error is
nobody's. -/
theorem own_of_neutral
    (hbudget : e.isBudget = false) (hcancelled : ∀ what, e ≠ .cancelled what)
    (htimeout : ∀ what, e ≠ .queueTimeout what) : Own o now q e := by
  cases e with
  | cancelled what => exact absurd rfl (hcancelled what)
  | queueTimeout what => exact absurd rfl (htimeout what)
  | _ =>
    intro h
    rw [hbudget] at h
    cases h

variable {key : Key}

/-- An item's error is the own error of everybody who needs the item. -/
theorem OfItem.own
    (h : OfItem o key e) (hkey : key ∈ q.parts) : Own o now q e := by
  cases e with
  | cancelled what => exact h.elim
  | queueTimeout what => exact h.elim
  | _ => exact fun hbudget => Or.inr (Or.inr (Or.inr ⟨key, hkey, h hbudget⟩))

/-- The producer's error is its own, unless it is its own stop. -/
theorem OfProducer.own
    (h : OfProducer o now q e) (hstop : q.stop = false) : Own o now q e := by
  cases e with
  | cancelled what =>
    rw [show q.stop = true from h] at hstop
    cases hstop
  | queueTimeout what => exact h
  | _ => exact h

theorem Own.reported (h : Own o now q e) : Own o now q e.reported := by
  cases e with
  | decode budget what =>
    cases budget with
    | true => exact fun _ => h rfl
    | false => exact h
  | _ => exact h

theorem check_error {cancelled : Bool} {deadline : Option Nat} {stage : String}
    (h : checkPreparationControl cancelled deadline now stage = .error e) :
    (cancelled = true ∧ ∃ what, e = .cancelled what)
      ∨ ((∃ t, deadline = some t ∧ t ≤ now)
        ∧ ∃ what, e = .queueTimeout what) := by
  unfold checkPreparationControl at h
  split at h
  · next hc => exact Or.inl ⟨hc, _, (error.inj h).symm⟩
  split at h
  · next hd =>
    obtain ⟨t, ht, hle⟩ := (Option.any_eq_true _ _).mp hd
    exact Or.inr ⟨⟨t, ht, of_decide_eq_true hle⟩, _, (error.inj h).symm⟩
  · cases h

/-- What its own control throws is the request's own. -/
theorem check_own (h : q.check now = .error e) : Own o now q e := by
  rcases check_error h with ⟨hc, what, rfl⟩ | ⟨hd, what, rfl⟩
  · exact hc
  · exact hd

/-- What the worker control throws is the producer's. -/
theorem workerCheck_producer
    (h : q.workerCheck now = .error e) : OfProducer o now q e := by
  rcases check_error h with ⟨hc, what, rfl⟩ | ⟨hd, what, rfl⟩
  · exact hc
  · exact hd

/-- What `process` checks of its parts. -/
theorem checkParts_own
    (h : checkParts o q.parts = .error e) : Own o now q e := by
  unfold checkParts at h
  split at h
  · next hcount =>
    cases h
    exact fun _ => Or.inl hcount
  split at h
  · next hbytes =>
    cases h
    exact fun _ => Or.inr (Or.inl hbytes)
  · cases h

/-- What decoding throws lies with the item. -/
theorem decodeItem_error (h : decodeItem o key = .error e) :
    OfItem o key e := by
  unfold decodeItem at h
  split at h
  · next budget what hdecoded =>
    cases h
    intro hbudget
    unfold ItemOver
    rw [hdecoded]
    cases budget with
    | true => rfl
    | false => cases hbudget
  · next g hdecoded =>
    simp only [bind, Except.bind] at h
    split at h
    · next hadd =>
      cases h
      obtain ⟨what, rfl⟩ := addBudget_error hadd
      exact nofun
    next stats hadd =>
    split at h
    · next henforce =>
      cases h
      obtain ⟨⟨what, rfl⟩, m, hover⟩ := enforce_error henforce
      intro _
      unfold ItemOver
      rw [hdecoded]
      refine Or.inl ⟨m, ?_⟩
      rw [addBudget_ok hadd m] at hover
      cases m with
      | rawPatches => simpa [Measure.get] using hover
      | visionTokens => simpa [Measure.get] using hover
    · cases h

theorem decodeItem_ok {g : Grid} (h : decodeItem o key = .ok g) :
    (o.content key).decoded = .ok g := by
  unfold decodeItem at h
  split at h
  · cases h
  · next g' hdecoded =>
    simp only [bind, Except.bind] at h
    split at h
    · cases h
    split at h
    · cases h
    cases h
    exact hdecoded

/-- What the allocation checks lies with the item. -/
theorem checkAllocation_error {g : Grid} (hitem : (o.content key).decoded = .ok g)
    (h : checkAllocation o g = .error e) : OfItem o key e := by
  unfold checkAllocation at h
  split at h
  · cases h
    exact nofun
  split at h
  · cases h
    exact nofun
  split at h
  · next hlimit =>
    cases h
    intro _
    unfold ItemOver
    rw [hitem]
    exact Or.inr hlimit
  · cases h

end Ginfer.Frontend.Media
