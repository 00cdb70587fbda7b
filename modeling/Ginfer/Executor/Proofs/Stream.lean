/-
What the sink is handed is what the result says.

For one request a step of the system is one of a few moves of its stream
(`Moves`); whose step it was no longer matters. Two facts of
Executor/Proofs/Completion.lean enter there: `done` is set once, and the
worker appends only to requests that are not done.

`Stream.Inv` is then kept move by move. Its first line is the pipeline:
what was delivered, what the waiter has taken and what is still buffered
are, in this order, everything that was appended.
-/
import Ginfer.Executor.Proofs.Completion
import Ginfer.Executor.Stream

namespace Ginfer.Executor

open Ginfer.Lib Ginfer.Frontend Function State List Option

-- ============ the invariant

/-- The text of one channel. -/
def channelText (channel : OutputChannel) (deltas : PublishedOutput) :
    Bytes :=
  (deltas.filter fun delta => delta.channel = channel).flatMap OutputDelta.text

namespace Stream

/-- What the waiter has taken and not yet handed on. -/
def taken (t : Stream) : PublishedOutput :=
  match t.waiter with
  | .publishing events _ => events
  | _ => []

/-- The waiter has read `done`. -/
def observed (t : Stream) : Bool :=
  match t.waiter with
  | .publishing _ done => done
  | .returned _ => true
  | _ => false

/-- The stream of a request whose `done` flag is `done`. -/
structure Inv (done : Bool) (t : Stream) : Prop where
  absent : t.waiter = .absent → t.delivered = [] ∧ t.callerError = false
  pipeline : t.callerError = false → t.sink = true ∨ t.waiter = .absent →
    t.delivered ++ t.taken ++ t.events = t.appended
  texts : done = false → t.content = channelText .content t.appended
    ∧ t.reasoning = channelText .reasoning t.appended
  completed : done = true → t.completion = some .error
    ∨ t.completion = some (.success (channelText .content t.appended)
        (channelText .reasoning t.appended))
  observed_done : t.observed = true → done = true ∧ t.events = []
  result : ∀ content reasoning,
    t.waiter = .returned (.result content reasoning) →
      t.callerError = false ∧ t.completion = some (.success content reasoning)

-- ============ the moves

/-- The moves of a stream, with the request's `done` flag before and
after. -/
inductive Moves : Bool → Stream → Bool → Stream → Prop where
  | keep (d : Bool) (t : Stream) : Moves d t d t
  | append (t : Stream) (output : PublishedOutput) :
      Moves false t false (t.appendOutput output)
  | complete (t : Stream) (success : Bool) :
      Moves false t true (t.complete success)
  | wait (d : Bool) (t : Stream) (sink : Bool) (h : t.waiter = .absent) :
      Moves d t d { t with waiter := .looping, sink := sink }
  | take (d : Bool) (t : Stream) (h : t.waiter = .looping) :
      Moves d t d (t.take d)
  | publish (d : Bool) (t : Stream) {delta : OutputDelta}
      {rest : PublishedOutput} {seen : Bool}
      (h : t.waiter = .publishing (delta :: rest) seen) :
      Moves d t d { t with
        waiter := .publishing rest seen
        delivered := t.delivered ++ [delta] }
  | fail (d : Bool) (t : Stream) {events : PublishedOutput} {seen : Bool}
      (h : t.waiter = .publishing events seen) :
      Moves d t d { t with
        waiter := .publishing [] seen
        callerError := true }
  | finish (d : Bool) (t : Stream) {events : PublishedOutput}
      {seen : Bool} (h : t.waiter = .publishing events seen)
      (hdone : t.callerError = false → t.sink = true → events = [])
      (error : Bool) (herror : error = false → t.callerError = false) :
      Moves d t d ({ t with callerError := error }.endIteration seen)

end Stream

-- ============ a step is a move

namespace StreamState

variable {cfg : Config} {s s' : StreamState} {r : Nat}

/-- Only a completion sets `done`. -/
theorem exec_done {exec exec' : State} {a : Action}
    (hinv : Inv cfg exec) (hstep : exec.step cfg a = some exec')
    (ha : a ≠ .complete) (r : Nat) :
    (exec'.requests r).done = (exec.requests r).done := by
  have hset : ∀ (i : Nat) (q : RequestState), q.done = (exec.requests i).done →
      (update exec.requests i q r).done
        = (exec.requests r).done := by
    intro i q hq
    by_cases hr : r = i
    · rw [hr, update_self, hq]
    · rw [update_of_ne hr]
  cases a with
  | complete => exact absurd rfl ha
  | submitReserve =>
    simp only [State.step, some.injEq] at hstep
    subst hstep
    unfold submitReserve
    split
    · rfl
    split
    · rfl
    · refine hset exec.nextRequestId _ ?_
      rw [hinv.accounting.fresh _ (le_refl _)]
  | submitFails i | cancel i | abandon i | releaseReservedCapacity i =>
    simp only [State.step, ite_none_right_eq_some, some.injEq] at hstep
    obtain ⟨-, rfl⟩ := hstep
    exact hset i _ rfl
  | submitEnqueue i =>
    simp only [State.step, ite_none_right_eq_some, some.injEq] at hstep
    obtain ⟨-, rfl⟩ := hstep
    unfold submitEnqueue
    dsimp only
    split
    · exact hset i _ rfl
    · exact hset i _ rfl
  | releaseConsumer i =>
    simp only [State.step, ite_none_right_eq_some, some.injEq] at hstep
    obtain ⟨-, rfl⟩ := hstep
    refine hset i _ ?_
    unfold releaseConsumer
    split
    · rfl
    · rfl
  | shutdown =>
    simp only [State.step, some.injEq] at hstep
    subst hstep
    rfl
  | takePending | admitTo | admitFails | finishLane | unwind | failAll | exit =>
    simp only [State.step, ite_none_right_eq_some, some.injEq] at hstep
    obtain ⟨-, rfl⟩ := hstep
    rfl
  | markCompleted =>
    simp only [State.step] at hstep
    split at hstep
    · cases hstep
    · next i rest _ =>
      rw [ite_none_right_eq_some] at hstep
      obtain ⟨-, ⟨⟩⟩ := hstep
      refine hset i _ ?_
      unfold markCompleted
      split
      · rfl
      · rfl

/-- The worker's hands hold no request that is done. -/
theorem inHands_not_done (hinv : Inv cfg s.exec)
    (h : s.inHands r = true) : (s.exec.requests r).done = false := by
  by_contra hdone
  have hdone' : (s.exec.requests r).done = true := by simpa using hdone
  unfold inHands at h
  simp only [Bool.and_eq_true, Bool.or_eq_true, decide_eq_true_eq,
    Bool.not_eq_true', List.isEmpty_iff] at h
  obtain ⟨-, ⟨htodo, hslot⟩ | ⟨hhead, hmarking⟩⟩ := h
  · have hmem : r ∈ s.exec.places := by
      unfold places
      exact mem_append_right _ (mem_append_left _ hslot)
    obtain ⟨rest, hrest⟩ :=
      hinv.placement.head r (hinv.placement.marking r hmem hdone')
    rw [htodo] at hrest
    cases hrest
  · have hmem : r ∈ s.exec.places := by
      unfold places
      refine mem_append_right _ (mem_append_right _ ?_)
      exact mem_of_mem_head? hhead
    rw [hinv.placement.marking r hmem hdone'] at hmarking
    cases hmarking

/-- The stream of another request does not move. -/
theorem setStream_moves {exec : State} {t : Stream} {i : Nat}
    (hdone : ∀ r, (exec.requests r).done = (s.exec.requests r).done)
    (hmove : Stream.Moves (s.exec.requests i).done (s.streams i)
      (s.exec.requests i).done t) (r : Nat) :
    Stream.Moves (s.exec.requests r).done (s.streams r) (exec.requests r).done
      (({ s with exec := exec }.setStream i t).streams r) := by
  rw [hdone r]
  show Stream.Moves _ _ _ (update s.streams i t r)
  by_cases hr : r = i
  · rw [hr, update_self]
    exact hmove
  · rw [update_of_ne hr]
    exact .keep _ _

/-- The same after the store to `cancelled`. -/
theorem cancel_moves {t : Stream} {i : Nat} (hinv : Inv cfg s.exec)
    (hstep : s.cancel cfg i t = some s')
    (hmove : Stream.Moves (s.exec.requests i).done (s.streams i)
      (s.exec.requests i).done t) :
    Inv cfg s'.exec ∧ ∀ r, Stream.Moves (s.exec.requests r).done
      (s.streams r) (s'.exec.requests r).done (s'.streams r) := by
  unfold cancel at hstep
  obtain ⟨exec, hexec, rfl⟩ := map_eq_some_iff.mp hstep
  exact ⟨step_inv hexec hinv,
    setStream_moves (exec_done hinv hexec (by simp)) hmove⟩

/-- Every step of the system is a move of every stream. -/
theorem step_moves {a : StreamAction} (hinv : Inv cfg s.exec)
    (hstep : s.step cfg a = some s') :
    Inv cfg s'.exec ∧ ∀ r, Stream.Moves (s.exec.requests r).done
      (s.streams r) (s'.exec.requests r).done (s'.streams r) := by
  cases a with
  | exec a =>
    simp only [step, ite_none_right_eq_some] at hstep
    obtain ⟨henabled, hstep⟩ := hstep
    obtain ⟨exec, hexec, rfl⟩ := map_eq_some_iff.mp hstep
    have ha : a ≠ .complete := by
      rintro rfl
      cases henabled
    refine ⟨step_inv hexec hinv, fun r => ?_⟩
    rw [exec_done hinv hexec ha r]
    exact .keep _ _
  | append i output =>
    simp only [step, ite_none_right_eq_some, some.injEq] at hstep
    obtain ⟨hhands, rfl⟩ := hstep
    have hdone := inHands_not_done hinv hhands
    refine ⟨hinv, setStream_moves (fun _ => rfl) ?_⟩
    rw [hdone]
    exact .append _ _
  | complete success =>
    simp only [step] at hstep
    split at hstep
    · cases hstep
    next i rest htodo =>
    split at hstep
    · cases hstep
    obtain ⟨exec, hexec, rfl⟩ := map_eq_some_iff.mp hstep
    have hinv' := step_inv hexec hinv
    -- By custody, a request that is done is not completed again.
    simp only [State.step, htodo] at hexec
    split at hexec
    · cases hexec
    next hmarking =>
    have hdone : (s.exec.requests i).done = false := by
      by_contra hdone
      have hmem : i ∈ s.exec.places := by
        unfold places
        rw [htodo]
        simp
      exact hmarking (hinv.placement.marking i hmem (by simpa using hdone))
    rw [hdone] at hexec ⊢
    injection hexec with hexec
    simp only [Bool.false_eq_true, if_false]
    refine ⟨hinv', fun r => ?_⟩
    subst hexec
    show Stream.Moves _ _ (update s.exec.requests i _ r).done
      (update s.streams i _ r)
    by_cases hr : r = i
    · rw [hr, update_self, update_self, hdone]
      exact .complete _ _
    · rw [update_of_ne hr, update_of_ne hr]
      exact .keep _ _
  | wait i sink =>
    simp only [step] at hstep
    split at hstep
    · next habsent =>
      rw [ite_none_right_eq_some] at hstep
      obtain ⟨-, ⟨⟩⟩ := hstep
      exact ⟨hinv, setStream_moves (fun _ => rfl) (.wait _ _ _ habsent)⟩
    · cases hstep
  | take i =>
    simp only [step] at hstep
    split at hstep
    · next hlooping =>
      cases hstep
      exact ⟨hinv, setStream_moves (fun _ => rfl) (.take _ _ hlooping)⟩
    · cases hstep
  | publish i returned =>
    simp only [step] at hstep
    split at hstep
    · next delta rest done hwaiter =>
      rw [ite_none_right_eq_some] at hstep
      obtain ⟨-, hstep⟩ := hstep
      split at hstep
      · cases hstep
        exact ⟨hinv, setStream_moves (fun _ => rfl) (.publish _ _ hwaiter)⟩
      · exact cancel_moves hinv hstep (.fail _ _ hwaiter)
    · cases hstep
  | poll i answer =>
    simp only [step] at hstep
    split at hstep
    · next events done hwaiter =>
      split at hstep
      · cases hstep
      next hready =>
      have hempty : (s.streams i).callerError = false →
          (s.streams i).sink = true → events = [] := by
        intro hc hs
        by_contra hne
        exact hready ⟨hc, hs, hne⟩
      split at hstep
      · cases hstep
        exact ⟨hinv, setStream_moves (fun _ => rfl)
          (.finish _ _ hwaiter hempty _ id)⟩
      · cases answer with
        | clear =>
          cases hstep
          exact ⟨hinv, setStream_moves (fun _ => rfl)
            (.finish _ _ hwaiter hempty _ id)⟩
        | requested =>
          exact cancel_moves hinv hstep (.finish _ _ hwaiter hempty _ id)
        | throws =>
          exact cancel_moves hinv hstep
            (.finish _ _ hwaiter hempty true Bool.noConfusion)
    · cases hstep

end StreamState

-- ============ the moves keep it

namespace Stream

variable {d d' : Bool} {t t' : Stream}

theorem channelText_append (channel : OutputChannel)
    (xs ys : PublishedOutput) : channelText channel (xs ++ ys)
      = channelText channel xs ++ channelText channel ys := by
  unfold channelText
  rw [filter_append, flatMap_append]

/-- What `append_output` does, as a whole. -/
theorem appendOutput_eq : ∀ (output : PublishedOutput) (t : Stream),
    t.appendOutput output = { t with
      content := t.content ++ channelText .content output
      reasoning := t.reasoning ++ channelText .reasoning output
      events := t.events ++ output
      appended := t.appended ++ output } := by
  intro output
  induction output with
  | nil =>
    intro t
    simp [appendOutput, channelText]
  | cons delta rest ih =>
    intro t
    show (t.appendEvent delta).appendOutput rest = _
    rw [ih]
    unfold appendEvent channelText
    cases h : delta.channel with
    | content => simp [h]
    | reasoning => simp [h]

/-- Every move keeps the invariant. -/
theorem Moves.inv (h : Moves d t d' t') (hinv : t.Inv d) : t'.Inv d' := by
  cases h with
  | keep => exact hinv
  | append _ output =>
    rw [appendOutput_eq]
    have hobserved : t.observed ≠ true := by
      intro ho
      cases (hinv.observed_done ho).1
    refine ⟨hinv.absent, ?_, ?_, ?_, ?_, hinv.result⟩
    · intro hc hs
      show t.delivered ++ t.taken ++ (t.events ++ output) = t.appended ++ output
      rw [← hinv.pipeline hc hs]
      simp
    · intro hd
      obtain ⟨hcontent, hreasoning⟩ := hinv.texts hd
      show t.content ++ _ = channelText _ (t.appended ++ output)
        ∧ t.reasoning ++ _ = channelText _ (t.appended ++ output)
      rw [channelText_append, channelText_append, hcontent, hreasoning]
      exact ⟨rfl, rfl⟩
    · intro hd
      cases hd
    · intro ho
      exact absurd ho hobserved
  | complete _ success =>
    obtain ⟨hcontent, hreasoning⟩ := hinv.texts rfl
    have hobserved : t.observed ≠ true := by
      intro ho
      cases (hinv.observed_done ho).1
    have hresult : ∀ content reasoning,
        t.waiter ≠ .returned (.result content reasoning) := by
      intro content reasoning hw
      apply hobserved
      unfold observed
      rw [hw]
    unfold Stream.complete
    cases success with
    | true =>
      rw [if_pos rfl]
      refine ⟨hinv.absent, hinv.pipeline, nofun, ?_,
        fun ho => absurd ho hobserved,
        fun _ _ hw => absurd hw (hresult _ _)⟩
      intro _
      right
      rw [← hcontent, ← hreasoning]
    | false =>
      rw [if_neg (by simp)]
      exact ⟨hinv.absent, hinv.pipeline, nofun, fun _ => Or.inl rfl,
        fun ho => absurd ho hobserved,
        fun _ _ hw => absurd hw (hresult _ _)⟩
  | wait _ _ sink hwaiter =>
    obtain ⟨hdelivered, hc⟩ := hinv.absent hwaiter
    have hpipe := hinv.pipeline hc (Or.inr hwaiter)
    have htaken : t.taken = [] := by
      unfold taken
      rw [hwaiter]
    rw [htaken] at hpipe
    refine ⟨nofun, ?_, hinv.texts, hinv.completed, nofun, nofun⟩
    intro _ _
    exact hpipe
  | take _ _ hwaiter =>
    have htaken : t.taken = [] := by
      unfold taken
      rw [hwaiter]
    refine ⟨nofun, ?_, hinv.texts, hinv.completed, ?_, nofun⟩
    · intro hc hs
      have hsink : t.sink = true := by
        rcases hs with hs | hs
        · exact hs
        · cases hs
      have hpipe := hinv.pipeline hc (Or.inl hsink)
      rw [htaken] at hpipe
      show t.delivered ++ t.events ++ [] = t.appended
      simpa using hpipe
    · intro ho
      exact ⟨ho, rfl⟩
  | @publish _ _ delta rest seen hwaiter =>
    have htaken : t.taken = delta :: rest := by
      unfold taken
      rw [hwaiter]
    have hobserved : t.observed = seen := by
      unfold observed
      rw [hwaiter]
    refine ⟨nofun, ?_, hinv.texts, hinv.completed, ?_, nofun⟩
    · intro hc hs
      have hsink : t.sink = true := by
        rcases hs with hs | hs
        · exact hs
        · cases hs
      have hpipe := hinv.pipeline hc (Or.inl hsink)
      rw [htaken] at hpipe
      show t.delivered ++ [delta] ++ rest ++ t.events = t.appended
      simpa using hpipe
    · intro ho
      exact hinv.observed_done (hobserved.trans ho)
  | @fail _ _ events seen hwaiter =>
    have hobserved : t.observed = seen := by
      unfold observed
      rw [hwaiter]
    refine ⟨nofun, nofun, hinv.texts, hinv.completed, ?_, nofun⟩
    intro ho
    exact hinv.observed_done (hobserved.trans ho)
  | @finish _ _ events seen hwaiter hempty error herror =>
    have hobserved : t.observed = seen := by
      unfold observed
      rw [hwaiter]
    have htaken : t.taken = events := by
      unfold taken
      rw [hwaiter]
    have hpipe : error = false → t.sink = true →
        t.delivered ++ [] ++ t.events = t.appended := by
      intro he hs
      have hpipe := hinv.pipeline (herror he) (Or.inl hs)
      rw [htaken, hempty (herror he) hs] at hpipe
      exact hpipe
    unfold endIteration
    cases seen with
    | true =>
      rw [if_pos rfl]
      refine ⟨nofun, ?_, hinv.texts, hinv.completed, ?_, ?_⟩
      · rintro he (hs | hs)
        · exact hpipe he hs
        · cases hs
      · intro _
        exact hinv.observed_done hobserved
      · intro content reasoning hw
        simp only [WaiterPhase.returned.injEq] at hw
        unfold waitOutcome at hw
        split at hw
        · cases hw
        · next he =>
          split at hw
          · next hsuccess =>
            cases hw
            exact ⟨by simpa using he, hsuccess⟩
          · cases hw
    | false =>
      rw [if_neg (by simp)]
      refine ⟨nofun, ?_, hinv.texts, hinv.completed, nofun, nofun⟩
      rintro he (hs | hs)
      · exact hpipe he hs
      · cases hs

/-- A request that is done gets no further output. -/
theorem Moves.appended (h : Moves true t d' t') :
    d' = true ∧ t'.appended = t.appended := by
  cases h with
  | keep => exact ⟨rfl, rfl⟩
  | wait => exact ⟨rfl, rfl⟩
  | take => exact ⟨rfl, rfl⟩
  | publish => exact ⟨rfl, rfl⟩
  | fail => exact ⟨rfl, rfl⟩
  | finish =>
    refine ⟨rfl, ?_⟩
    unfold endIteration
    split
    · rfl
    · rfl

/-- Once the waiter has read `done`, all that can still reach the sink is
what it took with it. -/
theorem Moves.observed (h : Moves d t d' t') (hinv : t.Inv d)
    (ho : t.observed = true) : t'.observed = true
      ∧ t'.delivered ++ t'.taken <+: t.delivered ++ t.taken := by
  have hd := (hinv.observed_done ho).1
  cases h with
  | keep => exact ⟨ho, prefix_refl _⟩
  | append => cases hd
  | complete => cases hd
  | wait _ _ sink hwaiter =>
    unfold Stream.observed at ho
    rw [hwaiter] at ho
    cases ho
  | take _ _ hwaiter =>
    unfold Stream.observed at ho
    rw [hwaiter] at ho
    cases ho
  | @publish _ _ delta rest seen hwaiter =>
    unfold Stream.observed at ho
    unfold Stream.observed Stream.taken
    rw [hwaiter] at ho ⊢
    refine ⟨ho, ?_⟩
    show t.delivered ++ [delta] ++ rest <+: t.delivered ++ delta :: rest
    rw [append_assoc, singleton_append]
  | @fail _ _ events seen hwaiter =>
    unfold Stream.observed at ho
    unfold Stream.observed Stream.taken
    rw [hwaiter] at ho ⊢
    refine ⟨ho, ?_⟩
    show t.delivered ++ [] <+: t.delivered ++ events
    rw [append_nil]
    exact prefix_append _ _
  | @finish _ _ events seen hwaiter hempty error herror =>
    unfold Stream.observed at ho
    unfold Stream.observed Stream.taken
    rw [hwaiter] at ho ⊢
    have hseen : seen = true := ho
    subst hseen
    refine ⟨rfl, ?_⟩
    show t.delivered ++ [] <+: t.delivered ++ events
    rw [append_nil]
    exact prefix_append _ _

end Stream

-- ============ the runs

/-- The invariant of the system. -/
structure StreamState.Inv (cfg : Config) (s : StreamState) : Prop where
  exec : State.Inv cfg s.exec
  streams : ∀ r, (s.streams r).Inv (s.exec.requests r).done

section

variable {cfg : Config} {s s' : StreamState} {a : StreamAction}

theorem StreamState.init_inv : StreamState.Inv cfg .init where
  exec := State.init_inv
  streams := by
    intro r
    refine ⟨fun _ => ⟨rfl, rfl⟩, fun _ _ => rfl, fun _ => ⟨rfl, rfl⟩,
      nofun, nofun, nofun⟩

theorem StreamState.step_inv (h : StreamState.Inv cfg s)
    (hstep : s.step cfg a = some s') : StreamState.Inv cfg s' := by
  obtain ⟨hexec, hmoves⟩ := StreamState.step_moves h.exec hstep
  exact ⟨hexec, fun r => (hmoves r).inv (h.streams r)⟩

/-- Nothing follows an observed `done` but what was taken with it. -/
theorem observed_run {acts : List StreamAction} {r : Nat}
    (h : StreamState.Inv cfg s) (ho : (s.streams r).observed = true)
    (hrun : run (StreamState.step cfg) s acts = some s') :
    (s'.streams r).appended = (s.streams r).appended
      ∧ (s'.streams r).delivered ++ (s'.streams r).taken
        <+: (s.streams r).delivered ++ (s.streams r).taken := by
  have hall := run_inv (P := fun s' => StreamState.Inv cfg s'
      ∧ (s'.streams r).observed = true
      ∧ (s'.streams r).appended = (s.streams r).appended
      ∧ (s'.streams r).delivered ++ (s'.streams r).taken
          <+: (s.streams r).delivered ++ (s.streams r).taken) ?_ hrun
    ⟨h, ho, rfl, prefix_refl _⟩
  · exact hall.2.2
  · rintro s₁ a s₂ hstep ⟨hinv, ho₁, happended, hpre⟩
    have hmoves := (StreamState.step_moves hinv.exec hstep).2 r
    have hdone := ((hinv.streams r).observed_done ho₁).1
    obtain ⟨ho₂, hpre₂⟩ := hmoves.observed (hinv.streams r) ho₁
    rw [hdone] at hmoves
    exact ⟨StreamState.step_inv hinv hstep, ho₂,
      hmoves.appended.2.trans happended, hpre₂.trans hpre⟩

end

/-- What a waiter with a sink sees of a request, as long as neither the
sink nor its cancellation throws: everything that was appended, in order,
and nothing twice; when the wait returns a result, exactly its texts; and
once `done` was read, nothing beyond what was taken with it, however the
run goes on. -/
structure StreamedExactly (cfg : Config) (s : StreamState) (r : Nat) :
    Prop where
  in_order : (s.streams r).callerError = false → (s.streams r).sink = true →
    (s.streams r).delivered ++ (s.streams r).taken ++ (s.streams r).events
      = (s.streams r).appended
  result : ∀ content reasoning,
    (s.streams r).waiter = .returned (.result content reasoning) →
    (s.streams r).sink = true →
    (s.streams r).delivered = (s.streams r).appended
      ∧ channelText .content (s.streams r).delivered = content
      ∧ channelText .reasoning (s.streams r).delivered = reasoning
  after_done : (s.streams r).observed = true →
    ∀ acts s', run (StreamState.step cfg) s acts = some s' →
      (s'.streams r).appended = (s.streams r).appended
        ∧ (s'.streams r).delivered
            <+: (s.streams r).delivered ++ (s.streams r).taken
  after_return : ∀ outcome, (s.streams r).waiter = .returned outcome →
    ∀ acts s', run (StreamState.step cfg) s acts = some s' →
      (s'.streams r).delivered <+: (s.streams r).delivered

theorem StreamState.Inv.streamedExactly {cfg : Config} {s : StreamState}
    (h : StreamState.Inv cfg s) (r : Nat) : StreamedExactly cfg s r := by
  have hstream := h.streams r
  constructor
  case in_order =>
    intro hc hs
    exact hstream.pipeline hc (Or.inl hs)
  case result =>
    intro content reasoning hwaiter hs
    obtain ⟨hc, hcompletion⟩ := hstream.result content reasoning hwaiter
    have ho : (s.streams r).observed = true := by
      unfold Stream.observed
      rw [hwaiter]
    obtain ⟨hdone, hevents⟩ := hstream.observed_done ho
    have hpipe := hstream.pipeline hc (Or.inl hs)
    have htaken : (s.streams r).taken = [] := by
      unfold Stream.taken
      rw [hwaiter]
    rw [htaken, hevents, append_nil, append_nil] at hpipe
    refine ⟨hpipe, ?_⟩
    rw [hpipe]
    rcases hstream.completed hdone with herror | hsuccess
    · rw [hcompletion] at herror
      cases herror
    · rw [hcompletion] at hsuccess
      cases hsuccess
      exact ⟨rfl, rfl⟩
  case after_done =>
    intro ho acts s' hrun
    obtain ⟨happended, hpre⟩ := observed_run h ho hrun
    exact ⟨happended, (prefix_append _ _).trans hpre⟩
  case after_return =>
    intro outcome hwaiter acts s' hrun
    have ho : (s.streams r).observed = true := by
      unfold Stream.observed
      rw [hwaiter]
    have htaken : (s.streams r).taken = [] := by
      unfold Stream.taken
      rw [hwaiter]
    have hpre := (observed_run h ho hrun).2
    rw [htaken, append_nil] at hpre
    exact (prefix_append _ _).trans hpre

/-- Streamed output, over every interleaving. -/
theorem streamed_exactly (cfg : Config) (acts : List StreamAction)
    (s : StreamState)
    (hrun : run (StreamState.step cfg) .init acts = some s) (r : Nat) :
    StreamedExactly cfg s r :=
  (run_inv (P := StreamState.Inv cfg)
    (fun _ _ _ hstep h => StreamState.step_inv h hstep) hrun
    StreamState.init_inv).streamedExactly r

/-- A request whose last delta arrives together with `done`. -/
def sampleStream : List StreamAction :=
  [ .exec .submitReserve, .exec (.submitEnqueue 1), .wait 1 true,
    .exec (.admitTo 1 0), .append 1 [⟨.reasoning, [1]⟩, ⟨.content, [2]⟩],
    .take 1, .publish 1 true, .append 1 [⟨.content, [3]⟩],
    .exec (.finishLane 0), .publish 1 true, .poll 1 .clear,
    .complete true, .take 1, .publish 1 true, .poll 1 .clear ]

theorem streamed_exactly_sample :
    ∃ s, run (StreamState.step ⟨2, 1, by decide⟩) .init sampleStream = some s
      ∧ (s.streams 1).waiter = .returned (.result [2, 3] [1])
      ∧ (s.streams 1).sink = true
      ∧ StreamedExactly ⟨2, 1, by decide⟩ s 1 := by
  have hrun : (run (StreamState.step ⟨2, 1, by decide⟩) .init
      sampleStream).map (fun s => ((s.streams 1).waiter, (s.streams 1).sink))
      = some (.returned (.result [2, 3] [1]), true) := by
    rfl
  obtain ⟨s, hs, hvalues⟩ := Option.map_eq_some_iff.mp hrun
  simp only [Prod.mk.injEq] at hvalues
  exact ⟨s, hs, hvalues.1, hvalues.2, streamed_exactly _ sampleStream s hs 1⟩

end Ginfer.Executor
