/-
Who finishes a request, and who gives its place back
(runtime/engine/concurrent_executor.h).

# Threads and steps

A request is touched by the thread that submits it, by the thread that
waits on or abandons its `Submission`, by whoever cancels it, and by the
executor's one worker thread. They meet under two mutexes — the queue's
and the request's — and an atomic step of the model is one critical
section of either, so every interleaving of the threads is a run:

- `submit` is three sections: reserve a place, build the request outside
  any lock (which may throw), enqueue it;
- `complete_*` is two sections of the request's mutex — set `done`, then
  `mark_completed` — and, when that says so, a section of the queue's;
- `release_consumer` is one section of the request's mutex and, when that
  says so, one of the queue's.

A release that has been decided and not yet performed is counted in
`releasing`; anyone's next step may come in between.

# The worker

Between its loop's units of work the worker holds requests in `pending_`
and `slots_`. Inside a unit it takes some of them out — expired,
cancelled, refused, finished — and completes each before anything else
can throw; these are `todo`, completed front to back. Everything a unit
can throw is thrown with `todo` empty, except out of an admission, whose
handler completes the admitted request first (`admitFails`). A throw, or
`stopping_`, ends in `fail_all` and the end of the thread.

Failures of host allocation are outside the model.
-/
import Ginfer.Lib.Words

namespace Ginfer.Executor

open Ginfer.Lib

/-- How far `submit` got with a request. -/
inductive SubmitStage where
  | absent
  | reserved
  | refused
  | accepted
  deriving DecidableEq

/-- The flags of a `Request`, and what its threads are in the middle of. -/
structure RequestState where
  stage : SubmitStage
  cancelled : Bool
  /-- the `Submission` was destroyed without a `wait` -/
  abandoned : Bool
  done : Bool
  consumerReleased : Bool
  capacityReleased : Bool
  /-- the worker is between the two sections of this completion -/
  marking : Bool
  /-- releases of the place decided and not yet performed -/
  releasing : Nat
  /-- how often `done` was set -/
  completions : Nat
  /-- how often the counter was decremented for this request -/
  decrements : Nat

/-- A request nobody has submitted. -/
def RequestState.absent : RequestState :=
  ⟨.absent, false, false, false, false, false, false, 0, 0, 0⟩

/-- Where the worker thread is: in its loop, on its way to `fail_all`, in
it, or gone. -/
inductive WorkerPhase where
  | running
  | unwinding
  | failing
  | exited
  deriving DecidableEq

/-- The executor's configuration; `max_outstanding_` is a `size_t`. -/
structure Config where
  maxOutstanding : Nat
  maxConcurrency : Nat
  max_outstanding_fits : maxOutstanding < 2 ^ 64

/-- The executor. Requests go by their `Request::id`. -/
structure State where
  stopping : Bool
  failed : Bool
  outstanding : Nat
  nextRequestId : Nat
  requests : Nat → RequestState
  pending : List Nat
  /-- occupied entries of `slots_`, by lane -/
  slots : List (Nat × Nat)
  worker : WorkerPhase
  todo : List Nat

/-- The executor its constructor leaves. -/
def State.init : State where
  stopping := false
  failed := false
  outstanding := 0
  nextRequestId := 1
  requests := fun _ => .absent
  pending := []
  slots := []
  worker := .running
  todo := []

/-- The steps of the threads. -/
inductive Action where
  /-- first section of `submit`, successful or refused -/
  | submitReserve
  /-- building the request threw -/
  | submitFails (r : Nat)
  /-- last section of `submit` -/
  | submitEnqueue (r : Nat)
  /-- the waiter's cancellation, or its sink failed -/
  | cancel (r : Nat)
  /-- the `Submission` is destroyed: its store to `cancelled` -/
  | abandon (r : Nat)
  /-- `release_consumer`'s section, at the end of `wait` or `abandon` -/
  | releaseConsumer (r : Nat)
  /-- `release_reserved_capacity` -/
  | releaseReservedCapacity (r : Nat)
  /-- the destructor's section -/
  | shutdown
  /-- the worker takes requests out of `pending_` to complete them -/
  | takePending (rs : List Nat)
  /-- the worker admits a pending request to a lane -/
  | admitTo (r : Nat) (lane : Nat)
  /-- the same, throwing inside its `try` block -/
  | admitFails (r : Nat)
  /-- the request of a lane ends: finished, stopped or cancelled -/
  | finishLane (lane : Nat)
  /-- a unit of work throws, or the worker sees `stopping_` -/
  | unwind
  /-- first section of `fail_all` -/
  | failAll
  /-- first section of `complete_error` / `complete_success` -/
  | complete
  /-- `mark_completed` -/
  | markCompleted
  /-- the worker thread returns -/
  | exit
  deriving Repr

namespace State

/-- Replace one request. -/
def setRequest (s : State) (r : Nat) (q : RequestState) : State :=
  { s with requests := Function.update s.requests r q }

/-- First section of `submit`: refused when the engine is unavailable or
the queue full, in which case nothing changes. -/
def submitReserve (cfg : Config) (s : State) : State :=
  if s.stopping || s.failed then s
  else if cfg.maxOutstanding ≤ s.outstanding then s
  else
    { (s.setRequest s.nextRequestId { RequestState.absent with
        stage := .reserved }) with
      outstanding := sizeAdd s.outstanding 1
      nextRequestId := s.nextRequestId + 1 }

/-- Last section of `submit`. -/
def submitEnqueue (s : State) (r : Nat) : State :=
  let q := s.requests r
  if s.stopping || s.failed then
    { (s.setRequest r { q with
        stage := .refused, decrements := q.decrements + 1 }) with
      outstanding := sizeSub s.outstanding 1 }
  else
    { (s.setRequest r { q with stage := .accepted }) with
      pending := s.pending ++ [r] }

/-- `release_consumer`'s section. -/
def releaseConsumer (q : RequestState) : RequestState :=
  if q.done && !q.capacityReleased then
    { q with
      consumerReleased := true
      capacityReleased := true
      releasing := q.releasing + 1 }
  else { q with consumerReleased := true }

/-- `mark_completed`. -/
def markCompleted (q : RequestState) : RequestState :=
  if q.consumerReleased && !q.capacityReleased then
    { q with
      capacityReleased := true
      releasing := q.releasing + 1
      marking := false }
  else { q with marking := false }

/-- `release_reserved_capacity`. -/
def releaseReservedCapacity (s : State) (r : Nat) : State :=
  let q := s.requests r
  { (s.setRequest r { q with
      releasing := q.releasing - 1, decrements := q.decrements + 1 }) with
    outstanding :=
      if s.outstanding ≠ 0 then sizeSub s.outstanding 1
      else s.outstanding }

/-- The worker is between units of work. -/
def idle (s : State) : Bool := s.worker = .running && s.todo.isEmpty

/-- One step; `none` when the thread is not there. -/
def step (cfg : Config) (s : State) : Action → Option State
  | .submitReserve => some (s.submitReserve cfg)
  | .submitFails r =>
    if (s.requests r).stage = .reserved then
      some (s.setRequest r { s.requests r with
        stage := .refused, releasing := (s.requests r).releasing + 1 })
    else none
  | .submitEnqueue r =>
    if (s.requests r).stage = .reserved then some (s.submitEnqueue r)
    else none
  | .cancel r =>
    if (s.requests r).stage = .accepted
        ∧ (s.requests r).consumerReleased = false then
      some (s.setRequest r { s.requests r with cancelled := true })
    else none
  | .abandon r =>
    if (s.requests r).stage = .accepted
        ∧ (s.requests r).consumerReleased = false then
      some (s.setRequest r { s.requests r with
        cancelled := true, abandoned := true })
    else none
  | .releaseConsumer r =>
    if (s.requests r).stage = .accepted ∧ (s.requests r).consumerReleased = false
        ∧ ((s.requests r).done = true ∨ (s.requests r).abandoned = true)
    then some (s.setRequest r (releaseConsumer (s.requests r)))
    else none
  | .releaseReservedCapacity r =>
    if 0 < (s.requests r).releasing then
      some (s.releaseReservedCapacity r)
    else none
  | .shutdown => some { s with stopping := true }
  | .takePending rs =>
    if s.idle ∧ rs.Nodup ∧ ∀ r ∈ rs, r ∈ s.pending then
      some { s with
        pending := s.pending.filter (· ∉ rs)
        todo := rs }
    else none
  | .admitTo r lane =>
    if s.idle ∧ r ∈ s.pending ∧ lane < cfg.maxConcurrency
        ∧ lane ∉ s.slots.map Prod.fst then
      some { s with
        pending := s.pending.filter (· ≠ r)
        slots := (lane, r) :: s.slots }
    else none
  | .admitFails r =>
    if s.idle ∧ r ∈ s.pending then
      some { s with
        pending := s.pending.filter (· ≠ r)
        todo := [r]
        worker := .unwinding }
    else none
  | .finishLane lane =>
    if s.idle ∧ lane ∈ s.slots.map Prod.fst then
      some { s with
        slots := s.slots.filter (·.1 ≠ lane)
        todo := (s.slots.filter (·.1 = lane)).map Prod.snd }
    else none
  | .unwind =>
    if s.idle then some { s with worker := .unwinding } else none
  | .failAll =>
    if s.worker = .unwinding ∧ s.todo = [] then
      some { s with
        failed := true
        pending := []
        slots := []
        todo := s.slots.map Prod.snd ++ s.pending
        worker := .failing }
    else none
  | .complete =>
    match s.todo with
    | [] => none
    | r :: rest =>
      if (s.requests r).marking then none
      else if (s.requests r).done then some { s with todo := rest }
      else
        some (s.setRequest r { s.requests r with
          done := true
          marking := true
          completions := (s.requests r).completions + 1 })
  | .markCompleted =>
    match s.todo with
    | [] => none
    | r :: rest =>
      if (s.requests r).marking then
        some { (s.setRequest r (markCompleted (s.requests r))) with
          todo := rest }
      else none
  | .exit =>
    if s.worker = .failing ∧ s.todo = [] then
      some { s with worker := .exited }
    else none

end State

end Ginfer.Executor
