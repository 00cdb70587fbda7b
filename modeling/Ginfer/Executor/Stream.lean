/-
Streaming a request's output to its waiter
(`append_output`, `complete_success`, `complete_error` and
`wait_for_request` of runtime/engine/concurrent_executor.h).

# Threads and steps

The state adds to each request of Executor/Completion.lean its output
buffers and its waiter, and the steps are again the critical sections:

- the worker appends a published output to a request it has in its hands
  (in a slot, or about to be completed): the texts are added to the full
  texts and the deltas to the shared `events`, under one lock;
- `complete_success` moves the full texts into the result as it sets
  `done`; `complete_error` stores an error;
- an iteration of the waiter is one section that takes the buffered
  events and reads `done` (`take`; the wait before it times out, so it may
  come at any moment and find nothing), one `publish` for each event
  taken, and one `poll` of the caller's cancellation. After an iteration
  that read `done` the wait is over.

A `publish` or a `poll` that throws leaves `caller_error`, and nothing is
handed to the sink from then on.

`appended` and `delivered` are ghosts: everything ever appended, and
everything handed to the sink.
-/
import Ginfer.Executor.Completion
import Ginfer.Frontend.OutputSession

namespace Ginfer.Executor

open Ginfer.Lib Ginfer.Frontend

/-- How `wait_for_request` ends: with the texts of the result, with the
request's error, or with the caller's. -/
inductive WaitOutcome where
  | result (content reasoning : Bytes)
  | requestError
  | callerError

/-- Where the waiter is. -/
inductive WaiterPhase where
  /-- nobody has called `wait` -/
  | absent
  /-- before the section of an iteration -/
  | looping
  /-- after it, with what it took and what it read of `done` -/
  | publishing (events : PublishedOutput) (done : Bool)
  /-- past the loop -/
  | returned (outcome : WaitOutcome)

/-- How a completed request ended. -/
inductive Completion where
  | success (content reasoning : Bytes)
  | error

/-- The output of a request and its waiter. -/
structure Stream where
  content : Bytes
  reasoning : Bytes
  events : PublishedOutput
  completion : Option Completion
  waiter : WaiterPhase
  /-- `sink != nullptr` -/
  sink : Bool
  callerError : Bool
  delivered : PublishedOutput
  appended : PublishedOutput

/-- The stream of a new request. -/
def Stream.init : Stream where
  content := []
  reasoning := []
  events := []
  completion := none
  waiter := .absent
  sink := false
  callerError := false
  delivered := []
  appended := []

/-- What the caller's `CancellationView` answers. -/
inductive Poll where
  | clear
  | requested
  | throws

namespace Stream

/-- One delta of `append_output`. -/
def appendEvent (t : Stream) (delta : OutputDelta) : Stream :=
  let t := { t with
    events := t.events ++ [delta]
    appended := t.appended ++ [delta] }
  match delta.channel with
  | .reasoning => { t with reasoning := t.reasoning ++ delta.text }
  | .content => { t with content := t.content ++ delta.text }

/-- `append_output`. -/
def appendOutput (t : Stream) (output : PublishedOutput) : Stream :=
  output.foldl appendEvent t

/-- The first section of `complete_success` or `complete_error` of a
request that is not done. -/
def complete (t : Stream) (success : Bool) : Stream :=
  if success then
    { t with
      completion := some (.success t.content t.reasoning)
      content := []
      reasoning := [] }
  else { t with completion := some .error }

/-- The section of an iteration of the waiter. -/
def take (t : Stream) (done : Bool) : Stream :=
  { t with events := [], waiter := .publishing t.events done }

/-- The end of `wait_for_request`, after an iteration that read
`done`. -/
def waitOutcome (t : Stream) : WaitOutcome :=
  if t.callerError then .callerError
  else
    match t.completion with
    | some (.success content reasoning) => .result content reasoning
    | _ => .requestError

/-- The end of an iteration. -/
def endIteration (t : Stream) (done : Bool) : Stream :=
  if done then { t with waiter := .returned t.waitOutcome }
  else { t with waiter := .looping }

end Stream

/-- The executor with the streams of its requests. -/
structure StreamState where
  exec : State
  streams : Nat → Stream

/-- The steps of the threads. -/
inductive StreamAction where
  /-- a step of Executor/Completion.lean -/
  | exec (a : Action)
  /-- the worker's `append_output` -/
  | append (r : Nat) (output : PublishedOutput)
  /-- the worker's `complete_success` or `complete_error` -/
  | complete (success : Bool)
  /-- `Submission::wait` is called -/
  | wait (r : Nat) (sink : Bool)
  /-- the waiter's section -/
  | take (r : Nat)
  /-- one `sink->publish`, and whether it returned -/
  | publish (r : Nat) (returned : Bool)
  /-- the waiter's look at its cancellation -/
  | poll (r : Nat) (answer : Poll)

namespace StreamState

/-- No requests yet. -/
def init : StreamState where
  exec := .init
  streams := fun _ => .init

/-- Replace one stream. -/
def setStream (s : StreamState) (r : Nat) (t : Stream) : StreamState :=
  { s with streams := Function.update s.streams r t }

/-- The worker has the request in its hands: in a slot, between units of
work, or first among those it is completing. -/
def inHands (s : StreamState) (r : Nat) : Bool :=
  decide (s.exec.worker = .running)
    && (s.exec.todo.isEmpty && decide (r ∈ s.exec.slots.map Prod.snd)
      || decide (s.exec.todo.head? = some r) && !(s.exec.requests r).marking)

/-- The steps of Executor/Completion.lean that go on beside the streams:
completions and cancellations have steps of their own here, a
`Submission` that is waited on is not abandoned, and a waiter releases
its request when it is past the loop. -/
def execEnabled (s : StreamState) : Action → Bool
  | .complete => false
  | .cancel _ => false
  | .abandon r =>
    match (s.streams r).waiter with
    | .absent => true
    | _ => false
  | .releaseConsumer r =>
    match (s.streams r).waiter with
    | .absent => (s.exec.requests r).abandoned
    | .returned _ => true
    | _ => false
  | _ => true

/-- The store to `cancelled`. -/
def cancel (cfg : Config) (s : StreamState) (r : Nat) (t : Stream) :
    Option StreamState :=
  (s.exec.step cfg (.cancel r)).map fun exec =>
    { s with exec := exec }.setStream r t

/-- One step; `none` when the thread is not there. -/
def step (cfg : Config) (s : StreamState) : StreamAction → Option StreamState
  | .exec a =>
    if s.execEnabled a then
      (s.exec.step cfg a).map fun exec => { s with exec := exec }
    else none
  | .append r output =>
    if s.inHands r then
      some (s.setStream r ((s.streams r).appendOutput output))
    else none
  | .complete success =>
    match s.exec.todo with
    | [] => none
    | r :: _ =>
      if success ∧ s.exec.worker ≠ .running then none
      else
        (s.exec.step cfg .complete).map fun exec =>
          if (s.exec.requests r).done then { s with exec := exec }
          else { s with exec := exec }.setStream r
            ((s.streams r).complete success)
  | .wait r sink =>
    match (s.streams r).waiter with
    | .absent =>
      if (s.exec.requests r).stage = .accepted
          ∧ (s.exec.requests r).abandoned = false then
        some (s.setStream r { s.streams r with waiter := .looping, sink := sink })
      else none
    | _ => none
  | .take r =>
    match (s.streams r).waiter with
    | .looping =>
      some (s.setStream r ((s.streams r).take (s.exec.requests r).done))
    | _ => none
  | .publish r returned =>
    let t := s.streams r
    match t.waiter with
    | .publishing (delta :: rest) done =>
      if t.callerError = false ∧ t.sink then
        if returned then
          some (s.setStream r { t with
            waiter := .publishing rest done
            delivered := t.delivered ++ [delta] })
        else
          s.cancel cfg r { t with
            waiter := .publishing [] done
            callerError := true }
      else none
    | _ => none
  | .poll r answer =>
    let t := s.streams r
    match t.waiter with
    | .publishing events done =>
      if t.callerError = false ∧ t.sink ∧ events ≠ [] then none
      else if t.callerError then
        some (s.setStream r (t.endIteration done))
      else
        match answer with
        | .clear => some (s.setStream r (t.endIteration done))
        | .requested => s.cancel cfg r (t.endIteration done)
        | .throws =>
          s.cancel cfg r ({ t with callerError := true }.endIteration done)
    | _ => none

end StreamState

end Ginfer.Executor
