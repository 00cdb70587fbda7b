/-
The executor over a Program.

`ConcurrentExecutor` is a template over its target; `targetApi` is the
instance the Qwen targets give it, call by call. What the device does
while a round is resolved is decided when the round is launched, so the
target keeps it from one call to the other.

The executor's units take the output sessions' decisions as inputs. They
come from `OutputSession::preview` on the tokens of the row, against what
is left of the request's budget (`sessionDecision`); a request for no
output at all is answered by the engine and never submitted
(runtime/engine/engine.cpp). `Served` is both.
-/
import Ginfer.Frontend.OutputSession
import Ginfer.Qwen.Resolve

namespace Ginfer.Qwen

open Ginfer.Lib Ginfer.Admission

/-- A Program between the executor's calls. -/
structure Target where
  program : Program
  /-- what the device does while the round in flight is resolved -/
  round : RoundDevice

/-- What the device does during a call. -/
structure TargetDevice where
  prefill : PrefillDevice
  round : RoundDevice

/-- A prompt with the execution options of its request. -/
abbrev TargetPrompt := PreparedPromptData × ResolvedExecutionOptions

/-- A call on the Program. -/
def Target.call (t : Target) : Outcome Program → Outcome Target
  | .ok p => .ok { t with program := p }
  | .throw e p => .throw e { t with program := p }

/-- What a Qwen target gives the executor. -/
def targetApi (c : Config) :
    ProgramApi Target TargetPrompt RequestBasePlan RequestPlan
      TargetDevice where
  planRequestBase _ prompt := planRequestBase c prompt.1 prompt.2
  baseSummary base := base.summary
  planRequestForLane t lane prompt base :=
    t.program.planRequestForLane c lane prompt.1 base
  planSummary plan := plan.summary
  canAdmitLane t lane plan := t.program.canAdmitLane c lane plan
  canAdmitLaneAfterRetainedEviction t lane plan :=
    t.program.canAdmitLaneAfterRetainedEviction c lane plan
  hasRetainedLane t lane := t.program.hasRetainedLane c lane
  evictRetainedLane t lane :=
    { t with program := t.program.evictRetainedLane c lane }
  startPrefillLane t lane prompt plan transient d :=
    t.call (t.program.startPrefillLane c lane prompt.1 plan transient d.prefill)
  advancePrefillLane t lane d :=
    t.call (t.program.advancePrefillLane c lane d.prefill)
  prefillComplete t lane := (t.program.requests lane).lifecycle == .pending
  resolvePrefillLane t lane terminal :=
    t.call (t.program.resolvePrefillLane c lane terminal)
  decodeBatch t rows d :=
    Target.call { t with round := d.round } (t.program.decodeBatch c rows d.round)
  rowCount t lane := (t.program.requests lane).pending.produced
  resolvePendingBatch t rows :=
    t.call (t.program.resolvePendingBatch c rows t.round)
  abortLane t lane := { t with program := t.program.abortLane c lane }

/-- The executor over a Qwen target. -/
abbrev Executor :=
  Admission.State Target TargetPrompt RequestBasePlan RequestPlan

/-- A request of that executor. -/
abbrev ExecutorRequest :=
  Admission.Request TargetPrompt RequestBasePlan RequestPlan

/-- A unit of that executor. -/
abbrev ExecutorAction := Admission.Action TargetPrompt TargetDevice

/-- The executor over a freshly built Program. -/
def Executor.init (c : Config) (tables : PoolId → Nat → Nat → Nat)
    (round : RoundDevice) : Executor :=
  Admission.State.init ⟨.init c tables, round⟩

/-- What a session decides on `tokens`, by the budget that is left. -/
def sessionDecision (session : Frontend.OutputSession)
    (tokens : List Frontend.TokenId) (limit : Frontend.FinishReason)
    (budget : Nat) : Except Exception OutputDecision :=
  (session.preview tokens budget limit).map fun result =>
    ⟨result.1.acceptedTokens, result.1.finished⟩

/-- The decision is some session's, on some tokens. -/
def Decided (decision : Nat → Except Exception OutputDecision) : Prop :=
  ∃ session tokens limit, decision = sessionDecision session tokens limit

/-- The decisions of a unit come from output sessions, and a submitted
request asks for output. -/
def Served : ExecutorAction → Prop
  | .submit prompt => prompt.2.requestedOutputTokens ≠ 0
  | .tryAdmit _ unit => Decided unit.decision
  | .prefill unit => Decided unit.decision
  | .decode unit => ∀ lane, Decided (unit.decision lane)
  | _ => True

end Ginfer.Qwen
