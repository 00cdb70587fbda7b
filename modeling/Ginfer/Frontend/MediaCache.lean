/-
The media cache, and the requests that prepare media through it
(targets/qwen3_6/impl/frontend/media_cache.cpp, processor.cpp).

# Threads and steps

`Processor::process` runs on its client's thread: it passes a gate, looks
every part up in the cache — which joins a flight or starts one — and then
waits for what it was given. A flight is built on a worker of the host
pool. They meet under the cache's mutex, the account's, the flight's, the
gate's and the request budget's; an atomic step is one critical section of
one of these with the thread's own work before it, so every interleaving
of the threads is a run. A wait that would go on is a step that is not
enabled.

- `advance r` is the next step of request `r`'s thread (`Phase`);
- `dequeue` starts the task at the head of the pool's queue, and `work f`
  is the next step of the task of flight `f` (`Stage`);
- `destroy p` is the deleter of a payload nobody refers to any more: the
  last `shared_ptr` went some time before;
- `cancel`, `tick` and `drop` belong to the clients: they cancel, time
  passes, and a prepared prompt is let go.

The publishing section evicts and inserts under one lock; the deleters it
runs take the account's, and their releases commute with any reservation
in between, so they may as well come after it.

# What is left out

A `Turn` says what happens to a step that the thread does not decide: an
allocation that fails, or a look at the control in the middle of a build.
Media bytes and patches are not modelled; what a decoder makes of a part
is a function of its content, which the digest in the key stands for. The
rendering and the tokenization of the prompt are a step each. The pool is
not stopped while requests run, and the cache's counters are left out.
`std::terminate` leaves a state in which nothing is enabled.
-/
import Mathlib.Data.UInt

namespace Ginfer.Frontend.Media

-- ============ the errors

/-- What `process` and the tasks throw. -/
inductive PrepareError where
  /-- `RequestErrorKind::Cancelled` -/
  | cancelled (what : String)
  /-- `RequestErrorKind::QueueTimeout` -/
  | queueTimeout (what : String)
  /-- `RequestErrorKind::MediaBudgetExceeded` -/
  | mediaBudgetExceeded (what : String)
  /-- `ProcessorErrorKind::BudgetExceeded` -/
  | budgetExceeded (what : String)
  /-- `media::decode::Error`; `budget` is `ErrorKind::BudgetExceeded` -/
  | decode (budget : Bool) (what : String)
  | invalidArgument (what : String)
  | overflow (what : String)
  | logicError (what : String)
  | badAlloc
  deriving DecidableEq

/-- A media-budget error: the frontend reports a processor's as the
request's. -/
def PrepareError.isBudget : PrepareError → Bool
  | .mediaBudgetExceeded _ | .budgetExceeded _ | .decode true _ => true
  | _ => false

/-- The `catch` of `process` around its rethrow. -/
def PrepareError.reported : PrepareError → PrepareError
  | .decode true what => .budgetExceeded what
  | e => e

/-- `check_preparation_control`. -/
def checkPreparationControl (cancelled : Bool) (deadline : Option Nat)
    (now : Nat) (stage : String) : Except PrepareError Unit :=
  if cancelled then
    .error (.cancelled ("inference request was cancelled during " ++ stage))
  else if deadline.any fun t => decide (t ≤ now) then
    .error (.queueTimeout ("inference request expired during " ++ stage))
  else .ok ()

-- ============ the budgets

/-- The grid of a `VisionItem`. -/
structure Grid where
  t : Nat
  h : Nat
  w : Nat
  deriving DecidableEq

/-- The raw patches of a grid. -/
def Grid.patches (g : Grid) : Nat := g.t * (g.h * g.w)

/-- Its vision tokens: `kMerge * kMerge` patches each. -/
def Grid.tokens (g : Grid) : Nat := g.patches / 4

/-- `kPatchFeatures`. -/
def patchFeatures : Nat := 1536

/-- The bytes of its patch payload. -/
def Grid.bytes (g : Grid) : Nat := g.patches * patchFeatures * 2

/-- What a decoder makes of a part. -/
structure Content where
  encodedBytes : Nat
  decoded : Except (Bool × String) Grid

/-- What a frontend fixes, and the content behind every key. -/
structure Setup (Key : Type) where
  capacityBytes : Nat
  liveLimit : Nat
  maximumRequestBytes : Nat
  threads : Nat
  maxEncodedMediaBytes : Nat
  maxRawPatches : Nat
  maxVisionTokens : Nat
  content : Key → Content

variable {Key : Type}

/-- `MediaPreparationGate::maximum`. -/
def Setup.gateMaximum (o : Setup Key) : Nat :=
  if o.maximumRequestBytes = 0 then 1
  else max 1 (o.liveLimit / o.maximumRequestBytes)

/-- The capacity of the pool's queue. -/
def Setup.queueCapacity (o : Setup Key) : Nat := max 64 (o.threads * 8)

/-- The counts of `PreprocessStats` that are limited. -/
structure PreprocessStats where
  rawPatches : Nat
  visionTokens : Nat

/-- `checked_mul`. -/
def checkedMul (a b : Nat) (label : String) : Except PrepareError Nat :=
  if 2 ^ 64 ≤ a * b then .error (.invalidArgument (label ++ " overflow"))
  else .ok (a * b)

/-- `add_budget`. -/
def addBudget (stats : PreprocessStats) (g : Grid) :
    Except PrepareError PreprocessStats := do
  let spatial ← checkedMul g.h g.w "vision spatial grid"
  let patches ← checkedMul g.t spatial "vision raw patches"
  let pairs ← checkedMul spatial spatial "vision attention pairs"
  let _ ← checkedMul g.t pairs "vision attention pairs"
  return ⟨stats.rawPatches + patches, stats.visionTokens + patches / 4⟩

/-- `enforce_media_resource_limits`. -/
def enforceMediaResourceLimits (o : Setup Key) (stats : PreprocessStats) :
    Except PrepareError Unit :=
  if o.maxRawPatches < stats.rawPatches then
    .error (.budgetExceeded "vision raw patches exceed processor budget")
  else if o.maxVisionTokens < stats.visionTokens then
    .error (.budgetExceeded "vision tokens exceed processor budget")
  else .ok ()

/-- The checks of `process` on its parts before it passes the gate. -/
def checkParts (o : Setup Key) (parts : List Key) : Except PrepareError Unit :=
  if min (o.maxRawPatches / 4) o.maxVisionTokens < parts.length then
    .error (.budgetExceeded "minimum Vision grids exceed processor extent budget")
  else if o.maxEncodedMediaBytes
      < (parts.map fun key => (o.content key).encodedBytes).sum then
    .error (.budgetExceeded "request media bytes exceed processor budget")
  else .ok ()

-- ============ the state

/-- `PreparedMedia`: the item, and the payload with its size. -/
structure PreparedMedia where
  item : Grid
  payload : Nat
  bytes : Nat
  deriving DecidableEq

/-- A reservation of the `MemoryAccount`, from `try_reserve` to its
release. -/
structure Payload where
  bytes : Nat
  /-- the flight that reserved it -/
  owner : Nat
  released : Bool

/-- `Ready`; its place in the LRU list is that of its key. -/
structure Ready where
  media : PreparedMedia
  bytes : Nat

/-- How far the task of a flight got. -/
inductive Stage where
  /-- in the map, and its producer is submitting it -/
  | created
  /-- the submission threw: done, and still in the map -/
  | withdrawn
  | queued
  /-- the builder: decoding -/
  | decoding
  /-- about to claim the item from the request's budget -/
  | claiming (item : Grid)
  /-- in the loop of `allocate_payload`: at the reservation -/
  | allocating (item : Grid)
  /-- and after one that failed -/
  | evicting (item : Grid)
  /-- reserved; the patches are written -/
  | filling (media : PreparedMedia)
  /-- the builder returned -/
  | built (media : PreparedMedia)
  /-- at the publishing section -/
  | publishing (media : PreparedMedia)
  /-- about to set `done` -/
  | settling (media : Option PreparedMedia) (error : Option PrepareError)
  /-- done, and still in the map -/
  | closing
  | closed
  deriving DecidableEq

/-- `MediaCacheFlight`, with its task. -/
structure Flight (Key : Type) where
  key : Key
  producer : Nat
  stage : Stage
  /-- how often the builder was called -/
  builds : Nat
  done : Bool
  result : Option PreparedMedia
  error : Option PrepareError

/-- What a `PendingMedia` refers to. -/
inductive Source where
  | hit (media : PreparedMedia)
  | flight (f : Nat)

/-- `PendingMedia`, with the key it was looked up by. -/
structure Pending (Key : Type) where
  key : Key
  source : Source

/-- How far `process` got. -/
inductive Phase where
  | arrived
  /-- in the loop of `acquire_request` -/
  | gate
  | rendering
  /-- at the part after the last pending one -/
  | preparing
  /-- inside `begin_prepare`, submitting flight `f` -/
  | submitting (f : Nat)
  /-- in its `catch`, before the flight leaves the map -/
  | withdrawing (f : Nat) (error : PrepareError)
  /-- at the `await` of pending `i` -/
  | awaiting (i : Nat)
  /-- in its loop -/
  | waiting (i : Nat)
  /-- in the `catch` around it: the second `await` -/
  | discarding (i : Nat)
  | tokenizing
  | failed (error : PrepareError)
  | succeeded
  deriving DecidableEq

/-- A call of `process`. -/
structure Request (Key : Type) where
  parts : List Key
  deadline : Option Nat
  /-- the client's cancellation -/
  cancelled : Bool
  phase : Phase
  /-- `stop_preparation` -/
  stop : Bool
  /-- the stats of its `ConcurrentMediaBudget` -/
  claimed : PreprocessStats
  pendings : List (Pending Key)
  /-- `preparation_error` -/
  error : Option PrepareError
  stats : PreprocessStats
  /-- `output.media_payloads` -/
  outputs : List Nat
  /-- it holds a `MediaPreparationPermit` -/
  permit : Bool

/-- A request as it arrives. -/
def Request.arrive (parts : List Key) (deadline : Option Nat) :
    Request Key where
  parts := parts
  deadline := deadline
  cancelled := false
  phase := .arrived
  stop := false
  claimed := ⟨0, 0⟩
  pendings := []
  error := none
  stats := ⟨0, 0⟩
  outputs := []
  permit := false

/-- The cache, its account and its gate, the flights, the pool's queue and
the requests; ids are positions. -/
structure State (Key : Type) where
  now : Nat
  lru : List Key
  ready : List (Key × Ready)
  inflight : Key → Option Nat
  retainedBytes : Nat
  live : Nat
  payloads : List Payload
  flights : List (Flight Key)
  queue : List Nat
  requests : List (Request Key)
  active : Nat
  terminated : Bool

/-- A freshly built cache. -/
def State.init : State Key where
  now := 0
  lru := []
  ready := []
  inflight := fun _ => none
  retainedBytes := 0
  live := 0
  payloads := []
  flights := []
  queue := []
  requests := []
  active := 0
  terminated := false

/-- What happens to a step that its thread does not decide. -/
inductive Turn where
  | go
  /-- the builder looks at its control -/
  | check
  /-- an allocation fails -/
  | noMemory
  /-- the list node was allocated, and the map node is not -/
  | noMapNode
  deriving DecidableEq

inductive Action (Key : Type) where
  | arrive (parts : List Key) (deadline : Option Nat)
  | cancel (r : Nat)
  | tick
  | advance (r : Nat) (turn : Turn)
  | dequeue
  | work (f : Nat) (turn : Turn)
  | destroy (p : Nat)
  | drop (r : Nat)

namespace State

variable (s : State Key)

/-- Request `r` becomes `q`. -/
def setRequest (r : Nat) (q : Request Key) : State Key :=
  { s with requests := s.requests.set r q }

/-- Flight `f` becomes `fl`. -/
def setFlight (f : Nat) (fl : Flight Key) : State Key :=
  { s with flights := s.flights.set f fl }

/-- A permit is given out. -/
def enterGate : State Key := { s with active := s.active + 1 }

/-- `queue.push_back`. -/
def enqueue (f : Nat) : State Key := { s with queue := s.queue ++ [f] }

/-- A `try_reserve` that succeeds. -/
def addPayload (f bytes : Nat) : State Key :=
  { s with
    live := s.live + bytes
    payloads := s.payloads ++ [⟨bytes, f, false⟩] }

/-- `MemoryAccount::release`. -/
def release (p : Nat) (payload : Payload) : State Key :=
  if s.live < payload.bytes then { s with terminated := true }
  else
    { s with
      live := s.live - payload.bytes
      payloads := s.payloads.set p { payload with released := true } }

/-- `MediaPreparationPermit::release`, for a thread that holds one. -/
def releasePermit (held : Bool) : State Key :=
  if !held then s
  else if s.active = 0 then { s with terminated := true }
  else { s with active := s.active - 1 }

variable [DecidableEq Key]

/-- A new flight of request `r` enters the map. -/
def addFlight (key : Key) (r : Nat) : State Key :=
  { s with
    inflight := Function.update s.inflight key (some s.flights.length)
    flights := s.flights ++ [⟨key, r, .created, 0, false, none, none⟩] }

/-- `inflight.erase`. -/
def eraseFlight (key : Key) : State Key :=
  { s with inflight := Function.update s.inflight key none }

/-- `lru.splice` of an entry to the front. -/
def touch (key : Key) : State Key :=
  { s with lru := key :: s.lru.erase key }

/-- `ready.find`. -/
def findReady (key : Key) : Option Ready :=
  (s.ready.find? fun e => e.1 = key).map Prod.snd

/-- `evict_one_locked`. -/
def evictOneLocked : State Key × Bool :=
  match s.lru.getLast? with
  | none => (s, false)
  | some key =>
    match s.findReady key with
    | none => ({ s with terminated := true }, false)
    | some entry =>
      if s.retainedBytes < entry.bytes then
        ({ s with terminated := true }, false)
      else
        ({ s with
            retainedBytes := s.retainedBytes - entry.bytes
            lru := s.lru.dropLast
            ready := s.ready.filter fun e => e.1 ≠ key }, true)

/-- The eviction loop of the publishing section. An eviction takes an
entry off the LRU list, so its length bounds the loop. -/
def makeRoom (o : Setup Key) (bytes : Nat) : Nat → State Key → State Key
  | 0, s => s
  | fuel + 1, s =>
    if s.retainedBytes ≤ o.capacityBytes - bytes then s
    else
      match s.evictOneLocked with
      | (s', true) => makeRoom o bytes fuel s'
      | (s', false) => s'

/-- The publishing section; a throw out of it is the flight's error. -/
def publish (o : Setup Key) (key : Key) (media : PreparedMedia)
    (turn : Turn) : State Key × Option PrepareError :=
  if media.bytes ≤ o.capacityBytes then
    let s := makeRoom o media.bytes s.lru.length s
    if s.retainedBytes ≤ o.capacityBytes - media.bytes then
      match turn with
      | .noMemory => (s, some .badAlloc)
      | .noMapNode => ({ s with lru := key :: s.lru }, some .badAlloc)
      | _ =>
        ({ s with
            lru := key :: s.lru
            ready :=
              if (s.findReady key).isSome then s.ready
              else (key, ⟨media, media.bytes⟩) :: s.ready
            retainedBytes := s.retainedBytes + media.bytes }, none)
    else (s, none)
  else (s, none)

end State

-- ============ the requests

namespace Request

variable (q : Request Key)

/-- `check_preparation_control(control)`. -/
def check (now : Nat) : Except PrepareError Unit :=
  checkPreparationControl q.cancelled q.deadline now "preparation"

/-- `check_preparation_control(worker_control)`: the deadline is the
request's, the cancellation its `stop_preparation`. -/
def workerCheck (now : Nat) : Except PrepareError Unit :=
  checkPreparationControl q.stop q.deadline now "preparation"

/-- The control of its awaits: an empty one from the first error on. -/
def awaitCheck (now : Nat) : Except PrepareError Unit :=
  if q.error.isSome then .ok () else q.check now

/-- A preparation error is recorded, and `stop_preparation` set. -/
def record (e : PrepareError) : Request Key :=
  { q with error := some e, stop := true }

/-- The same in the await loop, whose later errors are dropped. -/
def recordFirst (e : PrepareError) : Request Key :=
  if q.error.isSome then q else q.record e

/-- The exception leaves `process`. -/
def fail (e : PrepareError) : Request Key :=
  { q with
    phase := .failed e
    pendings := []
    outputs := []
    permit := false }

end Request

/-- How the loop of an `await` goes on. -/
inductive Awaited where
  | waits
  | throws (error : PrepareError)
  | returns (media : Option PreparedMedia)

/-- The loop of `await`. -/
def await (s : State Key) (pending : Pending Key) : Awaited :=
  match pending.source with
  | .hit media => .returns (some media)
  | .flight f =>
    match s.flights[f]? with
    | none => .waits
    | some fl =>
      if !fl.done then .waits
      else
        match fl.error with
        | some e => .throws e
        | none => .returns fl.result

/-- What the await loop does with a result. -/
def takeMedia (o : Setup Key) (q : Request Key) :
    Option PreparedMedia → Request Key
  | none =>
    q.record (.logicError "preprocessed patch buffer is not row aligned")
  | some media =>
    if media.bytes / 2 % patchFeatures ≠ 0 then
      q.record (.logicError "preprocessed patch buffer is not row aligned")
    else
      match addBudget q.stats media.item with
      | .error e => q.record e
      | .ok stats =>
        let q := { q with stats := stats }
        match enforceMediaResourceLimits o stats with
        | .error e => q.record e
        | .ok _ => { q with outputs := q.outputs ++ [media.payload] }

/-- The second `await` of the loop's `catch` has nothing to wait for. -/
def settled (s : State Key) (pending : Pending Key) : Bool :=
  match pending.source with
  | .hit _ => true
  | .flight f => (s.flights[f]?).any (·.done)

section

variable [DecidableEq Key] (o : Setup Key)

/-- `begin_prepare` of the next part, up to a submission. -/
def lookup (s : State Key) (r : Nat) (q : Request Key) (key : Key)
    (turn : Turn) : State Key :=
  match s.findReady key with
  | some entry =>
    (s.touch key).setRequest r
      { q with pendings := q.pendings ++ [⟨key, .hit entry.media⟩] }
  | none =>
    match s.inflight key with
    | some f =>
      s.setRequest r { q with pendings := q.pendings ++ [⟨key, .flight f⟩] }
    | none =>
      if turn = .noMemory then
        s.setRequest r { q.record .badAlloc with phase := .awaiting 0 }
      else
        (s.addFlight key r).setRequest r
          { q with phase := .submitting s.flights.length }

/-- The next step of the thread of request `r`. -/
def advance (s : State Key) (r : Nat) (q : Request Key) (turn : Turn) :
    Option (State Key) :=
  match q.phase with
  | .arrived =>
    match q.check s.now with
    | .error e => some (s.setRequest r (q.fail e))
    | .ok _ =>
      match checkParts o q.parts with
      | .error e => some (s.setRequest r (q.fail e))
      | .ok _ => some (s.setRequest r { q with phase := .gate })
  | .gate =>
    match q.check s.now with
    | .error e => some (s.setRequest r (q.fail e))
    | .ok _ =>
      if s.active < o.gateMaximum then
        some (s.enterGate.setRequest r
          { q with permit := true, phase := .rendering })
      else none
  | .rendering =>
    if turn = .noMemory then
      some ((s.releasePermit q.permit).setRequest r (q.fail .badAlloc))
    else some (s.setRequest r { q with phase := .preparing })
  | .preparing =>
    match q.parts[q.pendings.length]? with
    | none => some (s.setRequest r { q with phase := .awaiting 0 })
    | some key =>
      match q.check s.now with
      | .error e =>
        some (s.setRequest r { q.record e with phase := .awaiting 0 })
      | .ok _ =>
        match q.workerCheck s.now with
        | .error e =>
          some (s.setRequest r { q.record e with phase := .awaiting 0 })
        | .ok _ => some (lookup s r q key turn)
  | .submitting f =>
    match s.flights[f]? with
    | none => none
    | some fl =>
      match (if turn = .noMemory then .error .badAlloc
          else q.workerCheck s.now) with
      | .error e =>
        some ((s.setFlight f { fl with
            stage := .withdrawn
            error := some e
            done := true }).setRequest r
          { q with phase := .withdrawing f e })
      | .ok _ =>
        if s.queue.length < o.queueCapacity then
          some (((s.enqueue f).setFlight f
            { fl with stage := .queued }).setRequest r
              { q with
                phase := .preparing
                pendings := q.pendings ++ [⟨fl.key, .flight f⟩] })
        else none
  | .withdrawing f e =>
    match s.flights[f]? with
    | none => none
    | some fl =>
      some (((s.eraseFlight fl.key).setFlight f
        { fl with stage := .closed }).setRequest r
          { q.record e with phase := .awaiting 0 })
  | .awaiting i =>
    match q.pendings[i]? with
    | none =>
      match q.error with
      | some e =>
        some ((s.releasePermit q.permit).setRequest r (q.fail e.reported))
      | none =>
        some ((s.releasePermit q.permit).setRequest r
          { q with permit := false, phase := .tokenizing })
    | some _ =>
      match q.awaitCheck s.now with
      | .error e =>
        some (s.setRequest r { q.recordFirst e with phase := .discarding i })
      | .ok _ => some (s.setRequest r { q with phase := .waiting i })
  | .waiting i =>
    match q.pendings[i]? with
    | none => none
    | some pending =>
      match await s pending with
      | .waits =>
        match q.awaitCheck s.now with
        | .error e =>
          some (s.setRequest r { q.recordFirst e with phase := .discarding i })
        | .ok _ => none
      | .throws e =>
        some (s.setRequest r { q.recordFirst e with phase := .discarding i })
      | .returns media =>
        some (s.setRequest r
          { (if q.error.isSome then q else takeMedia o q media) with
            phase := .awaiting (i + 1) })
  | .discarding i =>
    match q.pendings[i]? with
    | none => none
    | some pending =>
      if settled s pending then
        some (s.setRequest r { q with phase := .awaiting (i + 1) })
      else none
  | .tokenizing =>
    match q.check s.now with
    | .error e => some (s.setRequest r (q.fail e))
    | .ok _ =>
      some (s.setRequest r { q with pendings := [], phase := .succeeded })
  | .failed _ => none
  | .succeeded => none

-- ============ the tasks

/-- The look of a task at its control, the producer's. -/
def producerCheck (s : State Key) (fl : Flight Key) : Except PrepareError Unit :=
  match s.requests[fl.producer]? with
  | none => .ok ()
  | some q => q.workerCheck s.now

/-- The builder up to the claim: the decoder, and the limits on one
item. -/
def decodeItem (key : Key) : Except PrepareError Grid :=
  match (o.content key).decoded with
  | .error (budget, what) => .error (.decode budget what)
  | .ok item => do
    let stats ← addBudget ⟨0, 0⟩ item
    enforceMediaResourceLimits o stats
    return item

/-- `ConcurrentMediaBudget::claim`: what is claimed stays claimed when the
limits are exceeded. -/
def claim (s : State Key) (fl : Flight Key) (item : Grid) :
    State Key × Option PrepareError :=
  match s.requests[fl.producer]? with
  | none => (s, none)
  | some q =>
    match addBudget q.claimed item with
    | .error e => (s, some e)
    | .ok stats =>
      (s.setRequest fl.producer { q with claimed := stats },
        match enforceMediaResourceLimits o stats with
        | .error e => some e
        | .ok _ => none)

/-- The checks of `allocate_payload` before its loop. -/
def checkAllocation (item : Grid) : Except PrepareError Unit :=
  if item.patches * patchFeatures = 0 then
    .error (.invalidArgument "prepared media patch allocation must be nonzero")
  else if 2 ^ 63 - 1 < item.patches * patchFeatures then
    .error (.overflow "prepared media patch allocation overflows size_t")
  else if o.liveLimit < item.bytes then
    .error (.mediaBudgetExceeded
      "one prepared media payload exceeds the configured live-byte capacity")
  else .ok ()

/-- One round of the loop of `allocate_payload`: `try_reserve` after a
look at the control. -/
def reserve (s : State Key) (f : Nat) (fl : Flight Key) (item : Grid) :
    State Key :=
  match checkAllocation o item with
  | .error e => s.setFlight f { fl with stage := .settling none (some e) }
  | .ok _ =>
    match producerCheck s fl with
    | .error e => s.setFlight f { fl with stage := .settling none (some e) }
    | .ok _ =>
      if item.bytes ≤ o.liveLimit ∧ s.live ≤ o.liveLimit - item.bytes then
        (s.addPayload f item.bytes).setFlight f { fl with
          stage := .filling ⟨item, s.payloads.length, item.bytes⟩ }
      else s.setFlight f { fl with stage := .evicting item }

/-- The next step of the task of flight `f`. -/
def work (s : State Key) (f : Nat) (fl : Flight Key) (turn : Turn) :
    Option (State Key) :=
  let fails (s : State Key) (media : Option PreparedMedia)
      (e : PrepareError) : State Key :=
    s.setFlight f { fl with stage := .settling media (some e) }
  let moves (s : State Key) (stage : Stage) : State Key :=
    s.setFlight f { fl with stage := stage }
  match fl.stage with
  | .created | .withdrawn | .queued | .closed => none
  | .decoding =>
    if turn = .check then
      match producerCheck s fl with
      | .error e => some (fails s none e)
      | .ok _ => some s
    else
      match decodeItem o fl.key with
      | .error e => some (fails s none e)
      | .ok item => some (moves s (.claiming item))
  | .claiming item =>
    match claim o s fl item with
    | (s', some e) => some (fails s' none e)
    | (s', none) => some (moves s' (.allocating item))
  | .allocating item => some (reserve o s f fl item)
  | .evicting item => some (moves s.evictOneLocked.1 (.allocating item))
  | .filling media =>
    match turn with
    | .noMemory =>
      match s.payloads[media.payload]? with
      | none => none
      | some payload =>
        some (fails (s.release media.payload payload) none .badAlloc)
    | .check =>
      match producerCheck s fl with
      | .error e => some (fails s none e)
      | .ok _ => some s
    | _ => some (moves s (.built media))
  | .built media =>
    match producerCheck s fl with
    | .error e => some (fails s (some media) e)
    | .ok _ => some (moves s (.publishing media))
  | .publishing media =>
    let published := s.publish o fl.key media turn
    some (moves published.1 (.settling (some media) published.2))
  | .settling media error =>
    some (s.setFlight f { fl with
      stage := .closing
      result := media
      error := error
      done := true })
  | .closing =>
    some ((s.eraseFlight fl.key).setFlight f { fl with stage := .closed })

/-- A worker of the pool is on the flight. -/
def Stage.running : Stage → Bool
  | .created | .withdrawn | .queued | .closed => false
  | _ => true

/-- The media the task of a flight holds. -/
def Stage.media : Stage → Option PreparedMedia
  | .filling media | .built media | .publishing media => some media
  | .settling media _ => media
  | _ => none

/-- Somebody has a reference to payload `p`: the cache, a task, a request,
or a flight that somebody has a reference to. -/
def State.referenced (s : State Key) (p : Nat) : Bool :=
  s.ready.any (fun e => e.2.media.payload == p)
    || s.requests.any (fun q => q.outputs.any (· == p)
        || q.pendings.any fun pending =>
          match pending.source with
          | .hit media => media.payload == p
          | .flight f =>
            (s.flights[f]?).any fun fl =>
              fl.result.any fun media => media.payload == p)
    || s.flights.any fun fl => fl.stage != .closed
        && (fl.result.any (fun media => media.payload == p)
          || fl.stage.media.any fun media => media.payload == p)

/-- The step of an action; `none` when it is not enabled. -/
def step (s : State Key) (a : Action Key) : Option (State Key) :=
  if s.terminated then none
  else
    match a with
    | .arrive parts deadline =>
      some { s with
        requests := s.requests ++ [Request.arrive parts deadline] }
    | .cancel r =>
      (s.requests[r]?).map fun q =>
        s.setRequest r { q with cancelled := true }
    | .tick => some { s with now := s.now + 1 }
    | .advance r turn =>
      (s.requests[r]?).bind fun q => advance o s r q turn
    | .dequeue =>
      match s.queue with
      | [] => none
      | f :: rest =>
        if s.flights.countP (fun fl => fl.stage.running) < o.threads then
          (s.flights[f]?).map fun fl =>
            State.setFlight { s with queue := rest } f
              { fl with stage := .decoding, builds := fl.builds + 1 }
        else none
    | .work f turn => (s.flights[f]?).bind fun fl => work o s f fl turn
    | .destroy p =>
      (s.payloads[p]?).bind fun payload =>
        if payload.released || s.referenced p then none
        else some (s.release p payload)
    | .drop r =>
      (s.requests[r]?).bind fun q =>
        if q.phase = .succeeded then
          some (s.setRequest r { q with outputs := [] })
        else none

end

end Ginfer.Frontend.Media
