/-
The local response store (serve/response_store.cpp).

# What is modelled

A store keeps stored responses by id, at most `max_records` of them and at
most `max_bytes` bytes, and evicts from the back of its LRU list. What a
record weighs is its envelope — itself, its id, its serialised body and
input items — and the context nodes it reaches; nodes are shared between
records and count once.

Context nodes go by their address. A node is made with its parent and
never changed, so numbering them in the order they are made gives a
`ContextHeap` in which a parent comes before its children. A node some
record reaches is alive, so no address stands for two of them.

`records_` is an unordered map; its order here is the order of insertion,
and nothing below depends on it. Every sum is over objects of one address
space, so `size_t` does not wrap. The sizes of the C++ types are
parameters.

Any host allocation of a call may fail, and `std::bad_alloc` leaves the
store as it stands: a call takes the `StoreSite`s that succeed. Inserting
one element into a list or a map does nothing when it throws.

`makeRoom` is the eviction loop of `put`, on fuel: `none` is a loop that
has not ended.
-/
import Ginfer.Frontend.Text

namespace Ginfer.Serve

open Ginfer.Lib Ginfer.Frontend

-- ============ the records

/-- The nodes behind the `ResponseContext`s. -/
structure ContextHeap where
  parent : Nat → Option Nat
  /-- `ResponseContextNode::owned_bytes` -/
  ownedBytes : Nat → Nat
  parent_lt : ∀ n p, parent n = some p → p < n

namespace ContextHeap

variable (h : ContextHeap)

/-- The first `fuel` nodes from a context up. -/
def chainFrom : (fuel : Nat) → Option Nat → List Nat
  | 0, _ => []
  | _ + 1, none => []
  | fuel + 1, some n => n :: chainFrom fuel (h.parent n)

/-- The nodes of a context, itself first: what `node = node->parent`
visits. -/
def chain (context : Option Nat) : List Nat :=
  match context with
  | none => []
  | some n => h.chainFrom (n + 1) (some n)

end ContextHeap

/-- `StoredResponse`, as far as the store looks at it. -/
structure StoredResponse where
  id : Bytes
  /-- `response.is_object()` -/
  isObject : Bool
  /-- `response.dump().size()` -/
  responseBytes : Nat
  /-- `item.dump().size()` of the input items -/
  inputItemBytes : List Nat
  context : Option Nat

/-- The limits of a store and the sizes of the types it counts. -/
structure StoreConfig where
  maxRecords : Nat
  maxBytes : Nat
  sizeofStoredResponse : Nat
  sizeofJson : Nat
  max_records_pos : 0 < maxRecords
  max_bytes_pos : 0 < maxBytes

/-- `record_envelope_bytes`. -/
def recordEnvelopeBytes (cfg : StoreConfig) (record : StoredResponse) :
    Nat :=
  record.inputItemBytes.foldl (fun bytes item =>
      bytes + (cfg.sizeofJson + item))
    (cfg.sizeofStoredResponse + record.id.length + record.responseBytes)

/-- `standalone_bytes`. -/
def standaloneBytes (cfg : StoreConfig) (h : ContextHeap)
    (record : StoredResponse) : Nat :=
  (h.chain record.context).foldl (fun bytes n => bytes + h.ownedBytes n)
    (recordEnvelopeBytes cfg record)

/-- `throw_store_capacity`. -/
def storeCapacity : Exception :=
  .api 500 "server_error" "response_store_capacity_exceeded"
    "response exceeds the configured local response store capacity"

-- ============ the allocations

/-- What `put` allocates: the texts `standalone_bytes` serialises, the
shared record, the list node, the map node, the texts and the set of
`recompute_bytes_locked` and the copy of the victim's id, the last two by
the number of evictions before them. -/
inductive StoreSite where
  | weigh
  | share
  | link
  | index
  | count (evictions : Nat)
  | victimId (evictions : Nat)
  deriving DecidableEq

/-- Which allocations of a call succeed. -/
abbrev StoreFate := StoreSite → Bool

-- ============ the store

/-- `ResponseStore`. -/
structure ResponseStore where
  records : List StoredResponse
  lru : List Bytes
  currentBytes : Nat

namespace ResponseStore

variable (cfg : StoreConfig) (h : ContextHeap)

/-- An empty store. -/
def init : ResponseStore := ⟨[], [], 0⟩

/-- `records_.find(id)`. -/
def find (s : ResponseStore) (id : Bytes) : Option StoredResponse :=
  s.records.find? fun record => record.id = id

/-- One node of `recompute_bytes_locked`, with the nodes seen before. -/
def visitNode (acc : Nat × List Nat) (n : Nat) : Nat × List Nat :=
  if n ∈ acc.2 then acc else (acc.1 + h.ownedBytes n, n :: acc.2)

/-- One record of `recompute_bytes_locked`. -/
def visitRecord (acc : Nat × List Nat) (record : StoredResponse) :
    Nat × List Nat :=
  (h.chain record.context).foldl (visitNode h)
    (acc.1 + recordEnvelopeBytes cfg record, acc.2)

/-- `recompute_bytes_locked`. -/
def recomputeBytes (records : List StoredResponse) : Nat :=
  (records.foldl (visitRecord cfg h) (0, [])).1

/-- `erase_locked`. -/
def eraseLocked (s : ResponseStore) (id : Bytes) : ResponseStore :=
  if (s.find id).isNone then s
  else
    { s with
      lru := s.lru.erase id
      records := s.records.filter fun record => record.id ≠ id }

/-- The store with its bytes counted. -/
def counted (s : ResponseStore) : ResponseStore :=
  { s with currentBytes := recomputeBytes cfg h s.records }

/-- `current_bytes_ = recompute_bytes_locked()`. -/
def recount (s : ResponseStore) (counts : Bool) : Outcome ResponseStore :=
  if counts then .ok (s.counted cfg h) else .throw .badAlloc s

/-- The victim of an eviction: the back of the list, or the entry before
it when that is the record being put. -/
def victim (lru : List Bytes) (owned : Bytes) : Except Exception Bytes :=
  match lru.reverse with
  | [] => .error (.logicError "response store LRU is empty")
  | last :: rest =>
    if last = owned then
      match rest with
      | [] => .error storeCapacity
      | next :: _ => .ok next
    else .ok last

/-- The store is over a limit. -/
def overflows (s : ResponseStore) : Bool :=
  decide (cfg.maxRecords < s.records.length)
    || decide (cfg.maxBytes < s.currentBytes)

/-- The eviction loop of `put`. -/
def makeRoom (owned : Bytes) (fate : StoreFate) : (fuel evictions : Nat) →
    ResponseStore → Option (Outcome ResponseStore)
  | fuel, evictions, s =>
    if s.overflows cfg then
      match fuel with
      | 0 => none
      | fuel + 1 =>
        match victim s.lru owned with
        | .error e => some (.throw e s)
        | .ok id =>
          if !fate (.victimId evictions) then some (.throw .badAlloc s)
          else
            match (s.eraseLocked id).recount cfg h
                (fate (.count (evictions + 1))) with
            | .throw e s => some (.throw e s)
            | .ok s => makeRoom owned fate fuel (evictions + 1) s
    else some (.ok s)

/-- `put`. -/
def put (s : ResponseStore) (record : StoredResponse) (fate : StoreFate) :
    Option (Outcome ResponseStore) :=
  if record.id.isEmpty || !record.isObject then
    some (.throw (.invalidArgument
      "stored response must have an id and object body") s)
  else if !fate .weigh then some (.throw .badAlloc s)
  else if cfg.maxBytes < standaloneBytes cfg h record then
    some (.throw storeCapacity s)
  else if !fate .share then some (.throw .badAlloc s)
  else if (s.find record.id).isSome then
    some (.throw (.logicError "duplicate response id in response store") s)
  else if !fate .link then some (.throw .badAlloc s)
  else
    let s := { s with lru := record.id :: s.lru }
    if !fate .index then some (.throw .badAlloc s)
    else
      match { s with records := record :: s.records }.recount cfg h
          (fate (.count 0)) with
      | .throw e s => some (.throw e s)
      | .ok s => makeRoom cfg h record.id fate s.lru.length 0 s

/-- `get`: what it returns, and the store with the entry in front. -/
def get (s : ResponseStore) (id : Bytes) :
    Option StoredResponse × ResponseStore :=
  match s.find id with
  | none => (none, s)
  | some record => (some record, { s with lru := id :: s.lru.erase id })

/-- `erase`: whether the id was there, and what the call leaves. -/
def erase (s : ResponseStore) (id : Bytes) (counts : Bool) :
    Bool × Outcome ResponseStore :=
  if (s.find id).isNone then (false, .ok s)
  else (true, (s.eraseLocked id).recount cfg h counts)

end ResponseStore

-- ============ the runs

/-- A call on the store. -/
inductive StoreOperation where
  | get (id : Bytes)
  | put (record : StoredResponse) (fate : StoreFate)
  | erase (id : Bytes) (counts : Bool)

/-- A store with, for each id, when it was last put or got. -/
structure TrackedStore where
  store : ResponseStore
  clock : Nat
  lastUse : Bytes → Nat

namespace TrackedStore

/-- An empty store. -/
def init : TrackedStore := ⟨.init, 0, fun _ => 0⟩

/-- The store after a call that used `id`. -/
def use (t : TrackedStore) (store : ResponseStore) (id : Bytes) :
    TrackedStore where
  store := store
  clock := t.clock + 1
  lastUse := Function.update t.lastUse id (t.clock + 1)

/-- One call, returned or thrown. -/
def step (cfg : StoreConfig) (h : ContextHeap) (t : TrackedStore) :
    StoreOperation → Option TrackedStore
  | .get id =>
    match t.store.get id with
    | (none, store) => some { t with store := store }
    | (some _, store) => some (t.use store id)
  | .put record fate =>
    match t.store.put cfg h record fate with
    | none => none
    | some (.ok store) => some (t.use store record.id)
    | some (.throw _ store) => some { t with store := store }
  | .erase id counts =>
    some { t with store := (t.store.erase cfg h id counts).2.state }

end TrackedStore

end Ginfer.Serve
