/-
The acquisition of media (product/media_acquire/acquire.cpp).

A source is a list of bytes, a URL, a path or a data URI. Fetching a URL
and reading a file are not modelled; a data URI is decoded here. The bits
of a base64 text go through a 32-bit accumulator, which keeps more of them
than it still needs.

What the cancellation and the deadline say when they are looked at is part
of the policy.
-/
import Ginfer.Frontend.Text

namespace Ginfer.Media

open Ginfer.Frontend

-- ============ the sources

/-- `SourceKind`. -/
inductive SourceKind where
  | bytes
  | path
  | url
  | data

/-- `Source`. -/
structure Source where
  kind : SourceKind
  value : Bytes
  bytes : Bytes

/-- `ErrorKind`. -/
inductive ErrorKind where
  | budgetExceeded
  | remoteUnavailable
  | remoteTimeout
  | deadlineExceeded
  | cancelled
  deriving DecidableEq

/-- What an acquisition throws: an `Error`, or `std::invalid_argument`. -/
inductive AcquireError where
  | error (kind : ErrorKind) (message : String)
  | invalidArgument (message : String)
  deriving DecidableEq

/-- `Policy`, as far as inline data is concerned: the limit, and whether
the request is cancelled or late at the n-th look. -/
structure Policy where
  maxBytes : Nat
  isCancelled : Nat → Bool := fun _ => false
  deadlinePassed : Nat → Bool := fun _ => false

/-- `check_control`, the n-th time. -/
def checkControl (policy : Policy) (look : Nat) : Except AcquireError Unit :=
  if policy.isCancelled look then
    .error (.error .cancelled "media acquisition was cancelled")
  else if policy.deadlinePassed look then
    .error (.error .deadlineExceeded
      "media acquisition exceeded request deadline")
  else .ok ()

-- ============ base64

/-- `table`. -/
def base64Table (c : UInt8) : Option Nat :=
  if 0x41 ≤ c ∧ c ≤ 0x5a then some (c.toNat - 0x41)
  else if 0x61 ≤ c ∧ c ≤ 0x7a then some (26 + (c.toNat - 0x61))
  else if 0x30 ≤ c ∧ c ≤ 0x39 then some (52 + (c.toNat - 0x30))
  else if c = 0x2b then some 62
  else if c = 0x2f then some 63
  else none

/-- The white space the decoder skips. -/
def isSkipped (c : UInt8) : Bool :=
  c == 0x20 || c == 0x0a || c == 0x0d || c == 0x09

/-- The locals of `decode_base64`. -/
structure Decoder where
  out : Bytes := []
  bits : Nat := 0
  count : Nat := 0
  padded : Bool := false

/-- Six more bits. -/
def Decoder.push (d : Decoder) (value : Nat) : Decoder :=
  let bits := (d.bits <<< 6) % 2 ^ 32 ||| value
  let count := d.count + 6
  if 8 ≤ count then
    { d with
      out := d.out ++ [UInt8.ofNat ((bits >>> (count - 8)) &&& 0xff)]
      bits := bits
      count := count - 8 }
  else { d with bits := bits, count := count }

/-- The loop of `decode_base64`, and the check behind it. -/
def decodeFrom (d : Decoder) : Bytes → Except AcquireError Bytes
  | [] =>
    if 6 ≤ d.count then
      .error (.invalidArgument "malformed base64 media padding")
    else .ok d.out
  | c :: rest =>
    if c = 0x3d then decodeFrom { d with padded := true } rest
    else if isSkipped c then decodeFrom d rest
    else
      match if d.padded then none else base64Table c with
      | none => .error (.invalidArgument "malformed base64 media data")
      | some value => decodeFrom (d.push value) rest

/-- `decode_base64`. -/
def decodeBase64 (text : Bytes) : Except AcquireError Bytes :=
  decodeFrom {} text

-- ============ acquiring

/-- The data URI branch of `acquire_bytes`. -/
def acquireData (value : Bytes) (policy : Policy) : Except AcquireError Bytes :=
  match value.idxOf? 0x2c with
  | none =>
    .error (.invalidArgument "media data source must be a base64 data URI")
  | some comma =>
    if !(ascii "data:").isPrefixOf value
        || (find (value.take comma) (ascii ";base64")).isNone then
      .error (.invalidArgument "media data source must be a base64 data URI")
    else
      let encoded := value.length - comma - 1
      if (policy.maxBytes / 3 + 1) * 4 % 2 ^ 64 < encoded then
        .error (.error .budgetExceeded "media data exceeds byte limit")
      else do
        let bytes ← decodeBase64 (value.drop (comma + 1))
        checkControl policy 1
        if policy.maxBytes < bytes.length then
          throw (.error .budgetExceeded "media data exceeds byte limit")
        if bytes = [] then
          throw (.invalidArgument "media source contains no data")
        return bytes

/-- `acquire_bytes`, given `fetch_url` and `read_path`. -/
def acquireBytes (fetchUrl readPath : Source → Policy → Except AcquireError Bytes)
    (source : Source) (policy : Policy) : Except AcquireError Bytes := do
  if policy.maxBytes = 0 then
    throw (.invalidArgument "media byte limit must be positive")
  checkControl policy 0
  match source.kind with
  | .bytes =>
    if source.bytes = [] then
      throw (.invalidArgument "media source is empty")
    if policy.maxBytes < source.bytes.length then
      throw (.error .budgetExceeded "media bytes exceed byte limit")
    checkControl policy 1
    return source.bytes
  | .url =>
    if source.value = [] then
      throw (.invalidArgument "media source is empty")
    let bytes ← fetchUrl source policy
    if bytes = [] then
      throw (.invalidArgument "media source contains no data")
    return bytes
  | .data =>
    if source.value = [] then
      throw (.invalidArgument "media source is empty")
    acquireData source.value policy
  | .path =>
    if source.value = [] then
      throw (.invalidArgument "media source is empty")
    readPath source policy

end Ginfer.Media
