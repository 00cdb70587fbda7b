/-
Tool calls in an assistant's text (serve/tool_call_parser.cpp).

Two readers of the same text. `parse_tool_call_output` sees all of it: a
text that is visible content followed by well-formed calls, in either of
two formats, is a tool call response; anything else is content as it
stands. `ToolCallStreamFilter` sees the text in chunks and publishes what
can no longer become part of a call: it holds back a suffix that may be the
beginning of a marker, and the white space before it, and everything from
the first marker on. When the text is complete it is told which of the two
it was.

A position in the text is the suffix that starts there. The parsers return
the suffix they stopped at with its length bound (`Shorter`), which is what
their loops terminate by. The JSON library and the random call ids are
parameters.
-/
import Ginfer.Frontend.Text

namespace Ginfer.Serve

open Ginfer.Lib Ginfer.Frontend

-- ============ helpers

/-- `trim_ascii` at the end (`rtrim_ascii`). -/
def rtrimAscii (text : Bytes) : Bytes :=
  (text.reverse.dropWhile isSpace).reverse

/-- `skip_ws`. -/
def skipWs (text : Bytes) : Bytes := text.dropWhile isSpace

/-- `trim_ascii`. -/
def trimAscii (text : Bytes) : Bytes := rtrimAscii (skipWs text)

/-- A suffix that is at least one byte shorter. -/
abbrev Shorter (text : Bytes) := { rest : Bytes // rest.length < text.length }

theorem skipWs_length (text : Bytes) : (skipWs text).length ≤ text.length :=
  (List.dropWhile_suffix isSpace).length_le

/-- `starts_with_at`, with what follows the prefix. -/
def afterPrefix (start text : Bytes) :
    Option { rest : Bytes // rest.length + start.length = text.length } :=
  if h : start.isPrefixOf text then
    some ⟨text.drop start.length, by
      have := (List.isPrefixOf_iff_prefix.mp h).length_le
      rw [List.length_drop]
      omega⟩
  else none

/-- `find` of a closing pattern: what stands before it, and what
follows. -/
def upTo (pattern text : Bytes) :
    Option (Bytes × { rest : Bytes // rest.length ≤ text.length }) :=
  (find text pattern).map fun i =>
    (text.take i, ⟨text.drop (i + pattern.length), by
      rw [List.length_drop]
      omega⟩)

/-- `std::isalnum` of the C locale. -/
def isAlnum (b : UInt8) : Bool :=
  (decide (0x30 ≤ b) && decide (b ≤ 0x39)) ||
    (decide (0x41 ≤ b) && decide (b ≤ 0x5a)) ||
    (decide (0x61 ≤ b) && decide (b ≤ 0x7a))

/-- `valid_function_name`. -/
def validFunctionName (name : Bytes) (maxNameLength : Nat) : Bool :=
  !name.isEmpty && decide (name.length ≤ maxNameLength) &&
    name.all fun c => isAlnum c || c == 0x5f || c == 0x2d || c == 0x2e

structure ToolCall where
  id : Bytes
  name : Bytes
  argumentsJson : Bytes
deriving DecidableEq

structure ParsedToolCallOutput where
  isToolCallResponse : Bool
  content : Bytes
  toolCalls : List ToolCall
deriving DecidableEq

/-- What the parser uses of the JSON library: `Json::parse` without
exceptions, a string value, and the dump of an object. -/
structure JsonApi (J : Type) where
  parse : Bytes → Option J
  string : Bytes → J
  dump : List (Bytes × J) → Bytes

variable {J : Type}

/-- `args[key] = value`. -/
def setArgument : List (Bytes × J) → Bytes → J → List (Bytes × J)
  | [], key, value => [(key, value)]
  | (k, v) :: rest, key, value =>
    if k = key then (k, value) :: rest
    else (k, v) :: setArgument rest key value

/-- A parameter's value: JSON where it parses, else the bytes. -/
def parameterValue (json : JsonApi J) (raw : Bytes) : J :=
  (json.parse raw).getD (json.string raw)

/-- The common shape of `parse_parameter` and `parse_atem_parameter`: an
opening with the name up to `nameClose`, and the value up to `close`. -/
def parseNamed (opening nameClose close text : Bytes)
    (hopening : 0 < opening.length) :
    Option (Bytes × Bytes × Shorter text) := do
  let ⟨afterOpen, hopen⟩ ← afterPrefix opening text
  let (key, ⟨afterName, hname⟩) ← upTo nameClose afterOpen
  if key.isEmpty then none
  else
    let (raw, ⟨rest, hrest⟩) ← upTo close afterName
    some (key, raw, ⟨rest, by omega⟩)

-- ============ Qwen's format

/-- `parse_parameter`. -/
def parseParameter (json : JsonApi J) (inner : Bytes) :
    Option (Bytes × J × Shorter inner) := do
  let (key, raw, rest) ← parseNamed (ascii "<parameter=") (ascii ">")
    (ascii "</parameter>") inner (by decide)
  some (key, parameterValue json (trimAscii raw), rest)

/-- The parameter loop of `parse_one_tool_call`. -/
def parseParameters (json : JsonApi J) (params : Bytes)
    (args : List (Bytes × J)) : Option (List (Bytes × J)) :=
  if (skipWs params).isEmpty then some args
  else
    match parseParameter json (skipWs params) with
    | none => none
    | some (key, value, ⟨rest, hrest⟩) =>
      have _hless : rest.length < params.length :=
        Nat.lt_of_lt_of_le hrest (skipWs_length params)
      parseParameters json rest (setArgument args key value)
termination_by params.length

/-- `parse_one_tool_call`: the name and the arguments. -/
def parseOneToolCall (json : JsonApi J) (block : Bytes)
    (maxNameLength : Nat) : Option (Bytes × List (Bytes × J)) := do
  let ⟨afterOpen, _⟩ ← afterPrefix (ascii "<function=") (skipWs block)
  let (name, ⟨afterName, _⟩) ← upTo (ascii ">") afterOpen
  if name.isEmpty then none
  else if !validFunctionName name maxNameLength then none
  else
    let (params, ⟨rest, _⟩) ← upTo (ascii "</function>") afterName
    let args ← parseParameters json params []
    if (skipWs rest).isEmpty then some (name, args) else none

/-- The loop of `parse_qwen_format`, from the position of a block on. The
`n`-th call found gets the `n`-th id. -/
def parseQwenCalls (json : JsonApi J) (newId : Nat → Bytes)
    (maxNameLength : Nat) (text : Bytes) (calls : List ToolCall) :
    Option (List ToolCall) :=
  if (skipWs text).isEmpty then some calls
  else
    match afterPrefix (ascii "<tool_call>") (skipWs text) with
    | none => none
    | some ⟨inner, hinner⟩ =>
      match upTo (ascii "</tool_call>") inner with
      | none => none
      | some (block, ⟨rest, hrest⟩) =>
        match parseOneToolCall json block maxNameLength with
        | none => none
        | some (name, args) =>
          have _hless : rest.length < text.length := by
            have := skipWs_length text
            rw [show (ascii "<tool_call>").length = 11 by decide]
              at hinner
            omega
          parseQwenCalls json newId maxNameLength rest
            (calls ++ [⟨newId calls.length, name, json.dump args⟩])
termination_by text.length

-- ============ Muse's format

/-- `parse_atem_parameter`. -/
def parseAtemParameter (json : JsonApi J) (block : Bytes) :
    Option (Bytes × J × Shorter block) := do
  let (key, raw, rest) ← parseNamed (ascii "<atem:parameter name=\"")
    (ascii "\">") (ascii "</atem:parameter>") block (by decide)
  some (key, parameterValue json raw, rest)

/-- The parameter loop of `parse_atem_invoke`, up to the closing tag. -/
def parseAtemParameters (json : JsonApi J) (block : Bytes)
    (args : List (Bytes × J)) :
    Option (List (Bytes × J) × { r : Bytes // r.length ≤ block.length }) :=
  match afterPrefix (ascii "</atem:invoke>") (skipWs block) with
  | some ⟨rest, hrest⟩ =>
    some (args, ⟨rest, by
      have := skipWs_length block
      omega⟩)
  | none =>
    match parseAtemParameter json (skipWs block) with
    | none => none
    | some (key, value, ⟨rest, hrest⟩) =>
      have hskip := skipWs_length block
      (parseAtemParameters json rest (setArgument args key value)).map
        fun (args, ⟨r, hr⟩) => (args, ⟨r, by omega⟩)
termination_by block.length

/-- `parse_atem_invoke`. -/
def parseAtemInvoke (json : JsonApi J) (block : Bytes) (maxNameLength : Nat) :
    Option (Bytes × List (Bytes × J) × Shorter block) := do
  let ⟨afterOpen, hopen⟩ ← afterPrefix (ascii "<atem:invoke name=\"") block
  let (name, ⟨afterName, hname⟩) ← upTo (ascii "\">") afterOpen
  if name.isEmpty then none
  else if !validFunctionName name maxNameLength then none
  else
    let (args, ⟨rest, hrest⟩) ← parseAtemParameters json afterName []
    some (name, args, ⟨rest, by
      have : 0 < (ascii "<atem:invoke name=\"").length := by decide
      omega⟩)

/-- The inner loop of `parse_atem_format`: the calls of one block, up to
its closing tag. -/
def parseAtemInvokes (json : JsonApi J) (newId : Nat → Bytes)
    (maxNameLength : Nat) (text : Bytes) (calls : List ToolCall) :
    Option (List ToolCall × { r : Bytes // r.length ≤ text.length }) :=
  match afterPrefix (ascii "</atem:function_calls>") (skipWs text) with
  | some ⟨rest, hrest⟩ =>
    some (calls, ⟨rest, by
      have := skipWs_length text
      omega⟩)
  | none =>
    match parseAtemInvoke json (skipWs text) maxNameLength with
    | none => none
    | some (name, args, ⟨rest, hrest⟩) =>
      have hskip := skipWs_length text
      (parseAtemInvokes json newId maxNameLength rest
        (calls ++ [⟨newId calls.length, name, json.dump args⟩])).map
        fun (calls, ⟨r, hr⟩) => (calls, ⟨r, by omega⟩)
termination_by text.length

/-- The outer loop of `parse_atem_format`. -/
def parseAtemCalls (json : JsonApi J) (newId : Nat → Bytes)
    (maxNameLength : Nat) (text : Bytes) (calls : List ToolCall) :
    Option (List ToolCall) :=
  if (skipWs text).isEmpty then some calls
  else
    match afterPrefix (ascii "<atem:function_calls>") (skipWs text) with
    | none => none
    | some ⟨inner, hinner⟩ =>
      match parseAtemInvokes json newId maxNameLength inner calls with
      | none => none
      | some (calls', ⟨rest, hrest⟩) =>
        if calls'.length = calls.length then none
        else
          have _hless : rest.length < text.length := by
            have := skipWs_length text
            rw [show (ascii "<atem:function_calls>").length = 21
              by decide] at hinner
            omega
          parseAtemCalls json newId maxNameLength rest calls'
termination_by text.length

-- ============ the batch reader

/-- `fallback`. -/
def fallback (text : Bytes) : ParsedToolCallOutput := ⟨false, text, []⟩

/-- The common shape of `parse_qwen_format` and `parse_atem_format`: the
content before the first marker, and the calls from it on. -/
def parseFormat (marker : Bytes)
    (calls : Bytes → Option (List ToolCall)) (text : Bytes) :
    ParsedToolCallOutput :=
  match find text marker with
  | none => fallback text
  | some first =>
    match calls (text.drop first) with
    | none => fallback text
    | some found =>
      if found.isEmpty then fallback text
      else ⟨true, rtrimAscii (text.take first), found⟩

/-- `parse_qwen_format`. -/
def parseQwenFormat (json : JsonApi J) (newId : Nat → Bytes)
    (maxToolNameLength : Nat) : Bytes → ParsedToolCallOutput :=
  parseFormat (ascii "<tool_call>")
    fun text => parseQwenCalls json newId maxToolNameLength text []

/-- `parse_atem_format`. -/
def parseAtemFormat (json : JsonApi J) (newId : Nat → Bytes)
    (maxToolNameLength : Nat) : Bytes → ParsedToolCallOutput :=
  parseFormat (ascii "<atem:function_calls>")
    fun text => parseAtemCalls json newId maxToolNameLength text []

/-- `parse_tool_call_output`. -/
def parseToolCallOutput (json : JsonApi J) (newId : Nat → Bytes)
    (maxToolNameLength : Nat) (text : Bytes) : ParsedToolCallOutput :=
  match find text (ascii "<atem:function_calls>"),
      find text (ascii "<tool_call>") with
  | some atem, some qwen =>
    if atem < qwen then parseAtemFormat json newId maxToolNameLength text
    else parseQwenFormat json newId maxToolNameLength text
  | some _, none => parseAtemFormat json newId maxToolNameLength text
  | none, some _ => parseQwenFormat json newId maxToolNameLength text
  | none, none => fallback text

-- ============ the streaming reader

/-- `ToolCallStreamFilter`. -/
structure ToolCallStreamFilter where
  pending : Bytes
  toolRegion : Bytes
  emittedBytes : Nat
  sawToolMarker : Bool
  finished : Bool

namespace ToolCallStreamFilter

/-- A new filter. -/
def initial : ToolCallStreamFilter := ⟨[], [], 0, false, false⟩

/-- `kToolOpen`. -/
def toolOpen : List Bytes :=
  [ascii "<tool_call>", ascii "<atem:function_calls>"]

/-- The first occurrence of any marker; `npos` is `none`. -/
def firstMarker (text : Bytes) : Option Nat :=
  toolOpen.foldl (fun marker candidate =>
    match marker, find text candidate with
    | some m, some i => some (min m i)
    | some m, none => some m
    | none, found => found) none

/-- The longest suffix that may begin a marker. -/
def longestMarkerPrefix (text : Bytes) : Nat :=
  toolOpen.foldl
    (fun size candidate =>
      max size (longestSuffixPrefix text candidate false)) 0

/-- `while (safe_end != 0 && isspace(pending_[safe_end - 1])) --safe_end`:
the visible part of what stands before `safe_end`. -/
def visiblePart (text : Bytes) (safeEnd : Nat) : Bytes :=
  rtrimAscii (text.take safeEnd)

/-- `feed`. -/
def feed (f : ToolCallStreamFilter) (text : Bytes) :
    Except Exception (Bytes × ToolCallStreamFilter) :=
  if f.finished then
    .error (.logicError "tool-call stream filter is already finished")
  else if text.isEmpty then .ok ([], f)
  else if f.sawToolMarker then
    .ok ([], { f with toolRegion := f.toolRegion ++ text })
  else
    let pending := f.pending ++ text
    match firstMarker pending with
    | some marker =>
      let visible := visiblePart pending marker
      .ok (visible, { f with
        toolRegion := pending.drop visible.length
        pending := []
        sawToolMarker := true
        emittedBytes := f.emittedBytes + visible.length })
    | none =>
      let visible :=
        visiblePart pending (pending.length - longestMarkerPrefix pending)
      .ok (visible, { f with
        pending := pending.drop visible.length
        emittedBytes := f.emittedBytes + visible.length })

/-- `finish`. -/
def finish (f : ToolCallStreamFilter) (isToolCallResponse : Bool) :
    Except Exception (Bytes × ToolCallStreamFilter) :=
  if f.finished then
    .error (.logicError "tool-call stream filter is already finished")
  else if isToolCallResponse then
    .ok ([], { f with pending := [], toolRegion := [], finished := true })
  else
    let tail := f.pending ++ f.toolRegion
    .ok (tail, { f with
      pending := []
      toolRegion := []
      emittedBytes := f.emittedBytes + tail.length
      finished := true })

/-- Feed chunk after chunk, concatenating the outputs. -/
def feedAll (f : ToolCallStreamFilter) :
    List Bytes → Except Exception (Bytes × ToolCallStreamFilter)
  | [] => .ok ([], f)
  | chunk :: rest => do
    let (visible, f) ← f.feed chunk
    let (more, f) ← f.feedAll rest
    .ok (visible ++ more, f)

/-- A whole stream: every chunk, then the end of it. -/
def stream (chunks : List Bytes) (isToolCallResponse : Bool) :
    Except Exception (Bytes × ToolCallStreamFilter) := do
  let (visible, f) ← initial.feedAll chunks
  let (tail, f) ← f.finish isToolCallResponse
  .ok (visible ++ tail, f)

end ToolCallStreamFilter

end Ginfer.Serve
