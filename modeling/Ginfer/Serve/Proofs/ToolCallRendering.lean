/-
A tool call that is rendered and parsed again.

The template writes the call in lines (`renderToolCall_eq`), and no closing
marker has a line break in it: one that occurs where it should not occurs
in a single line, in a value or at the end of a key
(`closing_infix_iff`). Without any the parser meets every piece as it was
written (`parseQwenFormat_rendered`); a key that ends in a marker, with the
`>` behind it, is taken for one (`parseQwenFormat_broken`).

What is left of the round trip is one value: between the line breaks it is
trimmed, so that a string comes back if nothing could be trimmed.
-/
import Ginfer.Lib.Markers
import Ginfer.Frontend.Proofs.Search
import Ginfer.Serve.Proofs.ServedMessage

namespace Ginfer.Serve

open Ginfer.Lib Ginfer.Frontend List
open Option hiding map_map mem_map
open Ginfer.Frontend.ChatTemplate (OrderedJson JsonLibrary parameterText
  tojsonText tojsonItems tojsonMembers renderToolCall)

-- ============ the searches

/-- A line break. -/
def lineBreak : UInt8 := 0x0a

/-- `>`. -/
def closes : UInt8 := 0x3e

theorem upTo_first {p a : Bytes} (hp : Simple p) (ha : ¬ p <:+: a)
    (rest : Bytes) :
    ∃ h, upTo p (a ++ (p ++ rest)) = some (a, ⟨rest, h⟩) := by
  obtain ⟨hocc, hfirst⟩ := first_of_simple hp ha rest
  have hfind := find_of_occursAt hp.ne_nil hocc hfirst
  refine ⟨by rw [length_append, length_append]; omega, ?_⟩
  unfold upTo
  rw [hfind]
  have hdrop : (a ++ (p ++ rest)).drop (a.length + p.length) = rest := by
    rw [← append_assoc, ← length_append, drop_left]
  simp only [map_some, take_left, hdrop]

/-- What is found comes first. -/
theorem upTo_some {p text a : Bytes} {rest : Bytes}
    {h : rest.length ≤ text.length}
    (hfound : upTo p text = some (a, ⟨rest, h⟩)) :
    text = a ++ (p ++ rest) := by
  unfold upTo at hfound
  obtain ⟨i, hi, heq⟩ := map_eq_some_iff.mp hfound
  obtain ⟨rfl, hrest⟩ := Prod.mk.inj heq
  have hrest := congrArg Subtype.val hrest
  dsimp only at hrest
  obtain ⟨tail, htail⟩ := (find_eq_some hi).1
  have hdrop : text.drop (i + p.length) = tail := by
    rw [← drop_drop, ← htail, drop_left]
  rw [← hrest, hdrop, htail, take_append_drop]

theorem afterPrefix_append {p text rest : Bytes} (htext : text = p ++ rest) :
    ∃ h, afterPrefix p text = some ⟨rest, h⟩ := by
  subst htext
  refine ⟨by simp [add_comm], ?_⟩
  unfold afterPrefix
  rw [dif_pos ( isPrefixOf_iff_prefix.mpr (prefix_append p rest))]
  simp only [drop_left]

theorem skipWs_cons {b : UInt8} (hb : isSpace b = false) (rest : Bytes) :
    skipWs (b :: rest) = b :: rest := by
  unfold skipWs
  rw [dropWhile_cons_of_neg (by rw [hb]; exact Bool.false_ne_true)]

theorem skipWs_lineBreak (rest : Bytes) :
    skipWs (lineBreak :: rest) = skipWs rest := by
  unfold skipWs
  rw [dropWhile_cons_of_pos (by decide)]

/-- A text that is not all white space. -/
theorem skipWs_ne_nil {text : Bytes} {b : UInt8} (hmem : b ∈ text)
    (hb : isSpace b = false) : skipWs text ≠ [] := by
  intro hnil
  have hall := dropWhile_eq_nil_iff.mp hnil b hmem
  rw [hb] at hall
  exact absurd hall Bool.false_ne_true

/-- White space around a text is trimmed away. -/
theorem trimAscii_lines (text : Bytes) :
    trimAscii (lineBreak :: (text ++ [lineBreak])) = trimAscii text := by
  unfold trimAscii
  rw [skipWs_lineBreak]
  by_cases hall : skipWs text = []
  · have hspaces := dropWhile_eq_nil_iff.mp hall
    have : skipWs (text ++ [lineBreak]) = [] := by
      refine dropWhile_eq_nil_iff.mpr fun b hb => ?_
      rcases mem_append.mp hb with hb | hb
      · exact hspaces b hb
      · rw [mem_singleton.mp hb]
        decide
    rw [hall, this]
  · have hskip : skipWs (text ++ [lineBreak])
        = skipWs text ++ [lineBreak] := by
      unfold skipWs at hall ⊢
      rw [dropWhile_append, if_neg]
      exact fun hempty => hall (isEmpty_iff.mp hempty)
    rw [hskip]
    unfold rtrimAscii
    rw [reverse_append, reverse_singleton, singleton_append,
      dropWhile_cons_of_pos (by decide)]

theorem trimAscii_length (text : Bytes) : (trimAscii text).length ≤ text.length :=
  ((rtrim_head _).length_le).trans (skipWs_length text)

/-- What begins and ends with no white space is not trimmed. -/
theorem trimAscii_closed {a b : UInt8} (ha : isSpace a = false)
    (hb : isSpace b = false) (text : Bytes) :
    trimAscii (a :: (text ++ [b])) = a :: (text ++ [b]) := by
  unfold trimAscii
  rw [skipWs_cons ha]
  unfold rtrimAscii
  rw [← cons_append, reverse_append, reverse_singleton, singleton_append,
    dropWhile_cons_of_neg (by rw [hb]; exact Bool.false_ne_true),
    reverse_cons, reverse_reverse]

-- ============ the lines

/-- The lines of a parameter. -/
def parameterLines (lib : JsonLibrary) (m : Bytes × OrderedJson) : Bytes :=
  ascii "<parameter=" ++ (m.1 ++ closes :: lineBreak ::
    (parameterText lib m.2 ++ lineBreak :: (ascii "</parameter>" ++ [lineBreak])))

/-- The lines of some. -/
def parametersLines (lib : JsonLibrary)
    (members : List (Bytes × OrderedJson)) : Bytes :=
  members.flatMap (parameterLines lib)

/-- What is rendered before the parameters. -/
def headLine (name : Bytes) : Bytes :=
  ascii "<function=" ++ (name ++ [closes])

/-- What is between the markers of a call. -/
def callBlock (lib : JsonLibrary) (name : Bytes)
    (members : List (Bytes × OrderedJson)) : Bytes :=
  lineBreak :: (headLine name ++ lineBreak ::
    (parametersLines lib members ++ (ascii "</function>" ++ [lineBreak])))

/-- The members of the arguments of a call; an effort template writes none
for an empty text. -/
def argumentsOf (lib : JsonLibrary) (call : ChatTemplate.ToolCall)
    (allowEmptyArguments : Bool) : Except Exception OrderedJson :=
  if allowEmptyArguments && call.argumentsJson.isEmpty then .ok (.object [])
  else lib.parse call.argumentsJson

variable {members : List (Bytes × OrderedJson)}

theorem renderToolCall_eq {lib : JsonLibrary} {call : ChatTemplate.ToolCall}
    {allowEmptyArguments : Bool}
    (h : argumentsOf lib call allowEmptyArguments = .ok (.object members)) :
    renderToolCall lib call allowEmptyArguments
      = .ok (ascii "<tool_call>" ++ (callBlock lib call.name members
        ++ (ascii "</tool_call>" ++ []))) := by
  have hopen : ascii "<tool_call>\n<function="
      = ascii "<tool_call>" ++ lineBreak :: ascii "<function=" := by decide
  have hclose : ascii "</function>\n</tool_call>"
      = ascii "</function>" ++ lineBreak :: ascii "</tool_call>" := by decide
  have hline : ascii ">\n" = [closes, lineBreak] := by decide
  have hend : ascii "\n</parameter>\n"
      = lineBreak :: (ascii "</parameter>" ++ [lineBreak]) := by decide
  have hempty : ascii ">\n</function>\n</tool_call>"
      = [closes, lineBreak] ++ (ascii "</function>" ++ lineBreak ::
        ascii "</tool_call>") := by decide
  unfold argumentsOf at h
  unfold renderToolCall
  by_cases hnone : (allowEmptyArguments && call.argumentsJson.isEmpty) = true
  · rw [if_pos hnone] at h
    obtain rfl := OrderedJson.object.inj (Except.ok.inj h)
    rw [if_pos hnone, hopen, hempty]
    simp [callBlock, headLine, parametersLines]
  · rw [if_neg hnone] at h
    rw [if_neg hnone, h, ok_bind]
    dsimp only
    rw [hopen, hclose, hline, hend]
    congr 1
    have hlines : (members.flatMap fun m => ascii "<parameter=" ++ m.1 ++
          [closes, lineBreak] ++ parameterText lib m.2 ++
            lineBreak :: (ascii "</parameter>" ++ [lineBreak]))
        = parametersLines lib members := by
      unfold parametersLines parameterLines
      simp
    simp only [callBlock, headLine, ← hlines]
    simp

-- ============ the markers

/-- `</parameter>`, `</function>` and `</tool_call>`, without their last
byte. -/
def closingStems : List Bytes :=
  [ascii "</parameter", ascii "</function", ascii "</tool_call"]

/-- The closing marker of a stem. -/
def closingOf (stem : Bytes) : Bytes := stem ++ [closes]

/-- No closing marker is in the text of a value. -/
def Unmarked (text : Bytes) : Prop :=
  ∀ stem ∈ closingStems, ¬ closingOf stem <:+: text

theorem closing_simple : ∀ stem ∈ closingStems, Simple (closingOf stem) := by
  intro stem hstem
  refine ⟨0x3c, (closingOf stem).tail, ?_, ?_⟩
  · revert stem
    decide
  · revert stem
    decide

theorem lineBreak_notMem : ∀ stem ∈ closingStems,
    lineBreak ∉ closingOf stem := by decide

theorem equals_notMem : ∀ stem ∈ closingStems, (0x3d : UInt8) ∉ stem := by
  decide

/-- A marker at the end of what an opening with `=` is given. -/
theorem closing_infix_line {stem : Bytes} (hstem : stem ∈ closingStems)
    {opening key : Bytes} (hopening : closes ∉ opening)
    (hkey : closes ∉ key) :
    closingOf stem <:+: (opening ++ 0x3d :: key) ++ [closes]
      ↔ stem <:+ key := by
  have hline : closes ∉ opening ++ 0x3d :: key := by
    rw [mem_append, mem_cons]
    rintro (h | h | h)
    · exact hopening h
    · exact absurd h (by decide)
    · exact hkey h
  unfold closingOf
  rw [infix_concat_concat hline, suffix_append_cons (equals_notMem _ hstem)]

/-- A closing marker of a call or of a function is in the lines of
parameters just where a key ends in it. -/
theorem closing_infix_iff {lib : JsonLibrary} {stem : Bytes}
    (hstem : stem ∈ closingStems) (hother : stem ≠ ascii "</parameter")
    (hkeys : ∀ m ∈ members, closes ∉ m.1)
    (hvalues : ∀ m ∈ members, Unmarked (parameterText lib m.2)) :
    closingOf stem <:+: parametersLines lib members
      ↔ ∃ m ∈ members, stem <:+ m.1 := by
  have hbreak := lineBreak_notMem _ hstem
  have hparameter : ¬ closingOf stem <:+: ascii "</parameter>" := by
    revert hother hstem stem
    decide
  induction members with
  | nil =>
    constructor
    · intro h
      have hnil := infix_nil.mp h
      exact absurd hnil (closing_simple _ hstem).ne_nil
    · rintro ⟨m, hm, -⟩
      cases hm
  | cons m rest ih =>
    obtain ⟨hkey, hkeys⟩ := forall_mem_cons.mp hkeys
    obtain ⟨hvalue, hvalues⟩ := forall_mem_cons.mp hvalues
    have hlines : parametersLines lib (m :: rest)
        = (ascii "<parameter" ++ 0x3d :: m.1) ++ [closes] ++ lineBreak ::
          (parameterText lib m.2 ++ lineBreak ::
            (ascii "</parameter>" ++ lineBreak ::
              parametersLines lib rest)) := by
      have hopen : ascii "<parameter=" = ascii "<parameter" ++ [0x3d] := by
        decide
      simp [parametersLines, parameterLines, hopen]
    have hrest : closingOf stem <:+: parametersLines lib rest
        ↔ ∃ m ∈ rest, stem <:+ m.1 := ih hkeys hvalues
    rw [hlines, infix_append_cons hbreak, infix_append_cons hbreak,
      infix_append_cons hbreak, closing_infix_line hstem (by decide) hkey,
      hrest]
    constructor
    · rintro (h | h | h | ⟨m', hm', h⟩)
      · exact ⟨m, .head _, h⟩
      · exact absurd h (hvalue _ hstem)
      · exact absurd h hparameter
      · exact ⟨m', .tail _ hm', h⟩
    · rintro ⟨m', hm', h⟩
      rcases mem_cons.mp hm' with rfl | hm'
      · exact .inl h
      · exact .inr (.inr (.inr ⟨m', hm', h⟩))

-- ============ the parameters

section

variable {J : Type} (json : JsonApi J) {lib : JsonLibrary}

/-- The value a parameter is read as. -/
def readValue (lib : JsonLibrary) (m : Bytes × OrderedJson) : J :=
  parameterValue json (trimAscii (parameterText lib m.2))

/-- Keys of the domain: neither empty nor with a `>`. -/
structure LegalKey (key : Bytes) : Prop where
  ne_nil : key ≠ []
  open_ : closes ∉ key

variable {m : Bytes × OrderedJson}

theorem parseParameter_lines (hkey : LegalKey m.1)
    (hvalue : Unmarked (parameterText lib m.2)) (rest : Bytes) :
    ∃ h, parseParameter json (parameterLines lib m ++ rest)
      = some (m.1, readValue json lib m, ⟨lineBreak :: rest, h⟩) := by
  have hlines : parameterLines lib m ++ rest
      = ascii "<parameter=" ++ (m.1 ++ ([closes] ++
        ((lineBreak :: (parameterText lib m.2 ++ [lineBreak])) ++
          (closingOf (ascii "</parameter") ++ lineBreak :: rest)))) := by
    have hclose : ascii "</parameter>" = closingOf (ascii "</parameter") := by
      decide
    simp [parameterLines, hclose]
  have hraw : ¬ closingOf (ascii "</parameter")
      <:+: lineBreak :: (parameterText lib m.2 ++ [lineBreak]) := by
    have hbreak := lineBreak_notMem (ascii "</parameter") (by decide)
    have hnil : ¬ closingOf (ascii "</parameter") <:+: [] :=
      fun h => absurd (infix_nil.mp h) (by decide)
    rw [← nil_append (lineBreak :: _), infix_append_cons hbreak,
      infix_append_cons hbreak]
    rintro (h | h | h)
    · exact hnil h
    · exact hvalue _ (by decide) h
    · exact hnil h
  obtain ⟨h₁, hopen⟩ := afterPrefix_append hlines
  have hname : ¬ [closes] <:+: m.1 := by
    intro h
    exact hkey.open_ (h.subset (mem_singleton_self _))
  obtain ⟨h₂, hname⟩ := upTo_first ⟨closes, [], rfl, nofun⟩ hname
    ((lineBreak :: (parameterText lib m.2 ++ [lineBreak])) ++
      (closingOf (ascii "</parameter") ++ lineBreak :: rest))
  obtain ⟨h₃, hvalue⟩ := upTo_first (closing_simple (ascii "</parameter")
    (by decide)) hraw (lineBreak :: rest)
  have hbracket : ascii ">" = [closes] := by decide
  have hmarker : ascii "</parameter>" = closingOf (ascii "</parameter") := by
    decide
  have hfilled : ¬ m.1.isEmpty = true :=
    fun h => hkey.ne_nil (isEmpty_iff.mp h)
  refine ⟨?_, ?_⟩
  · rw [hlines]
    simp only [length_append, length_cons]
    omega
  unfold parseParameter parseNamed
  simp only [hopen, hbracket, hname, hmarker, hvalue, bind_eq_bind,
    bind_some, if_neg hfilled, trimAscii_lines, readValue]

/-- One turn of the parameter loop. -/
theorem parseParameters_step {params inner key rest : Bytes} {value : J}
    {h : rest.length < inner.length} (hskip : skipWs params = inner)
    (hparse : parseParameter json inner = some (key, value, ⟨rest, h⟩))
    (args : List (Bytes × J)) :
    parseParameters json params args
      = parseParameters json rest (setArgument args key value) := by
  subst hskip
  have hfilled : ¬ (skipWs params).isEmpty = true := by
    intro hempty
    rw [isEmpty_iff.mp hempty] at h
    exact Nat.not_lt_zero _ h
  conv => lhs; rw [parseParameters]
  rw [if_neg hfilled]
  simp only [hparse]

theorem parseParameters_lines :
    ∀ (args : List (Bytes × J)), (∀ m ∈ members, LegalKey m.1) →
      (∀ m ∈ members, Unmarked (parameterText lib m.2)) →
        parseParameters json (lineBreak :: parametersLines lib members) args
        = some (members.foldl (fun args m =>
          setArgument args m.1 (readValue json lib m)) args) := by
  induction members with
  | nil =>
    intro args _ _
    have hend : (skipWs (lineBreak :: parametersLines lib [])).isEmpty
        = true := rfl
    rw [parseParameters, if_pos hend]
    rfl
  | cons m rest ih =>
    intro args hkeys hvalues
    obtain ⟨hkey, hkeys⟩ := forall_mem_cons.mp hkeys
    obtain ⟨hvalue, hvalues⟩ := forall_mem_cons.mp hvalues
    have hskip : skipWs (lineBreak :: parametersLines lib (m :: rest))
        = parameterLines lib m ++ parametersLines lib rest := by
      rw [skipWs_lineBreak]
      exact skipWs_cons (by decide) _
    obtain ⟨h, hparse⟩ := parseParameter_lines json hkey hvalue
      (parametersLines lib rest)
    rw [parseParameters_step json hskip hparse]
    exact ih _ hkeys hvalues

/-- Assignments to distinct keys are kept in their order. -/
theorem setArguments_eq (hkeys : (members.map Prod.fst).Nodup) :
    members.foldl (fun args m =>
        setArgument args m.1 (readValue json lib m)) []
      = members.map fun m => (m.1, readValue json lib m) := by
  have hnew : ∀ (args : List (Bytes × J)) (key : Bytes) (value : J),
      key ∉ args.map Prod.fst →
        setArgument args key value = args ++ [(key, value)] := by
    intro args key value hkey
    induction args with
    | nil => rfl
    | cons a args ih =>
      rw [map_cons, mem_cons, not_or] at hkey
      unfold setArgument
      rw [if_neg fun h => hkey.1 h.symm, ih hkey.2]
      rfl
  have hfold : ∀ (rest : List (Bytes × OrderedJson)) (args : List (Bytes × J)),
      (args.map Prod.fst ++ rest.map Prod.fst).Nodup →
        rest.foldl (fun args m =>
            setArgument args m.1 (readValue json lib m)) args
          = args ++ rest.map fun m => (m.1, readValue json lib m) := by
    intro rest
    induction rest with
    | nil => exact fun args _ => (append_nil args).symm
    | cons m rest ih =>
      intro args hnodup
      have hkey : m.1 ∉ args.map Prod.fst := fun hmem =>
        (nodup_append.mp hnodup).2.2 _ hmem _ (.head _) rfl
      rw [foldl_cons, hnew _ _ _ hkey, ih, append_assoc]
      · rfl
      · rw [map_append, append_assoc]
        exact hnodup
  exact hfold members [] hkeys

end

-- ============ the calls

section

variable {J : Type} {json : JsonApi J} {newId : Nat → Bytes}
  {maximum : Nat} {name : Bytes}

theorem validFunctionName_plain (h : validFunctionName name maximum = true) :
    name ≠ [] ∧ closes ∉ name ∧ (0x3c : UInt8) ∉ name := by
  unfold validFunctionName at h
  rw [Bool.and_eq_true, Bool.and_eq_true] at h
  obtain ⟨⟨hne, -⟩, hall⟩ := h
  refine ⟨?_, ?_, ?_⟩
  · rintro rfl
    exact absurd hne (by decide)
  · intro hmem
    exact absurd (all_eq_true.mp hall _ hmem) (by decide)
  · intro hmem
    exact absurd (all_eq_true.mp hall _ hmem) (by decide)

/-- What is parsed of a block up to the name. -/
theorem parseOneToolCall_head (hname : validFunctionName name maximum = true)
    (body : Bytes) :
    parseOneToolCall json (lineBreak :: (headLine name ++ body)) maximum
      = (upTo (ascii "</function>") body).bind fun (params, rest) =>
        (parseParameters json params []).bind fun args =>
          if (skipWs rest).isEmpty then some (name, args) else none := by
  obtain ⟨hne, hopen, -⟩ := validFunctionName_plain hname
  have hskip : skipWs (lineBreak :: (headLine name ++ body))
      = ascii "<function=" ++ (name ++ ([closes] ++ body)) := by
    rw [skipWs_lineBreak]
    unfold headLine
    rw [append_assoc, append_assoc]
    exact skipWs_cons (by decide) _
  obtain ⟨_, hstart⟩ := afterPrefix_append hskip
  have hplain : ¬ [closes] <:+: name := by
    intro h
    exact hopen (h.subset (mem_singleton_self _))
  obtain ⟨_, hupTo⟩ := upTo_first ⟨closes, [], rfl, nofun⟩ hplain body
  have hbracket : ascii ">" = [closes] := by decide
  have hfilled : ¬ name.isEmpty = true :=
    fun h => hne (isEmpty_iff.mp h)
  have hvalid : ¬ (!validFunctionName name maximum) = true := by
    rw [hname]
    decide
  unfold parseOneToolCall
  simp only [hstart, hbracket, hupTo, bind_eq_bind, bind_some,
    if_neg hfilled, if_neg hvalid]

/-- A text that begins with a call, and what becomes of it. -/
theorem parseQwenFormat_call (name : Bytes) {inner block rest : Bytes}
    {h : rest.length ≤ inner.length}
    (hblock : upTo (ascii "</tool_call>") inner = some (block, ⟨rest, h⟩)) :
    (parseOneToolCall json block maximum = none →
        parseQwenFormat json newId maximum (ascii "<tool_call>" ++ inner)
        = fallback (ascii "<tool_call>" ++ inner))
      ∧ ∀ args, rest = [] →
        parseOneToolCall json block maximum = some (name, args) →
        parseQwenFormat json newId maximum (ascii "<tool_call>" ++ inner)
          = ⟨true, [], [⟨newId 0, name, json.dump args⟩]⟩ := by
  have hfind : find (ascii "<tool_call>" ++ inner) (ascii "<tool_call>")
      = some 0 :=
    find_of_occursAt (by decide) (prefix_append _ _)
      fun _ hj => absurd hj (Nat.not_lt_zero _)
  have hskip : skipWs (ascii "<tool_call>" ++ inner)
      = ascii "<tool_call>" ++ inner := skipWs_cons (by decide) _
  have hfilled : ¬ (skipWs (ascii "<tool_call>" ++ inner)).isEmpty = true := by
    rw [hskip]
    exact Bool.false_ne_true
  obtain ⟨_, hstart⟩ := afterPrefix_append hskip
  have hcalls : parseQwenCalls json newId maximum
      (ascii "<tool_call>" ++ inner) []
        = (parseOneToolCall json block maximum).bind fun call =>
          parseQwenCalls json newId maximum rest
            [⟨newId 0, call.1, json.dump call.2⟩] := by
    rw [parseQwenCalls, if_neg hfilled]
    simp only [hstart, hblock]
    cases parseOneToolCall json block maximum with
    | none => rfl
    | some call => rfl
  constructor
  · intro hnone
    unfold parseQwenFormat parseFormat
    simp only [hfind, drop_zero, hcalls, hnone, bind_none]
  · rintro args rfl hcall
    have hend : parseQwenCalls json newId maximum []
        [⟨newId 0, name, json.dump args⟩]
          = some [⟨newId 0, name, json.dump args⟩] := by
      rw [parseQwenCalls]
      rfl
    unfold parseQwenFormat parseFormat
    simp only [hfind, drop_zero, hcalls, hcall, bind_some, hend]
    rfl

end

-- ============ the renderings

section

variable {J : Type} {json : JsonApi J} {newId : Nat → Bytes}
  {maximum : Nat} {name : Bytes} {lib : JsonLibrary}
  {members : List (Bytes × OrderedJson)}

/-- The lines end in a line break, so that a marker without any is in them
or behind. -/
theorem infix_lines {p : Bytes} (hbreak : lineBreak ∉ p) (behind : Bytes) :
    p <:+: lineBreak :: (parametersLines lib members ++ behind)
      ↔ p <:+: parametersLines lib members ∨ p <:+: behind := by
  obtain ⟨front, hfront⟩ : ∃ front,
      lineBreak :: parametersLines lib members = front ++ [lineBreak] := by
    induction members with
    | nil => exact ⟨[], rfl⟩
    | cons m rest ih =>
      obtain ⟨front, hfront⟩ := ih
      refine ⟨lineBreak :: (ascii "<parameter=" ++ (m.1 ++ closes ::
        lineBreak :: (parameterText lib m.2 ++ lineBreak ::
          (ascii "</parameter>" ++ front)))), ?_⟩
      have hlines : parametersLines lib (m :: rest)
          = ascii "<parameter=" ++ (m.1 ++ closes :: lineBreak ::
            (parameterText lib m.2 ++ lineBreak ::
              (ascii "</parameter>" ++
                lineBreak :: parametersLines lib rest))) := by
        simp [parametersLines, parameterLines]
      rw [hlines, hfront]
      simp
  have hsplit : lineBreak :: (parametersLines lib members ++ behind)
      = front ++ lineBreak :: behind := by
    rw [← cons_append, hfront, append_assoc]
    rfl
  have hsame : p <:+: front ↔ p <:+: parametersLines lib members := by
    have hleft := infix_append_cons (a := front) (b := []) hbreak
    rw [← hfront] at hleft
    have hright := infix_append_cons (a := [])
      (b := parametersLines lib members) hbreak
    rw [nil_append] at hright
    constructor
    · intro h
      rcases hright.mp (hleft.mpr (.inl h)) with h | h
      · exact h.trans nil_infix
      · exact h
    · intro h
      rcases hleft.mp (hright.mpr (.inr h)) with h | h
      · exact h
      · exact h.trans nil_infix
  rw [hsplit, infix_append_cons hbreak, hsame]

/-- The name is no place for a marker. -/
theorem headLine_unmarked (hname : validFunctionName name maximum = true) :
    Unmarked (headLine name) := by
  intro stem hstem h
  obtain ⟨-, hopen, hless⟩ := validFunctionName_plain hname
  have hline : headLine name
      = (ascii "<function" ++ 0x3d :: name) ++ [closes] := by
    have hopening : ascii "<function=" = ascii "<function" ++ [0x3d] := by
      decide
    simp [headLine, hopening]
  rw [hline, closing_infix_line hstem (by decide) hopen] at h
  have hfirst : ∀ stem ∈ closingStems, (0x3c : UInt8) ∈ stem := by decide
  exact hless (h.subset (hfirst stem hstem))

/-- The first key that ends in a marker's stem. -/
theorem split_key {stem : Bytes} (hstem : stem ∈ closingStems)
    (hother : stem ≠ ascii "</parameter")
    (hkeys : ∀ m ∈ members, closes ∉ m.1)
    (hvalues : ∀ m ∈ members, Unmarked (parameterText lib m.2))
    (h : ∃ m ∈ members, stem <:+ m.1) :
    ∃ before x rest, parametersLines lib members
        = parametersLines lib before ++ ((ascii "<parameter=" ++ x) ++
        (closingOf stem ++ rest))
      ∧ (0x3c : UInt8) ∈ rest ∧ closes ∉ x
      ∧ ¬ closingOf stem <:+: lineBreak :: (parametersLines lib before ++
        (ascii "<parameter=" ++ x)) := by
  obtain ⟨m, hm⟩ : ∃ m, members.find? (fun m => decide (stem <:+ m.1))
      = some m := by
    refine isSome_iff_exists.mp (find?_isSome.mpr ?_)
    obtain ⟨m, hm, hends⟩ := h
    exact ⟨m, hm, decide_eq_true hends⟩
  obtain ⟨hends, before, after, rfl, hbefore⟩ :=
    find?_eq_some_iff_append.mp hm
  obtain ⟨x, hx⟩ := of_decide_eq_true hends
  have hkey : closes ∉ x ++ stem := by
    rw [hx]
    exact hkeys m (by simp)
  have hopen : closes ∉ x :=
    fun hmem => hkey (mem_append_left _ hmem)
  refine ⟨before, x, lineBreak :: (parameterText lib m.2 ++ lineBreak ::
    (ascii "</parameter>" ++ lineBreak :: parametersLines lib after)),
    ?_, ?_, hopen, ?_⟩
  · have hlines : parameterLines lib m = ascii "<parameter=" ++ (x ++
        (closingOf stem ++ lineBreak :: (parameterText lib m.2 ++
          lineBreak :: (ascii "</parameter>" ++ [lineBreak])))) := by
      simp [parameterLines, closingOf, ← hx]
    simp [parametersLines, hlines]
  · have hless : (0x3c : UInt8) ∈ ascii "</parameter>" := by decide
    exact .tail _ (mem_append_right _ (.tail _ (mem_append_left _ hless)))
  · rw [infix_lines (lineBreak_notMem _ hstem), closing_infix_iff hstem hother
        (fun m hm => hkeys m (mem_append_left _ hm))
        fun m hm => hvalues m (mem_append_left _ hm)]
    rintro (⟨m', hm', hends'⟩ | h)
    · have hnot := hbefore m' hm'
      rw [decide_eq_true hends'] at hnot
      exact absurd hnot (by decide)
    · have hmem : closes ∈ ascii "<parameter=" ++ x :=
        h.subset (mem_append_right _ (mem_singleton_self _))
      rcases mem_append.mp hmem with hmem | hmem
      · exact absurd hmem (by decide)
      · exact hopen hmem

/-- What is rendered of a call. -/
def callText (lib : JsonLibrary) (name : Bytes)
    (members : List (Bytes × OrderedJson)) : Bytes :=
  ascii "<tool_call>" ++ (callBlock lib name members
    ++ (ascii "</tool_call>" ++ []))

/-- A marker in what is rendered up to a place in the parameters. -/
theorem infix_block {stem body : Bytes} (hstem : stem ∈ closingStems)
    (hname : validFunctionName name maximum = true) :
    closingOf stem <:+: lineBreak :: (headLine name ++ lineBreak :: body)
      ↔ closingOf stem <:+: lineBreak :: body := by
  have hbreak := lineBreak_notMem _ hstem
  have houter := infix_append_cons (a := [])
    (b := headLine name ++ lineBreak :: body) hbreak
  have hbody := infix_append_cons (a := []) (b := body) hbreak
  rw [nil_append] at houter hbody
  have hnil : ¬ closingOf stem <:+: [] := fun h =>
    (closing_simple _ hstem).ne_nil (infix_nil.mp h)
  rw [houter, infix_append_cons hbreak, hbody]
  constructor
  · rintro (h | h | h)
    · exact absurd h hnil
    · exact absurd h (headLine_unmarked hname stem hstem)
    · exact .inr h
  · rintro (h | h)
    · exact absurd h hnil
    · exact .inr (.inr h)

/-- No key ends in a marker's stem: the closing marker of the call is the
first. -/
theorem callBlock_closed (hname : validFunctionName name maximum = true)
    (hkeys : ∀ m ∈ members, closes ∉ m.1)
    (hvalues : ∀ m ∈ members, Unmarked (parameterText lib m.2))
    (hcalls : ∀ m ∈ members, ¬ ascii "</tool_call" <:+ m.1) :
    ∃ h, upTo (ascii "</tool_call>")
        (callBlock lib name members ++ (ascii "</tool_call>" ++ []))
      = some (callBlock lib name members, ⟨[], h⟩) := by
  refine upTo_first (p := closingOf (ascii "</tool_call"))
    (closing_simple _ (by decide)) ?_ []
  have hstem : ascii "</tool_call" ∈ closingStems := by decide
  unfold callBlock
  rw [infix_block hstem hname, infix_lines (lineBreak_notMem _ hstem),
    closing_infix_iff hstem (by decide) hkeys hvalues]
  rintro (⟨m, hm, hends⟩ | h)
  · exact hcalls m hm hends
  · exact absurd h (by decide)

/-- Without a marker at the end of a key the call is parsed. -/
theorem parseQwenFormat_rendered (json : JsonApi J) (newId : Nat → Bytes)
    (hname : validFunctionName name maximum = true)
    (hkeys : ∀ m ∈ members, LegalKey m.1)
    (hdistinct : (members.map Prod.fst).Nodup)
    (hvalues : ∀ m ∈ members, Unmarked (parameterText lib m.2))
    (hapart : ∀ m ∈ members, ¬ ascii "</function" <:+ m.1
      ∧ ¬ ascii "</tool_call" <:+ m.1) :
    parseQwenFormat json newId maximum (callText lib name members)
      = ⟨true, [], [⟨newId 0, name, json.dump
        (members.map fun m => (m.1, readValue json lib m))⟩]⟩ := by
  have hopen : ∀ m ∈ members, closes ∉ m.1 := fun m hm => (hkeys m hm).open_
  obtain ⟨_, hblock⟩ := callBlock_closed hname hopen hvalues
    fun m hm => (hapart m hm).2
  refine (parseQwenFormat_call name hblock).2 _ rfl ?_
  have hstem : ascii "</function" ∈ closingStems := by decide
  have hplain : ¬ closingOf (ascii "</function")
      <:+: lineBreak :: parametersLines lib members := by
    have hlines := @infix_lines lib members _ (lineBreak_notMem _ hstem) []
    rw [append_nil] at hlines
    rw [hlines, closing_infix_iff hstem (by decide) hopen hvalues]
    rintro (⟨m, hm, hends⟩ | h)
    · exact (hapart m hm).1 hends
    · exact absurd h (by decide)
  obtain ⟨_, hfunction⟩ := upTo_first (closing_simple _ hstem) hplain [lineBreak]
  have hmarker : ascii "</function>" = closingOf (ascii "</function") := by
    decide
  have hend : (skipWs [lineBreak]).isEmpty = true := by decide
  unfold callBlock
  rw [parseOneToolCall_head hname, hmarker, ← cons_append, hfunction]
  simp only [bind_some, parseParameters_lines json [] hkeys hvalues,
    setArguments_eq json hdistinct, if_pos hend]

/-- With one the text is no call. -/
theorem parseQwenFormat_broken (json : JsonApi J) (newId : Nat → Bytes)
    (hname : validFunctionName name maximum = true)
    (hkeys : ∀ m ∈ members, LegalKey m.1)
    (hvalues : ∀ m ∈ members, Unmarked (parameterText lib m.2))
    (hbroken : ¬ ∀ m ∈ members, ¬ ascii "</function" <:+ m.1
      ∧ ¬ ascii "</tool_call" <:+ m.1) :
    parseQwenFormat json newId maximum (callText lib name members)
      = fallback (callText lib name members) := by
  have hopen : ∀ m ∈ members, closes ∉ m.1 := fun m hm => (hkeys m hm).open_
  have hfunction : ascii "</function" ∈ closingStems := by decide
  have hcall : ascii "</tool_call" ∈ closingStems := by decide
  by_cases hcalls : ∀ m ∈ members, ¬ ascii "</tool_call" <:+ m.1
  · -- the function is closed in a key, with more behind it
    obtain ⟨_, hblock⟩ := callBlock_closed hname hopen hvalues hcalls
    refine (parseQwenFormat_call name hblock).1 ?_
    have hsome : ∃ m ∈ members, ascii "</function" <:+ m.1 := by
      by_contra hnone
      exact hbroken fun m hm =>
        ⟨fun hends => hnone ⟨m, hm, hends⟩, hcalls m hm⟩
    obtain ⟨before, x, rest, hlines, hmore, -, hfirst⟩ :=
      split_key hfunction (by decide) hopen hvalues hsome
    obtain ⟨behind, hbehind⟩ : ∃ behind,
        behind = rest ++ (ascii "</function>" ++ [lineBreak]) := ⟨_, rfl⟩
    obtain ⟨_, hupTo⟩ := upTo_first (closing_simple _ hfunction) hfirst behind
    have hmarker : ascii "</function>" = closingOf (ascii "</function") := by
      decide
    have hbody : lineBreak :: (parametersLines lib members ++
          (ascii "</function>" ++ [lineBreak]))
        = (lineBreak :: (parametersLines lib before ++
            (ascii "<parameter=" ++ x))) ++
          (closingOf (ascii "</function") ++ behind) := by
      rw [hlines, hbehind]
      simp
    have hspace : skipWs behind ≠ [] :=
      skipWs_ne_nil (hbehind ▸ mem_append_left _ hmore) (by decide)
    unfold callBlock
    rw [parseOneToolCall_head hname, hbody, hmarker, hupTo]
    simp only [bind_some, List.isEmpty_iff, if_neg hspace]
    cases parseParameters json _ [] with
    | none => rfl
    | some args => rfl
  · -- the call is closed in a key, and what is before it is no function
    have hsome : ∃ m ∈ members, ascii "</tool_call" <:+ m.1 := by
      by_contra hnone
      exact hcalls fun m hm hends => hnone ⟨m, hm, hends⟩
    obtain ⟨before, x, rest, hlines, -, hx, hfirst⟩ :=
      split_key hcall (by decide) hopen hvalues hsome
    have hbefore := (not_congr (infix_block hcall hname)).mpr hfirst
    obtain ⟨_, hblock⟩ := upTo_first (closing_simple _ hcall) hbefore
      (rest ++ ((ascii "</function>" ++ [lineBreak]) ++
        (ascii "</tool_call>" ++ [])))
    have htext : callText lib name members = ascii "<tool_call>" ++
        ((lineBreak :: (headLine name ++ lineBreak ::
            (parametersLines lib before ++ (ascii "<parameter=" ++ x)))) ++
          (closingOf (ascii "</tool_call") ++
            (rest ++ ((ascii "</function>" ++ [lineBreak]) ++
              (ascii "</tool_call>" ++ []))))) := by
      unfold callText callBlock
      rw [hlines]
      simp
    rw [htext]
    refine (parseQwenFormat_call name hblock).1 ?_
    rw [parseOneToolCall_head hname]
    cases hupTo : upTo (ascii "</function>") (lineBreak ::
        (parametersLines lib before ++ (ascii "<parameter=" ++ x))) with
    | none => rfl
    | some found =>
      obtain ⟨params, rest', _⟩ := found
      have hsplit := upTo_some hupTo
      have hline : closes ∉ ascii "<parameter=" ++ x := by
        intro hmem
        rcases mem_append.mp hmem with hmem | hmem
        · exact absurd hmem (by decide)
        · exact hx hmem
      have hclosing : ascii "</function>" = ascii "</function" ++ [closes] :=
        by decide
      have hends : ascii "<parameter=" ++ x <:+ rest' := by
        refine (suffix_append_cons (a := params ++ ascii "</function")
          hline).mp ?_
        have hall : (params ++ ascii "</function") ++ closes :: rest'
            = lineBreak :: (parametersLines lib before ++
              (ascii "<parameter=" ++ x)) := by
          rw [hsplit, hclosing]
          simp
        rw [hall]
        exact ⟨lineBreak :: parametersLines lib before, by simp⟩
      have hspace : skipWs rest' ≠ [] := by
        have hless : (0x3c : UInt8) ∈ ascii "<parameter=" ++ x :=
          mem_append_left _ (by decide)
        exact skipWs_ne_nil (hends.subset hless) (by decide)
      simp only [bind_some, List.isEmpty_iff, if_neg hspace]
      cases parseParameters json params [] with
      | none => rfl
      | some args => rfl

end

-- ============ the round trip

mutual

/-- The value of an ordered one in an object without order; a scalar's is
the one its text has. -/
def unordered (text : JsonText) : OrderedJson → Json
  | .scalar dump => (text.parse dump).getD .null
  | .string value => .string value
  | .array items => .array (unorderedItems text items)
  | .object members => .ofMembers (unorderedMembers text members)

def unorderedItems (text : JsonText) : List OrderedJson → List Json
  | [] => []
  | item :: rest => unordered text item :: unorderedItems text rest

def unorderedMembers (text : JsonText) :
    List (Bytes × OrderedJson) → List (Bytes × Json)
  | [] => []
  | (key, value) :: rest =>
    (key, unordered text value) :: unorderedMembers text rest

end

/-- Every null, boolean and number is one the library's dump writes. -/
inductive Dumped (text : JsonText) : OrderedJson → Prop where
  | scalar (v : Json) (hatom : v.isAtom = true)
      (hstring : v.isString = false) : Dumped text (.scalar (text.dump v))
  | string (value : Bytes) : Dumped text (.string value)
  | array (items : List OrderedJson) (h : ∀ v ∈ items, Dumped text v) :
      Dumped text (.array items)
  | object (members : List (Bytes × OrderedJson))
      (h : ∀ m ∈ members, Dumped text m.2) : Dumped text (.object members)

/-- The ordered values of the template and the values of the parser are of
one JSON library. They dump alike, what dump writes of a null, a boolean or
a number has no white space around it, and parse reads the grammar, with
whatever gap behind a comma or a colon; the text of a string is longer. -/
structure OneLibrary (lib : JsonLibrary) (text : JsonText) : Prop where
  dumpString : ∀ s, lib.dumpString s = text.dump (.string s)
  dumped : ∀ t v, lib.parse t = .ok v → Dumped text v
  tight : ∀ v : Json, v.isAtom = true → v.isString = false →
    trimAscii (text.dump v) = text.dump v
  parse_text : ∀ (v : Json) t, Json.Text text.dump (.value v) t →
    text.parse t = some v
  quoted : ∀ t s, text.parse t = some (.string s) → s.length < t.length

/-- A text is one call, of a name with the members of an object. -/
def IsCall (text : JsonText) (name : Bytes) (arguments : Json)
    (out : ParsedToolCallOutput) : Prop :=
  ∃ id argumentsJson, out = ⟨true, [], [⟨id, name, argumentsJson⟩]⟩
    ∧ text.parse argumentsJson = some arguments

section

variable {lib : JsonLibrary} {text : JsonText}
  {members : List (Bytes × OrderedJson)}

mutual

/-- What `tojson_text` writes of a value is a text of the grammar, a space
behind every comma and colon. -/
theorem tojsonText_text (hone : OneLibrary lib text) (hlawful : text.Lawful) :
    ∀ {v : OrderedJson}, Dumped text v →
      Json.Text text.dump (.value (unordered text v)) (tojsonText lib v)
  | .scalar dump, h => by
    cases h with
    | scalar v hatom hstring =>
      have hcanonical : v.Canonical := by
        cases v with
        | array items => cases hatom
        | object members => cases hatom
        | null => exact .null
        | boolean b => exact .boolean b
        | integer n => exact .integer n
        | float bits => exact .float bits
        | string s => exact .string s
      rw [unordered, tojsonText, hlawful.parse_dump v hcanonical]
      exact .atom v hatom
  | .string value, _ => by
    rw [tojsonText, hone.dumpString]
    exact .atom (.string value) rfl
  | .array items, h => by
    have hitems : ∀ v ∈ items, Dumped text v := by
      cases h with
      | array _ h => exact h
    rw [unordered, tojsonText]
    exact Json.Text.joinedItems (all_eq_true.mp rfl)
      (tojsonItems_text hone hlawful hitems)
  | .object members, h => by
    have hmembers : ∀ m ∈ members, Dumped text m.2 := by
      cases h with
      | object _ h => exact h
    rw [unordered, tojsonText]
    exact Json.Text.joinedMembers (all_eq_true.mp rfl)
      (tojsonMembers_text hone hlawful hmembers)

theorem tojsonItems_text (hone : OneLibrary lib text)
    (hlawful : text.Lawful) : ∀ {items : List OrderedJson},
    (∀ v ∈ items, Dumped text v) →
      Forall₂ (fun v t => Json.Text text.dump (.value v) t)
        (unorderedItems text items) (tojsonItems lib items)
  | [], _ => .nil
  | _ :: _, h => .cons (tojsonText_text hone hlawful (h _ (.head _)))
    (tojsonItems_text hone hlawful fun v hv => h v (.tail _ hv))

theorem tojsonMembers_text (hone : OneLibrary lib text)
    (hlawful : text.Lawful) : ∀ {members : List (Bytes × OrderedJson)},
    (∀ m ∈ members, Dumped text m.2) →
      Forall₂ (fun m t => Json.Text text.dump (.member m) t)
        (unorderedMembers text members) (tojsonMembers lib members)
  | [], _ => .nil
  | (key, value) :: rest, h => by
    rw [unorderedMembers, tojsonMembers, hone.dumpString, append_assoc]
    exact .cons (@Json.Text.member _ key _ [0x20] _ (all_eq_true.mp rfl)
        (tojsonText_text hone hlawful (h (key, value) (.head _))))
      (tojsonMembers_text hone hlawful fun m hm => h m (.tail _ hm))

end

/-- A value that is no string is read as itself. -/
theorem readValue_other (hone : OneLibrary lib text) (hlawful : text.Lawful)
    (hstring : ∀ s, m.2 ≠ .string s) (h : Dumped text m.2) :
    readValue text.api lib m = unordered text m.2 := by
  have hrendered : parameterText lib m.2 = tojsonText lib m.2 := by
    cases hvalue : m.2 with
    | string s => exact absurd hvalue (hstring s)
    | scalar dump => rfl
    | array items => rfl
    | object members => rfl
  have htrim : trimAscii (tojsonText lib m.2) = tojsonText lib m.2 := by
    cases hvalue : m.2 with
    | string s => exact absurd hvalue (hstring s)
    | scalar dump =>
      rw [hvalue] at h
      cases h with
      | scalar v hatom hnot => exact hone.tight v hatom hnot
    | array items => exact trimAscii_closed (by decide) (by decide) _
    | object members => exact trimAscii_closed (by decide) (by decide) _
  have hparse := hone.parse_text _ _ (tojsonText_text hone hlawful h)
  unfold readValue parameterValue
  rw [hrendered, htrim]
  show (text.parse _).getD _ = _
  rw [hparse]
  rfl

/-- A string that is no JSON text is read as itself just where nothing can
be trimmed: a text read as a string is longer than the string. -/
theorem readValue_string {s : Bytes}
    (hstring : m.2 = .string s) (hplain : text.parse s = none)
    (hquoted : ∀ t s, text.parse t = some (.string s) → s.length < t.length) :
    readValue text.api lib m = unordered text m.2 ↔ trimAscii s = s := by
  unfold readValue parameterValue
  rw [hstring]
  show (text.parse (trimAscii s)).getD (.string (trimAscii s)) = .string s ↔ _
  constructor
  · intro h
    cases hparse : text.parse (trimAscii s) with
    | none =>
      rw [hparse] at h
      exact Json.string.inj h
    | some v =>
      rw [hparse] at h
      obtain rfl : v = .string s := h
      have hlonger := hquoted _ _ hparse
      have := trimAscii_length s
      omega
  · intro h
    rw [h, hplain]
    rfl

theorem unorderedMembers_eq (members : List (Bytes × OrderedJson)) :
    unorderedMembers text members
      = members.map fun m => (m.1, unordered text m.2) := by
  induction members with
  | nil => rfl
  | cons m rest ih =>
    obtain ⟨key, value⟩ := m
    rw [unorderedMembers, ih]
    rfl

/-- The objects of two readings are the same where the members are. -/
theorem ofMembers_inj (hdistinct : (members.map Prod.fst).Nodup)
    {f g : Bytes × OrderedJson → Json}
    (h : Json.ofMembers (members.map fun m => (m.1, f m))
      = Json.ofMembers (members.map fun m => (m.1, g m))) :
    ∀ m ∈ members, f m = g m := by
  intro m hm
  have hkeys : ∀ k : Bytes × OrderedJson → Json,
      ((members.map fun m => (m.1, k m)).map Prod.fst).Nodup := by
    intro k
    rw [map_map]
    exact hdistinct
  have hleft := Json.find?_ofMembers (hkeys f)
    (mem_map.mpr ⟨m, hm, rfl⟩ : (m.1, f m) ∈ _)
  have hright := Json.find?_ofMembers (hkeys g)
    (mem_map.mpr ⟨m, hm, rfl⟩ : (m.1, g m) ∈ _)
  rw [h] at hleft
  exact some.inj (hleft.symm.trans hright)

/-- What is rendered of a call is parsed as that call just where no string
has white space at its ends and no key ends in a closing marker without its
last byte. -/
theorem tool_call_round_trip_iff (lib : JsonLibrary) (text : JsonText)
    (draws : Nat → UInt64) (maximum : Nat) (call : ChatTemplate.ToolCall)
    (allowEmptyArguments : Bool) (members : List (Bytes × OrderedJson))
    (hlawful : text.Lawful) (hone : OneLibrary lib text)
    (harguments : argumentsOf lib call allowEmptyArguments
      = .ok (.object members))
    (hname : validFunctionName call.name maximum = true)
    (hkeys : ∀ m ∈ members, LegalKey m.1)
    (hdistinct : (members.map Prod.fst).Nodup)
    (hunmarked : ∀ m ∈ members, Unmarked (parameterText lib m.2))
    (hstrings : ∀ m ∈ members, ∀ s, m.2 = .string s →
      text.parse s = none) :
    ∃ rendered, renderToolCall lib call allowEmptyArguments = .ok rendered
      ∧ (IsCall text call.name (unordered text (.object members))
          (parseQwenFormat text.api (newToolCallId draws) maximum rendered)
        ↔ (∀ m ∈ members, ∀ s, m.2 = .string s → trimAscii s = s)
          ∧ ∀ m ∈ members, ¬ ascii "</function" <:+ m.1
            ∧ ¬ ascii "</tool_call" <:+ m.1) := by
  refine ⟨_, renderToolCall_eq harguments, ?_⟩
  have hdumped : ∀ m ∈ members, Dumped text m.2 := by
    unfold argumentsOf at harguments
    split at harguments
    · obtain rfl := OrderedJson.object.inj (Except.ok.inj harguments)
      exact forall_mem_nil _
    · have hargs := hone.dumped _ _ harguments
      cases hargs with
      | object _ h => exact h
  by_cases hapart : ∀ m ∈ members, ¬ ascii "</function" <:+ m.1
      ∧ ¬ ascii "</tool_call" <:+ m.1
  · have hparsed := parseQwenFormat_rendered text.api
      (newToolCallId draws) hname hkeys hdistinct hunmarked hapart
    have hcanonical : (Json.ofMembers (members.map fun m =>
        (m.1, readValue text.api lib m))).Canonical := by
      refine Json.ofMembers_canonical fun m hm => ?_
      obtain ⟨m', -, rfl⟩ := mem_map.mp hm
      dsimp only [readValue, parameterValue]
      cases hparse : text.api.parse (trimAscii (parameterText lib m'.2)) with
      | none => exact .string _
      | some v => exact hlawful.parse_canonical _ v hparse
    have hback := hlawful.parse_dump _ hcanonical
    have hvalues : (∀ m ∈ members, readValue text.api lib m = unordered text m.2)
        ↔ ∀ m ∈ members, ∀ s, m.2 = .string s → trimAscii s = s := by
      refine forall₂_congr fun m hm => ?_
      by_cases hstring : ∃ s, m.2 = .string s
      · obtain ⟨s, hs⟩ := hstring
        rw [readValue_string hs (hstrings m hm s hs) hone.quoted]
        constructor
        · intro h s' hs'
          obtain rfl := OrderedJson.string.inj (hs.symm.trans hs')
          exact h
        · exact fun h => h s hs
      · have hother : ∀ s, m.2 ≠ .string s :=
          fun s hs => hstring ⟨s, hs⟩
        exact iff_of_true
          (readValue_other hone hlawful hother (hdumped m hm))
          fun s hs => absurd hs (hother s)
    show IsCall text call.name _ (parseQwenFormat text.api
      (newToolCallId draws) maximum (callText lib call.name members)) ↔ _
    rw [hparsed, ← hvalues]
    constructor
    · rintro ⟨id, argumentsJson, hout, hparse⟩
      obtain ⟨rfl, -, rfl⟩ := ToolCall.mk.inj (cons.inj
        (ParsedToolCallOutput.mk.inj hout).2.2).1
      refine ⟨?_, hapart⟩
      have hsame := Option.some.inj (hback.symm.trans hparse)
      rw [unordered, unorderedMembers_eq] at hsame
      exact ofMembers_inj hdistinct hsame
    · rintro ⟨hsame, -⟩
      refine ⟨_, _, rfl, ?_⟩
      have hmap : (members.map fun m => (m.1, readValue text.api lib m))
          = members.map fun m => (m.1, unordered text m.2) :=
        map_congr_left fun m hm => by rw [hsame m hm]
      rw [unordered, unorderedMembers_eq, ← hmap]
      exact hback
  · refine iff_of_false ?_ fun h => hapart h.2
    have hbroken := parseQwenFormat_broken text.api
      (newToolCallId draws) hname hkeys hunmarked hapart
    show ¬ IsCall text call.name _ (parseQwenFormat text.api
      (newToolCallId draws) maximum (callText lib call.name members))
    rw [hbroken]
    rintro ⟨id, argumentsJson, hout, -⟩
    exact absurd (ParsedToolCallOutput.mk.inj hout).1 Bool.false_ne_true

end

-- ============ two calls

/-- The library of the parser, with one text for the template. -/
def libraryOf (t : Bytes) (v : OrderedJson) : JsonLibrary where
  parse := fun t' =>
    if t' = t then .ok v else .error (.invalidArgument "not the text")
  dumpString := Json.quoted

theorem libraryOf_parse (t : Bytes) (v : OrderedJson) :
    (libraryOf t v).parse t = .ok v := if_pos rfl

theorem trimAscii_word {t : Bytes} (h : ∀ b ∈ t, Json.isWord b = true) :
    trimAscii t = t := by
  have hspace : ∀ b ∈ t, isSpace b = false := by
    intro b hb
    have hword := h b hb
    by_contra hspace
    simp only [isSpace, Json.isWord, Bool.not_eq_false, Bool.or_eq_true,
      Bool.and_eq_true, beq_iff_eq, decide_eq_true_eq, ← UInt8.toNat_inj,
      UInt8.le_iff_toNat_le, UInt8.reduceToNat] at hspace hword
    omega
  have hself : ∀ {s : Bytes}, (∀ b ∈ s, isSpace b = false) →
      s.dropWhile isSpace = s := by
    intro s hs
    cases s with
    | nil => rfl
    | cons b s => exact dropWhile_cons_of_neg (by simp [hs b (.head _)])
  unfold trimAscii skipWs rtrimAscii
  rw [hself hspace, hself fun b hb => hspace b (mem_reverse.mp hb),
    reverse_reverse]

theorem libraryOf_one {t : Bytes} {v : OrderedJson}
    (h : Dumped jsonText v) : OneLibrary (libraryOf t v) jsonText where
  dumpString := fun _ => rfl
  dumped := fun t' w hw => by
    dsimp only [libraryOf] at hw
    split at hw
    · cases hw
      exact h
    · cases hw
  tight := fun v hatom hstring =>
    trimAscii_word (Json.wordValue_dump hatom hstring).1
  parse_text := fun _ _ h => Json.parse_text h
  quoted := fun _ _ h => (Json.parse_sound h).2 _ rfl

/-- Arguments with an object in an object, and a list in that. -/
def nestedArguments : List (Bytes × OrderedJson) :=
  [(ascii "o", .object
      [(ascii "b", .array [.scalar (ascii "-1"), .string (ascii "x y"),
        .scalar (ascii "null")]),
      (ascii "a", .object [])]),
    (ascii "s", .string (ascii "x y"))]

/-- Their text. -/
def nestedText : Bytes :=
  ascii ("\x7b\"o\":\x7b\"b\":[-1,\"x y\",null],\"a\":\x7b\x7d\x7d," ++
    "\"s\":\"x y\"\x7d")

theorem nestedArguments_dumped :
    Dumped jsonText (.object nestedArguments) := by
  have hnumber : Dumped jsonText (.scalar (ascii "-1")) :=
    (show ascii "-1" = jsonText.dump (.integer (-1)) by decide) ▸
      .scalar (.integer (-1)) rfl rfl
  have hnull : Dumped jsonText (.scalar (ascii "null")) :=
    (show ascii "null" = jsonText.dump .null by decide) ▸ .scalar .null rfl rfl
  have hlist : Dumped jsonText (.array [.scalar (ascii "-1"),
      .string (ascii "x y"), .scalar (ascii "null")]) :=
    .array _ (forall_mem_cons.mpr ⟨hnumber, forall_mem_cons.mpr
      ⟨.string _, forall_mem_singleton.mpr hnull⟩⟩)
  have hobject : Dumped jsonText (.object [(ascii "b", .array
      [.scalar (ascii "-1"), .string (ascii "x y"), .scalar (ascii "null")]),
      (ascii "a", .object [])]) :=
    .object _ (forall_mem_cons.mpr ⟨hlist, forall_mem_singleton.mpr
      (.object _ (forall_mem_nil _))⟩)
  exact .object _ (forall_mem_cons.mpr ⟨hobject,
    forall_mem_singleton.mpr (.string _)⟩)

/-- The same, as the parser keeps them. -/
def nestedCall : Json :=
  .object [(ascii "o", .object
      [(ascii "a", .object []),
        (ascii "b", .array [.integer (-1), .string (ascii "x y"), .null])]),
    (ascii "s", .string (ascii "x y"))]

theorem unordered_nested :
    unordered jsonText (.object nestedArguments) = nestedCall := by
  rfl

/-- Nested arguments, and a string with white space inside, come back. -/
theorem tool_call_round_trip_nested :
    let lib := libraryOf nestedText (.object nestedArguments)
    ∃ rendered, renderToolCall lib ⟨ascii "f", nestedText⟩ false = .ok rendered
      ∧ IsCall jsonText (ascii "f") nestedCall
        (parseQwenFormat jsonText.api (newToolCallId fun _ => 0) 64
          rendered) := by
  intro lib
  have hlegal : ∀ m ∈ nestedArguments, LegalKey m.1 :=
    forall_mem_cons.mpr ⟨⟨by decide, by decide⟩,
      forall_mem_singleton.mpr ⟨by decide, by decide⟩⟩
  have hunmarked : ∀ m ∈ nestedArguments, ∀ stem ∈ closingStems,
      ¬ closingOf stem <:+: parameterText lib m.2 := by
    decide +kernel
  have hstring : ∀ m ∈ nestedArguments, ∀ s, m.2 = .string s →
      s = ascii "x y" := by
    refine forall_mem_cons.mpr ⟨nofun, forall_mem_singleton.mpr ?_⟩
    exact fun s hs => (OrderedJson.string.inj hs).symm
  obtain ⟨rendered, hrendered, hiff⟩ := tool_call_round_trip_iff lib jsonText
    (fun _ => 0) 64 ⟨ascii "f", nestedText⟩ false nestedArguments
    jsonText_lawful (libraryOf_one nestedArguments_dumped)
    (libraryOf_parse _ _) (by decide) hlegal (by decide) hunmarked
    (fun m hm s hs => hstring m hm s hs ▸ rfl)
  refine ⟨rendered, hrendered, unordered_nested ▸ hiff.mpr ⟨?_, by decide⟩⟩
  exact fun m hm s hs => hstring m hm s hs ▸ by decide

/-- A string with a space at its end comes back without it. -/
theorem tool_call_round_trip_trailing :
    let argumentsJson := ascii "\x7b\"a\":\"x \"\x7d"
    let lib := libraryOf argumentsJson
      (.object [(ascii "a", .string (ascii "x "))])
    ∃ rendered, renderToolCall lib ⟨ascii "f", argumentsJson⟩ false
        = .ok rendered
      ∧ IsCall jsonText (ascii "f") (.object [(ascii "a", .string (ascii "x"))])
        (parseQwenFormat jsonText.api (newToolCallId fun _ => 0) 64 rendered)
      ∧ ¬ IsCall jsonText (ascii "f")
          (.object [(ascii "a", .string (ascii "x "))])
        (parseQwenFormat jsonText.api (newToolCallId fun _ => 0) 64
          rendered) := by
  intro argumentsJson lib
  have hparsed : parseQwenFormat jsonText.api (newToolCallId fun _ => 0) 64
      (callText lib (ascii "f") [(ascii "a", .string (ascii "x "))])
        = ⟨true, [], [⟨newToolCallId (fun _ => 0) 0, ascii "f",
          jsonText.dump (.object [(ascii "a", .string (ascii "x"))])⟩]⟩ := by
    decide +kernel
  have hread : jsonText.parse (jsonText.dump
        (.object [(ascii "a", .string (ascii "x"))]))
      = some (.object [(ascii "a", .string (ascii "x"))]) := by
    refine jsonText_lawful.parse_dump _ (.object _ (pairwise_singleton _ _) ?_)
    exact forall_mem_singleton.mpr (.string _)
  refine ⟨_, renderToolCall_eq (libraryOf_parse _ _), ⟨_, _, hparsed, hread⟩, ?_⟩
  rintro ⟨id, argumentsJson, hout, hparse⟩
  obtain ⟨-, -, rfl⟩ := ToolCall.mk.inj (cons.inj
    (ParsedToolCallOutput.mk.inj (hparsed.symm.trans hout)).2.2).1
  have hsame := Json.object.inj (Option.some.inj (hread.symm.trans hparse))
  have hstring := Json.string.inj (Prod.mk.inj (cons.inj hsame).1).2
  exact absurd hstring (by decide)

end Ginfer.Serve
