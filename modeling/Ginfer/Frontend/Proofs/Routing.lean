/-
What the decoder has searched and published, against the decoded text.

The decoder routes the decoded text to two channels and searches each for
its stop strings, a piece at a time. This file says what that comes to
for the whole text decoded so far:

- `searchedText` — the part of the text each channel was fed: reasoning
  up to the first `</think>` (less an end that may begin one), content
  after it, less its leading whitespace;
- `Routed` — the invariant: what a channel published, followed by what it
  holds back, is its searched text;
- `Guarded` — no stop string occurs in a searched text, and every end
  that begins one is held back.

`feedDecodedText_spec` is the one step: routing is kept whatever the
search finds, and the search finds the stop string that a search of the
whole text would (`Cut`), or nothing, and then the guard is kept.
-/
import Ginfer.Frontend.Proofs.Lockstep
import Ginfer.Frontend.Proofs.Search

namespace Ginfer.Frontend

open Ginfer.Lib List

-- ============ the texts

/-- The length of the end of a text that may begin `</think>`. -/
def markerHold (text : Bytes) : Nat :=
  longestSuffixPrefix text thinkClose true

/-- The text each channel was fed when `text` had been decoded. -/
def searchedText (starts : Bool) (text : Bytes) : OutputChannel → Bytes
  | .content =>
    if starts then
      match find text thinkClose with
      | some i => (text.drop (i + thinkClose.length)).dropWhile isSpace
      | none => []
    else text
  | .reasoning =>
    if starts then
      match find text thinkClose with
      | some i => text.take i
      | none => text.take (text.length - markerHold text)
    else []

/-- No stop string of the channel occurs in the text. -/
def Clear (policy : StopPolicy) (channel : OutputChannel) (text : Bytes) :
    Prop :=
  ∀ p, StopOn policy channel p → ∀ i, ¬ OccursAt p text i

/-- Stop `stop`, declared at `decl`, is the one that wins in `text`: of
the stop strings of the channel that occur, it has the first occurrence,
at `start`, and is the first declared of those. -/
structure BestOf (channel : OutputChannel) (text : Bytes)
    (strings : List StopString) (start decl : Nat) (stop : StopString) :
    Prop where
  declared : strings[decl]? = some stop
  on : stop.channel = channel
  found : find text stop.text = some start
  least : ∀ d other s, strings[d]? = some other →
    other.channel = channel → find text other.text = some s →
    start < s ∨ (start = s ∧ decl ≤ d)

/-- What a stop string leaves of its channel, from the cut on. -/
def kept (stop : StopString) : Bytes :=
  if stop.includeInOutput then stop.text else []

/-- What is published when the searched texts are cut at a stop string:
a stop in the reasoning goes before any in the content. -/
structure Cut (policy : StopPolicy) (searched published : OutputChannel →
    Bytes) (channel : OutputChannel) (start decl : Nat)
    (stop : StopString) : Prop where
  best : BestOf channel (searched channel) policy.strings start decl stop
  here : published channel = (searched channel).take start ++ kept stop
  before : channel = .content →
    Clear policy .reasoning (searched .reasoning)
      ∧ published .reasoning = searched .reasoning
  after : channel = .reasoning → published .content = []

-- ============ the search

section

variable {r : Bool} {emitted : PublishedOutput} {combined : Bytes}
  {cstart count : Nat}

/-- The best match after the stop strings `pre` were tried. -/
def Leads (channel : OutputChannel) (combined : Bytes)
    (cstart count : Nat) (emitted : PublishedOutput)
    (pre : List StopString) (m : StopMatch) : Prop :=
  (m.found = false ∧ ∀ stop ∈ pre, stop.channel = channel →
      find combined stop.text = none)
    ∨ ∃ start decl stop, BestOf channel combined pre start decl stop
        ∧ m.found = true ∧ m.committedTokens = count
        ∧ m.byteCut = cstart + start ∧ m.declarationOrder = decl
        ∧ ∀ ch, textOn ch m.output = textOn ch emitted
            ++ if ch = channel then combined.take start ++ kept stop
              else []

/-- A candidate is the output so far with the text before the stop, and
the stop itself when it is kept. -/
theorem stopCandidate_staged (h : Staged r emitted) (before : Bytes)
    (stop : StopString) :
    ∃ out, stopCandidate emitted (channelOf r) before stop = .ok out
      ∧ ∀ ch, textOn ch out = textOn ch emitted
        ++ if ch = channelOf r then before ++ kept stop else [] := by
  obtain ⟨e₁, h₁, hs₁, ht₁⟩ := appendDelta_staged h before
  unfold stopCandidate
  rw [h₁]
  dsimp only
  split
  · next hkept =>
    obtain ⟨e₂, h₂, -, ht₂⟩ := appendDelta_staged hs₁ stop.text
    refine ⟨e₂, h₂, ?_⟩
    intro ch
    rw [ht₂ ch, ht₁ ch, kept, if_pos hkept]
    split
    · rw [append_assoc]
    · simp
  · next hdropped =>
    refine ⟨e₁, rfl, ?_⟩
    intro ch
    rw [ht₁ ch, kept, if_neg hdropped, append_nil]

variable {channel : OutputChannel}

theorem BestOf.append_other
    {pre : List StopString} {start decl : Nat} {stop other : StopString}
    (h : BestOf channel combined pre start decl stop)
    (hother : other.channel = channel → ∀ s,
      find combined other.text = some s → start ≤ s) :
    BestOf channel combined (pre ++ [other]) start decl stop where
  declared := by
    have hlt := (List.getElem?_eq_some_iff.mp h.declared).1
    rw [getElem?_append_left hlt]
    exact h.declared
  on := h.on
  found := h.found
  least := by
    intro d o s ho hon hs
    have hlt := (List.getElem?_eq_some_iff.mp h.declared).1
    by_cases hd : d < pre.length
    · rw [getElem?_append_left hd] at ho
      exact h.least d o s ho hon hs
    · rw [getElem?_append_right (by omega)] at ho
      have hmem := mem_of_getElem? ho
      rw [mem_singleton] at hmem
      subst hmem
      have hle := hother hon s hs
      omega

theorem bestOf_last {pre : List StopString}
    {start : Nat} {stop : StopString} (hon : stop.channel = channel)
    (hfound : find combined stop.text = some start)
    (hleast : ∀ (d : Nat) (other : StopString) (s : Nat), pre[d]? = some other →
      other.channel = channel → find combined other.text = some s →
      start < s) :
    BestOf channel combined (pre ++ [stop]) start pre.length stop where
  declared := by
    rw [getElem?_append_right (le_refl _), Nat.sub_self]
    rfl
  on := hon
  found := hfound
  least := by
    intro d o s ho hon' hs
    by_cases hd : d < pre.length
    · rw [getElem?_append_left hd] at ho
      exact .inl (hleast d o s ho hon' hs)
    · rw [getElem?_append_right (by omega)] at ho
      have hmem := mem_of_getElem? ho
      rw [mem_singleton] at hmem
      subst hmem
      rw [hfound] at hs
      cases hs
      exact .inr ⟨rfl, by omega⟩

/-- The search over the stop strings after `pre`. -/
theorem searchStops_leads (h : Staged r emitted) :
    ∀ (rest pre : List StopString) (m : StopMatch),
      Leads (channelOf r) combined cstart count emitted pre m →
      ∃ m', searchStops (channelOf r) combined cstart count emitted
        pre.length rest m = .ok m'
        ∧ Leads (channelOf r) combined cstart count emitted (pre ++ rest)
        m' := by
  intro rest
  induction rest with
  | nil =>
    intro pre m hm
    refine ⟨m, rfl, ?_⟩
    rw [append_nil]
    exact hm
  | cons stop rest ih =>
    intro pre m hm
    -- The loop goes on with the match after this stop.
    have hgo : ∀ m', Leads (channelOf r) combined cstart count emitted
        (pre ++ [stop]) m' →
        ∃ m'', searchStops (channelOf r) combined cstart count emitted
            (pre.length + 1) rest m' = .ok m''
          ∧ Leads (channelOf r) combined cstart count emitted
              (pre ++ stop :: rest) m'' := by
      intro m' hm'
      have hnext := ih (pre ++ [stop]) m' hm'
      rw [length_append, length_singleton, append_assoc] at hnext
      exact hnext
    unfold searchStops
    split
    · next hoff =>
      refine hgo m ?_
      rcases hm with ⟨hnone, hpre⟩ | ⟨start, decl, best, hbest, hrest⟩
      · refine .inl ⟨hnone, ?_⟩
        intro s hs hon
        rcases mem_append.mp hs with hs | hs
        · exact hpre s hs hon
        · rw [mem_singleton.mp hs] at hon
          exact absurd hon hoff
      · exact .inr ⟨start, decl, best,
          hbest.append_other fun hon => absurd hon hoff, hrest⟩
    next hon =>
    rw [not_not] at hon
    split
    · next hfind =>
      refine hgo m ?_
      rcases hm with ⟨hnone, hpre⟩ | ⟨start, decl, best, hbest, hrest⟩
      · refine .inl ⟨hnone, ?_⟩
        intro s hs hon'
        rcases mem_append.mp hs with hs | hs
        · exact hpre s hs hon'
        · rw [mem_singleton.mp hs]
          exact hfind
      · refine .inr ⟨start, decl, best, hbest.append_other ?_, hrest⟩
        intro _ s hs
        rw [hfind] at hs
        cases hs
    next found hfind =>
    split
    · next hlate =>
      -- The match so far starts no later.
      rcases hm with ⟨hnone, -⟩ | ⟨start, decl, best, hbest, hm⟩
      · simp [stopMatchPrecedes, hnone] at hlate
      · refine hgo m (.inr ⟨start, decl, best, hbest.append_other ?_, hm⟩)
        intro _ s hs
        rw [hfind] at hs
        cases hs
        obtain ⟨hfound, hcount, hcut, horder, -⟩ := hm
        simp only [stopMatchPrecedes, hfound, hcount, hcut,
          Bool.not_true, Bool.false_eq_true, if_false, ne_eq,
          not_true_eq_false] at hlate
        by_cases heq : found = start
        · omega
        · rw [if_pos (by omega)] at hlate
          simp only [Bool.not_eq_eq_eq_not, Bool.not_true,
            decide_eq_false_iff_not] at hlate
          omega
    · next hfirst =>
      obtain ⟨out, hout, htexts⟩ := stopCandidate_staged h
        (combined.take found) stop
      rw [hout]
      refine hgo _ (.inr ⟨found, pre.length, stop, ?_, rfl, rfl, rfl,
        rfl, htexts⟩)
      refine bestOf_last hon hfind ?_
      intro d other s hd hother hs
      rcases hm with ⟨-, hpre⟩ | ⟨start, decl, best, hbest, hm⟩
      · have hnone := hpre other (mem_of_getElem? hd) hother
        rw [hs] at hnone
        cases hnone
      · obtain ⟨hfound, hcount, hcut, horder, -⟩ := hm
        have hleast := hbest.least d other s hd hother hs
        have hlt := (List.getElem?_eq_some_iff.mp hbest.declared).1
        simp only [stopMatchPrecedes, hfound, hcount, hcut, horder,
          Bool.not_true, Bool.false_eq_true, if_false, ne_eq,
          not_true_eq_false] at hfirst
        by_cases heq : found = start
        · subst heq
          simp only [not_true_eq_false, if_false,
            Bool.not_eq_true', decide_eq_false_iff_not, not_not]
            at hfirst
          omega
        · rw [if_pos (by omega)] at hfirst
          simp only [Bool.not_eq_true', decide_eq_false_iff_not,
            not_not] at hfirst
          omega

variable {m : StopMatch}

/-- A match found before the searched text began stays the best. -/
theorem searchStops_kept (channel : OutputChannel)
    (hfound : m.found = true) (hcount : m.committedTokens = count)
    (hcut : m.byteCut < cstart) :
    ∀ (rest : List StopString) (decl : Nat),
      searchStops channel combined cstart count emitted decl rest m
        = .ok m := by
  intro rest
  induction rest with
  | nil => intro decl; rfl
  | cons stop rest ih =>
    intro decl
    unfold searchStops
    split
    · exact ih _
    split
    · exact ih _
    · next s _ =>
      have hlate : stopMatchPrecedes count (cstart + s) decl m = false := by
        simp only [stopMatchPrecedes, hfound, hcount, Bool.not_true,
          Bool.false_eq_true, if_false, ne_eq, not_true_eq_false]
        rw [if_pos (by omega)]
        exact decide_eq_false (by omega)
      rw [hlate]
      exact ih _

end

-- ============ the channel

/-- What a piece fed to the mode's channel does to a feed, whatever the
search finds in it. -/
structure ChannelFed (r : Bool) (t : Bytes) (f f' : Feed) : Prop where
  staged : Staged r f'.emitted
  state : f'.state = { f.state with
    stopPending := f'.state.stopPending
    decodedBytes := f.state.decodedBytes + t.length }
  fed : textOn (channelOf r) f'.emitted ++ f'.state.stopPending (channelOf r)
    = textOn (channelOf r) f.emitted ++ f.state.stopPending (channelOf r) ++ t
  text_other : ∀ ch, ch ≠ channelOf r → textOn ch f'.emitted = textOn ch f.emitted
  pending_other : ∀ ch, ch ≠ channelOf r →
    f'.state.stopPending ch = f.state.stopPending ch

variable {f : Feed}

theorem ChannelFed.nil {r : Bool} (h : Staged r f.emitted) :
    ChannelFed r [] f f where
  staged := h
  state := rfl
  fed := by rw [append_nil]
  text_other := fun _ _ => rfl
  pending_other := fun _ _ => rfl

/-- What the search of a fed piece does to the best match: nothing to a
match that was found before the searched text began, the search of
`searchStops_leads` to one that was not found. -/
structure Searches (policy : StopPolicy) (r : Bool) (count : Nat)
    (t : Bytes) (f f' : Feed) : Prop where
  null : f.best = none → f'.best = none
  kept : ∀ m, f.best = some m → m.found = true → m.committedTokens = count →
    m.byteCut < f.state.decodedBytes
      - (f.state.stopPending (channelOf r)).length →
    f'.best = some m
  leads : t ≠ [] → ∀ m, f.best = some m → m.found = false →
    ∃ m', f'.best = some m'
      ∧ Leads (channelOf r) (f.state.stopPending (channelOf r) ++ t)
          (f.state.decodedBytes - (f.state.stopPending (channelOf r)).length)
          count f.emitted policy.strings m'

variable {emitted : PublishedOutput}

theorem searchBest_ok (policy : StopPolicy) {r : Bool}
    (h : Staged r emitted) (combined : Bytes)
    (cstart count : Nat) (o : Option StopMatch)
    (ho : ∀ m, o = some m → m.found = false ∨ m.committedTokens = count
      ∧ m.byteCut < cstart) :
    ∃ o', searchBest policy (channelOf r) combined cstart count emitted o = .ok o'
      ∧ (o = none → o' = none)
      ∧ (∀ m, o = some m → m.found = true → o' = some m)
      ∧ ∀ m, o = some m → m.found = false → ∃ m', o' = some m'
        ∧ Leads (channelOf r) combined cstart count emitted
            policy.strings m' := by
  cases o with
  | none =>
    exact ⟨none, rfl, fun _ => rfl, nofun, nofun⟩
  | some m =>
    cases hfound : m.found with
    | true =>
      rcases ho m rfl with hno | ⟨hcount, hcut⟩
      · rw [hfound] at hno
        cases hno
      · have hkept : searchStops (channelOf r) combined cstart count
            emitted 0 policy.strings m = .ok m :=
          searchStops_kept (channelOf r) hfound hcount hcut _ _
        refine ⟨some m, ?_, nofun, fun m' h _ => h ▸ rfl, ?_⟩
        · simp [searchBest, hkept, Except.map]
        · intro m' hm' hno
          cases hm'
          rw [hfound] at hno
          cases hno
    | false =>
      have hnone : Leads (channelOf r) combined cstart count emitted [] m :=
        .inl ⟨hfound, by simp⟩
      obtain ⟨m', hm', hleads⟩ :=
        searchStops_leads h policy.strings [] m hnone
      rw [length_nil] at hm'
      refine ⟨some m', ?_, nofun, ?_, ?_⟩
      · simp [searchBest, hm', Except.map]
      · intro m₁ hm₁ hyes
        cases hm₁
        rw [hfound] at hyes
        cases hyes
      · intro m₁ hm₁ _
        exact ⟨m', rfl, hleads⟩

/-- The best match of a feed is not found yet, or lies before what the
mode's channel holds back. -/
def BestBefore (r : Bool) (count : Nat) (f : Feed) : Prop :=
  ∀ m, f.best = some m → m.found = false ∨ m.committedTokens = count
    ∧ m.byteCut < f.state.decodedBytes
      - (f.state.stopPending (channelOf r)).length

/-- `feed_channel` on the mode's channel. -/
theorem feedChannel_spec (policy : StopPolicy) (count : Nat) (t : Bytes)
    {r : Bool} (hst : Staged r f.emitted) (hbest : BestBefore r count f) :
    ∃ f', feedChannel policy count (channelOf r) t f = .ok f'
      ∧ ChannelFed r t f f' ∧ Searches policy r count t f f'
      ∧ ∀ base : Bytes,
        HeldBack (StopOn policy (channelOf r))
          (base ++ textOn (channelOf r) f.emitted)
          (f.state.stopPending (channelOf r)) →
        Clear policy (channelOf r) (f.state.stopPending (channelOf r) ++ t) →
        HeldBack (StopOn policy (channelOf r))
          (base ++ textOn (channelOf r) f'.emitted)
          (f'.state.stopPending (channelOf r)) := by
  unfold feedChannel
  split
  · next hempty =>
    obtain rfl : t = [] := isEmpty_iff.mp hempty
    exact ⟨f, rfl, .nil hst, ⟨id, fun m hm _ _ _ => hm, fun h => absurd rfl h⟩,
      fun _ h _ => h⟩
  next hne =>
  dsimp only
  obtain ⟨best', hsearch, hnull, hkept, hleads⟩ := searchBest_ok policy hst
    (f.state.stopPending (channelOf r) ++ t)
    (f.state.decodedBytes - (f.state.stopPending (channelOf r)).length)
    count f.best hbest
  rw [hsearch]
  dsimp only
  obtain ⟨e', happend, hst', htexts⟩ := appendDelta_staged hst
    ((f.state.stopPending (channelOf r) ++ t).take
      ((f.state.stopPending (channelOf r) ++ t).length
        - stopHoldSize (f.state.stopPending (channelOf r) ++ t)
            (channelOf r) policy))
  rw [happend]
  refine ⟨_, rfl, ⟨hst', rfl, ?_, ?_, ?_⟩,
    ⟨hnull, fun m hm hyes _ _ => hkept m hm hyes, fun _ => hleads⟩, ?_⟩
  · dsimp only
    rw [htexts, if_pos rfl, Function.update_self, append_assoc,
      take_append_drop, append_assoc]
  · intro ch hch
    dsimp only
    rw [htexts, if_neg hch, append_nil]
  · intro ch hch
    exact Function.update_of_ne hch _ _
  · intro base hheld hclear
    dsimp only
    rw [htexts, if_pos rfl, Function.update_self, ← append_assoc]
    exact heldBack_feed hheld hclear

/-- `close_channel` on the mode's channel. -/
theorem closeChannel_spec {r : Bool} (hst : Staged r f.emitted) :
    ∃ f', closeChannel (channelOf r) f = .ok f' ∧ Staged r f'.emitted
      ∧ f'.state = { f.state with
        stopPending := Function.update f.state.stopPending (channelOf r) [] }
      ∧ f'.best = f.best
      ∧ (∀ ch, textOn ch f'.emitted = textOn ch f.emitted
          ++ if ch = channelOf r then f.state.stopPending (channelOf r)
            else []) := by
  obtain ⟨e', happend, hst', htexts⟩ := appendDelta_staged hst
    (f.state.stopPending (channelOf r))
  unfold closeChannel
  rw [happend]
  exact ⟨_, rfl, hst', rfl, rfl, htexts⟩

-- ============ what a search settles

/-- A match on a channel: the winner of the whole searched text, and the
output it publishes on that channel; on the other, what was there. -/
def Hit (policy : StopPolicy) (channel : OutputChannel)
    (searched : Bytes) (base before : OutputChannel → Bytes)
    (m : StopMatch) : Prop :=
  m.found = true ∧ ∃ start decl stop,
    BestOf channel searched policy.strings start decl stop
      ∧ ∀ ch, base ch ++ textOn ch m.output
          = if ch = channel then searched.take start ++ kept stop
            else before ch

variable {base : OutputChannel → Bytes}

/-- The search of the held part with a piece behind it is the search of
the whole text: it finds the winner there, or none occurs. -/
theorem Leads.settle {policy : StopPolicy} {pending piece : Bytes}
    {cstart count : Nat}
    (hheld : HeldBack (StopOn policy channel)
      (base channel ++ textOn channel emitted) pending)
    (h : Leads channel (pending ++ piece) cstart count emitted policy.strings m) :
    (m.found = false ∧ Clear policy channel (pending ++ piece))
      ∨ (Hit policy channel
        (base channel ++ textOn channel emitted ++ (pending ++ piece))
        base (fun ch => base ch ++ textOn ch emitted) m
        ∧ m.committedTokens = count
        ∧ m.byteCut < cstart + (pending ++ piece).length) := by
  rcases h with ⟨hnone, hall⟩ | ⟨start, decl, stop, hbest, hfound, hcount,
    hcut, -, htexts⟩
  · refine .inl ⟨hnone, ?_⟩
    rintro p ⟨stop, hmem, hon, rfl⟩
    exact (find_eq_none (hheld.ne_nil ⟨stop, hmem, hon, rfl⟩)).mp
      (hall stop hmem hon)
  · have hshift : ∀ other ∈ policy.strings, other.channel = channel →
        find (base channel ++ textOn channel emitted
            ++ (pending ++ piece)) other.text
          = (find (pending ++ piece) other.text).map
              ((base channel ++ textOn channel emitted).length + ·) :=
      fun other hmem hon => find_heldBack hheld ⟨other, hmem, hon, rfl⟩ _
    have hstop : stop ∈ policy.strings :=
      mem_of_getElem? hbest.declared
    refine .inr ⟨⟨hfound,
      (base channel ++ textOn channel emitted).length + start, decl, stop,
      ⟨hbest.declared, hbest.on, ?_, ?_⟩, ?_⟩, hcount, ?_⟩
    · rw [hshift stop hstop hbest.on, hbest.found]
      rfl
    · intro d other s hd hon hs
      rw [hshift other (mem_of_getElem? hd) hon, Option.map_eq_some_iff] at hs
      obtain ⟨s', hs', rfl⟩ := hs
      have hleast := hbest.least d other s' hd hon hs'
      omega
    · intro ch
      rw [htexts ch]
      split
      · next heq =>
        subst heq
        rw [take_length_add_append]
        simp only [append_assoc]
      · rw [append_nil]
    · have hlen := (find_eq_some hbest.found).1.length_le
        (hheld.ne_nil ⟨stop, hstop, hbest.on, rfl⟩)
      have hpos := length_pos_iff.mpr
        (hheld.ne_nil ⟨stop, hstop, hbest.on, rfl⟩)
      omega

-- ============ the invariant

/-- What each channel has published and holds back is its searched text. -/
structure Routed (starts : Bool) (text : Bytes) (st : DecoderState)
    (published : OutputChannel → Bytes) : Prop where
  mode : st.inReasoning = (starts && (find text thinkClose).isNone)
  marker : st.thinkMarkerPending
    = if st.inReasoning then text.drop (text.length - markerHold text)
      else []
  strip : st.inReasoning = false → st.stripContentLeading
    = (starts && (searchedText starts text .content).isEmpty)
  fed : ∀ c, published c ++ st.stopPending c = searchedText starts text c
  closed : st.inReasoning = false → st.stopPending .reasoning = []
  bytes : st.decodedBytes = (searchedText starts text .reasoning).length
    + (searchedText starts text .content).length

/-- No stop string occurs in a searched text, and what may begin one on a
channel that is still fed is held back. -/
structure Guarded (policy : StopPolicy) (st : DecoderState)
    (published : OutputChannel → Bytes) : Prop where
  content : HeldBack (StopOn policy .content) (published .content)
    (st.stopPending .content)
  reasoning : st.inReasoning = true →
    HeldBack (StopOn policy .reasoning) (published .reasoning)
      (st.stopPending .reasoning)
  clear : Clear policy .reasoning
    (published .reasoning ++ st.stopPending .reasoning)

/-- What was published before the round, with the round's output. -/
def total (base : OutputChannel → Bytes) (f : Feed) (c : OutputChannel) :
    Bytes :=
  base c ++ textOn c f.emitted

/-- The fields of the decoder that feeding text leaves alone. -/
def SameFrame (st st' : DecoderState) : Prop :=
  st'.utf8Pending = st.utf8Pending ∧ st'.terminal = st.terminal

/-- What feeding a piece settles on the mode's channel, when its guard
holds and nothing was found before. -/
def ChannelSearch (policy : StopPolicy) (r : Bool) (t : Bytes)
    (base : OutputChannel → Bytes) (f f' : Feed) : Prop :=
  HeldBack (StopOn policy (channelOf r)) (total base f (channelOf r))
      (f.state.stopPending (channelOf r)) →
    ∀ m, f.best = some m → m.found = false →
      ∃ m', f'.best = some m'
        ∧ ((m'.found = false
            ∧ HeldBack (StopOn policy (channelOf r)) (total base f' (channelOf r))
                (f'.state.stopPending (channelOf r)))
          ∨ Hit policy (channelOf r) (total base f (channelOf r)
                ++ (f.state.stopPending (channelOf r) ++ t)) base
              (total base f) m')

/-- `feed_channel` on the mode's channel, with the search settled. -/
theorem feedChannel_settled (policy : StopPolicy) (count : Nat) (t : Bytes)
    {r : Bool} (base : OutputChannel → Bytes)
    (hst : Staged r f.emitted) (hbest : BestBefore r count f) :
    ∃ f', feedChannel policy count (channelOf r) t f = .ok f'
      ∧ ChannelFed r t f f' ∧ Searches policy r count t f f'
      ∧ ChannelSearch policy r t base f f' := by
  obtain ⟨f', hok, hfed, hsearch, hguard⟩ :=
    feedChannel_spec policy count t hst hbest
  refine ⟨f', hok, hfed, hsearch, ?_⟩
  intro hheld m hm hno
  cases ht : t with
  | nil =>
    -- Nothing was fed: the search is skipped, nothing has moved.
    subst ht
    have hskip : feedChannel policy count (channelOf r) [] f = .ok f := rfl
    rw [hskip] at hok
    cases hok
    exact ⟨m, hm, .inl ⟨hno, hheld⟩⟩
  | cons b rest =>
    rw [← ht]
    obtain ⟨m', hm', hleads⟩ := hsearch.leads (by rw [ht]; simp) m hm hno
    refine ⟨m', hm', ?_⟩
    rcases hleads.settle hheld with ⟨hnone, hclear⟩ | ⟨hhit, -, -⟩
    · exact .inl ⟨hnone, hguard _ hheld hclear⟩
    · exact .inr hhit

-- ============ the searches

theorem thinkClose_ne_nil : thinkClose ≠ [] := by decide

/-- The first occurrence is not moved by what follows. -/
theorem find_append {text pattern : Bytes} {i : Nat} (hne : pattern ≠ [])
    (h : find text pattern = some i) (more : Bytes) :
    find (text ++ more) pattern = some i := by
  obtain ⟨hocc, hfirst⟩ := find_eq_some h
  have hle := hocc.length_le hne
  refine find_of_occursAt hne (hocc.append hne more) ?_
  intro j hj hj'
  have htake := hj'.take (show j + pattern.length ≤ text.length by omega)
  rw [take_left' rfl] at htake
  exact hfirst j hj htake

variable {text : Bytes}

/-- The end that may begin the marker is not the whole marker. -/
theorem markerHold_lt (h : find text thinkClose = none) :
    markerHold text < thinkClose.length := by
  have hle : markerHold text ≤ thinkClose.length :=
    (suffixPrefixFrom_le _ _ _ _).trans (min_le_right _ _)
  refine Nat.lt_of_le_of_ne hle ?_
  intro heq
  have hends := longestSuffixPrefix_suffix text thinkClose true
  change thinkClose.take (markerHold text) <:+ text at hends
  rw [heq, take_length] at hends
  obtain ⟨i, hi⟩ := infix_iff_occursAt.mp hends.isInfix
  exact (find_eq_none thinkClose_ne_nil).mp h i hi

/-- The end that may begin the marker is held back. -/
theorem marker_heldBack (h : find text thinkClose = none) :
    HeldBack (· = thinkClose) (text.take (text.length - markerHold text))
      (text.drop (text.length - markerHold text)) where
  clear := by
    rintro p rfl i
    rw [take_append_drop]
    exact (find_eq_none thinkClose_ne_nil).mp h i
  held := by
    rintro p rfl n hn hsuffix
    rw [take_append_drop] at hsuffix
    have hhold : n ≤ markerHold text :=
      le_longestSuffixPrefix (by omega) nofun hsuffix
    have hle : markerHold text ≤ text.length := longestSuffixPrefix_le _ _ _
    rw [length_drop]
    omega
  begins := by
    intro _
    have hle : markerHold text ≤ text.length := longestSuffixPrefix_le _ _ _
    have hends : thinkClose.take (markerHold text) <:+ text :=
      longestSuffixPrefix_suffix text thinkClose true
    have hend := suffix_iff_eq_drop.mp hends
    have hproper := markerHold_lt h
    rw [length_take, Nat.min_eq_left (by omega)] at hend
    refine ⟨thinkClose, rfl, ?_, ?_⟩
    · rw [length_drop]
      omega
    · rw [← hend]
      exact take_prefix _ _

/-- The held end behaves like the whole text: the marker is found in it
at the same place, and the same end is held back again. -/
theorem marker_append (h : find text thinkClose = none) (t : Bytes) :
    find (text ++ t) thinkClose
        = (find (text.drop (text.length - markerHold text) ++ t)
        thinkClose).map (text.length - markerHold text + ·)
      ∧ (find (text ++ t) thinkClose = none → markerHold (text ++ t)
        = markerHold (text.drop (text.length - markerHold text) ++ t)) := by
  have hheld := marker_heldBack h
  have hsplit : text ++ t
      = text.take (text.length - markerHold text)
        ++ (text.drop (text.length - markerHold text) ++ t) := by
    rw [← append_assoc, take_append_drop]
  have hlength : (text.take (text.length - markerHold text)).length
      = text.length - markerHold text := by
    rw [length_take]
    omega
  have hfind := find_heldBack hheld rfl t
  rw [← hsplit, hlength] at hfind
  refine ⟨hfind, ?_⟩
  intro hnone
  have hnone' : find (text.drop (text.length - markerHold text) ++ t)
      thinkClose = none := by
    rw [hnone] at hfind
    exact Option.map_eq_none_iff.mp hfind.symm
  have hsuffix := longestSuffixPrefix_suffix
    (text.drop (text.length - markerHold text) ++ t) thinkClose true
  refine le_antisymm ?_ ?_
  · -- An end of the whole text that begins the marker is proper, and by
    -- the invariant no longer than what is held.
    have hends := longestSuffixPrefix_suffix (text ++ t) thinkClose true
    have hproper := markerHold_lt hnone
    have hnext := hheld.next t
      (markerHold (text.drop (text.length - markerHold text) ++ t))
      (by
        rintro p rfl
        exact (find_eq_none thinkClose_ne_nil).mp hnone')
      (by
        rintro p rfl n hn hs
        exact le_longestSuffixPrefix (by omega) nofun hs)
      (longestSuffixPrefix_le _ _ _)
      (fun _ => ⟨thinkClose, rfl, markerHold_lt hnone', hsuffix⟩)
    have hkept := hnext.held thinkClose rfl (markerHold (text ++ t)) hproper
      (by
        rw [append_assoc, take_append_drop, ← hsplit]
        exact hends)
    rw [length_drop] at hkept
    omega
  · refine le_longestSuffixPrefix ?_ nofun ?_
    · exact (suffixPrefixFrom_le _ _ _ _).trans (min_le_right _ _)
    · rw [hsplit]
      exact hsuffix.trans (suffix_append _ _)

-- ============ the content

variable {starts : Bool}

/-- In content mode the searched texts only grow by what the stripping
lets through. -/
theorem searchedText_append
    (hmode : (starts && (find text thinkClose).isNone) = false) (t : Bytes) :
    searchedText starts (text ++ t) .content = searchedText starts text .content
        ++ (if (starts && (searchedText starts text .content).isEmpty)
              = true then t.dropWhile isSpace else t)
      ∧ searchedText starts (text ++ t) .reasoning
        = searchedText starts text .reasoning
      ∧ (starts && (find (text ++ t) thinkClose).isNone) = false := by
  cases starts with
  | false => exact ⟨rfl, rfl, rfl⟩
  | true =>
    cases hfind : find text thinkClose with
    | none =>
      rw [hfind] at hmode
      cases hmode
    | some i =>
      have hfind' := find_append thinkClose_ne_nil hfind t
      have hle := (find_eq_some hfind).1.length_le thinkClose_ne_nil
      simp only [searchedText, hfind, hfind', if_true, Bool.true_and]
      refine ⟨?_, ?_, rfl⟩
      · rw [drop_append_of_le_length hle, dropWhile_append]
        cases (text.drop (i + thinkClose.length)).dropWhile isSpace with
        | nil => simp
        | cons b rest => simp
      · rw [take_append_of_le_length (by omega)]

/-- What the search of fed text does, when nothing was found before: it
finds the winner of the whole text, or nothing and the guard is kept. -/
def ContentSearch (policy : StopPolicy) (starts : Bool) (text : Bytes)
    (base : OutputChannel → Bytes) (f f' : Feed) : Prop :=
  HeldBack (StopOn policy .content) (total base f .content)
      (f.state.stopPending .content) →
    ∀ m, f.best = some m → m.found = false →
      ∃ m', f'.best = some m'
        ∧ ((m'.found = false
            ∧ HeldBack (StopOn policy .content) (total base f' .content)
                (f'.state.stopPending .content))
          ∨ Hit policy .content (searchedText starts text .content) base
              (total base f) m')

/-- `feed_content`. -/
theorem feedContent_spec (policy : StopPolicy) (count : Nat) (t : Bytes)
    (hmode : f.state.inReasoning = false)
    (hr : Routed starts text f.state (total base f))
    (hst : Staged false f.emitted) (hbest : BestBefore false count f) :
    ∃ f', feedContent policy count t f = .ok f'
      ∧ Routed starts (text ++ t) f'.state (total base f')
      ∧ f'.state.inReasoning = false ∧ Staged false f'.emitted
      ∧ SameFrame f.state f'.state
      ∧ (f.best = none → f'.best = none)
      ∧ (∀ m, f.best = some m → m.found = true → f'.best = some m)
      ∧ total base f' .reasoning = total base f .reasoning
      ∧ ContentSearch policy starts (text ++ t) base f f' := by
  have hsame := hr.mode
  rw [hmode] at hsame
  obtain ⟨hcontent, hreasoning, hmode'⟩ := searchedText_append hsame.symm t
  have hstrip := hr.strip hmode
  -- The piece the stripping lets through, and the feed it is fed to.
  obtain ⟨piece, f₁, hfeed, hpiece, hf₁, hfresh⟩ : ∃ piece f₁,
      feedContent policy count t f = feedChannel policy count .content piece f₁
        ∧ searchedText starts (text ++ t) .content
          = searchedText starts text .content ++ piece
        ∧ f₁ = { f with
            state := { f.state with
              stripContentLeading := f₁.state.stripContentLeading } }
        ∧ f₁.state.stripContentLeading
          = (starts && (searchedText starts (text ++ t) .content).isEmpty) := by
    unfold feedContent
    rw [hstrip]
    cases hcase : (starts && (searchedText starts text .content).isEmpty) with
    | true =>
      rw [hcase, if_pos rfl] at hcontent
      refine ⟨_, _, if_pos rfl, hcontent, rfl, ?_⟩
      simp only [Bool.and_eq_true] at hcase
      rw [hcontent, isEmpty_iff.mp hcase.2, hcase.1]
      rfl
    | false =>
      rw [hcase, if_neg (by decide)] at hcontent
      refine ⟨_, _, if_neg (by decide), hcontent, rfl, ?_⟩
      rw [hstrip, hcontent, hcase]
      cases starts with
      | false => rfl
      | true =>
        rw [Bool.true_and] at hcase ⊢
        cases hs : searchedText true text .content with
        | nil => rw [hs] at hcase; cases hcase
        | cons b rest => rfl
  have hstate : f₁.state = { f.state with
      stripContentLeading := f₁.state.stripContentLeading } :=
    congrArg Feed.state hf₁
  have hemitted : f₁.emitted = f.emitted := by rw [hf₁]
  have hbest₁ : f₁.best = f.best := by rw [hf₁]
  have hpending : f₁.state.stopPending = f.state.stopPending := by
    rw [hstate]
  have hbytes : f₁.state.decodedBytes = f.state.decodedBytes := by
    rw [hstate]
  have hbefore : BestBefore false count f₁ := by
    unfold BestBefore
    rw [hbest₁, hbytes, hpending]
    exact hbest
  obtain ⟨f', hok, hfed, hsearch, hsettled⟩ := feedChannel_settled policy
    count piece (f := f₁) (r := false) base (by rw [hemitted]; exact hst)
    hbefore
  have hreason : OutputChannel.reasoning ≠ channelOf false := by decide
  have htext : textOn .reasoning f'.emitted = textOn .reasoning f.emitted := by
    rw [hfed.text_other _ hreason, hemitted]
  have hpend : f'.state.stopPending .reasoning
      = f.state.stopPending .reasoning := by
    rw [hfed.pending_other _ hreason, hpending]
  have hchannel : textOn .content f'.emitted ++ f'.state.stopPending .content
      = textOn .content f.emitted ++ f.state.stopPending .content
        ++ piece := by
    have := hfed.fed
    rw [hemitted, hpending] at this
    exact this
  have hfields := hfed.state
  rw [hstate] at hfields
  refine ⟨f', by rw [hfeed]; exact hok, ⟨?_, ?_, ?_, ?_, ?_, ?_⟩, ?_,
    hfed.staged, ⟨?_, ?_⟩, ?_, ?_, ?_, ?_⟩
  · rw [hfields, hmode']
    exact hmode
  · rw [hfields]
    show f.state.thinkMarkerPending = _
    rw [hr.marker, hmode]
    rfl
  · intro _
    rw [hfields]
    exact hfresh
  · intro c
    cases c with
    | content =>
      unfold total
      rw [append_assoc, hchannel, hpiece, ← hr.fed .content]
      unfold total
      simp only [append_assoc]
    | reasoning =>
      rw [hreasoning, ← hr.fed .reasoning, hpend]
      unfold total
      rw [htext]
  · intro _
    rw [hpend]
    exact hr.closed hmode
  · have hcount := congrArg DecoderState.decodedBytes hfed.state
    dsimp only at hcount
    rw [hcount, hbytes, hr.bytes, hreasoning, hpiece, length_append]
    omega
  · rw [hfields]
    exact hmode
  · rw [hfields]
  · rw [hfields]
  · intro hnull
    exact hsearch.null (hbest₁.trans hnull)
  · intro m hm hyes
    rcases hbest m hm with hno | ⟨hcount, hcut⟩
    · rw [hyes] at hno
      cases hno
    · refine hsearch.kept m (hbest₁.trans hm) hyes hcount ?_
      rw [hbytes, hpending]
      exact hcut
  · unfold total
    rw [htext]
  · intro hheld m hm hno
    have htotal : total base f₁ = total base f := by
      unfold total
      rw [hemitted]
    have hwhole : total base f .content ++ (f.state.stopPending .content ++ piece)
        = searchedText starts (text ++ t) .content := by
      rw [hpiece, ← hr.fed .content, append_assoc]
    obtain ⟨m', hm', hcases⟩ := hsettled
      (by rw [htotal, hpending]; exact hheld) m (hbest₁.trans hm) hno
    refine ⟨m', hm', ?_⟩
    rcases hcases with hnone | hhit
    · exact .inl hnone
    · rw [htotal, hpending] at hhit
      rw [← hwhole]
      exact .inr hhit

-- ============ the reasoning

/-- A match lies before the end of what was searched. -/
theorem Leads.byteCut_lt {combined : Bytes} {cstart count : Nat}
    {pre : List StopString}
    (h : Leads channel combined cstart count emitted pre m)
    (hne : combined ≠ []) :
    m.found = false ∨ m.committedTokens = count
      ∧ m.byteCut < cstart + combined.length := by
  rcases h with ⟨hno, -⟩ | ⟨start, decl, stop, hbest, -, hcount, hcut, -⟩
  · exact .inl hno
  · refine .inr ⟨hcount, ?_⟩
    have hpos := length_pos_iff.mpr hne
    obtain ⟨hocc, hfirst⟩ := find_eq_some hbest.found
    by_cases hempty : stop.text = []
    · -- The empty string occurs at once.
      have hzero : ¬ 0 < start := by
        intro hlt
        exact hfirst 0 hlt (by rw [hempty]; exact nil_prefix)
      omega
    · have hle := hocc.length_le hempty
      have hstop := length_pos_iff.mpr hempty
      omega

/-- In reasoning, the searched content is empty. -/
theorem Routed.reasoning_open
    {st : DecoderState} {published : OutputChannel → Bytes}
    (h : Routed starts text st published) (hmode : st.inReasoning = true) :
    starts = true ∧ find text thinkClose = none
      ∧ searchedText starts text .content = []
      ∧ searchedText starts text .reasoning
        = text.take (text.length - markerHold text)
      ∧ st.thinkMarkerPending = text.drop (text.length - markerHold text)
      ∧ published .content = [] ∧ st.stopPending .content = [] := by
  have hsame := h.mode
  rw [hmode] at hsame
  obtain ⟨hstarts, hnone⟩ := (Bool.and_eq_true _ _).mp hsame.symm
  have hfind : find text thinkClose = none := Option.isNone_iff_eq_none.mp hnone
  have hcontent : searchedText starts text .content = [] := by
    simp [searchedText, hstarts, hfind]
  have hfed := h.fed .content
  rw [hcontent] at hfed
  obtain ⟨hpub, hpend⟩ := append_eq_nil_iff.mp hfed
  refine ⟨hstarts, hfind, hcontent, ?_, ?_, hpub, hpend⟩
  · simp [searchedText, hstarts, hfind]
  · rw [h.marker, if_pos hmode]

/-- What decoding text settles, when the guard holds and nothing was found
before: the cut of the whole searched texts, or nothing and the guard is
kept. -/
def DecodeSearch (policy : StopPolicy) (starts : Bool) (text : Bytes)
    (base : OutputChannel → Bytes) (f f' : Feed) : Prop :=
  Guarded policy f.state (total base f) → ∀ m, f.best = some m →
    m.found = false → ∃ m', f'.best = some m'
      ∧ ((m'.found = false ∧ Guarded policy f'.state (total base f'))
        ∨ (m'.found = true ∧ ∃ c start decl stop,
            Cut policy (searchedText starts text)
              (fun ch => base ch ++ textOn ch m'.output) c start decl stop))

/-- What a decoded piece leads to. -/
structure Decodes (policy : StopPolicy) (starts : Bool) (text : Bytes)
    (base : OutputChannel → Bytes) (f f' : Feed) : Prop where
  routed : Routed starts text f'.state (total base f')
  staged : Staged f'.state.inReasoning f'.emitted
  frame : SameFrame f.state f'.state
  null : f.best = none → f'.best = none
  search : DecodeSearch policy starts text base f f'

section

variable {policy : StopPolicy} {count : Nat} {f : Feed}
  {base : OutputChannel → Bytes} {starts : Bool} {text t : Bytes}

/-- A hit in the reasoning is a cut: nothing of the content is out. -/
theorem Hit.cut_reasoning {searched before : OutputChannel → Bytes}
    (h : Hit policy .reasoning (searched .reasoning) base before m)
    (hbefore : before .content = []) :
    ∃ c start decl stop, Cut policy searched
      (fun ch => base ch ++ textOn ch m.output) c start decl stop := by
  obtain ⟨-, start, decl, stop, hbest, htexts⟩ := h
  refine ⟨.reasoning, start, decl, stop, hbest, ?_, nofun, ?_⟩
  · exact (htexts .reasoning).trans (if_pos rfl)
  · intro _
    show base .content ++ textOn .content m.output = []
    rw [htexts .content, if_neg (by decide), hbefore]

/-- A hit in the content is a cut once the reasoning is clear. -/
theorem Hit.cut_content {searched before : OutputChannel → Bytes}
    (h : Hit policy .content (searched .content) base before m)
    (hclear : Clear policy .reasoning (searched .reasoning))
    (hbefore : before .reasoning = searched .reasoning) :
    ∃ c start decl stop, Cut policy searched
      (fun ch => base ch ++ textOn ch m.output) c start decl stop := by
  obtain ⟨-, start, decl, stop, hbest, htexts⟩ := h
  refine ⟨.content, start, decl, stop, hbest, ?_, ?_, nofun⟩
  · exact (htexts .content).trans (if_pos rfl)
  · intro _
    refine ⟨hclear, ?_⟩
    show base .reasoning ++ textOn .reasoning m.output = _
    rw [htexts .reasoning, if_neg (by decide), hbefore]

/-- Content mode. -/
theorem feedContent_decodes (hmode : f.state.inReasoning = false)
    (hr : Routed starts text f.state (total base f))
    (hst : Staged f.state.inReasoning f.emitted)
    (hbest : ∀ m, f.best = some m → m.found = false) :
    ∃ f', feedContent policy count t f = .ok f'
      ∧ Decodes policy starts (text ++ t) base f f' := by
  rw [hmode] at hst
  obtain ⟨f', hok, hrouted, hmode', hst', hframe, hnull, -, hsame,
    hsearch⟩ := feedContent_spec policy count t hmode hr hst
      (fun m hm => .inl (hbest m hm))
  refine ⟨f', hok, hrouted, by rw [hmode']; exact hst', hframe, hnull, ?_⟩
  intro hguard m hm hno
  have hreasoning : total base f' .reasoning ++ f'.state.stopPending .reasoning
      = total base f .reasoning ++ f.state.stopPending .reasoning := by
    rw [hsame, hrouted.closed hmode', hr.closed hmode]
  obtain ⟨m', hm', hcases⟩ := hsearch hguard.content m hm hno
  refine ⟨m', hm', ?_⟩
  rcases hcases with ⟨hnone, hheld⟩ | hhit
  · refine .inl ⟨hnone, hheld, ?_, ?_⟩
    · intro h
      rw [hmode'] at h
      cases h
    · rw [hreasoning]
      exact hguard.clear
  · refine .inr ⟨hhit.1, hhit.cut_content ?_ ?_⟩
    · rw [← hrouted.fed .reasoning, hreasoning]
      exact hguard.clear
    · rw [← hrouted.fed .reasoning, hreasoning, hr.closed hmode, append_nil]

/-- The text up to here, split where the marker may begin. -/
theorem marker_split (text t : Bytes) :
    text ++ t = text.take (text.length - markerHold text)
      ++ (text.drop (text.length - markerHold text) ++ t) := by
  rw [← append_assoc, take_append_drop]

variable (hmode : f.state.inReasoning = true)
  (hr : Routed starts text f.state (total base f))
  (hst : Staged f.state.inReasoning f.emitted)
  (hbest : ∀ m, f.best = some m → m.found = false)

include hmode hr

/-- A piece fed to the reasoning goes behind what was searched of it; the
content is not touched. -/
theorem fed_reasoning {piece pending : Bytes} {f₂ : Feed}
    (hfed : ChannelFed true piece { f with
      state := { f.state with thinkMarkerPending := pending } } f₂) :
    total base f₂ .reasoning ++ f₂.state.stopPending .reasoning
        = searchedText starts text .reasoning ++ piece
      ∧ total base f₂ .content = [] ∧ f₂.state.stopPending .content = [] := by
  obtain ⟨-, -, -, -, -, hpub, hpend⟩ := hr.reasoning_open hmode
  have hother : OutputChannel.content ≠ channelOf true := by decide
  refine ⟨?_, ?_, ?_⟩
  · have hchannel := hfed.fed
    unfold total
    rw [append_assoc]
    change textOn .reasoning f₂.emitted ++ f₂.state.stopPending .reasoning
      = textOn .reasoning f.emitted ++ f.state.stopPending .reasoning ++ _
      at hchannel
    rw [hchannel, ← hr.fed .reasoning]
    unfold total
    simp only [append_assoc]
  · unfold total
    rw [hfed.text_other _ hother]
    exact hpub
  · rw [hfed.pending_other _ hother]
    exact hpend

include hst hbest

/-- Reasoning goes on: the piece completes no marker. -/
theorem feedReasoning_decodes
    (hfind : find (f.state.thinkMarkerPending ++ t) thinkClose = none) :
    ∃ f', feedDecodedText policy count t f = .ok f'
      ∧ Decodes policy starts (text ++ t) base f f' := by
  obtain ⟨hstarts, hnone, hcontent, hsearched, hpending, hpub, hpend⟩ :=
    hr.reasoning_open hmode
  rw [hmode] at hst
  rw [hpending] at hfind
  obtain ⟨hfind', hhold⟩ := marker_append hnone t
  have hnone' : find (text ++ t) thinkClose = none := by
    rw [hfind', hfind]
    rfl
  have hhold := hhold hnone'
  have hbase : (text.take (text.length - markerHold text)).length
      = text.length - markerHold text := by
    rw [length_take]
    omega
  have hle : markerHold (text.drop (text.length - markerHold text) ++ t)
      ≤ (text.drop (text.length - markerHold text) ++ t).length :=
    longestSuffixPrefix_le _ _ _
  have hlength : (text ++ t).length - markerHold (text ++ t)
      = (text.take (text.length - markerHold text)).length
        + ((text.drop (text.length - markerHold text) ++ t).length
          - markerHold (text.drop (text.length - markerHold text) ++ t)) := by
    rw [hhold, marker_split text t, length_append, hbase]
    omega
  generalize hp : text.drop (text.length - markerHold text) ++ t = pending at *
  -- The text of both ends after the piece.
  have htake : (text ++ t).take ((text ++ t).length - markerHold (text ++ t))
      = text.take (text.length - markerHold text)
        ++ pending.take (pending.length - markerHold pending) := by
    rw [hlength, marker_split text t, hp, take_length_add_append]
  have hdrop : (text ++ t).drop ((text ++ t).length - markerHold (text ++ t))
      = pending.drop (pending.length - markerHold pending) := by
    rw [hlength, marker_split text t, hp, drop_length_add_append]
  obtain ⟨f₂, hok, hfed, hsearches, hsettled⟩ := feedChannel_settled policy
    count (pending.take (pending.length - markerHold pending))
    (f := { f with
      state := { f.state with thinkMarkerPending := pending } })
    (r := true) base hst (fun m hm => .inl (hbest m hm))
  obtain ⟨hfedR, hpub₂, hpend₂⟩ := fed_reasoning hmode hr hfed
  have hfields := hfed.state
  have hmode₂ : f₂.state.inReasoning = true := by
    rw [hfields]
    exact hmode
  have hsearched' : searchedText starts (text ++ t) .reasoning
      = searchedText starts text .reasoning
        ++ pending.take (pending.length - markerHold pending) := by
    rw [hsearched, ← htake]
    simp [searchedText, hstarts, hnone']
  have hcontent' : searchedText starts (text ++ t) .content = [] := by
    simp [searchedText, hstarts, hnone']
  rw [← hsearched'] at hfedR
  refine ⟨{ f₂ with
      state := { f₂.state with
        thinkMarkerPending :=
          pending.drop (pending.length - markerHold pending) } }, ?_, ?_⟩
  · unfold feedDecodedText
    rw [hmode, hpending]
    simp only [Bool.not_true, Bool.false_eq_true, if_false]
    rw [hp, hfind]
    dsimp only
    have hok' : feedChannel policy count .reasoning
        (pending.take (pending.length
          - longestSuffixPrefix pending thinkClose true))
        { f with
          state := { f.state with thinkMarkerPending := pending } }
        = .ok f₂ := hok
    rw [hok']
    rfl
  · refine ⟨⟨?_, ?_, ?_, ?_, ?_, ?_⟩, ?_, ⟨?_, ?_⟩, ?_, ?_⟩
    · show f₂.state.inReasoning = _
      rw [hmode₂, hstarts, hnone']
      rfl
    · show pending.drop _ = if f₂.state.inReasoning then _ else _
      rw [hmode₂, if_pos rfl, hdrop]
    · intro h
      change f₂.state.inReasoning = false at h
      rw [hmode₂] at h
      cases h
    · intro c
      cases c with
      | content =>
        show total base f₂ .content ++ f₂.state.stopPending .content = _
        rw [hpub₂, hpend₂, hcontent']
        rfl
      | reasoning => exact hfedR
    · intro h
      change f₂.state.inReasoning = false at h
      rw [hmode₂] at h
      cases h
    · show f₂.state.decodedBytes = _
      rw [hfields]
      show f.state.decodedBytes + (pending.take _).length = _
      rw [hr.bytes, hcontent, hcontent', hsearched', length_append]
      simp only [length_nil]
      omega
    · show Staged f₂.state.inReasoning f₂.emitted
      rw [hmode₂]
      exact hfed.staged
    · show f₂.state.utf8Pending = _
      rw [hfields]
    · show f₂.state.terminal = _
      rw [hfields]
    · exact hsearches.null
    · intro hguard m hm hno
      obtain ⟨m', hm', hcases⟩ := hsettled (hguard.reasoning hmode) m hm hno
      refine ⟨m', hm', ?_⟩
      rcases hcases with ⟨hnot, hheld⟩ | hhit
      · refine .inl ⟨hnot, ?_, fun _ => hheld, hheld.clear⟩
        show HeldBack _ (total base f₂ .content) (f₂.state.stopPending _)
        have hcontent₀ := hguard.content
        rw [hpub, hpend] at hcontent₀
        rw [hpub₂, hpend₂]
        exact hcontent₀
      · refine .inr ⟨hhit.1, ?_⟩
        have hwhole : total base f .reasoning
            ++ (f.state.stopPending .reasoning
              ++ pending.take (pending.length - markerHold pending))
            = searchedText starts (text ++ t) .reasoning := by
          rw [← append_assoc, hr.fed .reasoning, hsearched']
        have hhit' : Hit policy .reasoning
            (searchedText starts (text ++ t) .reasoning) base
            (total base f) m' := by
          rw [← hwhole]
          exact hhit
        exact hhit'.cut_reasoning hpub

/-- Reasoning ends: the piece completes the marker. What is before it
closes the reasoning, what is after it opens the content. -/
theorem closeReasoning_decodes {marker : Nat}
    (hfind : find (f.state.thinkMarkerPending ++ t) thinkClose = some marker) :
    ∃ f', feedDecodedText policy count t f = .ok f'
      ∧ Decodes policy starts (text ++ t) base f f' := by
  obtain ⟨hstarts, hnone, hcontent, hsearched, hpending, hpub, hpend⟩ :=
    hr.reasoning_open hmode
  rw [hmode] at hst
  rw [hpending] at hfind
  obtain ⟨hfind', -⟩ := marker_append hnone t
  rw [hfind, Option.map_some] at hfind'
  have hbase : (text.take (text.length - markerHold text)).length
      = text.length - markerHold text := by
    rw [length_take]
    omega
  have hsplit := marker_split text t
  generalize hp : text.drop (text.length - markerHold text) ++ t = pending at *
  have hinside := (find_eq_some hfind).1.length_le thinkClose_ne_nil
  -- The text up to and with the marker.
  obtain ⟨upto, hupto⟩ : ∃ upto, upto
      = text.take (text.length - markerHold text)
        ++ pending.take (marker + thinkClose.length) := ⟨_, rfl⟩
  have hrest : text ++ t
      = upto ++ pending.drop (marker + thinkClose.length) := by
    rw [hupto, append_assoc, take_append_drop]
    exact hsplit
  have huptoLength : upto.length = text.length - markerHold text
      + marker + thinkClose.length := by
    rw [hupto, length_append, hbase, length_take]
    omega
  have huptoFind : find upto thinkClose
      = some (text.length - markerHold text + marker) := by
    obtain ⟨hocc, hfirst⟩ := find_eq_some hfind'
    refine find_of_occursAt thinkClose_ne_nil ?_ ?_
    · have htake := hocc.take (le_of_eq huptoLength.symm)
      rw [hrest, take_left' rfl] at htake
      exact htake
    · intro j hj hocc'
      refine hfirst j hj ?_
      rw [hrest]
      exact hocc'.append thinkClose_ne_nil _
  have hbefore : upto.take (text.length - markerHold text + marker)
      = searchedText starts text .reasoning ++ pending.take marker := by
    have hlength : text.length - markerHold text + marker
        = (text.take (text.length - markerHold text)).length + marker := by
      rw [hbase]
    rw [hsearched, hupto, hlength, take_length_add_append,
      take_take, Nat.min_eq_left (by omega)]
  have huptoR : searchedText starts upto .reasoning
      = searchedText starts text .reasoning ++ pending.take marker := by
    rw [← hbefore]
    simp [searchedText, hstarts, huptoFind]
  have huptoC : searchedText starts upto .content = [] := by
    have hend : upto.drop (text.length - markerHold text + marker
        + thinkClose.length) = [] := drop_of_length_le (by omega)
    simp [searchedText, hstarts, huptoFind, hend]
  -- The reasoning before the marker is fed and closed.
  obtain ⟨f₂, hok₂, hfed, hsearches, hsettled⟩ := feedChannel_settled policy
    count (pending.take marker)
    (f := { f with
      state := { f.state with thinkMarkerPending := pending } })
    (r := true) base hst (fun m hm => .inl (hbest m hm))
  obtain ⟨f₃, hok₃, hst₃, hstate₃, hbest₃, htexts₃⟩ :=
    closeChannel_spec hfed.staged
  obtain ⟨hfedR, hpub₂, hpend₂⟩ := fed_reasoning hmode hr hfed
  rw [← huptoR] at hfedR
  have hother : OutputChannel.content ≠ channelOf true := by decide
  have hfields := hfed.state
  have hpubC : total base f₃ .content = [] := by
    unfold total
    rw [htexts₃, if_neg hother, append_nil]
    exact hpub₂
  have hpendC : f₃.state.stopPending .content = [] := by
    rw [hstate₃]
    dsimp only
    rw [Function.update_of_ne hother, hpend₂]
  have hpendR : f₃.state.stopPending .reasoning = [] := by
    rw [hstate₃]
    have hself : Function.update f₂.state.stopPending (channelOf true) []
        (channelOf true) = [] := Function.update_self _ _ _
    exact hself
  have hpubR : total base f₃ .reasoning
      = searchedText starts upto .reasoning := by
    rw [← hfedR]
    unfold total
    rw [htexts₃, append_assoc]
    rfl
  have hbytes : f₃.state.decodedBytes
      = f.state.decodedBytes + (pending.take marker).length := by
    rw [hstate₃, hfields]
  -- The content opens.
  obtain ⟨f₄, hf₄⟩ : ∃ f₄ : Feed, f₄ = { f₃ with
      state := { f₃.state with
        thinkMarkerPending := []
        inReasoning := false
        stripContentLeading := true } } := ⟨_, rfl⟩
  have htotal₄ : total base f₄ = total base f₃ := by
    rw [hf₄]
    rfl
  have hpend₄ : f₄.state.stopPending = f₃.state.stopPending := by rw [hf₄]
  have hmode₄ : f₄.state.inReasoning = false := by rw [hf₄]
  have hbytes₄ : f₄.state.decodedBytes = f₃.state.decodedBytes := by
    rw [hf₄]
  have hbest₄ : f₄.best = f₂.best := by
    rw [hf₄]
    exact hbest₃
  have hrouted₄ : Routed starts upto f₄.state (total base f₄) := by
    refine ⟨?_, ?_, ?_, ?_, ?_, ?_⟩
    · rw [hmode₄, huptoFind, hstarts]
      rfl
    · rw [hmode₄]
      rw [hf₄]
      rfl
    · intro _
      rw [huptoC, hstarts]
      rw [hf₄]
      rfl
    · intro c
      rw [htotal₄, hpend₄]
      cases c with
      | content =>
        rw [hpubC, hpendC, huptoC]
        rfl
      | reasoning => rw [hpubR, hpendR, append_nil]
    · intro _
      rw [hpend₄]
      exact hpendR
    · rw [hbytes₄, hbytes, hr.bytes, hcontent, huptoC, huptoR, length_append]
      simp only [length_nil]
      omega
  have hstaged₄ : Staged false f₄.emitted := by
    rw [hf₄]
    exact hst₃.weaken
  have hbefore₄ : BestBefore false count f₄ := by
    intro m hm
    rw [hbest₄] at hm
    show m.found = false ∨ _ ∧ m.byteCut < f₄.state.decodedBytes
      - (f₄.state.stopPending .content).length
    rw [hpend₄, hpendC, hbytes₄, hbytes]
    -- A match in the reasoning ends before the content begins.
    cases hnull : f.best with
    | none =>
      rw [hsearches.null hnull] at hm
      cases hm
    | some m₀ =>
      by_cases hpiece : pending.take marker = []
      · have hskip : feedChannel policy count (channelOf true)
            (pending.take marker) { f with
              state := { f.state with thinkMarkerPending := pending } }
            = .ok { f with
              state := { f.state with
                thinkMarkerPending := pending } } := by
          rw [hpiece]
          rfl
        rw [hskip] at hok₂
        cases hok₂
        exact .inl (hbest m hm)
      · obtain ⟨m', hm', hleads⟩ := hsearches.leads hpiece m₀ hnull
          (hbest m₀ hnull)
        rw [hm'] at hm
        cases hm
        have hcut := hleads.byteCut_lt (by simp [hpiece])
        have hlen : (f.state.stopPending .reasoning).length
            ≤ f.state.decodedBytes := by
          rw [hr.bytes, ← hr.fed .reasoning, length_append]
          omega
        rcases hcut with hno | ⟨hcount, hcut⟩
        · exact .inl hno
        · refine .inr ⟨hcount, ?_⟩
          change m.byteCut < f.state.decodedBytes
            - (f.state.stopPending .reasoning).length
            + (f.state.stopPending .reasoning
              ++ pending.take marker).length at hcut
          rw [length_append] at hcut
          simp only [length_nil]
          omega
  obtain ⟨f', hok', hrouted', hmode', hst', hframe, hnull', hkept, hsame,
    hsearch⟩ := feedContent_spec policy count
      (pending.drop (marker + thinkClose.length)) hmode₄ hrouted₄ hstaged₄
      hbefore₄
  rw [← hrest] at hrouted' hsearch
  have hreasoning : total base f' .reasoning
      = searchedText starts (text ++ t) .reasoning := by
    have hfedR' := hrouted'.fed .reasoning
    rw [hrouted'.closed hmode', append_nil] at hfedR'
    exact hfedR'
  have hsameR : searchedText starts (text ++ t) .reasoning
      = searchedText starts upto .reasoning := by
    rw [← hreasoning, hsame, htotal₄, hpubR]
  refine ⟨f', ?_, hrouted', by rw [hmode']; exact hst', ?_, ?_, ?_⟩
  · unfold feedDecodedText
    rw [hmode, hpending]
    simp only [Bool.not_true, Bool.false_eq_true, if_false]
    rw [hp, hfind]
    dsimp only
    unfold closeReasoning
    have hok₂' : feedChannel policy count .reasoning (pending.take marker)
        { f with
          state := { f.state with thinkMarkerPending := pending } }
        = .ok f₂ := hok₂
    have hok₃' : closeChannel .reasoning f₂ = .ok f₃ := hok₃
    rw [hok₂']
    dsimp only
    rw [hok₃']
    dsimp only
    rw [← hf₄]
    exact hok'
  · have hframe₄ : SameFrame f.state f₄.state := by
      rw [hf₄]
      unfold SameFrame
      rw [hstate₃, hfields]
      exact ⟨rfl, rfl⟩
    exact ⟨hframe.1.trans hframe₄.1, hframe.2.trans hframe₄.2⟩
  · intro hnull
    refine hnull' ?_
    rw [hbest₄]
    exact hsearches.null hnull
  · intro hguard m hm hno
    obtain ⟨m₂, hm₂, hcases⟩ := hsettled (hguard.reasoning hmode) m hm hno
    rcases hcases with ⟨hnot, hheld⟩ | hhit
    · -- Nothing in the reasoning: the content decides.
      have hheld₄ : HeldBack (StopOn policy .content)
          (total base f₄ .content) (f₄.state.stopPending .content) := by
        rw [htotal₄, hpend₄, hpubC, hpendC]
        have hcontent₀ := hguard.content
        rw [hpub, hpend] at hcontent₀
        exact hcontent₀
      have hclear : Clear policy .reasoning
          (searchedText starts (text ++ t) .reasoning) := by
        rw [hsameR, ← hfedR]
        exact hheld.clear
      obtain ⟨m', hm', hcases'⟩ := hsearch hheld₄ m₂ (hbest₄.trans hm₂) hnot
      refine ⟨m', hm', ?_⟩
      rcases hcases' with ⟨hnot', hheld'⟩ | hhit'
      · refine .inl ⟨hnot', hheld', ?_, ?_⟩
        · intro h
          rw [hmode'] at h
          cases h
        · rw [hreasoning, hrouted'.closed hmode', append_nil]
          exact hclear
      · refine .inr ⟨hhit'.1, hhit'.cut_content hclear ?_⟩
        rw [htotal₄, hpubR, hsameR]
    · have hwhole : total base f .reasoning
          ++ (f.state.stopPending .reasoning ++ pending.take marker)
          = searchedText starts (text ++ t) .reasoning := by
        rw [hsameR, huptoR, ← append_assoc, hr.fed .reasoning]
      have hhit' : Hit policy .reasoning
          (searchedText starts (text ++ t) .reasoning) base
          (total base f) m₂ := by
        rw [← hwhole]
        exact hhit
      exact ⟨m₂, hkept m₂ (hbest₄.trans hm₂) hhit.1,
        .inr ⟨hhit.1, hhit'.cut_reasoning hpub⟩⟩

omit hmode hr hst hbest

/-- `feed_decoded_text`: the routing is kept, and the search settles the
whole text. -/
theorem feedDecodedText_spec (policy : StopPolicy) (count : Nat)
    (t : Bytes) (hr : Routed starts text f.state (total base f))
    (hst : Staged f.state.inReasoning f.emitted)
    (hbest : ∀ m, f.best = some m → m.found = false) :
    ∃ f', feedDecodedText policy count t f = .ok f'
      ∧ Decodes policy starts (text ++ t) base f f' := by
  cases hmode : f.state.inReasoning with
  | false =>
    have hcontent : ∃ f', feedContent policy count t f = .ok f'
        ∧ Decodes policy starts (text ++ t) base f f' :=
      feedContent_decodes hmode hr hst hbest
    obtain ⟨f', hok, hdecodes⟩ := hcontent
    refine ⟨f', ?_, hdecodes⟩
    unfold feedDecodedText
    rw [hmode]
    exact hok
  | true =>
    cases hfind : find (f.state.thinkMarkerPending ++ t) thinkClose with
    | none => exact feedReasoning_decodes hmode hr hst hbest hfind
    | some marker => exact closeReasoning_decodes hmode hr hst hbest hfind

end

-- ============ the terminal flush

/-- The text of each channel when `text` is the whole text: an end that
may begin the marker is reasoning after all. -/
def channelText (starts : Bool) (text : Bytes) : OutputChannel → Bytes
  | .content => searchedText starts text .content
  | .reasoning =>
    if starts then
      match find text thinkClose with
      | some i => text.take i
      | none => text
    else []

/-- What an incomplete character is published as. -/
def flushed (utf8Pending : Bytes) : Bytes :=
  if utf8Pending.isEmpty then [] else replacementCharacter

theorem channelText_of_closed
    (hmode : (starts && (find text thinkClose).isNone) = false)
    (c : OutputChannel) :
    channelText starts text c = searchedText starts text c := by
  cases c with
  | content => rfl
  | reasoning =>
    cases starts with
    | false => rfl
    | true =>
      cases hfind : find text thinkClose with
      | none =>
        rw [hfind] at hmode
        cases hmode
      | some i => simp [channelText, searchedText, hfind]

/-- The flush of the open channel publishes the rest of its text. -/
theorem flushChannels_spec (policy : StopPolicy) (count : Nat)
    (hr : Routed starts text f.state (total base f))
    (hst : Staged f.state.inReasoning f.emitted) (hnull : f.best = none) :
    ∃ f', flushChannels policy count f = .ok f'
      ∧ Staged f'.state.inReasoning f'.emitted
      ∧ ∀ c, total base f' c = channelText starts text c := by
  cases hmode : f.state.inReasoning with
  | false =>
    rw [hmode] at hst
    obtain ⟨f', hok, hst', hstate, -, htexts⟩ := closeChannel_spec hst
    have hsame := hr.mode
    rw [hmode] at hsame
    refine ⟨f', ?_, ?_, ?_⟩
    · unfold flushChannels
      rw [hmode]
      exact hok
    · rw [hstate]
      show Staged f.state.inReasoning f'.emitted
      rw [hmode]
      exact hst'
    · intro c
      rw [channelText_of_closed hsame.symm, ← hr.fed c]
      unfold total
      rw [htexts, append_assoc]
      cases c with
      | content => rfl
      | reasoning =>
        rw [if_neg (by decide), hr.closed hmode]
  | true =>
    rw [hmode] at hst
    obtain ⟨hstarts, hnone, hcontent, hsearched, hpending, hpub, -⟩ :=
      hr.reasoning_open hmode
    have hbefore : BestBefore true count f := by
      intro m hm
      rw [hnull] at hm
      cases hm
    obtain ⟨f₁, hok₁, hfed, -, -⟩ := feedChannel_spec policy count
      f.state.thinkMarkerPending hst hbefore
    obtain ⟨f', hok', hst', hstate, -, htexts⟩ := closeChannel_spec
      (f := { f₁ with state := { f₁.state with thinkMarkerPending := [] } })
      hfed.staged
    have hother : OutputChannel.content ≠ channelOf true := by decide
    refine ⟨f', ?_, ?_, ?_⟩
    · unfold flushChannels
      rw [hmode, if_pos rfl]
      have hok₁' : feedChannel policy count .reasoning
          f.state.thinkMarkerPending f = .ok f₁ := hok₁
      rw [hok₁']
      exact hok'
    · rw [hstate]
      show Staged f₁.state.inReasoning f'.emitted
      rw [hfed.state]
      show Staged f.state.inReasoning f'.emitted
      rw [hmode]
      exact hst'
    · intro c
      cases c with
      | content =>
        show base .content ++ textOn .content f'.emitted = _
        rw [htexts, if_neg hother, append_nil]
        show base .content ++ textOn .content f₁.emitted = _
        rw [hfed.text_other _ hother]
        exact hpub.trans hcontent.symm
      | reasoning =>
        show base .reasoning ++ textOn .reasoning f'.emitted = _
        have hclosed : textOn .reasoning f'.emitted
            = textOn .reasoning f.emitted ++ f.state.stopPending .reasoning
              ++ f.state.thinkMarkerPending := by
          rw [htexts]
          exact hfed.fed
        have hwhole := hr.fed .reasoning
        unfold total at hwhole
        rw [hclosed, ← append_assoc, ← append_assoc, hwhole,
          hsearched, hpending, take_append_drop]
        simp [channelText, hstarts, hnone]

/-- `terminalize` publishes everything that is left. -/
theorem terminalize_spec (policy : StopPolicy) (count : Nat)
    {st : DecoderState}
    (hr : Routed starts text st fun c => base c ++ textOn c emitted)
    (hst : Staged st.inReasoning emitted) :
    ∃ st' out, terminalize policy count st emitted = .ok (st', out)
      ∧ st'.terminal = true ∧ Staged st'.inReasoning out
      ∧ ∀ c, base c ++ textOn c out
        = channelText starts (text ++ flushed st.utf8Pending) c := by
  obtain ⟨f₁, hok₁, hr₁, hst₁, hnull₁⟩ : ∃ f₁,
      flushUtf8 policy count ⟨st, emitted, none⟩ = .ok f₁
        ∧ Routed starts (text ++ flushed st.utf8Pending) f₁.state (total base f₁)
        ∧ Staged f₁.state.inReasoning f₁.emitted ∧ f₁.best = none := by
    unfold flushUtf8 flushed
    split
    · refine ⟨⟨st, emitted, none⟩, rfl, ?_, hst, rfl⟩
      rw [append_nil]
      exact hr
    · have hr' : Routed starts text { st with utf8Pending := [] }
          (total base ⟨{ st with utf8Pending := [] }, emitted, none⟩) :=
        { hr with }
      obtain ⟨f₁, hok, hdecodes⟩ := feedDecodedText_spec policy count
        replacementCharacter
        (f := ⟨{ st with utf8Pending := [] }, emitted, none⟩) hr' hst nofun
      exact ⟨f₁, hok, hdecodes.routed, hdecodes.staged, hdecodes.null rfl⟩
  obtain ⟨f₂, hok₂, hst₂, htexts⟩ :=
    flushChannels_spec policy count hr₁ hst₁ hnull₁
  refine ⟨{ f₂.state with stopPending := fun _ => [], terminal := true },
    f₂.emitted, ?_, rfl, hst₂, htexts⟩
  unfold terminalize
  rw [hok₁]
  dsimp only
  rw [hok₂]

end Ginfer.Frontend
