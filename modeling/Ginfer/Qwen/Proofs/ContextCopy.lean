/-
The context-copy index against an exhaustive scan.

What `find` is for needs no index: among all places where the ledger's last
tokens occurred before, take the longest agreement, the most recent one
among equals, and read on from there (`Answers`). The index narrows the
places down by a hash; it loses none, because equal windows have equal
hashes, and admits none, because `find` compares the windows themselves.

An index is its ledger's as long as every `append` saw a ledger that goes
on from the one indexed, or a shorter one, which is indexed anew: then
it is the very index `rebuild` makes (`run_eq_rebuild`). A ledger that was
cut and has grown past its old length in between is taken for one that
goes on, and the windows that changed are in no bucket.
-/
import Ginfer.Qwen.ContextCopy

namespace Ginfer.Qwen.ContextCopyIndex

open List

-- ============ the exhaustive scan

/-- The last `length` tokens of a ledger also end at `stop`, before its
end. -/
def Occurs (tokens : List Int) (stop length : Nat) : Prop :=
  stop + 1 < tokens.length
    ∧ contextCopyMinimumMatch ≤ length ∧ length ≤ contextCopyMaximumMatch
    ∧ length ≤ tokens.length
    ∧ tokens.drop (tokens.length - length) <:+ tokens.take (stop + 1)

/-- The longest of these, and the most recent one among equals. -/
def Best (tokens : List Int) (stop length : Nat) : Prop :=
  Occurs tokens stop length
    ∧ ∀ stop' length', Occurs tokens stop' length' →
        length' < length ∨ (length' = length ∧ stop' ≤ stop)

/-- What a scan of the whole ledger answers: the tokens after the best
occurrence, as many as are asked for and there are up to the ledger's
end; or nothing. -/
def Answers (tokens : List Int) (maximumDrafts : Nat)
    (answer : ContextCopyMatch) : Prop :=
  (maximumDrafts ≠ 0 ∧ ∃ stop, Best tokens stop answer.matchLength
    ∧ answer.tokens = (tokens.drop (stop + 1)).take answer.validTokens
    ∧ answer.validTokens
      = min (min maximumDrafts contextCopyMaximumDrafts)
          (tokens.length - 1 - stop))
  ∨ ((maximumDrafts = 0 ∨ ∀ stop length, ¬ Occurs tokens stop length)
    ∧ answer = .none)

-- ============ the histories

/-- A call that changes the index, with the ledger it sees. -/
inductive Call where
  | rebuild (tokens : List Int)
  | append (tokens : List Int)

namespace Call

/-- The ledger of a call. -/
def ledger : Call → List Int
  | rebuild tokens => tokens
  | append tokens => tokens

/-- What a call makes of the index. -/
def apply (index : ContextCopyIndex) : Call → ContextCopyIndex
  | rebuild tokens => ContextCopyIndex.rebuild tokens
  | append tokens => index.append tokens

end Call

/-- The index after a history. -/
def runFrom (index : ContextCopyIndex) (calls : List Call) :
    ContextCopyIndex :=
  calls.foldl Call.apply index

/-- The ledger after a history. -/
def ledgerFrom (seen : List Int) (calls : List Call) : List Int :=
  calls.foldl (fun _ call => call.ledger) seen

/-- Every `append` sees the ledger of the call before it with tokens
added, or a shorter one. -/
def GrowsFrom : List Int → List Call → Prop
  | _, [] => True
  | _, .rebuild tokens :: rest => GrowsFrom tokens rest
  | seen, .append tokens :: rest =>
    (tokens.length < seen.length ∨ seen <+: tokens) ∧ GrowsFrom tokens rest

-- ============ the index is a rebuild

variable {seen tokens : List Int} {stop : Nat}

/-- A window within a ledger's beginning has the hash it has there. -/
theorem windowHash_of_prefix
    (hseen : seen <+: tokens) (hmin : contextCopyMinimumMatch - 1 ≤ stop)
    (hstop : stop < seen.length) :
    windowHash tokens stop = windowHash seen stop := by
  obtain ⟨added, rfl⟩ := hseen
  unfold windowHash
  congr 1
  unfold contextCopyMinimumMatch at hmin ⊢
  rw [drop_append_of_le_length (by omega),
    take_append_of_le_length (by rw [length_drop]; omega)]

/-- The ends `rebuild` indexes. -/
theorem rebuild_ends (tokens : List Int) :
    (rebuild tokens).ends
      = (List.range' (contextCopyMinimumMatch - 1)
        (tokens.length - (contextCopyMinimumMatch - 1))).map fun stop =>
          (windowHash tokens stop, stop % 2 ^ 32) := by
  have hfirst : max 0 (contextCopyMinimumMatch - 1)
      = contextCopyMinimumMatch - 1 := Nat.zero_max _
  unfold rebuild appendFrom empty
  dsimp only
  rw [hfirst, nil_append]

/-- Appending the tokens that were added is indexing all of them. -/
theorem append_rebuild_of_prefix (hseen : seen <+: tokens) :
    (rebuild seen).append tokens = rebuild tokens := by
  have hlength := hseen.length_le
  have hindexed : (rebuild seen).indexedTokens = seen.length := rfl
  unfold append
  rw [hindexed, if_neg (by omega)]
  have hends : ((rebuild seen).appendFrom tokens).ends
      = (rebuild tokens).ends := by
    unfold appendFrom
    rw [rebuild_ends, rebuild_ends, hindexed]
    have hold : (range' (contextCopyMinimumMatch - 1)
          (seen.length - (contextCopyMinimumMatch - 1))).map
            (fun stop => (windowHash seen stop, stop % 2 ^ 32))
        = (range' (contextCopyMinimumMatch - 1)
          (seen.length - (contextCopyMinimumMatch - 1))).map
            (fun stop => (windowHash tokens stop, stop % 2 ^ 32)) := by
      refine map_congr_left fun stop hstop => ?_
      rw [mem_range'_1] at hstop
      rw [ windowHash_of_prefix hseen (by omega) (by omega)]
    have hsplit : range' (contextCopyMinimumMatch - 1)
          (tokens.length - (contextCopyMinimumMatch - 1))
        = range' (contextCopyMinimumMatch - 1)
            (seen.length - (contextCopyMinimumMatch - 1))
          ++ range' (max seen.length (contextCopyMinimumMatch - 1))
            (tokens.length - max seen.length (contextCopyMinimumMatch - 1))
        := by
      rcases le_total seen.length (contextCopyMinimumMatch - 1)
        with hshort | hlong
      · rw [Nat.max_eq_right hshort, Nat.sub_eq_zero_of_le hshort,
          range'_zero, nil_append]
      · obtain ⟨old, hold⟩ := Nat.exists_eq_add_of_le hlong
        obtain ⟨more, hmore⟩ := Nat.exists_eq_add_of_le hlength
        rw [Nat.max_eq_left hlong, hmore, hold, Nat.add_sub_cancel_left,
          Nat.add_sub_cancel_left, add_assoc, Nat.add_sub_cancel_left,
          range'_append_1]
    rw [hold, hsplit, map_append]
  calc (rebuild seen).appendFrom tokens
      = ⟨((rebuild seen).appendFrom tokens).ends, tokens.length⟩ := rfl
    _ = ⟨(rebuild tokens).ends, tokens.length⟩ := by rw [hends]
    _ = rebuild tokens := rfl

/-- A shorter ledger is indexed anew. -/
theorem append_rebuild_of_shorter (hshorter : tokens.length < seen.length) :
    (rebuild seen).append tokens = rebuild tokens := by
  unfold append
  exact if_pos hshorter

/-- After a history of such calls the index is the one `rebuild` makes of
the ledger. -/
theorem runFrom_eq_rebuild {calls : List Call} (hgrows : GrowsFrom seen calls) :
    runFrom (rebuild seen) calls = rebuild (ledgerFrom seen calls) := by
  induction calls generalizing seen with
  | nil => rfl
  | cons call rest ih =>
    cases call with
    | rebuild tokens => exact ih hgrows
    | append tokens =>
      obtain ⟨hgoes, hrest⟩ := hgrows
      have happend : (rebuild seen).append tokens = rebuild tokens :=
        hgoes.elim append_rebuild_of_shorter append_rebuild_of_prefix
      change runFrom ((rebuild seen).append tokens) rest = _
      rw [happend]
      exact ih hrest

-- ============ the comparisons

theorem getD_of_lt {n : Nat} (h : n < tokens.length) :
    tokens.getD n 0 = tokens[n] := by
  rw [getD_eq_getElem?_getD, getElem?_eq_getElem h, Option.getD_some]

/-- An occurrence, token by token from its end backwards. -/
theorem occurs_iff {length : Nat} :
    Occurs tokens stop length
      ↔ stop + 1 < tokens.length ∧ contextCopyMinimumMatch ≤ length
        ∧ length ≤ contextCopyMaximumMatch ∧ length ≤ stop + 1
        ∧ ∀ i < length, tokens.getD (stop - i) 0
        = tokens.getD (tokens.length - 1 - i) 0 := by
  unfold Occurs
  constructor
  · rintro ⟨hstop, hmin, hmax, hlength, hsuffix⟩
    have hle := hsuffix.length_le
    rw [length_drop, length_take] at hle
    refine ⟨hstop, hmin, hmax, by omega, fun i hi => ?_⟩
    rw [suffix_iff_eq_drop, length_take, length_drop] at hsuffix
    have hget := congrArg (fun l => l.getD (length - 1 - i) 0) hsuffix
    simp only [getD_eq_getElem?_getD, getElem?_drop,
      getElem?_take] at hget ⊢
    rw [show tokens.length - length + (length - 1 - i)
        = tokens.length - 1 - i by omega,
      show min (stop + 1) tokens.length
          - (tokens.length - (tokens.length - length))
          + (length - 1 - i) = stop - i by omega,
      if_pos (by omega)] at hget
    exact hget.symm
  · rintro ⟨hstop, hmin, hmax, hlength, hsame⟩
    refine ⟨hstop, hmin, hmax, by omega, ?_⟩
    rw [suffix_iff_eq_drop, length_take, length_drop]
    refine ext_getElem ?_ fun n hn _ => ?_
    · rw [length_drop, length_drop, length_take]
      omega
    · rw [length_drop] at hn
      have hget := hsame (length - 1 - n) (by omega)
      rw [show tokens.length - 1 - (length - 1 - n)
          = tokens.length - length + n by omega,
        show stop - (length - 1 - n) = stop + 1 - length + n by omega] at hget
      rw [getElem_drop, getElem_drop, getElem_take]
      rw [getD_of_lt (by omega), getD_of_lt (by omega)] at hget
      rw [← hget]
      congr 1
      omega

/-- `same_window` compares six tokens. -/
theorem sameWindow_iff {left right : Nat} :
    sameWindow tokens left right = true
      ↔ ∀ i < contextCopyMinimumMatch,
        tokens.getD (left - i) 0 = tokens.getD (right - i) 0 := by
  unfold sameWindow
  rw [all_eq_true]
  constructor
  · intro h i hi
    exact eq_of_beq (h i (mem_range.mpr hi))
  · intro h i hi
    rw [h i (mem_range.mp hi)]
    exact beq_self_eq_true _

/-- Equal windows have equal hashes. -/
theorem windowHash_eq_of_same {left right : Nat}
    (hleft : contextCopyMinimumMatch ≤ left + 1)
    (hright : contextCopyMinimumMatch ≤ right + 1)
    (hleftIn : left < tokens.length) (hrightIn : right < tokens.length)
    (hsame : ∀ i < contextCopyMinimumMatch,
      tokens.getD (left - i) 0 = tokens.getD (right - i) 0) :
    windowHash tokens left = windowHash tokens right := by
  unfold windowHash
  congr 1
  unfold contextCopyMinimumMatch at hleft hright hsame ⊢
  refine ext_getElem ?_ fun n hn _ => ?_
  · rw [length_take, length_take, length_drop, length_drop]
    omega
  · rw [length_take, length_drop] at hn
    have hget := hsame (5 - n) (by omega)
    rw [show left - (5 - n) = left + 1 - 6 + n by omega,
      show right - (5 - n) = right + 1 - 6 + n by omega,
      getD_of_lt (by omega), getD_of_lt (by omega)] at hget
    rw [getElem_take, getElem_take, getElem_drop, getElem_drop]
    exact hget

/-- The backward extension stops at the first token that differs, at the
front of the ledger, or when `fuel` more tokens agree. -/
theorem extend_spec (tokens : List Int) (candidate suffix : Nat)
    (hbefore : candidate < suffix) :
    ∀ fuel length, length ≤ candidate + 1 →
      (∀ i < length, tokens.getD (candidate - i) 0 = tokens.getD (suffix - i) 0) →
      ∃ extended, extend tokens candidate suffix fuel length = extended
        ∧ length ≤ extended ∧ extended ≤ length + fuel
        ∧ extended ≤ candidate + 1
        ∧ (∀ i < extended, tokens.getD (candidate - i) 0
        = tokens.getD (suffix - i) 0)
        ∧ ∀ longer, longer ≤ length + fuel → longer ≤ candidate + 1 →
        (∀ i < longer, tokens.getD (candidate - i) 0
          = tokens.getD (suffix - i) 0) → longer ≤ extended
  | 0, length, hlength, hsame =>
    ⟨length, rfl, le_refl _, le_refl _, hlength, hsame,
      fun _ hlonger _ _ => hlonger⟩
  | fuel + 1, length, hlength, hsame => by
    by_cases hmore : length ≤ candidate ∧ length ≤ suffix
        ∧ tokens.getD (candidate - length) 0 = tokens.getD (suffix - length) 0
    · have hnext : ∀ i < length + 1, tokens.getD (candidate - i) 0
        = tokens.getD (suffix - i) 0 := by
        intro i hi
        rcases Nat.lt_succ_iff_lt_or_eq.mp hi with hlt | rfl
        · exact hsame i hlt
        · exact hmore.2.2
      obtain ⟨extended, heq, hge, hle, hfit, hall, hmax⟩ :=
        extend_spec tokens candidate suffix hbefore fuel (length + 1)
          (by omega) hnext
      refine ⟨extended, ?_, by omega, by omega, hfit, hall,
        fun longer hlonger => hmax longer (by omega)⟩
      rw [extend, if_pos hmore, heq]
    · refine ⟨length, ?_, le_refl _, by omega, hlength, hsame,
        fun longer _ hfit hagree => ?_⟩
      · rw [extend, if_neg hmore]
      · by_contra hlt
        exact hmore ⟨by omega, by omega, hagree length (by omega)⟩

-- ============ the candidate loop

/-- The match a candidate is extended to. -/
def matchLengthAt (tokens : List Int) (suffix candidate : Nat) : Nat :=
  extend tokens candidate suffix
    (contextCopyMaximumMatch - contextCopyMinimumMatch)
    contextCopyMinimumMatch

/-- A candidate that `find` does not skip. -/
def Eligible (tokens : List Int) (suffix candidate : Nat) : Prop :=
  candidate < suffix ∧ sameWindow tokens candidate suffix = true

/-- A pair of length and end that does not come after another. -/
def NotAfter (a b : Nat × Nat) : Prop :=
  a.1 < b.1 ∨ (a.1 = b.1 ∧ a.2 ≤ b.2)

theorem NotAfter.refl (a : Nat × Nat) : NotAfter a a :=
  .inr ⟨rfl, le_refl _⟩

theorem NotAfter.trans {a b c : Nat × Nat} (hab : NotAfter a b)
    (hbc : NotAfter b c) : NotAfter a c := by
  unfold NotAfter at *
  omega

/-- The pair kept after a candidate. -/
def keep (tokens : List Int) (suffix : Nat) (sofar : Nat × Nat)
    (candidate : Nat) : Nat × Nat :=
  if sofar.1 < matchLengthAt tokens suffix candidate
      ∨ (matchLengthAt tokens suffix candidate = sofar.1 ∧ sofar.2 < candidate)
  then (matchLengthAt tokens suffix candidate, candidate) else sofar

/-- What is kept is one of the two, and the greater. -/
theorem keep_spec (tokens : List Int) (suffix : Nat) (sofar : Nat × Nat)
    (candidate : Nat) :
    (keep tokens suffix sofar candidate = sofar
        ∨ keep tokens suffix sofar candidate
        = (matchLengthAt tokens suffix candidate, candidate))
      ∧ NotAfter sofar (keep tokens suffix sofar candidate)
      ∧ NotAfter (matchLengthAt tokens suffix candidate, candidate)
        (keep tokens suffix sofar candidate) := by
  unfold keep NotAfter
  split
  · exact ⟨.inr rfl, by dsimp only; omega, by dsimp only; omega⟩
  · exact ⟨.inl rfl, by omega, by dsimp only; omega⟩

/-- The candidate loop keeps the greatest pair it has seen. -/
theorem best_spec (tokens : List Int) (suffix : Nat) :
    ∀ (candidates : List Nat) (sofar : Nat × Nat),
      (best tokens suffix candidates sofar = sofar
        ∨ ∃ c ∈ candidates, Eligible tokens suffix c
        ∧ best tokens suffix candidates sofar
          = (matchLengthAt tokens suffix c, c))
      ∧ NotAfter sofar (best tokens suffix candidates sofar)
      ∧ ∀ c ∈ candidates, Eligible tokens suffix c →
        NotAfter (matchLengthAt tokens suffix c, c)
          (best tokens suffix candidates sofar)
  | [], sofar => ⟨.inl rfl, .refl _, fun _ hc => nomatch hc⟩
  | candidate :: rest, sofar => by
    by_cases hskip : suffix ≤ candidate
        ∨ sameWindow tokens candidate suffix = false
    · have hnot : ¬ Eligible tokens suffix candidate := by
        rintro ⟨hlt, hsame⟩
        rcases hskip with hle | hother
        · omega
        · rw [hsame] at hother
          exact Bool.noConfusion hother
      rw [best, if_pos hskip]
      obtain ⟨hfrom, hafter, hall⟩ := best_spec tokens suffix rest sofar
      refine ⟨hfrom.imp id ?_, hafter, fun c hc he => ?_⟩
      · rintro ⟨c, hc, hrest⟩
        exact ⟨c, .tail _ hc, hrest⟩
      · rcases mem_cons.mp hc with rfl | hc
        · exact absurd he hnot
        · exact hall c hc he
    · have heligible : Eligible tokens suffix candidate := by
        rw [not_or, Bool.not_eq_false] at hskip
        exact ⟨by omega, hskip.2⟩
      have hbest : best tokens suffix (candidate :: rest) sofar
          = best tokens suffix rest
              (keep tokens suffix sofar candidate) := by
        rw [best, if_neg hskip]
        rfl
      obtain ⟨hone, hsofar, hcandidate⟩ :=
        keep_spec tokens suffix sofar candidate
      obtain ⟨hfrom, hafter, hall⟩ := best_spec tokens suffix rest
        (keep tokens suffix sofar candidate)
      rw [hbest]
      refine ⟨?_, hsofar.trans hafter, fun c hc he => ?_⟩
      · rcases hfrom with hkept | ⟨c, hc, hrest⟩
        · rw [hkept]
          exact hone.imp id fun h =>
            ⟨candidate, .head _, heligible, h⟩
        · exact .inr ⟨c, .tail _ hc, hrest⟩
      · rcases mem_cons.mp hc with rfl | hc
        · exact hcandidate.trans hafter
        · exact hall c hc he

-- ============ the find's end

/-- The candidates of a rebuilt index: the indexed ends whose window has
the suffix's hash. -/
theorem mem_candidates {hash : UInt64} (hsize : tokens.length ≤ 2 ^ 32) :
    stop ∈ (((rebuild tokens).ends.filter fun e => e.1 == hash).map
        Prod.snd).reverse
      ↔ contextCopyMinimumMatch ≤ stop + 1 ∧ stop < tokens.length
        ∧ windowHash tokens stop = hash := by
  rw [mem_reverse, rebuild_ends]
  simp only [mem_map, mem_filter, mem_range'_1, beq_iff_eq]
  unfold contextCopyMinimumMatch
  constructor
  · rintro ⟨e, ⟨⟨n, hn, rfl⟩, hhash⟩, rfl⟩
    have hword : n % 2 ^ 32 = n := Nat.mod_eq_of_lt (by omega)
    change 6 ≤ n % 2 ^ 32 + 1 ∧ n % 2 ^ 32 < tokens.length
      ∧ windowHash tokens (n % 2 ^ 32) = hash
    rw [hword]
    exact ⟨by omega, by omega, hhash⟩
  · rintro ⟨hmin, hin, hhash⟩
    exact ⟨(windowHash tokens stop, stop % 2 ^ 32),
      ⟨⟨stop, by omega, rfl⟩, hhash⟩, Nat.mod_eq_of_lt (by omega)⟩

/-- An eligible candidate is an occurrence of the length it is extended
to, and of no greater one. -/
theorem occurs_of_eligible {candidate : Nat}
    (hmin : contextCopyMinimumMatch ≤ candidate + 1)
    (he : Eligible tokens (tokens.length - 1) candidate) :
    Occurs tokens candidate (matchLengthAt tokens (tokens.length - 1) candidate)
      ∧ ∀ length, Occurs tokens candidate length →
        length ≤ matchLengthAt tokens (tokens.length - 1) candidate := by
  obtain ⟨hlt, hsame⟩ := he
  obtain ⟨extended, heq, hge, hle, hfit, hall, hmax⟩ :=
    extend_spec tokens candidate (tokens.length - 1) hlt
      (contextCopyMaximumMatch - contextCopyMinimumMatch)
      contextCopyMinimumMatch hmin (sameWindow_iff.mp hsame)
  have hlength : matchLengthAt tokens (tokens.length - 1) candidate
      = extended := heq
  rw [hlength]
  unfold contextCopyMaximumMatch contextCopyMinimumMatch at *
  refine ⟨occurs_iff.mpr ⟨by omega, hge, by
    unfold contextCopyMaximumMatch
    omega, hfit, hall⟩, fun length hoccurs => ?_⟩
  obtain ⟨_, _, hcap, hfits, hagree⟩ := occurs_iff.mp hoccurs
  unfold contextCopyMaximumMatch at hcap
  exact hmax length (by omega) hfits hagree

/-- Every occurrence is an eligible candidate of the index. -/
theorem candidate_of_occurs {length : Nat}
    (hsize : tokens.length ≤ 2 ^ 32) (hoccurs : Occurs tokens stop length) :
    contextCopyMinimumMatch ≤ stop + 1 ∧ Eligible tokens (tokens.length - 1) stop
      ∧ stop ∈ (((rebuild tokens).ends.filter fun e =>
            e.1 == windowHash tokens (tokens.length - 1)).map
          Prod.snd).reverse := by
  obtain ⟨hstop, hmin, _, hfits, hagree⟩ := occurs_iff.mp hoccurs
  have hwindow : ∀ i < contextCopyMinimumMatch, tokens.getD (stop - i) 0
      = tokens.getD (tokens.length - 1 - i) 0 :=
    fun i hi => hagree i (by omega)
  refine ⟨by omega, ⟨by omega, sameWindow_iff.mpr hwindow⟩,
    (mem_candidates hsize).mpr ⟨by omega, by omega, ?_⟩⟩
  exact windowHash_eq_of_same (by omega) (by omega) (by omega) (by omega) hwindow

/-- On an index that is its ledger's, `find` answers what the scan
does. -/
theorem find_rebuild (tokens : List Int) (hsize : tokens.length ≤ 2 ^ 32)
    (maximumDrafts : Nat) :
    Answers tokens maximumDrafts
      ((rebuild tokens).find tokens maximumDrafts) := by
  unfold find
  dsimp only
  by_cases hnone : min maximumDrafts contextCopyMaximumDrafts = 0
      ∨ tokens.length ≤ contextCopyMinimumMatch
  · rw [if_pos hnone]
    refine .inr ⟨?_, rfl⟩
    rcases hnone with hzero | hshort
    · unfold contextCopyMaximumDrafts at hzero
      exact .inl (by omega)
    · refine .inr fun stop length hoccurs => ?_
      obtain ⟨hstop, hmin, _, hfits, _⟩ := occurs_iff.mp hoccurs
      omega
  rw [if_neg hnone, not_or] at *
  generalize hcandidates : (((rebuild tokens).ends.filter fun e =>
      e.1 == windowHash tokens (tokens.length - 1)).map
    Prod.snd).reverse = candidates
  obtain ⟨hfrom, -, hall⟩ :=
    best_spec tokens (tokens.length - 1) candidates (0, 0)
  generalize best tokens (tokens.length - 1) candidates (0, 0) = found
    at hfrom hall
  have hcomplete : ∀ stop length, Occurs tokens stop length →
      NotAfter (length, stop) found := by
    intro stop length hoccurs
    obtain ⟨hmin, he, hmem⟩ := candidate_of_occurs hsize hoccurs
    rw [hcandidates] at hmem
    refine NotAfter.trans ?_ (hall stop hmem he)
    have := (occurs_of_eligible hmin he).2 length hoccurs
    unfold NotAfter
    dsimp only
    omega
  rcases hfrom with rfl | ⟨c, hc, he, rfl⟩
  · rw [if_pos rfl]
    refine .inr ⟨.inr fun stop length hoccurs => ?_, rfl⟩
    have hafter := hcomplete stop length hoccurs
    have hmin := hoccurs.2.1
    unfold NotAfter at hafter
    unfold contextCopyMinimumMatch at hmin
    dsimp only at hafter
    omega
  · rw [← hcandidates, mem_candidates hsize] at hc
    obtain ⟨hoccurs, hlongest⟩ := occurs_of_eligible hc.1 he
    have hpositive := hoccurs.2.1
    have hbefore := he.1
    unfold contextCopyMinimumMatch at hpositive
    rw [if_neg (by dsimp only; omega)]
    have hword : (tokens.length - 1 - c) % 2 ^ 32
        = tokens.length - 1 - c := Nat.mod_eq_of_lt (by omega)
    have hvalid : ((tokens.drop (c + 1)).take
          (min (min maximumDrafts contextCopyMaximumDrafts)
            ((tokens.length - 1 - c) % 2 ^ 32))).length
        = min (min maximumDrafts contextCopyMaximumDrafts)
            (tokens.length - 1 - c) := by
      rw [hword, length_take, length_drop]
      omega
    refine .inl ⟨by omega, c, ⟨hoccurs, fun stop length h =>
      hcomplete stop length h⟩, ?_, hvalid⟩
    unfold ContextCopyMatch.validTokens
    rw [hvalid, hword]

-- ============ histories

/-- After any history whose appends see the ledger go on, or a shorter
one, the index is the one `rebuild` makes and `find` answers what a scan
of the whole ledger does. -/
theorem context_copy_equals_brute_force (calls : List Call)
    (hgrows : GrowsFrom [] calls)
    (hsize : (ledgerFrom [] calls).length ≤ 2 ^ 32) (maximumDrafts : Nat) :
    runFrom empty calls = rebuild (ledgerFrom [] calls)
      ∧ Answers (ledgerFrom [] calls) maximumDrafts
          ((runFrom empty calls).find (ledgerFrom [] calls)
            maximumDrafts) := by
  have hrun : runFrom empty calls = rebuild (ledgerFrom [] calls) :=
    runFrom_eq_rebuild hgrows
  refine ⟨hrun, ?_⟩
  rw [hrun]
  exact find_rebuild _ hsize maximumDrafts

/-- A ledger with a repeated passage, grown, cut and grown again. -/
theorem context_copy_equals_brute_force_periodic :
    let calls : List Call :=
      [.rebuild [5, 6, 7, 8, 5, 6, 7, 8, 5, 6, 7, 8],
        .append [5, 6, 7, 8, 5, 6, 7, 8, 5, 6, 7, 8, 9],
        .append [5, 6, 7, 8, 5, 6, 7, 8, 5, 6, 7, 8]]
    Answers (ledgerFrom [] calls) 7
      ((runFrom empty calls).find (ledgerFrom [] calls) 7) :=
  (context_copy_equals_brute_force
    [.rebuild [5, 6, 7, 8, 5, 6, 7, 8, 5, 6, 7, 8],
      .append [5, 6, 7, 8, 5, 6, 7, 8, 5, 6, 7, 8, 9],
      .append [5, 6, 7, 8, 5, 6, 7, 8, 5, 6, 7, 8]]
    ⟨.inr (by decide), .inl (by decide), trivial⟩ (by decide) 7).2

/-- A ledger cut and grown to its old length between two calls: the index
keeps the ends of the tokens that are gone, and finds nothing. -/
theorem context_copy_misses_regrown :
    ¬ ∀ (calls : List Call) (maximumDrafts : Nat),
        Answers (ledgerFrom [] calls) maximumDrafts
          ((runFrom empty calls).find (ledgerFrom [] calls)
            maximumDrafts) := by
  intro hall
  have hanswer := hall
    [.rebuild (replicate 12 0),
      .append [1, 2, 3, 4, 5, 6, 1, 2, 3, 4, 5, 6]] 4
  have hfind : (runFrom empty [.rebuild (replicate 12 0),
        .append [1, 2, 3, 4, 5, 6, 1, 2, 3, 4, 5, 6]]).find
      [1, 2, 3, 4, 5, 6, 1, 2, 3, 4, 5, 6] 4 = .none := by
    rfl
  have hoccurs : Occurs [1, 2, 3, 4, 5, 6, 1, 2, 3, 4, 5, 6] 5 6 := by
    unfold Occurs
    decide
  change Answers [1, 2, 3, 4, 5, 6, 1, 2, 3, 4, 5, 6] 4 _ at hanswer
  rcases hanswer with ⟨-, stop, hbest, -⟩ | ⟨hzero | hno, -⟩
  · have hmin := hbest.1.2.1
    change contextCopyMinimumMatch ≤ ((runFrom empty [.rebuild
        (replicate 12 0),
        .append [1, 2, 3, 4, 5, 6, 1, 2, 3, 4, 5, 6]]).find
      [1, 2, 3, 4, 5, 6, 1, 2, 3, 4, 5, 6] 4).matchLength at hmin
    rw [hfind] at hmin
    exact absurd hmin (by decide)
  · exact absurd hzero (by decide)
  · exact hno 5 6 hoccurs

end Ginfer.Qwen.ContextCopyIndex
