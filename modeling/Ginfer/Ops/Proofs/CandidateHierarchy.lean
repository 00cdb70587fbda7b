/-
What the hierarchy keeps.

A selection with enough keys that are no padding keeps each of the best
(`run_keeps`); one with fewer passes the padding, too, and the slots that
the padding takes first are lost to the keys. So the radix route needs a
last tile with `cap` tokens, or nothing worth keeping in it.
-/
import Ginfer.Ops.Proofs.RadixSelect
import Mathlib.Data.List.Flatten

namespace Ginfer.Ops.Candidates

open Ginfer.Lib List

-- ============ a selection

variable {select : Select} {cap : Nat} {order : SlotOrder} {keys : List Nat} {x : Nat}

/-- The maximum a warp leaves. -/
theorem top_one (hne : keys ≠ []) : [keys.foldl max 0] = top 1 keys := by
  have hmax {a : Nat} : ∀ {rest : List Nat}, (∀ r ∈ rest, r ≤ a) → rest.foldl max a = a := by
    intro rest h
    induction rest with
    | nil => rfl
    | cons r rest ih =>
      rw [foldl_cons, Nat.max_eq_left (h r (mem_cons_self ..))]
      exact ih fun r' hr' => h r' (.tail _ hr')
  have hsorted := sortDesc_pairwise keys
  rw [← (sortDesc_perm keys).foldl_eq, top]
  cases hs : sortDesc keys with
  | nil => exact absurd ((hs ▸ sortDesc_perm keys).nil_eq).symm hne
  | cons a rest =>
    rw [hs] at hsorted
    rw [foldl_cons, Nat.zero_max, hmax (pairwise_cons.1 hsorted).1]
    rfl

theorem run_eq_top (h : select ≠ .radix) (hgreedy : select = .greedy → cap = 1)
    (hne : keys ≠ []) : select.run cap order keys = top cap keys := by
  cases select with
  | greedy => rw [hgreedy rfl]; exact top_one hne
  | sort => rfl
  | radix => exact absurd rfl h

theorem top_length (h : cap ≤ keys.length) : (top cap keys).length = cap := by
  rw [top, length_take, (sortDesc_perm keys).length_eq, Nat.min_eq_left h]

theorem run_subperm (hgreedy : select = .greedy → cap = 1) (hne : keys ≠ []) :
    (select.run cap order keys).Subperm keys := by
  by_cases h : select = .radix
  · subst h
    exact (take_sublist ..).subperm.trans
      ((order.perm _).subperm.trans filter_sublist.subperm)
  · rw [run_eq_top h hgreedy hne]
    exact top_subperm ..

section

variable (hlt : ∀ key ∈ keys, key < 2 ^ 64) (hcap : 0 < cap)
include hlt hcap

theorem threshold_pos (hample : cap ≤ atLeast keys 0) : 0 < radixThreshold keys cap := by
  have hspec := radixThreshold_spec hlt hcap
  rw [if_pos hample] at hspec
  by_contra hzero
  have hone : atLeast keys 1 = atLeast keys 0 := countP_congr fun key _ => by
    simp only [decide_eq_true_eq]
    omega
  rw [Nat.eq_zero_of_not_pos hzero, zero_add] at hspec
  omega

/-- What passes the threshold fills the slots. -/
theorem le_passed (hlen : cap ≤ keys.length) :
    cap ≤ (keys.filter (radixThreshold keys cap ≤ ·)).length := by
  have hspec := radixThreshold_spec hlt hcap
  by_cases hample : cap ≤ atLeast keys 0
  · rw [if_pos hample] at hspec
    rw [← countP_eq_length_filter]
    refine hspec.1.trans (countP_mono_left fun key _ h => ?_)
    simp only [decide_eq_true_eq] at h ⊢
    exact h.2
  · rw [if_neg hample] at hspec
    simpa [hspec] using hlen

theorem run_length (hgreedy : select = .greedy → cap = 1) (hlen : cap ≤ keys.length) :
    (select.run cap order keys).length = cap := by
  by_cases h : select = .radix
  · subst h
    rw [Select.run, length_take, (order.perm _).length_eq,
      Nat.min_eq_left (le_passed hlt hcap hlen)]
  · rw [run_eq_top h hgreedy (ne_nil_of_length_pos (by omega)), top_length hlen]

theorem radix_nonzero (hample : cap ≤ atLeast keys 0)
    (hx : x ∈ Select.radix.run cap order keys) : x ≠ 0 := by
  have hpassed := (order.perm _).mem_iff.1 (mem_of_mem_take hx)
  have hle := of_decide_eq_true (mem_filter.1 hpassed).2
  have := threshold_pos hlt hcap hample
  omega

/-- With enough keys, the best are kept. -/
theorem run_keeps (hgreedy : select = .greedy → cap = 1)
    (hample : select = .radix → cap ≤ atLeast keys 0)
    (hnodup : (keys.filter (· ≠ 0)).Nodup) (hx : x ∈ keys)
    (hfew : keys.countP (x < ·) < cap) : x ∈ select.run cap order keys := by
  by_cases h : select = .radix
  swap
  · rw [run_eq_top h hgreedy (ne_nil_of_mem hx)]
    exact (mem_top hx).2 hfew
  subst h
  have hpos := threshold_pos hlt hcap (hample rfl)
  have hspec := radixThreshold_spec hlt hcap
  rw [if_pos (hample rfl)] at hspec
  generalize hT : radixThreshold keys cap = T at hpos hspec
  have hpassed : (keys.filter (T ≤ ·)).length = atLeast keys T := by
    rw [← countP_eq_length_filter]
    refine countP_congr fun key _ => ?_
    simp only [decide_eq_true_eq]
    omega
  -- One key at most is the threshold itself.
  have hexact : atLeast keys T ≤ cap := by
    have hone : (keys.countP fun key => key ≠ 0 ∧ T ≤ key ∧ key < T + 1)
        ≤ (keys.filter (· ≠ 0)).count T := by
      rw [count, countP_filter]
      refine countP_mono_left fun key _ h => ?_
      simp only [decide_eq_true_eq] at h
      simp only [beq_iff_eq, ne_eq, Bool.and_eq_true, decide_eq_true_eq]
      omega
    have hle := hone.trans (nodup_iff_count_le_one.1 hnodup T)
    have hsplit := atLeast_split keys (Nat.le_add_right T 1)
    omega
  rw [Select.run, hT, take_of_length_le
    (((order.perm _).length_eq.trans hpassed).le.trans hexact)]
  refine (order.perm _).mem_iff.2 (mem_filter.2 ⟨hx, decide_eq_true ?_⟩)
  by_contra hbelow
  have hlarger : atLeast keys T ≤ keys.countP (x < ·) :=
    countP_mono_left fun key _ h => by
      simp only [decide_eq_true_eq] at h ⊢
      omega
  omega

end

-- ============ keys

theorem sortKey_eq {value token : Nat} (h : token < intMax) :
    sortKey value token = value * 2 ^ 32 + (0xffffffff - token) := by
  rw [sortKey, if_neg h.ne, ← Nat.shiftLeft_add_eq_or_of_lt (by omega), Nat.shiftLeft_eq]

namespace Column

variable {c : Column} {token token' : Nat}

theorem key_eq (h : token < c.domain) :
    c.key token = c.value token * 2 ^ 32 + (0xffffffff - token) :=
  sortKey_eq (h.trans_le c.tokens)

theorem key_inj (h : token < c.domain) (h' : token' < c.domain)
    (hkey : c.key token = c.key token') : token = token' := by
  have := c.tokens
  rw [key_eq h, key_eq h'] at hkey
  rw [intMax] at this
  omega

theorem mem_keys : x ∈ c.keys ↔ ∃ token < c.domain, c.key token = x := by
  rw [keys, mem_map]
  simp only [mem_range]

theorem keys_bounds (hx : x ∈ c.keys) : x ≠ 0 ∧ x < 2 ^ 64 := by
  obtain ⟨token, h, rfl⟩ := mem_keys.1 hx
  have hvalue := (c.ordered token h).2
  have := c.tokens
  rw [key_eq h]
  rw [orderedInf] at hvalue
  rw [intMax] at this
  omega

theorem keys_length : c.keys.length = c.domain := by
  rw [keys, length_map, length_range]

theorem keys_nodup : c.keys.Nodup :=
  nodup_range.map_on fun _ h _ h' hkey =>
    key_inj (mem_range.1 h) (mem_range.1 h') hkey

end Column

-- ============ the sizes

namespace Launch

variable {l : Launch} {orders : Nat → Nat → SlotOrder} {tile group : Nat}

theorem candidateCap_bounds (topK : Int) {domain pipelineCap : Nat} (hdomain : 0 < domain)
    (hcap : 0 < pipelineCap) : 0 < candidateCap topK domain pipelineCap
      ∧ candidateCap topK domain pipelineCap ≤ pipelineCap
      ∧ candidateCap topK domain pipelineCap ≤ domain := by
  unfold candidateCap
  split <;> dsimp only <;> split <;> omega

theorem cap_bounds (l : Launch) : 0 < l.cap ∧ l.cap ≤ l.route.sizes.pipelineCap
    ∧ l.cap ≤ l.column.domain ∧ l.groups * l.cap ≤ l.route.sizes.mergeTile := by
  obtain ⟨route, column, columns, greedy, topK, ok⟩ := l
  cases route <;> simp only [Route.ok, cap, groups, Route.sizes] at ok ⊢
  case selector => omega
  all_goals
    have hdomain : 0 < column.domain := by omega
    have := candidateCap_bounds topK hdomain (show 0 < 20 by decide)
    have := candidateCap_bounds topK hdomain (show 0 < 64 by decide)
    refine and_assoc.1 (and_assoc.1 ⟨?_, (Nat.mul_le_mul_left _ (?_ : _ ≤ _)).trans
      (ok.2.2.2.2.2.2)⟩)
    all_goals split <;> omega

/-- What the predicates promise. -/
theorem fits (l : Launch) : 2 * l.cap ≤ l.route.sizes.tile
    ∧ l.cap ≤ l.route.sizes.mergeTile
    ∧ l.route.sizes.perGroup * l.cap ≤ l.route.sizes.mergeTile
    ∧ l.column.domain ≤ l.partials * l.route.sizes.tile
    ∧ (l.partials - 1) * l.route.sizes.tile < l.column.domain
    ∧ l.partials ≤ l.groups * l.route.sizes.perGroup := by
  have hcap := l.cap_bounds
  have hok := l.ok
  generalize l.cap = cap at *
  rw [partials, groups]
  cases hroute : l.route <;> rw [hroute] at hcap hok <;>
    simp only [Route.ok, Route.groupCount, Route.partialCount, Route.sizes, divUp]
      at hcap hok ⊢ <;> omega

theorem greedy_cap (h : l.select = .greedy) : l.cap = 1 := by
  unfold select at h
  cases hroute : l.route <;> grind [cap]

-- ============ the lists

/-- The keys of a tile's tokens. -/
def tokenKeys (l : Launch) (tile : Nat) : List Nat :=
  (l.column.keys.drop (tile * l.route.sizes.tile)).take l.route.sizes.tile

theorem tileKeys_eq : l.tileKeys tile = l.tokenKeys tile
    ++ List.replicate (l.route.sizes.tile - (l.tokenKeys tile).length) 0 := by
  refine ext_getElem ?_ fun i h h' => ?_
  · simp [tileKeys, tokenKeys]
  · simp only [tileKeys, length_map, length_range] at h
    rw [getElem_append]
    split <;> rename_i hi <;>
      simp [tokenKeys, Column.keys_length] at hi <;>
      simp [tileKeys, tokenKeys, Column.keys] <;> omega

theorem tokens_sublist : (l.tokenKeys tile).Sublist l.column.keys :=
  (take_sublist ..).trans (drop_sublist ..)

theorem tile_live : Live (l.tileKeys tile) (l.tokenKeys tile) := by
  rw [tileKeys_eq]
  exact (live_of_subperm (List.Subperm.refl _)).append_zeros _

theorem tile_lt : ∀ key ∈ l.tileKeys tile, key < 2 ^ 64 := by
  intro key hkey
  rcases Nat.eq_zero_or_pos key with rfl | hpos
  · exact Nat.two_pow_pos 64
  · exact (Column.keys_bounds (tokens_sublist.subset
      (tile_live.mem hkey hpos.ne'))).2

theorem tile_length : (l.tileKeys tile).length = l.route.sizes.tile := by
  rw [tileKeys, length_map, length_range]

theorem partial_length : (l.partialList orders tile).length = l.cap :=
  run_length tile_lt l.cap_bounds.1 greedy_cap (by
    have := l.fits.1
    rw [tile_length]
    omega)

theorem partial_subperm : (l.partialList orders tile).Subperm (l.tileKeys tile) :=
  run_subperm greedy_cap (ne_nil_of_length_pos (by
    have := l.fits.1
    have := l.cap_bounds.1
    rw [tile_length]
    omega))

theorem tokens_eq : (List.range l.partials).flatMap l.tokenKeys = l.column.keys := by
  have hall : l.column.keys.length ≤ l.partials * l.route.sizes.tile := by
    rw [Column.keys_length]
    exact l.fits.2.2.2.1
  have hruns := flatMap_runs l.column.keys l.route.sizes.tile l.partials
  rwa [take_of_length_le hall] at hruns

/-- A merge tile that holds a list of `cap` keys from each CTA before it,
and of the column's keys no more than these CTAs had. -/
structure Gathered (l : Launch) (is : List Nat) (f g : Nat → List Nat) : Prop where
  fits : (is.map f).flatten.length ≤ l.route.sizes.mergeTile
  length : (l.gather (is.map f)).length = l.route.sizes.mergeTile
  live : Live (l.gather (is.map f)) (is.flatMap g)
  whole : (is.flatMap g).Sublist l.column.keys
  kept : ∀ i ∈ is, (f i).Sublist (l.gather (is.map f))

variable {is : List Nat} {f g : Nat → List Nat}

theorem gathered (hlength : ∀ i, (f i).length = l.cap)
    (his : is.length * l.cap ≤ l.route.sizes.mergeTile) (hlive : ∀ i, Live (f i) (g i))
    (hwhole : (is.flatMap g).Sublist l.column.keys) : l.Gathered is f g := by
  have hfits : (is.map f).flatten.length ≤ l.route.sizes.mergeTile := by
    simpa [length_flatten, Function.comp_def, hlength] using his
  have hgather : l.gather (is.map f) = (is.map f).flatten
      ++ replicate (l.route.sizes.mergeTile - (is.map f).flatten.length) 0 := by
    rw [gather, take_of_length_le hfits]
  refine ⟨hfits, ?_, ?_, hwhole, fun i hi => ?_⟩ <;> rw [hgather]
  · rw [length_append, length_replicate, Nat.add_sub_cancel' hfits]
  · exact (Live.flatMap hlive is).append_zeros _
  · exact (sublist_flatten_of_mem (mem_map_of_mem hi)).trans
      (sublist_append_left ..)

namespace Gathered

variable (h : l.Gathered is f g)
include h

theorem keys_live : Live (l.gather (is.map f)) l.column.keys :=
  h.live.trans (live_of_subperm h.whole.subperm)

theorem lt : ∀ key ∈ l.gather (is.map f), key < 2 ^ 64 := by
  intro key hkey
  rcases Nat.eq_zero_or_pos key with rfl | hpos
  · exact Nat.two_pow_pos 64
  · exact (Column.keys_bounds (h.keys_live.mem hkey hpos.ne')).2

theorem cap_le : l.cap ≤ (l.gather (is.map f)).length := by
  rw [h.length]
  exact l.fits.2.1

theorem ne_nil : l.gather (is.map f) ≠ [] :=
  ne_nil_of_length_pos (l.cap_bounds.1.trans_le h.cap_le)

theorem run_live :
    Live (l.select.run l.cap order (l.gather (is.map f))) (is.flatMap g) :=
  (live_of_subperm (run_subperm greedy_cap h.ne_nil)).trans h.live

theorem run_length : (l.select.run l.cap order (l.gather (is.map f))).length = l.cap :=
  Candidates.run_length h.lt l.cap_bounds.1 greedy_cap h.cap_le

theorem keeps {i : Nat} (hi : i ∈ is) (hlength : (f i).length = l.cap)
    (hfull : l.select = .radix → ∀ key ∈ f i, key ≠ 0) (hx : x ∈ f i)
    (hfew : l.column.keys.countP (x < ·) < l.cap) :
    x ∈ l.select.run l.cap order (l.gather (is.map f)) := by
  refine run_keeps h.lt l.cap_bounds.1 greedy_cap (fun hradix => ?_)
    (nodup_of_subperm h.keys_live Column.keys_nodup) ((h.kept i hi).subset hx)
    ((h.keys_live.count_le x).trans_lt hfew)
  rw [← hlength, ← atLeast_full (hfull hradix)]
  exact (h.kept i hi).countP_le

end Gathered

theorem group_gathered :
    l.Gathered (l.groupPartials group) (l.partialList orders) l.tokenKeys := by
  refine gathered (fun _ => partial_length) ?_
    (fun _ => (live_of_subperm partial_subperm).trans tile_live) ?_
  · exact (Nat.mul_le_mul_right l.cap (length_take_le ..)).trans l.fits.2.2.1
  · rw [← tokens_eq]
    exact ((take_sublist ..).trans (drop_sublist ..)).flatMap _

theorem groups_eq : (List.range l.groups).flatMap l.groupPartials = List.range l.partials := by
  have hall : (range l.partials).length ≤ l.groups * l.route.sizes.perGroup := by
    rw [length_range]
    exact l.fits.2.2.2.2.2
  have hruns := flatMap_runs (range l.partials) l.route.sizes.perGroup l.groups
  rwa [take_of_length_le hall] at hruns

theorem final_gathered : l.Gathered (List.range l.groups) (l.groupList orders)
    fun group => (l.groupPartials group).flatMap l.tokenKeys := by
  refine gathered (fun _ => group_gathered.run_length) ?_
    (fun _ => group_gathered.run_live) ?_
  · rw [length_range]
    exact l.cap_bounds.2.2.2
  · rw [← flatMap_assoc, groups_eq, tokens_eq]

-- ============ the best survive

/-- Its first token. -/
def lastTile (l : Launch) : Nat := (l.partials - 1) * l.route.sizes.tile

/-- A radix selection finds `cap` tokens in the last tile, or none of its
tokens is among the column's best. -/
def Condition (l : Launch) : Prop :=
  l.select = .radix → l.cap ≤ l.column.domain - l.lastTile
    ∨ ∀ token, l.lastTile ≤ token → token < l.column.domain →
        l.cap ≤ l.column.keys.countP (l.column.key token < ·)

variable {token : Nat}

theorem tile_pos (l : Launch) : 0 < l.route.sizes.tile := by
  have := l.fits.1
  have := l.cap_bounds.1
  omega

theorem mem_tile (hx : x ≠ 0) : x ∈ l.tileKeys tile ↔
    ∃ token < l.column.domain, token / l.route.sizes.tile = tile ∧ l.column.key token = x := by
  rw [tileKeys, mem_map]
  constructor
  · rintro ⟨i, hi, rfl⟩
    rw [mem_range] at hi
    dsimp only at hx ⊢
    split at hx
    case isFalse => exact absurd rfl hx
    case isTrue h =>
      refine ⟨_, h, ?_, (if_pos h).symm⟩
      rw [mul_comm, Nat.mul_add_div l.tile_pos, Nat.div_eq_of_lt hi, add_zero]
  · rintro ⟨token, h, rfl, rfl⟩
    refine ⟨_, mem_range.2 (Nat.mod_lt token l.tile_pos), ?_⟩
    rw [Nat.div_add_mod', if_pos h]

theorem tile_atLeast : atLeast (l.tileKeys tile) 0 = (l.tokenKeys tile).length := by
  have hfull := atLeast_full fun key (hkey : key ∈ l.tokenKeys tile) =>
    (Column.keys_bounds (tokens_sublist.subset hkey)).1
  rw [atLeast] at hfull ⊢
  rw [tileKeys_eq, countP_append, hfull, countP_replicate]
  rfl

theorem tokens_length : (l.tokenKeys tile).length
    = min l.route.sizes.tile (l.column.domain - tile * l.route.sizes.tile) := by
  rw [tokenKeys, length_take, length_drop, Column.keys_length]

/-- The tiles before the last are full. -/
theorem hierarchy_keeps (hcond : l.Condition) (h : token < l.column.domain)
    (hfew : l.column.keys.countP (l.column.key token < ·) < l.cap) :
    l.column.key token ∈ l.gather ((List.range l.groups).map (l.groupList orders)) := by
  have hkey := (Column.keys_bounds (Column.mem_keys.2 ⟨token, h, rfl⟩)).1
  obtain ⟨-, -, -, hall, hlast, -⟩ := l.fits
  have htile : token / l.route.sizes.tile < l.partials :=
    Nat.div_lt_of_lt_mul (Nat.mul_comm .. ▸ h.trans_le hall)
  have hbegin := Nat.div_mul_le_self token l.route.sizes.tile
  generalize htoken : token / l.route.sizes.tile = tile at htile hbegin
  have hample : l.select = .radix → l.cap ≤ atLeast (l.tileKeys tile) 0 := by
    intro hradix
    have hcap := l.fits.1
    rw [tile_atLeast, tokens_length, Nat.le_min]
    refine ⟨by omega, ?_⟩
    by_cases hend : tile = l.partials - 1
    · subst hend
      refine (hcond hradix).resolve_right fun hbest => ?_
      exact absurd (hbest token hbegin h) (Nat.not_le.2 hfew)
    · have hnext : (tile + 1) * l.route.sizes.tile ≤ (l.partials - 1) * l.route.sizes.tile :=
        Nat.mul_le_mul_right _ (by omega)
      rw [Nat.succ_mul] at hnext
      omega
  have hlive : Live (l.tileKeys tile) l.column.keys :=
    tile_live.trans (live_of_subperm tokens_sublist.subperm)
  have hpartial : l.column.key token ∈ l.partialList orders tile :=
    run_keeps tile_lt l.cap_bounds.1 greedy_cap hample
      (nodup_of_subperm hlive Column.keys_nodup) ((mem_tile hkey).2 ⟨token, h, htoken, rfl⟩)
      ((hlive.count_le _).trans_lt hfew)
  have hfull : l.select = .radix → ∀ key ∈ l.partialList orders tile, key ≠ 0 := by
    intro hradix key hin
    rw [partialList, hradix] at hin
    exact radix_nonzero tile_lt l.cap_bounds.1 (hample hradix) hin
  obtain ⟨group, hgroup, hin⟩ := mem_flatMap.1
    (groups_eq ▸ mem_range.2 htile :
      tile ∈ (range l.groups).flatMap l.groupPartials)
  exact (final_gathered.kept group hgroup).subset
    (group_gathered.keeps hin partial_length hfull hpartial hfew)

theorem hierarchy_eq_top (l : Launch) (orders : Nat → Nat → SlotOrder) :
    l.hierarchy orders
      = top l.cap (l.gather ((List.range l.groups).map (l.groupList orders))) := by
  rw [hierarchy]
  split
  · rw [greedy_cap ‹_›]
    exact top_one final_gathered.ne_nil
  · rfl

theorem hierarchy_top (hcond : l.Condition) (orders : Nat → Nat → SlotOrder) :
    l.hierarchy orders = top l.cap l.column.keys := by
  rw [hierarchy_eq_top]
  refine top_eq final_gathered.keys_live Column.keys_nodup ?_ fun x hx hfew => ?_
  · rw [Column.keys_length]
    exact l.cap_bounds.2.2.1
  · obtain ⟨token, h, rfl⟩ := Column.mem_keys.1 hx
    exact hierarchy_keeps hcond h hfew

-- ============ the best lost

/-- Zeros take their slots first. -/
def zerosFirst : SlotOrder :=
  ⟨fun keys => keys.filter (fun key => decide (key = 0))
    ++ keys.filter (fun key => !decide (key = 0)), fun _ => filter_append_perm ..⟩

theorem zerosFirst_lost (hcap : 0 < cap) (hlt : ∀ key ∈ keys, key < 2 ^ 64)
    (hfew : atLeast keys 0 < cap) (hzeros : cap + atLeast keys 0 ≤ keys.length)
    (hx : x ∈ Select.radix.run cap zerosFirst keys) : x = 0 := by
  have hspec := radixThreshold_spec hlt hcap
  rw [if_neg (Nat.not_le.2 hfew)] at hspec
  have hall : keys.filter (fun key => decide (0 ≤ key)) = keys :=
    filter_eq_self.2 fun key _ => decide_eq_true key.zero_le
  have hcount := length_eq_countP_add_countP (l := keys) fun key => decide (key = 0)
  have hnonzero : (keys.countP fun key => decide ¬ decide (key = 0) = true)
      = atLeast keys 0 := countP_congr fun key _ => by simp
  rw [hnonzero] at hcount
  rw [Select.run, hspec, hall, zerosFirst, take_append_of_le_length (by
    rw [← countP_eq_length_filter]
    omega)] at hx
  exact of_decide_eq_true (mem_filter.1 (mem_of_mem_take hx)).2

theorem mem_gather {lists : List (List Nat)} (hx : x ∈ l.gather lists) (hne : x ≠ 0) :
    ∃ list ∈ lists, x ∈ list := by
  rw [gather, mem_append] at hx
  obtain hx | hx := hx
  · exact mem_flatten.1 (mem_of_mem_take hx)
  · exact absurd (eq_of_mem_replicate hx) hne

theorem hierarchy_loses (hcond : ¬ l.Condition) :
    ∃ orders, l.hierarchy orders ≠ top l.cap l.column.keys := by
  simp only [Condition, Classical.not_imp, not_or, not_forall, not_le] at hcond
  obtain ⟨hradix, hrest, token, hlast, h, hfew⟩ := hcond
  refine ⟨fun _ _ => zerosFirst, fun hsame => ?_⟩
  have hin := Column.mem_keys.2 ⟨token, h, rfl⟩
  have hne := (Column.keys_bounds hin).1
  have hx := (mem_top hin).2 hfew
  rw [← hsame, hierarchy_eq_top] at hx
  obtain ⟨_, hgroup, hx⟩ := mem_gather ((top_subperm ..).subset hx) hne
  obtain ⟨group, -, rfl⟩ := mem_map.1 hgroup
  obtain ⟨_, hpartial, hx⟩ := mem_gather
    ((run_subperm greedy_cap group_gathered.ne_nil).subset hx) hne
  obtain ⟨tile, -, rfl⟩ := mem_map.1 hpartial
  obtain ⟨token', h', htile, hkey⟩ := (mem_tile hne).1 (partial_subperm.subset hx)
  obtain rfl := Column.key_inj h' h hkey
  obtain ⟨hcap, -, -, hall, -, -⟩ := l.fits
  have hend : tile = l.partials - 1 := by
    rw [← htile]
    refine Nat.div_eq_of_lt_le hlast (h.trans_le (hall.trans (Nat.mul_le_mul_right _ ?_)))
    omega
  have hcount : atLeast (l.tileKeys tile) 0 ≤ l.column.domain - l.lastTile := by
    rw [tile_atLeast, tokens_length, hend]
    exact min_le_right ..
  rw [partialList, hradix] at hx
  exact hne (zerosFirst_lost l.cap_bounds.1 tile_lt (by omega) (by
    rw [tile_length]
    omega) hx)

-- ============ the fallback

instance : IsTrans (Nat × Nat) AtMost := ⟨fun a b c hab hbc => by
  simp only [AtMost, better, decide_eq_true_eq] at hab hbc ⊢
  omega⟩

instance : Std.Total AtMost := ⟨fun a b => by
  simp only [AtMost, better, decide_eq_true_eq]
  omega⟩

/-- Slots, the worst first, that hold the best of what was seen. -/
structure Kept (cap : Nat) (seen slots : List (Nat × Nat)) : Prop where
  sorted : slots.Pairwise AtMost
  length : slots.length = cap
  best : ∃ rest, seen.Perm (slots ++ rest) ∧ ∀ r ∈ rest, ∀ s ∈ slots, AtMost r s

theorem Kept.insert {seen slots : List (Nat × Nat)} (h : Kept cap seen slots)
    (x : Nat × Nat) : Kept cap (x :: seen) (insertCandidate slots x) := by
  obtain ⟨rest, hperm, hrest⟩ := h.best
  cases slots with
  | nil => exact ⟨h.sorted, h.length, x :: rest, hperm.cons x, fun _ _ _ hs => nomatch hs⟩
  | cons worst others =>
    obtain ⟨hworst, hsorted⟩ := pairwise_cons.1 h.sorted
    rw [insertCandidate]
    split
    case isTrue hbetter =>
      have hx : AtMost worst x := (total_of AtMost worst x).resolve_right fun h => h hbetter
      have hslots := perm_orderedInsert AtMost x others
      have hmoved : (x :: seen).Perm (x :: others ++ worst :: rest) :=
        (hperm.trans perm_middle.symm).cons x
      refine ⟨hsorted.orderedInsert x _, ?_, worst :: rest,
        hmoved.trans (hslots.symm.append_right _), ?_⟩
      · rw [orderedInsert_length]
        exact h.length
      · intro r hr s hs
        have hbound : AtMost worst s := by
          obtain rfl | hs := mem_cons.1 (hslots.mem_iff.1 hs)
          · exact hx
          · exact hworst s hs
        obtain rfl | hr := mem_cons.1 hr
        · exact hbound
        · exact trans_of AtMost (hrest r hr worst (.head _ ..)) hbound
    case isFalse hnot =>
      refine ⟨h.sorted, h.length, x :: rest, (hperm.cons x).trans perm_middle.symm, ?_⟩
      intro r hr s hs
      obtain rfl | hr := mem_cons.1 hr
      · obtain rfl | hs := mem_cons.1 hs
        · exact hnot
        · exact trans_of AtMost hnot (hworst s hs)
      · exact hrest r hr s hs

theorem Kept.insertAll {seen slots : List (Nat × Nat)} (h : Kept cap seen slots)
    (xs : List (Nat × Nat)) :
    Kept cap (xs.reverse ++ seen) (xs.foldl insertCandidate slots) := by
  induction xs generalizing seen slots with
  | nil => exact h
  | cons x xs ih =>
    rw [reverse_cons, append_assoc]
    exact ih (h.insert x)

/-- An empty slot, or a value and a token. -/
def Valid (x : Nat × Nat) : Prop :=
  x = emptySlot ∨ x.2 < intMax ∧ orderedNegInf ≤ x.1

def keyOf (x : Nat × Nat) : Nat := sortKey x.1 x.2

theorem keyOf_le {a b : Nat × Nat} (ha : Valid a) (hb : Valid b) (h : AtMost a b) :
    keyOf a ≤ keyOf b := by
  simp only [AtMost, better, decide_eq_true_eq] at h
  obtain rfl | ⟨ha, hav⟩ := ha
  · exact Nat.zero_le _
  · have hne : b ≠ emptySlot := by
      rintro rfl
      simp only [emptySlot] at h
      omega
    have hb := (hb.resolve_left hne).1
    rw [keyOf, keyOf, sortKey_eq ha, sortKey_eq hb]
    rw [intMax] at ha hb
    omega

/-- The slots after a loop, as keys, the best first. -/
theorem slots_top (cap : Nat) (xs : List (Nat × Nat)) (hvalid : ∀ x ∈ xs, Valid x) :
    (xs.foldl insertCandidate (List.replicate cap emptySlot)).reverse.map keyOf
        = top cap (xs.map keyOf ++ List.replicate cap 0)
      ∧ ∀ x ∈ xs.foldl insertCandidate (List.replicate cap emptySlot), Valid x := by
  have hstart : Kept cap (replicate cap emptySlot) (replicate cap emptySlot) := by
    refine ⟨?_, length_replicate, [], by rw [append_nil], nofun⟩
    exact pairwise_replicate.2 (.inr (by decide))
  have hend := hstart.insertAll xs
  generalize xs.foldl insertCandidate (replicate cap emptySlot) = slots at hend ⊢
  obtain ⟨rest, hperm, hrest⟩ := hend.best
  have hall : ∀ x ∈ slots ++ rest, Valid x := by
    intro x hx
    obtain hx | hx := mem_append.1 (hperm.mem_iff.2 hx)
    · exact hvalid x (mem_reverse.1 hx)
    · exact .inl (eq_of_mem_replicate hx)
  have hslots : ∀ x ∈ slots, Valid x := fun x hx => hall x (mem_append_left _ hx)
  refine ⟨?_, hslots⟩
  have hpart : (slots.reverse.map keyOf).Pairwise (· ≥ ·) := by
    rw [pairwise_map, pairwise_reverse]
    exact hend.sorted.imp_of_mem fun ha hb => keyOf_le (hslots _ ha) (hslots _ hb)
  have hsame : (xs.map keyOf ++ replicate cap 0).Perm
      (slots.reverse.map keyOf ++ rest.map keyOf) := by
    have hkeys := ((xs.reverse_perm.symm.append_right _).trans hperm).map keyOf
    rw [map_append, map_append, map_replicate] at hkeys
    exact hkeys.trans ((slots.reverse_perm.symm.map keyOf).append_right _)
  have hlength : (slots.reverse.map keyOf).length = cap := by
    rw [length_map, length_reverse, hend.length]
  rw [← hlength, top_of_perm hpart (hlength ▸ hsame)]
  intro r hr x hx
  obtain ⟨r, hr', rfl⟩ := mem_map.1 hr
  obtain ⟨x, hx', rfl⟩ := mem_map.1 hx
  have hin := mem_reverse.1 hx'
  exact keyOf_le (hall r (mem_append_right _ hr')) (hslots x hin) (hrest r hr' x hin)

theorem token_valid (h : token < l.column.domain) : Valid (l.column.value token, token) :=
  .inr ⟨h.trans_le l.column.tokens, (l.column.ordered token h).1⟩

theorem stride_lt {thread : Nat} (h : token ∈ strideLoop thread l.column.domain 256) :
    token < l.column.domain := ((mem_strideLoop (by decide)).1 h).1

/-- A thread's list, and that it has no more than a loop's keys. -/
theorem threadSlots_top (l : Launch) (thread : Nat) :
    (l.threadSlots thread).reverse.map keyOf = top l.cap
        ((strideLoop thread l.column.domain 256).map l.column.key ++ List.replicate l.cap 0)
      ∧ ∀ x ∈ l.threadSlots thread, Valid x := by
  have hslots := slots_top l.cap ((strideLoop thread l.column.domain 256).map
    fun token => (l.column.value token, token)) fun x hx => by
      obtain ⟨token, h, rfl⟩ := mem_map.1 hx
      exact token_valid (stride_lt h)
  rwa [map_map] at hslots

/-- The keys of all loops are the column's. -/
theorem loops_perm (l : Launch) : ((List.range 256).flatMap fun thread =>
    (strideLoop thread l.column.domain 256).map l.column.key).Perm l.column.keys := by
  rw [← map_flatMap]
  refine List.Perm.map _ ((perm_ext_iff_of_nodup
    (gridStride_nodup (by decide)) nodup_range).2 fun token => ?_)
  rw [mem_gridStride (by decide), mem_range]

theorem fallback_top (l : Launch) : l.fallback = top l.cap l.column.keys := by
  rw [fallback]
  generalize hstaged : ((range 256).flatMap fun thread =>
    (l.threadSlots thread).reverse) = staged
  have hkeys : staged.map keyOf = (range 256).flatMap fun thread => top l.cap
      ((strideLoop thread l.column.domain 256).map l.column.key
        ++ replicate l.cap 0) := by
    rw [← hstaged, map_flatMap]
    exact congrArg (flatMap · _) (funext fun thread => (l.threadSlots_top thread).1)
  have hlive : Live (staged.map keyOf) l.column.keys := by
    rw [hkeys]
    refine (Live.flatMap (fun thread => ?_) _).trans (live_of_subperm l.loops_perm.subperm)
    exact (live_of_subperm (top_subperm ..)).trans
      ((live_of_subperm (List.Subperm.refl _)).append_zeros _)
  have hvalid : ∀ x ∈ staged, Valid x := by
    intro x hx
    obtain ⟨thread, -, hx⟩ := mem_flatMap.1 (hstaged ▸ hx)
    exact (l.threadSlots_top thread).2 x (mem_reverse.1 hx)
  generalize hmerged : (if l.route = .selector then staged
    else staged.filter (·.2 ≠ intMax)) = merged
  have hsub : merged.Sublist staged := by
    rw [← hmerged]
    split
    · exact List.Sublist.refl _
    · exact filter_sublist
  have hmem : ∀ x ∈ staged, keyOf x ≠ 0 → x ∈ merged := by
    intro x hx hne
    rw [← hmerged]
    split
    · exact hx
    · exact mem_filter.2 ⟨hx, decide_eq_true fun h => hne (if_pos h)⟩
  refine (slots_top l.cap merged fun x hx => hvalid x (hsub.subset hx)).1.trans
    (top_eq (((live_of_subperm (hsub.map keyOf).subperm).trans hlive).append_zeros _)
      Column.keys_nodup ?_ fun x hx hfew => ?_)
  · rw [Column.keys_length]
    exact l.cap_bounds.2.2.1
  · obtain ⟨token, h, rfl⟩ := Column.mem_keys.1 hx
    have hloop : token ∈ strideLoop (token % 256) l.column.domain 256 :=
      (mem_strideLoop (by decide)).2 ⟨h, token / 256, by omega⟩
    have hthread := mem_range.2 (Nat.mod_lt token (show 0 < 256 by decide))
    have hpart : Live ((strideLoop (token % 256) l.column.domain 256).map l.column.key
        ++ replicate l.cap 0) l.column.keys :=
      (live_of_subperm ((sublist_flatten_of_mem (mem_map_of_mem hthread)).subperm.trans
        l.loops_perm.subperm)).append_zeros _
    have hin : l.column.key token ∈ staged.map keyOf := by
      rw [hkeys]
      exact mem_flatMap.2 ⟨_, hthread, (mem_top (mem_append_left _
        (mem_map_of_mem hloop))).2 ((hpart.count_le _).trans_lt hfew)⟩
    obtain ⟨slot, hslot, hkey⟩ := mem_map.1 hin
    exact mem_append_left _ (mem_map.2
      ⟨slot, hmem slot hslot (hkey ▸ (Column.keys_bounds hx).1), hkey⟩)

-- ============ both

/-- The lists of every level fit, and the best come out as the fallback
has them. -/
def Exact (l : Launch) : Prop :=
  ∀ orders, l.hierarchy orders = top l.cap l.column.keys
    ∧ l.hierarchy orders = l.fallback
    ∧ (∀ tile, (l.partialList orders tile).length = l.cap)
    ∧ (∀ group, (((l.groupPartials group).map (l.partialList orders)).flatten).length
        ≤ l.route.sizes.mergeTile)
    ∧ ((List.range l.groups).map (l.groupList orders)).flatten.length
        ≤ l.route.sizes.mergeTile

/-- The hierarchy is exact on the launches whose last tile is no trap. -/
theorem hierarchy_exact (l : Launch) : l.Exact ↔ l.Condition := by
  constructor
  · intro hexact
    by_contra hcond
    obtain ⟨orders, hloss⟩ := hierarchy_loses hcond
    exact hloss (hexact orders).1
  · intro hcond orders
    have htop := hierarchy_top hcond orders
    exact ⟨htop, htop.trans l.fallback_top.symm, fun _ => partial_length,
      fun _ => group_gathered.fits, final_gathered.fits⟩

/-- The best token is the last tile's only one: its logit is 1, the others
are 0. -/
def trap : Launch where
  route := .accept
  column := ⟨1025, fun token => if token = 1024 then 0xbf800000 else 0x80000000,
    by decide, fun token _ => by split <;> decide⟩
  columns := 3
  greedy := false
  topK := 0
  ok := ⟨by decide, by decide, by decide, by decide, by decide, by decide, by decide⟩

theorem hierarchy_loses_trap :
    ∃ orders, trap.hierarchy orders ≠ top trap.cap trap.column.keys := by
  refine hierarchy_loses fun hcond => ?_
  obtain hcap | hbest := hcond (by decide)
  · exact absurd hcap (by decide)
  · have hfew := hbest 1024 (by decide) (by decide)
    have hzero : trap.column.keys.countP (trap.column.key 1024 < ·) = 0 := by
      rw [countP_eq_zero]
      intro key hkey
      obtain ⟨token, h, rfl⟩ := Column.mem_keys.1 hkey
      rw [Column.key_eq h, Column.key_eq (by decide : 1024 < trap.column.domain)]
      rcases eq_or_ne token 1024 with rfl | hne
      · simp
      · have hvalue : trap.column.value token = 0x80000000 := if_neg hne
        have hbest : trap.column.value 1024 = 0xbf800000 := rfl
        rw [hvalue, hbest]
        simp only [decide_eq_true_eq]
        omega
    rw [hzero] at hfew
    exact absurd hfew (by decide)

end Launch

end Ginfer.Ops.Candidates
