/-
The response store never holds more than its limits.

`recomputeBytes` walks the records with a set of the nodes seen; what it
computes is `storeBytes`, the envelopes and every reachable node once
(`recomputeBytes_eq`). A record alone weighs its `standaloneBytes`, since
the nodes of one context are different.

The eviction loop of `put` is described by how many entries of the old
LRU list it keeps: `keep` is the store with the new record and the first
`k` of them, the loop goes down from all of them, and stops at the first
`k` that fits (`makeRoom_spec`) — at the latest with the new record alone.

`put` has linked the id before it makes the map node, and both before it
counts; nothing undoes the one when the other throws. So the store is sound
in the runs whose calls settle (`response_store_run`), and a single failed
map node leaves an id in the LRU list that no record has
(`response_store_orphan`).
-/
import Mathlib.Algebra.Order.BigOperators.Group.Finset
import Ginfer.Lib.Runs
import Ginfer.Serve.ResponseStore

namespace Ginfer.Serve

open Ginfer.Lib Ginfer.Frontend List ResponseStore Function

-- ============ the bytes

namespace ContextHeap

variable (h : ContextHeap)

/-- Enough fuel is enough. -/
theorem chainFrom_eq : ∀ (fuel n : Nat), n < fuel →
    h.chainFrom fuel (some n) = h.chain (some n) := by
  have hstable : ∀ n fuel fuel', n < fuel → n < fuel' →
      h.chainFrom fuel (some n) = h.chainFrom fuel' (some n) := by
    intro n
    induction n using Nat.strong_induction_on with
    | _ n ih =>
      intro fuel fuel' hlt hlt'
      obtain ⟨f, rfl⟩ : ∃ f, fuel = f + 1 := ⟨fuel - 1, by omega⟩
      obtain ⟨f', rfl⟩ : ∃ f, fuel' = f + 1 := ⟨fuel' - 1, by omega⟩
      unfold chainFrom
      cases hp : h.parent n with
      | none =>
        cases f with
        | zero => cases f' <;> rfl
        | succ f => cases f' <;> rfl
      | some p =>
        have := h.parent_lt n p hp
        rw [ih p this f f' (by omega) (by omega)]
  intro fuel n hlt
  exact hstable n fuel (n + 1) hlt (by omega)

theorem chain_some (n : Nat) :
    h.chain (some n) = n :: h.chain (h.parent n) := by
  show h.chainFrom (n + 1) (some n) = _
  unfold chainFrom
  cases hp : h.parent n with
  | none => cases n <;> rfl
  | some p => rw [h.chainFrom_eq n p (h.parent_lt n p hp)]

/-- A context's nodes are older and older. -/
theorem mem_chain_le : ∀ n, ∀ m ∈ h.chain (some n), m ≤ n := by
  intro n
  induction n using Nat.strong_induction_on with
  | _ n ih =>
    intro m hm
    rw [chain_some] at hm
    rcases mem_cons.mp hm with rfl | hm
    · exact le_refl _
    · cases hp : h.parent n with
      | none =>
        rw [hp] at hm
        cases hm
      | some p =>
        rw [hp] at hm
        have hlt := h.parent_lt n p hp
        have := ih p hlt m hm
        omega

/-- The nodes of one context are different. -/
theorem chain_nodup (context : Option Nat) : (h.chain context).Nodup := by
  cases context with
  | none => exact nodup_nil
  | some n =>
    induction n using Nat.strong_induction_on with
    | _ n ih =>
      rw [chain_some]
      cases hp : h.parent n with
      | none => exact nodup_singleton n
      | some p =>
        have hlt := h.parent_lt n p hp
        refine nodup_cons.mpr ⟨?_, ih p hlt⟩
        intro hm
        have := h.mem_chain_le p n hm
        omega

end ContextHeap

namespace ResponseStore

variable (cfg : StoreConfig) (h : ContextHeap)

/-- The nodes some record reaches. -/
def reachable (records : List StoredResponse) : Finset Nat :=
  (records.flatMap fun record => h.chain record.context).toFinset

/-- What a store should count: the envelopes, and every reachable node
once. -/
def storeBytes (records : List StoredResponse) : Nat :=
  (records.map (recordEnvelopeBytes cfg)).sum
    + ∑ n ∈ reachable h records, h.ownedBytes n

/-- The node loop adds the nodes it has not seen. -/
theorem visitNodes_eq : ∀ (nodes : List Nat) (acc : Nat × List Nat),
    (nodes.foldl (visitNode h) acc).2.toFinset = acc.2.toFinset ∪ nodes.toFinset
      ∧ (nodes.foldl (visitNode h) acc).1 + ∑ n ∈ acc.2.toFinset, h.ownedBytes n
        = acc.1
        + ∑ n ∈ acc.2.toFinset ∪ nodes.toFinset, h.ownedBytes n := by
  intro nodes
  induction nodes with
  | nil => intro acc; simp
  | cons n rest ih =>
    intro acc
    obtain ⟨hset, hsum⟩ := ih (visitNode h acc n)
    rw [foldl_cons]
    unfold visitNode at hset hsum ⊢
    by_cases hn : n ∈ acc.2
    · simp only [hn, if_true] at hset hsum ⊢
      have hunion : acc.2.toFinset ∪ (n :: rest).toFinset
          = acc.2.toFinset ∪ rest.toFinset := by
        ext m
        simp only [Finset.mem_union, mem_toFinset, mem_cons]
        constructor
        · rintro (hm | rfl | hm)
          · exact Or.inl hm
          · exact Or.inl hn
          · exact Or.inr hm
        · rintro (hm | hm)
          · exact Or.inl hm
          · exact Or.inr (Or.inr hm)
      rw [hunion]
      exact ⟨hset, hsum⟩
    · simp only [hn, if_false] at hset hsum ⊢
      have hunion : acc.2.toFinset ∪ (n :: rest).toFinset
          = (n :: acc.2).toFinset ∪ rest.toFinset := by
        ext m
        simp only [Finset.mem_union, mem_toFinset, mem_cons]
        tauto
      have hinsert : ∑ m ∈ (n :: acc.2).toFinset, h.ownedBytes m
          = h.ownedBytes n + ∑ m ∈ acc.2.toFinset, h.ownedBytes m := by
        rw [toFinset_cons, Finset.sum_insert (by simpa using hn)]
      rw [hunion]
      refine ⟨hset, ?_⟩
      omega

/-- `recompute_bytes_locked` counts what it should. -/
theorem recomputeBytes_eq (records : List StoredResponse) :
    recomputeBytes cfg h records = storeBytes cfg h records := by
  have hloop : ∀ (records : List StoredResponse) (acc : Nat × List Nat),
      (records.foldl (visitRecord cfg h) acc).1
          + ∑ n ∈ acc.2.toFinset, h.ownedBytes n
        = acc.1 + (records.map (recordEnvelopeBytes cfg)).sum
          + ∑ n ∈ acc.2.toFinset ∪ reachable h records,
              h.ownedBytes n := by
    intro records
    induction records with
    | nil => intro acc; simp [reachable]
    | cons record rest ih =>
      intro acc
      obtain ⟨hset, hsum⟩ := visitNodes_eq h (h.chain record.context)
        (acc.1 + recordEnvelopeBytes cfg record, acc.2)
      have hrest := ih (visitRecord cfg h acc record)
      have hunion : (visitRecord cfg h acc record).2.toFinset
          ∪ reachable h rest
            = acc.2.toFinset ∪ reachable h (record :: rest) := by
        unfold visitRecord
        rw [hset]
        unfold reachable
        rw [flatMap_cons, toFinset_append, Finset.union_assoc]
      rw [hunion] at hrest
      rw [foldl_cons, map_cons, sum_cons]
      have hvisit : (visitRecord cfg h acc record).1
          + ∑ n ∈ acc.2.toFinset, h.ownedBytes n
            = acc.1 + recordEnvelopeBytes cfg record
              + ∑ n ∈ (visitRecord cfg h acc record).2.toFinset,
                  h.ownedBytes n := by
        unfold visitRecord
        rw [hset]
        exact hsum
      omega
  have hall := hloop records (0, [])
  unfold recomputeBytes storeBytes
  simpa using hall

/-- A record alone weighs its `standalone_bytes`. -/
theorem standaloneBytes_eq (record : StoredResponse) :
    standaloneBytes cfg h record = storeBytes cfg h [record] := by
  have hfold : ∀ (nodes : List Nat) (bytes : Nat),
      nodes.foldl (fun bytes n => bytes + h.ownedBytes n) bytes
        = bytes + (nodes.map h.ownedBytes).sum := by
    intro nodes
    induction nodes with
    | nil => intro bytes; rfl
    | cons n rest ih =>
      intro bytes
      rw [foldl_cons, ih, map_cons, sum_cons]
      omega
  unfold standaloneBytes storeBytes reachable
  rw [hfold, flatMap_singleton, sum_toFinset _ (h.chain_nodup record.context)]
  simp

/-- Fewer records weigh less. -/
theorem storeBytes_mono {records records' : List StoredResponse}
    (hsub : records'.Sublist records) :
    storeBytes cfg h records' ≤ storeBytes cfg h records := by
  unfold storeBytes
  refine Nat.add_le_add ((hsub.map _).sum_le_sum (fun _ _ => Nat.zero_le _)) ?_
  refine Finset.sum_le_sum_of_subset ?_
  intro n hn
  unfold reachable at hn ⊢
  simp only [mem_toFinset, mem_flatMap] at hn ⊢
  obtain ⟨record, hmem, hn⟩ := hn
  exact ⟨record, hsub.subset hmem, hn⟩

-- ============ the invariant

/-- The LRU list and the records name the same ids, once each, and the
bytes are counted. -/
structure Inv (s : ResponseStore) : Prop where
  nodup : s.lru.Nodup
  perm : s.lru.Perm (s.records.map StoredResponse.id)
  bytes : s.currentBytes = storeBytes cfg h s.records

/-- The store is within its limits. -/
structure Fits (s : ResponseStore) : Prop where
  size_le : s.records.length ≤ cfg.maxRecords
  bytes_le : s.currentBytes ≤ cfg.maxBytes

variable {cfg h} {s : ResponseStore}

theorem overflows_eq_false : s.overflows cfg = false ↔ s.Fits cfg := by
  unfold overflows
  simp only [Bool.or_eq_false_iff, decide_eq_false_iff_not, not_lt]
  exact ⟨fun hf => ⟨hf.1, hf.2⟩, fun hf => ⟨hf.size_le, hf.bytes_le⟩⟩

theorem Inv.find_isSome (hinv : s.Inv cfg h) (id : Bytes) :
    (s.find id).isSome = true ↔ id ∈ s.lru := by
  rw [hinv.perm.mem_iff, mem_map]
  unfold find
  rw [List.find?_isSome]
  constructor
  · rintro ⟨record, hmem, heq⟩
    exact ⟨record, hmem, by simpa using heq⟩
  · rintro ⟨record, hmem, heq⟩
    exact ⟨record, hmem, by simpa using heq⟩

attribute [local instance] lawful_bytes in
/-- The part of a list of records with these ids. -/
def withIds (records : List StoredResponse) (ids : List Bytes) :
    List StoredResponse :=
  records.filter fun record => record.id ∈ ids

/-- Records whose ids are those of a duplicate-free list, restricted to a
part of it. -/
theorem withIds_perm {records : List StoredResponse} {ids ids' : List Bytes}
    (hnodup : ids.Nodup) (hperm : ids.Perm (records.map StoredResponse.id))
    (hnodup' : ids'.Nodup) (hsub : ids' ⊆ ids) :
    ids'.Perm ((withIds records ids').map StoredResponse.id) := by
  have hrecords : (records.map StoredResponse.id).Nodup :=
    hperm.nodup_iff.mp hnodup
  have hpart : ((withIds records ids').map StoredResponse.id).Nodup :=
    hrecords.sublist (filter_sublist.map _)
  refine (perm_ext_iff_of_nodup hnodup' hpart).mpr ?_
  intro id
  unfold withIds
  simp only [mem_map, mem_filter, decide_eq_true_eq]
  constructor
  · intro hid
    obtain ⟨record, hmem, rfl⟩ :=
      mem_map.mp (hperm.mem_iff.mp (hsub hid))
    exact ⟨record, ⟨hmem, hid⟩, rfl⟩
  · rintro ⟨record, ⟨-, hid⟩, rfl⟩
    exact hid

/-- Restricting to all ids keeps everything. -/
theorem withIds_all {records : List StoredResponse} {ids : List Bytes}
    (hsub : ∀ record ∈ records, record.id ∈ ids) :
    withIds records ids = records := by
  unfold withIds
  refine filter_eq_self.mpr ?_
  intro record hmem
  simpa using hsub record hmem

/-- `erase_locked` and the recount after it. -/
theorem eraseLocked_inv (hinv : s.Inv cfg h) (id : Bytes) :
    ((s.eraseLocked id).counted cfg h).Inv cfg h
      ∧ (s.eraseLocked id).lru = s.lru.erase id
      ∧ (s.eraseLocked id).records = withIds s.records (s.lru.erase id) := by
  unfold eraseLocked
  split
  · next hnone =>
    have hnot : id ∉ s.lru := by
      rw [← hinv.find_isSome]
      simpa using hnone
    have hall : withIds s.records s.lru = s.records := by
      refine withIds_all ?_
      intro record hmem
      exact hinv.perm.mem_iff.mpr (mem_map_of_mem hmem)
    refine ⟨⟨hinv.nodup, hinv.perm, recomputeBytes_eq cfg h _⟩,
      (erase_of_not_mem hnot).symm, ?_⟩
    rw [erase_of_not_mem hnot, hall]
  · have hfilter : (s.records.filter fun record => record.id ≠ id)
        = withIds s.records (s.lru.erase id) := by
      unfold withIds
      refine filter_congr ?_
      intro record hmem
      have hid : record.id ∈ s.lru :=
        hinv.perm.mem_iff.mpr (mem_map_of_mem hmem)
      rw [decide_eq_decide, hinv.nodup.mem_erase_iff]
      exact ⟨fun hne => ⟨hne, hid⟩, fun hne => hne.1⟩
    refine ⟨⟨hinv.nodup.erase id, ?_, recomputeBytes_eq cfg h _⟩, rfl, hfilter⟩
    show (s.lru.erase id).Perm
      ((s.records.filter fun record => record.id ≠ id).map _)
    rw [hfilter]
    exact withIds_perm hinv.nodup hinv.perm (hinv.nodup.erase id) erase_subset

-- ============ the eviction

variable (cfg h) in
/-- The store with a new record and the first `k` entries of the old LRU
list. -/
def keep (s : ResponseStore) (record : StoredResponse) (k : Nat) :
    ResponseStore where
  lru := record.id :: s.lru.take k
  records := record :: withIds s.records (s.lru.take k)
  currentBytes :=
    storeBytes cfg h (record :: withIds s.records (s.lru.take k))

variable {record : StoredResponse}

theorem keep_inv (hinv : s.Inv cfg h) (hnew : record.id ∉ s.lru) (k : Nat) :
    (s.keep cfg h record k).Inv cfg h where
  nodup := by
    refine nodup_cons.mpr ⟨?_, hinv.nodup.take⟩
    intro hmem
    exact hnew (mem_of_mem_take hmem)
  perm := by
    show (record.id :: s.lru.take k).Perm (_ :: _)
    exact (withIds_perm hinv.nodup hinv.perm hinv.nodup.take
      (take_subset k s.lru)).cons record.id
  bytes := rfl

/-- The store the loop starts from keeps everything. -/
theorem keep_all (hinv : s.Inv cfg h) :
    ({ s with
      lru := record.id :: s.lru
      records := record :: s.records }.counted cfg h)
        = s.keep cfg h record s.lru.length := by
  have hall : withIds s.records s.lru = s.records := by
    refine withIds_all ?_
    intro record hmem
    exact hinv.perm.mem_iff.mpr (mem_map_of_mem hmem)
  unfold keep counted
  rw [take_length, hall, recomputeBytes_eq]

/-- One eviction gives up one more entry. -/
theorem keep_evict (hinv : s.Inv cfg h) (hnew : record.id ∉ s.lru)
    {k : Nat} (hk : k < s.lru.length) :
    ∃ id, victim (s.keep cfg h record (k + 1)).lru record.id = .ok id
      ∧ ((s.keep cfg h record (k + 1)).eraseLocked id).counted cfg h
        = s.keep cfg h record k := by
  have htake : s.lru.take (k + 1) = s.lru.take k ++ [s.lru[k]] :=
    take_succ_eq_append_getElem hk
  have hlast : s.lru[k] ∈ s.lru := getElem_mem hk
  have hne : s.lru[k] ≠ record.id := fun heq => hnew (heq ▸ hlast)
  have hnot : s.lru[k] ∉ s.lru.take k := by
    have hnodup : (s.lru.take (k + 1)).Nodup := hinv.nodup.take
    rw [htake, nodup_append] at hnodup
    intro hmem
    exact hnodup.2.2 _ hmem _ (by simp) rfl
  refine ⟨s.lru[k], ?_, ?_⟩
  · have hreverse : (record.id :: s.lru.take (k + 1)).reverse
        = s.lru[k] :: ((s.lru.take k).reverse ++ [record.id]) := by
      rw [htake, reverse_cons, reverse_append]
      rfl
    unfold victim keep
    dsimp only
    rw [hreverse]
    exact if_neg hne
  · obtain ⟨-, hlru, hrecords⟩ :=
      eraseLocked_inv (keep_inv hinv hnew (k + 1)) s.lru[k]
    have herase : (s.keep cfg h record (k + 1)).lru.erase s.lru[k]
        = record.id :: s.lru.take k := by
      show (record.id :: s.lru.take (k + 1)).erase s.lru[k] = _
      rw [erase_cons_tail (by simpa using fun h => hne h.symm), htake,
        erase_append_right _ hnot]
      simp
    rw [herase] at hlru hrecords
    have hkept : withIds (s.keep cfg h record (k + 1)).records
        (record.id :: s.lru.take k)
          = record :: withIds s.records (s.lru.take k) := by
      have hids : ∀ r ∈ s.records, r.id ≠ record.id := by
        intro r hr heq
        exact hnew (hinv.perm.mem_iff.mpr (heq ▸ mem_map_of_mem hr))
      unfold keep withIds
      rw [filter_cons_of_pos (by simp), filter_filter]
      congr 1
      refine filter_congr ?_
      intro r hr
      rw [htake]
      simp only [mem_cons, mem_append, not_mem_nil, or_false,
        hids r hr, false_or,
        Bool.decide_or, Bool.and_or_distrib_left]
      by_cases hmem : r.id ∈ s.lru.take k
      · simp [hmem]
      · simp [hmem]
    rw [hkept] at hrecords
    unfold counted
    rw [hlru, hrecords, recomputeBytes_eq]
    rfl

/-- The allocations `put` makes once it has linked the id succeed; one it
does not come to is not asked. -/
structure Settles (fate : StoreFate) : Prop where
  index : fate .index = true
  count : ∀ n, fate (.count n) = true
  victimId : ∀ n, fate (.victimId n) = true

variable {fate : StoreFate}

/-- The eviction loop stops at the first store that fits. -/
theorem makeRoom_spec (hinv : s.Inv cfg h) (hnew : record.id ∉ s.lru)
    (hfate : Settles fate) (halone : (s.keep cfg h record 0).Fits cfg) :
    ∀ (k fuel evictions : Nat), k ≤ s.lru.length → k ≤ fuel →
    ∃ m ≤ k, makeRoom cfg h record.id fate fuel evictions
        (s.keep cfg h record k) = some (.ok (s.keep cfg h record m))
      ∧ (s.keep cfg h record m).Fits cfg
      ∧ ∀ n, m < n → n ≤ k → ¬ (s.keep cfg h record n).Fits cfg := by
  intro k
  induction k with
  | zero =>
    intro fuel evictions _ _
    refine ⟨0, le_refl _, ?_, halone, fun n hn hn' => by omega⟩
    unfold makeRoom
    rw [overflows_eq_false.mpr halone]
    rfl
  | succ k ih =>
    intro fuel evictions hk hfuel
    by_cases hfits : (s.keep cfg h record (k + 1)).Fits cfg
    · refine ⟨k + 1, le_refl _, ?_, hfits, fun n hn hn' => by omega⟩
      unfold makeRoom
      rw [overflows_eq_false.mpr hfits]
      rfl
    · have hover : (s.keep cfg h record (k + 1)).overflows cfg = true := by
        by_contra hno
        exact hfits (overflows_eq_false.mp (by simpa using hno))
      obtain ⟨f, rfl⟩ : ∃ f, fuel = f + 1 := ⟨fuel - 1, by omega⟩
      obtain ⟨id, hvictim, hnext⟩ := keep_evict hinv hnew hk
      obtain ⟨m, hm, hroom, hmfits, hmin⟩ := ih f (evictions + 1) (by omega) (by omega)
      refine ⟨m, by omega, ?_, hmfits, ?_⟩
      · unfold makeRoom
        rw [hover, if_pos rfl]
        dsimp only
        rw [hvictim]
        dsimp only
        rw [hfate.victimId, hfate.count, recount, if_pos rfl, hnext]
        exact hroom
      · intro n hn hn'
        by_cases heq : n = k + 1
        · rw [heq]
          exact hfits
        · exact hmin n hn (by omega)

-- ============ the calls

variable (cfg h) in
attribute [local instance] lawful_bytes in
/-- What `put` refuses, in the order it checks. -/
def refusal (s : ResponseStore) (record : StoredResponse) : Option Exception :=
  if record.id.isEmpty || !record.isObject then
    some (.invalidArgument "stored response must have an id and object body")
  else if cfg.maxBytes < standaloneBytes cfg h record then
    some storeCapacity
  else if record.id ∈ s.lru then
    some (.logicError "duplicate response id in response store")
  else none

/-- The store an accepted `put` counts fits in the end. -/
theorem keep_fits (hsize : ¬ cfg.maxBytes < standaloneBytes cfg h record) :
    (s.keep cfg h record 0).Fits cfg := by
  constructor
  · have := cfg.max_records_pos
    show (record :: withIds s.records (s.lru.take 0)).length ≤ _
    unfold withIds
    simpa using Nat.succ_le_of_lt this
  · have hweight := standaloneBytes_eq cfg h record
    show storeBytes cfg h (record :: withIds s.records (s.lru.take 0)) ≤ _
    have hempty : withIds s.records (s.lru.take 0) = [] := by
      unfold withIds
      simp
    rw [hempty, ← hweight]
    omega

/-- `put` throws before it touches anything, or makes room. -/
theorem put_spec (hinv : s.Inv cfg h) (record : StoredResponse)
    (hfate : Settles fate) :
    (∃ e, s.put cfg h record fate = some (.throw e s)
        ∧ (s.refusal cfg h record = some e
          ∨ e = .badAlloc ∧ ∃ site, fate site = false))
      ∨ s.refusal cfg h record = none ∧ record.id ∉ s.lru
        ∧ ∃ m ≤ s.lru.length,
          s.put cfg h record fate = some (.ok (s.keep cfg h record m))
            ∧ (s.keep cfg h record m).Fits cfg
            ∧ ∀ n, m < n → n ≤ s.lru.length →
              ¬ (s.keep cfg h record n).Fits cfg := by
  have hfind : (s.find record.id).isSome = decide (record.id ∈ s.lru) := by
    rw [Bool.eq_iff_iff, hinv.find_isSome, decide_eq_true_iff]
  have hfails : ∀ {site}, (!fate site) = true →
      s.refusal cfg h record = some Exception.badAlloc
        ∨ Exception.badAlloc = Exception.badAlloc ∧ ∃ site, fate site = false :=
    fun {site} hsite => .inr ⟨rfl, site, by simpa using hsite⟩
  unfold put
  rw [hfind]
  split
  · next hargument => exact .inl ⟨_, rfl, .inl (if_pos hargument)⟩
  next hargument =>
  split
  · next hsite => exact .inl ⟨_, rfl, hfails hsite⟩
  split
  · next hsize =>
    exact .inl ⟨_, rfl, .inl ((if_neg hargument).trans (if_pos hsize))⟩
  next hsize =>
  split
  · next hsite => exact .inl ⟨_, rfl, hfails hsite⟩
  split
  · next hmem =>
    refine .inl ⟨_, rfl, .inl ?_⟩
    rw [refusal, if_neg hargument, if_neg hsize]
    exact if_pos (by simpa using hmem)
  next hmem =>
  split
  · next hsite => exact .inl ⟨_, rfl, hfails hsite⟩
  have hnew : record.id ∉ s.lru := by simpa using hmem
  refine .inr ⟨?_, hnew, ?_⟩
  · rw [refusal, if_neg hargument, if_neg hsize]
    exact if_neg hnew
  obtain ⟨m, hm, hroom, hfits, hmin⟩ := makeRoom_spec hinv hnew hfate
    (keep_fits hsize) s.lru.length (s.lru.length + 1) 0 (le_refl _) (by omega)
  refine ⟨m, hm, ?_, hfits, hmin⟩
  dsimp only
  rw [hfate.index, hfate.count, recount, if_pos rfl, keep_all hinv]
  have hlength : (s.keep cfg h record s.lru.length).lru.length
      = s.lru.length + 1 := by simp [keep]
  rw [← hlength] at hroom
  exact hroom

/-- `erase` takes one entry out. -/
theorem erase_inv (hinv : s.Inv cfg h) (hfits : s.Fits cfg) (id : Bytes) :
    (s.erase cfg h id true).2.state.Inv cfg h
      ∧ (s.erase cfg h id true).2.state.Fits cfg
      ∧ (s.erase cfg h id true).2.state.lru = s.lru.erase id := by
  unfold erase
  split
  · next hnone =>
    have hnot : id ∉ s.lru := by
      rw [← hinv.find_isSome]
      simpa using hnone
    exact ⟨hinv, hfits, (erase_of_not_mem hnot).symm⟩
  · obtain ⟨hinv', hlru, hrecords⟩ := eraseLocked_inv hinv id
    have hsub : (s.eraseLocked id).records.Sublist s.records := by
      rw [hrecords]
      exact filter_sublist
    refine ⟨hinv', ⟨?_, ?_⟩, hlru⟩
    · exact le_trans hsub.length_le hfits.size_le
    · show ((s.eraseLocked id).counted cfg h).currentBytes ≤ cfg.maxBytes
      rw [hinv'.bytes]
      refine le_trans ?_ (hinv.bytes ▸ hfits.bytes_le)
      exact storeBytes_mono cfg h hsub

end ResponseStore

-- ============ the runs

/-- A store in use: `lastUse` orders the LRU list. -/
structure TrackedStore.Inv (cfg : StoreConfig) (h : ContextHeap)
    (t : TrackedStore) : Prop where
  store : t.store.Inv cfg h
  fits : t.store.Fits cfg
  recency : t.store.lru.Pairwise fun a b => t.lastUse b < t.lastUse a
  past : ∀ id, t.lastUse id ≤ t.clock

section

variable {cfg : StoreConfig} {h : ContextHeap} {t t' : TrackedStore}

/-- Using an id puts it in front of everything used before. -/
theorem TrackedStore.Inv.used (hinv : t.Inv cfg h) {store : ResponseStore}
    {id : Bytes} {rest : List Bytes} (hlru : store.lru = id :: rest)
    (hsub : rest.Sublist t.store.lru) (hnot : id ∉ rest)
    (hstore : store.Inv cfg h) (hfits : store.Fits cfg) :
    (t.use store id).Inv cfg h where
  store := hstore
  fits := hfits
  recency := by
    have hold : ∀ a ∈ rest,
        update t.lastUse id (t.clock + 1) a = t.lastUse a := by
      intro a ha
      refine update_of_ne ?_ ..
      rintro rfl
      exact hnot ha
    show store.lru.Pairwise fun a b =>
      update t.lastUse id (t.clock + 1) b
        < update t.lastUse id (t.clock + 1) a
    rw [hlru]
    refine pairwise_cons.mpr ⟨?_, ?_⟩
    · intro b hb
      rw [hold b hb, update_self]
      have := hinv.past b
      omega
    · refine (hinv.recency.sublist hsub).imp_of_mem ?_
      intro a b ha hb hlt
      rw [hold a ha, hold b hb]
      exact hlt
  past := by
    intro i
    show update t.lastUse id (t.clock + 1) i ≤ t.clock + 1
    by_cases hi : i = id
    · rw [hi, update_self]
    · rw [update_of_ne hi]
      have := hinv.past i
      omega

theorem TrackedStore.init_inv : TrackedStore.Inv cfg h .init where
  store := ⟨nodup_nil, List.Perm.refl _, rfl⟩
  fits := ⟨Nat.zero_le _, Nat.zero_le _⟩
  recency := List.Pairwise.nil
  past := fun _ => le_refl _

/-- No allocation fails once the call has changed the store. -/
def StoreOperation.Settles : StoreOperation → Prop
  | .get _ => True
  | .put _ fate => ResponseStore.Settles fate
  | .erase _ counts => counts = true

theorem TrackedStore.step_inv {op : StoreOperation} (hsettles : op.Settles)
    (hinv : t.Inv cfg h) (hstep : t.step cfg h op = some t') :
    t'.Inv cfg h := by
  cases op with
  | get id =>
    simp only [TrackedStore.step, ResponseStore.get] at hstep
    cases hfind : t.store.find id with
    | none =>
      rw [hfind] at hstep
      cases hstep
      exact hinv
    | some record =>
      rw [hfind] at hstep
      cases hstep
      have hmem : id ∈ t.store.lru := by
        rw [← hinv.store.find_isSome, hfind]
        rfl
      have hnot : id ∉ t.store.lru.erase id := by
        rw [hinv.store.nodup.mem_erase_iff]
        exact fun hne => hne.1 rfl
      refine hinv.used rfl erase_sublist hnot
        ⟨?_, ?_, hinv.store.bytes⟩ ⟨hinv.fits.1, hinv.fits.2⟩
      · exact nodup_cons.mpr ⟨hnot, hinv.store.nodup.erase id⟩
      · exact (perm_cons_erase hmem).symm.trans hinv.store.perm
  | put record fate =>
    simp only [TrackedStore.step] at hstep
    obtain ⟨e, hput, -⟩ | ⟨-, hnew, m, -, hput, hfits, -⟩ :=
      put_spec hinv.store record hsettles
    · rw [hput] at hstep
      cases hstep
      exact hinv
    · rw [hput] at hstep
      cases hstep
      refine hinv.used rfl (take_sublist m _) ?_
        (keep_inv hinv.store hnew m) hfits
      intro hmem
      exact hnew (mem_of_mem_take hmem)
  | erase id counts =>
    obtain rfl : counts = true := hsettles
    simp only [TrackedStore.step] at hstep
    cases hstep
    obtain ⟨hstore, hfits, hlru⟩ :=
      erase_inv hinv.store hinv.fits id
    refine ⟨hstore, hfits, ?_, hinv.past⟩
    show (t.store.erase cfg h id true).2.state.lru.Pairwise _
    rw [hlru]
    exact hinv.recency.sublist erase_sublist

end

/-- What holds of a store in use. Its LRU list is a permutation of its
records, most recently used first; it is within its limits, and counts
every envelope and every reachable context node once. A `put` that settles
throws before it touches the store, for one of its three reasons or an
allocation that failed, or it puts the record in front and gives up the
shortest suffix of the LRU list that makes room. -/
structure StoreSound (cfg : StoreConfig) (h : ContextHeap)
    (t : TrackedStore) : Prop where
  perm : t.store.lru.Perm (t.store.records.map StoredResponse.id)
  nodup : t.store.lru.Nodup
  recency : t.store.lru.Pairwise fun a b => t.lastUse b < t.lastUse a
  size_le : t.store.records.length ≤ cfg.maxRecords
  bytes : t.store.currentBytes = storeBytes cfg h t.store.records
  bytes_le : t.store.currentBytes ≤ cfg.maxBytes
  put_thrown : ∀ record fate e s', ResponseStore.Settles fate →
    t.store.put cfg h record fate = some (.throw e s') →
    s' = t.store ∧ (t.store.refusal cfg h record = some e
      ∨ e = .badAlloc ∧ ∃ site, fate site = false)
  put_returned : ∀ record fate s', ResponseStore.Settles fate →
    t.store.put cfg h record fate = some (.ok s') →
    t.store.refusal cfg h record = none ∧ ∃ kept evicted,
      t.store.lru = kept ++ evicted
      ∧ s'.lru = record.id :: kept
      ∧ s'.records = record :: withIds t.store.records kept
      ∧ s'.currentBytes = storeBytes cfg h s'.records
      ∧ s'.Fits cfg
      ∧ ∀ kept' evicted', t.store.lru = kept' ++ evicted' →
        evicted'.length < evicted.length →
        cfg.maxRecords < (record
            :: withIds t.store.records kept').length
          ∨ cfg.maxBytes < storeBytes cfg h
              (record :: withIds t.store.records kept')

theorem TrackedStore.Inv.sound {cfg : StoreConfig} {h : ContextHeap}
    {t : TrackedStore} (hinv : t.Inv cfg h) : StoreSound cfg h t where
  perm := hinv.store.perm
  nodup := hinv.store.nodup
  recency := hinv.recency
  size_le := hinv.fits.size_le
  bytes := hinv.store.bytes
  bytes_le := hinv.fits.bytes_le
  put_thrown := by
    intro record fate e s' hfate hthrown
    obtain ⟨e', hput, hwhy⟩ | ⟨-, -, m, -, hput, -⟩ :=
      put_spec hinv.store record hfate
    · rw [hput] at hthrown
      cases hthrown
      exact ⟨rfl, hwhy⟩
    · rw [hput] at hthrown
      cases hthrown
  put_returned := by
    intro record fate s' hfate hreturned
    obtain ⟨e, hput, -⟩ | ⟨hr, -, m, hm, hput, hfits, hmin⟩ :=
      put_spec hinv.store record hfate
    · rw [hput] at hreturned
      cases hreturned
    rw [hput] at hreturned
    cases hreturned
    refine ⟨hr, t.store.lru.take m, t.store.lru.drop m,
      (take_append_drop m _).symm, rfl, rfl, rfl, hfits, ?_⟩
    intro kept' evicted' hsplit hshorter
    have hlength : t.store.lru.length = kept'.length + evicted'.length := by
      rw [hsplit, length_append]
    rw [length_drop] at hshorter
    have hkept : kept' = t.store.lru.take kept'.length := by
      rw [hsplit, take_left]
    have hno := hmin kept'.length (by omega) (by omega)
    by_contra hfit
    rw [not_or, not_lt, not_lt] at hfit
    refine hno ⟨?_, ?_⟩
    · show (record :: withIds t.store.records
        (t.store.lru.take kept'.length)).length ≤ _
      rw [← hkept]
      exact hfit.1
    · show storeBytes cfg h
        (record :: withIds t.store.records (t.store.lru.take kept'.length)) ≤ _
      rw [← hkept]
      exact hfit.2

/-- The store after any sequence of calls that settle; no call runs
forever. -/
theorem response_store_run (cfg : StoreConfig) (h : ContextHeap)
    (ops : List StoreOperation) (hsettle : ∀ op ∈ ops, op.Settles) :
    ∃ t, run (TrackedStore.step cfg h) .init ops = some t
      ∧ StoreSound cfg h t := by
  have hstep : ∀ (t : TrackedStore) (op : StoreOperation), op.Settles →
      t.Inv cfg h → ∃ t', t.step cfg h op = some t' := by
    intro t op hsettles hinv
    cases op with
    | get id =>
      simp only [TrackedStore.step]
      split
      · exact ⟨_, rfl⟩
      · exact ⟨_, rfl⟩
    | put record fate =>
      simp only [TrackedStore.step]
      obtain ⟨e, hput, -⟩ | ⟨-, -, m, -, hput, -⟩ :=
        ResponseStore.put_spec hinv.store record hsettles
      · rw [hput]
        exact ⟨_, rfl⟩
      · rw [hput]
        exact ⟨_, rfl⟩
    | erase id counts => exact ⟨_, rfl⟩
  have hrun : ∀ (ops : List StoreOperation) (t : TrackedStore),
      (∀ op ∈ ops, op.Settles) → t.Inv cfg h →
      ∃ t', run (TrackedStore.step cfg h) t ops = some t' ∧ t'.Inv cfg h := by
    intro ops
    induction ops with
    | nil =>
      intro t _ hinv
      exact ⟨t, rfl, hinv⟩
    | cons op rest ih =>
      intro t hsettle hinv
      obtain ⟨hsettles, hrest⟩ := List.forall_mem_cons.mp hsettle
      obtain ⟨t₁, ht₁⟩ := hstep t op hsettles hinv
      obtain ⟨t₂, hrun, hinv₂⟩ :=
        ih t₁ hrest (TrackedStore.step_inv hsettles hinv ht₁)
      refine ⟨t₂, ?_, hinv₂⟩
      unfold run
      rw [ht₁]
      exact hrun
  obtain ⟨t, ht, hinv⟩ := hrun ops .init hsettle TrackedStore.init_inv
  exact ⟨t, ht, hinv.sound⟩

/-- A store of two records. -/
def twoRecords : StoreConfig where
  maxRecords := 2
  maxBytes := 110
  sizeofStoredResponse := 10
  sizeofJson := 4
  max_records_pos := Nat.zero_lt_two
  max_bytes_pos := by decide

/-- Node 1 continues node 0. -/
def twoNodes : ContextHeap where
  parent n := if n = 1 then some 0 else none
  ownedBytes _ := 30
  parent_lt n p h := by
    split at h
    · cases h
      omega
    · cases h

/-- A response of five bytes with an input item, on `context`. -/
def responseOn (name : UInt8) (context : Nat) : StoredResponse :=
  ⟨[name], true, 5, [1], some context⟩

/-- Two responses that share a node, one put whose list node cannot be
made, and a third response that evicts the one used least. -/
def sharedOps : List StoreOperation :=
  [ .put (responseOn 97 0) fun _ => true,
    .put (responseOn 98 1) fun site => site ≠ .link,
    .put (responseOn 98 1) fun _ => true,
    .get [97],
    .put (responseOn 99 2) fun _ => true ]

theorem response_store_run_shared :
    ∃ t, run (TrackedStore.step twoRecords twoNodes) .init sharedOps = some t
      ∧ t.store.lru = [[99], [97]] ∧ StoreSound twoRecords twoNodes t := by
  have hsettle : ∀ op ∈ sharedOps, op.Settles := by
    simp only [sharedOps, forall_mem_cons, StoreOperation.Settles]
    exact ⟨⟨rfl, fun _ => rfl, fun _ => rfl⟩, ⟨rfl, fun _ => rfl, fun _ => rfl⟩,
      ⟨rfl, fun _ => rfl, fun _ => rfl⟩, trivial,
      ⟨rfl, fun _ => rfl, fun _ => rfl⟩, nofun⟩
  obtain ⟨t, ht, hsound⟩ :=
    response_store_run twoRecords twoNodes sharedOps hsettle
  refine ⟨t, ht, ?_, hsound⟩
  have hlru : (run (TrackedStore.step twoRecords twoNodes) .init sharedOps).map
      (fun t => t.store.lru) = some [[99], [97]] := by decide
  rw [ht] at hlru
  exact Option.some.inj hlru

/-- The map node of the first response cannot be made: its id stays in the
LRU list, and no record has it. -/
theorem response_store_orphan :
    ∃ t, run (TrackedStore.step twoRecords twoNodes) .init
        [.put (responseOn 97 0) fun site => site ≠ .index] = some t
      ∧ t.store.lru = [[97]] ∧ t.store.records = []
      ∧ ¬ StoreSound twoRecords twoNodes t := by
  refine ⟨_, rfl, rfl, rfl, fun hsound => ?_⟩
  exact absurd hsound.perm.length_eq (by decide)

end Ginfer.Serve
