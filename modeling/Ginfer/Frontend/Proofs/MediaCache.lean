/-
The books of the media cache, over every interleaving.

`Inv` is kept by every step but one: the LRU list and the map of ready
entries have the same keys, once each, and the retained bytes are their
sum (`Shelf`); an open flight is the one the map has for its key, has been
built at most once, and until it publishes its key is not ready
(`FlightOk`); the account holds what the unreleased payloads reserve; the
gate counts the permits. With that none of the `std::terminate` branches
is taken.

# The step that breaks it

The publishing section pushes the key onto the LRU list and then inserts
the entry into the map. When the map's node cannot be allocated the
exception becomes the flight's error, and the key stays on the list
without an entry: from there an eviction that reaches it terminates the
process (`orphan_terminates`). `MapNodes` is the condition that this
allocation does not fail; it is all `media_cache_run` needs.
-/
import Ginfer.Frontend.MediaCache
import Ginfer.Lib.Lists
import Ginfer.Lib.Runs

namespace Ginfer.Frontend.Media

open Ginfer.Lib List Option State Function

variable {Key : Type}

-- ============ the invariant

/-- What a payload weighs in the account. -/
def Payload.charge (p : Payload) : Nat := if p.released then 0 else p.bytes

/-- What a request weighs at the gate. -/
def Request.permits (q : Request Key) : Nat := if q.permit then 1 else 0

/-- The task has not been through its publishing section. -/
def Stage.unpublished : Stage → Bool
  | .settling _ _ | .closing | .closed => false
  | _ => true

/-- The task has not been started. -/
def Stage.unstarted : Stage → Bool
  | .created | .withdrawn | .queued => true
  | _ => false

/-- The flight whose submission the thread is in the middle of. -/
def Phase.submission : Phase → Option Nat
  | .submitting f | .withdrawing f _ => some f
  | _ => none

/-- The thread is between the gate and the end of its media. -/
def Phase.admitted : Phase → Bool
  | .arrived | .gate | .tokenizing | .failed _ | .succeeded => false
  | _ => true

/-- The LRU list and the ready entries. -/
structure Shelf (o : Setup Key) (s : State Key) : Prop where
  lru_nodup : s.lru.Nodup
  lru_perm : s.lru.Perm (keys s.ready)
  retained : s.retainedBytes = (s.ready.map fun e => e.2.bytes).sum
  retained_le : s.retainedBytes ≤ o.capacityBytes

/-- A flight. -/
structure FlightOk (s : State Key) (f : Nat) (fl : Flight Key) : Prop where
  inMap : fl.stage ≠ .closed → s.inflight fl.key = some f
  unpublished : fl.stage.unpublished = true → fl.key ∉ keys s.ready
  reserved : ∀ media, fl.stage = .filling media →
    s.payloads[media.payload]? = some ⟨media.bytes, f, false⟩
  once : fl.builds ≤ 1
  fresh : fl.stage.unstarted = true → fl.builds = 0

/-- The thread of a request, as far as the gate and a flight depend on
it. -/
structure RequestOk (s : State Key) (r : Nat) (q : Request Key) : Prop where
  gate : q.permit = q.phase.admitted
  submits : ∀ f, q.phase = .submitting f → ∃ fl, s.flights[f]? = some fl
    ∧ fl.producer = r ∧ fl.stage = .created
  withdraws : ∀ f e, q.phase = .withdrawing f e →
    ∃ fl, s.flights[f]? = some fl ∧ fl.producer = r ∧ fl.stage = .withdrawn

/-- What every step keeps. -/
structure Inv (o : Setup Key) (s : State Key) : Prop where
  alive : s.terminated = false
  shelf : Shelf o s
  flights : ∀ f fl, s.flights[f]? = some fl → FlightOk s f fl
  map : ∀ key f, s.inflight key = some f → ∃ fl, s.flights[f]? = some fl
    ∧ fl.key = key ∧ fl.stage ≠ .closed
  live : s.live = (s.payloads.map Payload.charge).sum
  live_le : s.live ≤ o.liveLimit
  queue_nodup : s.queue.Nodup
  queued : ∀ f ∈ s.queue, ∃ fl, s.flights[f]? = some fl ∧ fl.stage = .queued
  permits : s.active = (s.requests.map Request.permits).sum
  requests : ∀ r q, s.requests[r]? = some q → RequestOk s r q

variable {o : Setup Key} {s s' : State Key}

-- ============ frames

variable {fl : Flight Key} {f : Nat}

/-- A flight reads the map at its key, the ready keys and its payload. -/
theorem FlightOk.frame (h : FlightOk s f fl)
    (hmap : fl.stage ≠ .closed → s'.inflight fl.key = s.inflight fl.key)
    (hready : fl.key ∈ keys s'.ready → fl.key ∈ keys s.ready)
    (hpayloads : ∀ (p : Nat) (payload : Payload),
      s.payloads[p]? = some payload → payload.released = false →
      payload.owner = f → s'.payloads[p]? = some payload) :
    FlightOk s' f fl where
  inMap := fun hopen => (hmap hopen).trans (h.inMap hopen)
  unpublished := fun hun hmem => h.unpublished hun (hready hmem)
  reserved := fun media hfill =>
    hpayloads _ _ (h.reserved media hfill) rfl rfl
  once := h.once
  fresh := h.fresh

/-- The flight moves on, towards its publication. -/
theorem FlightOk.moves (h : FlightOk s f fl)
    (hrun : fl.stage.running = true) {stage : Stage}
    (hun : stage.unpublished = true → fl.stage.unpublished = true)
    (hstarted : stage.unstarted = false)
    (hfill : ∀ media, stage ≠ .filling media) :
    FlightOk s f { fl with stage := stage } where
  inMap := by
    intro _
    refine h.inMap fun hclosed => ?_
    rw [hclosed] at hrun
    cases hrun
  unpublished := fun hnew => h.unpublished (hun hnew)
  reserved := fun media heq => absurd heq (hfill media)
  once := h.once
  fresh := by
    intro hnew
    rw [hstarted] at hnew
    cases hnew

/-- A request's thread reads the flight it submits. -/
theorem RequestOk.frame {r : Nat} {q : Request Key} (h : RequestOk s r q)
    (hflights : ∀ f fl, s.flights[f]? = some fl →
      q.phase.submission = some f → s'.flights[f]? = some fl) :
    RequestOk s' r q where
  gate := h.gate
  submits := by
    intro f hphase
    obtain ⟨fl, hfl, hrest⟩ := h.submits f hphase
    exact ⟨fl, hflights f fl hfl (by rw [hphase]; rfl), hrest⟩
  withdraws := by
    intro f e hphase
    obtain ⟨fl, hfl, hrest⟩ := h.withdraws f e hphase
    exact ⟨fl, hflights f fl hfl (by rw [hphase]; rfl), hrest⟩

/-- A thread that submits nothing. -/
theorem RequestOk.quiet {r : Nat} {q : Request Key}
    (hgate : q.permit = q.phase.admitted)
    (h : q.phase.submission = none) : RequestOk s r q where
  gate := hgate
  submits := fun f hphase => by rw [hphase] at h; cases h
  withdraws := fun f e hphase => by rw [hphase] at h; cases h

/-- The permits, after a request was written. -/
theorem permits_set {r : Nat} {q : Request Key} (q' : Request Key)
    (hq : s.requests[r]? = some q) (hpermit : q'.permit = q.permit) :
    ((s.requests.set r q').map Request.permits).sum
      = (s.requests.map Request.permits).sum := by
  have hsum := sum_map_set Request.permits q' hq
  have hsame : q'.permits = q.permits := by
    unfold Request.permits
    rw [hpermit]
  omega

variable (h : Inv o s)

include h

/-- A request is written that keeps its permit. -/
theorem Inv.setRequest {r : Nat} {q q' : Request Key}
    (hq : s.requests[r]? = some q) (hpermit : q'.permit = q.permit)
    (hok : RequestOk s r q') : Inv o (s.setRequest r q') where
  alive := h.alive
  shelf := { h.shelf with }
  flights := fun f fl hfl => (h.flights f fl hfl).frame (fun _ => rfl) id
    fun _ _ hp _ _ => hp
  map := h.map
  live := h.live
  live_le := h.live_le
  queue_nodup := h.queue_nodup
  queued := h.queued
  permits := h.permits.trans (permits_set q' hq hpermit).symm
  requests := by
    intro r' x hx
    rcases getElem?_set_cases hx with ⟨rfl, rfl⟩ | ⟨-, hold⟩
    · exact { hok with }
    · have hr := h.requests r' x hold
      exact { hr with }

/-- The same for a thread that then submits nothing, on its side of the
gate. -/
theorem Inv.setQuiet {r : Nat} {q q' : Request Key}
    (hq : s.requests[r]? = some q) (hpermit : q'.permit = q.permit)
    (hquiet : q'.phase.submission = none)
    (hside : q'.phase.admitted = q.phase.admitted) :
    Inv o (s.setRequest r q') := by
  have hgate : q'.permit = q'.phase.admitted := by
    rw [hpermit, hside]
    exact (h.requests r q hq).gate
  exact h.setRequest hq hpermit (.quiet hgate hquiet)

/-- A flight is submitted by its producer. -/
theorem Inv.submission_producer {r f : Nat} {q : Request Key}
    (hq : s.requests[r]? = some q)
    (hsub : q.phase.submission = some f) (hfl : s.flights[f]? = some fl) :
    fl.producer = r ∧ fl.stage.running = false ∧ fl.stage ≠ .queued := by
  cases hphase : q.phase with
  | submitting f' =>
    rw [hphase] at hsub
    cases hsub
    obtain ⟨fl₀, hfl₀, hprod, hstage⟩ := (h.requests r q hq).submits _ hphase
    obtain rfl := some.inj (hfl.symm.trans hfl₀)
    rw [hstage]
    exact ⟨hprod, rfl, nofun⟩
  | withdrawing f' e =>
    rw [hphase] at hsub
    cases hsub
    obtain ⟨fl₀, hfl₀, hprod, hstage⟩ :=
      (h.requests r q hq).withdraws _ e hphase
    obtain rfl := some.inj (hfl.symm.trans hfl₀)
    rw [hstage]
    exact ⟨hprod, rfl, nofun⟩
  | _ => rw [hphase] at hsub; cases hsub

variable {key : Key}

/-- The map, while an open flight of it is written. -/
theorem Inv.map_kept (hfl : s.flights[f]? = some fl) (fl' : Flight Key)
    (hkey : fl'.key = fl.key) (hopen : fl'.stage ≠ .closed)
    {g : Nat} (hg : s.inflight key = some g) : ∃ gl,
      (s.flights.set f fl')[g]? = some gl ∧ gl.key = key
        ∧ gl.stage ≠ .closed := by
  obtain ⟨gl, hgl, hgkey, hgopen⟩ := h.map key g hg
  by_cases heq : g = f
  · subst heq
    obtain rfl := some.inj (hfl.symm.trans hgl)
    exact ⟨fl', getElem?_set_same hfl, hkey.trans hgkey, hopen⟩
  · exact ⟨gl, (getElem?_set_ne (Ne.symm heq)).trans hgl, hgkey, hgopen⟩

/-- A flight under way is written. -/
theorem Inv.setFlight {fl fl' : Flight Key}
    (hfl : s.flights[f]? = some fl) (hrun : fl.stage.running = true)
    (hkey : fl'.key = fl.key) (hopen : fl'.stage ≠ .closed)
    (hok : FlightOk s f fl') : Inv o (s.setFlight f fl') where
  alive := h.alive
  shelf := { h.shelf with }
  flights := by
    intro g gl hgl
    rcases getElem?_set_cases hgl with ⟨rfl, rfl⟩ | ⟨-, hold⟩
    · exact hok.frame (fun _ => rfl) id fun _ _ hp _ _ => hp
    · exact { h.flights g gl hold with }
  map := fun _ _ hg => h.map_kept hfl fl' hkey hopen hg
  live := h.live
  live_le := h.live_le
  queue_nodup := h.queue_nodup
  queued := by
    intro g hg
    obtain ⟨gl, hgl, hstage⟩ := h.queued g hg
    have hne : g ≠ f := by
      rintro rfl
      obtain rfl := some.inj (hfl.symm.trans hgl)
      rw [hstage] at hrun
      cases hrun
    exact ⟨gl, (getElem?_set_ne (Ne.symm hne)).trans hgl, hstage⟩
  permits := h.permits
  requests := by
    intro r q hq
    -- the flight under way is nobody's submission
    refine (h.requests r q hq).frame fun g gl hgl hsub => ?_
    have hne : g ≠ f := by
      rintro rfl
      obtain rfl := some.inj (hfl.symm.trans hgl)
      obtain ⟨-, hstopped, -⟩ := h.submission_producer hq hsub hgl
      rw [hstopped] at hrun
      cases hrun
    exact (getElem?_set_ne (Ne.symm hne)).trans hgl

-- ============ the account

/-- The deleter of an unreleased payload nobody is filling. -/
theorem Inv.release {p : Nat} {payload : Payload}
    (hp : s.payloads[p]? = some payload) (hlive : payload.released = false)
    (hfree : ∀ (f : Nat) (fl : Flight Key) (media : PreparedMedia),
      s.flights[f]? = some fl → fl.stage = .filling media →
      media.payload ≠ p) :
    Inv o (s.release p payload) := by
  have hcharge : payload.charge = payload.bytes := by
    unfold Payload.charge
    rw [hlive]
    rfl
  have hle : payload.bytes ≤ s.live := by
    rw [h.live, ← hcharge]
    exact le_sum_map Payload.charge hp
  have hsum := sum_map_set Payload.charge { payload with released := true } hp
  have hzero : Payload.charge { payload with released := true } = 0 := rfl
  unfold State.release
  rw [if_neg (by omega)]
  refine ⟨h.alive, { h.shelf with }, ?_, h.map, ?_, ?_, h.queue_nodup, h.queued,
    h.permits, fun r q hq => (h.requests r q hq).frame fun _ _ hfl _ => hfl⟩
  · intro f fl hfl
    have hok := h.flights f fl hfl
    refine ⟨hok.inMap, hok.unpublished, fun media hfill => ?_, hok.once,
      hok.fresh⟩
    have hne : p ≠ media.payload := (hfree f fl media hfl hfill).symm
    exact (getElem?_set_ne hne).trans (hok.reserved media hfill)
  · show s.live - payload.bytes
      = ((s.payloads.set p { payload with released := true }).map
          Payload.charge).sum
    have hlive' := h.live
    omega
  · have hle' := h.live_le
    show s.live - payload.bytes ≤ o.liveLimit
    omega

/-- A reservation within the limit. -/
theorem Inv.addPayload {f bytes : Nat} (hfits : s.live + bytes ≤ o.liveLimit) :
    Inv o (s.addPayload f bytes) := by
  refine ⟨h.alive, { h.shelf with }, ?_, h.map, ?_, hfits, h.queue_nodup, h.queued,
    h.permits, fun r q hq => (h.requests r q hq).frame fun _ _ hfl _ => hfl⟩
  · exact fun g gl hgl => (h.flights g gl hgl).frame (fun _ => rfl) id
      fun _ _ hp _ _ => getElem?_concat_old hp
  · show s.live + bytes
      = ((s.payloads ++ [(⟨bytes, f, false⟩ : Payload)]).map Payload.charge).sum
    rw [map_append, sum_append, ← h.live]
    rfl

-- ============ the shelf

/-- Entries come and go; nothing else changes. -/
theorem Inv.reshelve {lru : List Key}
    {ready : List (Key × Ready)} {retained : Nat}
    (hshelf : Shelf o { s with
      lru := lru, ready := ready, retainedBytes := retained })
    (hready : ∀ (f : Nat) (fl : Flight Key), s.flights[f]? = some fl →
      fl.stage.unpublished = true → fl.key ∈ keys ready →
      fl.key ∈ keys s.ready) :
    Inv o { s with
      lru := lru, ready := ready, retainedBytes := retained } := by
  refine ⟨h.alive, hshelf, fun f fl hfl => ?_, h.map, h.live, h.live_le,
    h.queue_nodup, h.queued, h.permits,
    fun r q hq => (h.requests r q hq).frame fun _ _ hfl _ => hfl⟩
  have hok := h.flights f fl hfl
  exact ⟨hok.inMap, fun hun hmem =>
    hok.unpublished hun (hready f fl hfl hun hmem), hok.reserved, hok.once,
    hok.fresh⟩

omit h

/-- A state after evictions. -/
def Evicted (o : Setup Key) (s s' : State Key) : Prop :=
  ∃ lru ready retained, s' = { s with
      lru := lru, ready := ready, retainedBytes := retained }
    ∧ Shelf o s' ∧ ∀ key, key ∈ keys ready → key ∈ keys s.ready

theorem Evicted.refl (h : Shelf o s) : Evicted o s s :=
  ⟨s.lru, s.ready, s.retainedBytes, rfl, h, fun _ hk => hk⟩

theorem Evicted.trans {s'' : State Key} (h : Evicted o s s')
    (h' : Evicted o s' s'') : Evicted o s s'' := by
  obtain ⟨lru, ready, retained, rfl, -, hready⟩ := h
  obtain ⟨lru', ready', retained', rfl, hshelf, hready'⟩ := h'
  exact ⟨lru', ready', retained', rfl, hshelf,
    fun key hk => hready key (hready' key hk)⟩

theorem Evicted.inv (h : Evicted o s s') (hinv : Inv o s) : Inv o s' := by
  obtain ⟨lru, ready, retained, rfl, hshelf, hready⟩ := h
  exact hinv.reshelve hshelf fun _ fl _ _ hk => hready fl.key hk

/-- The last key of the list has an entry, and it goes. -/
theorem evictOneLocked_evicted [DecidableEq Key] (h : Shelf o s) :
    Evicted o s s.evictOneLocked.1
      ∧ (s.evictOneLocked.2 = false → s.lru = []) := by
  unfold evictOneLocked
  split
  · next hnone =>
    exact ⟨.refl h, fun _ => getLast?_eq_none_iff.mp hnone⟩
  · next key hlast =>
    obtain ⟨front, hfront⟩ := getLast?_eq_some_iff.mp hlast
    have hmem : key ∈ keys s.ready := by
      rw [← h.lru_perm.mem_iff, hfront]
      simp
    have hkeys : (keys s.ready).Nodup :=
      h.lru_perm.nodup_iff.mp h.lru_nodup
    cases hfind : s.ready.find? fun e => e.1 = key with
    | none => exact absurd hmem (find?_eq_none_iff.mp hfind)
    | some entry =>
      have hsum := eraseKey_sum (fun e => e.2.bytes) hkeys hfind
      have hretained := h.retained
      unfold findReady
      rw [hfind]
      dsimp only [map_some]
      rw [if_neg (by omega)]
      refine ⟨⟨_, _, _, rfl, ⟨?_, ?_, ?_, ?_⟩, ?_⟩, nofun⟩
      · exact h.lru_nodup.sublist (dropLast_sublist _)
      · have hnodup := h.lru_nodup
        rw [hfront] at hnodup
        have hnot : key ∉ front := by
          intro hin
          exact (nodup_append.mp hnodup).2.2 key hin key
            (mem_singleton_self key) rfl
        have hfilter : front = (front ++ [key]).filter (· ≠ key) := by
          rw [filter_append, filter_eq_self.mpr]
          · simp
          · intro x hx
            refine decide_eq_true fun heq => hnot ?_
            rw [← heq]
            exact hx
        show s.lru.dropLast.Perm (keys (s.ready.filter fun e => e.1 ≠ key))
        rw [keys_eraseKey, hfront, dropLast_concat]
        have hperm := h.lru_perm.filter (fun x => decide (x ≠ key))
        rw [hfront, ← hfilter] at hperm
        exact hperm
      · show s.retainedBytes - entry.2.bytes
          = ((s.ready.filter fun e => e.1 ≠ key).map
              fun e => e.2.bytes).sum
        omega
      · have hle := h.retained_le
        show s.retainedBytes - entry.2.bytes ≤ o.capacityBytes
        omega
      · intro x hx
        rw [keys_eraseKey] at hx
        exact mem_of_mem_filter hx

theorem makeRoom_evicted [DecidableEq Key] (o : Setup Key) (bytes fuel : Nat) :
    ∀ {s : State Key}, Shelf o s →
      Evicted o s (makeRoom o bytes fuel s) := by
  induction fuel with
  | zero => exact fun h => .refl h
  | succ fuel ih =>
    intro s h
    unfold makeRoom
    split
    · exact .refl h
    have hevict := (evictOneLocked_evicted h).1
    split
    · next s' heq =>
      rw [heq] at hevict
      obtain ⟨lru, ready, retained, hs', hshelf, hready⟩ := hevict
      exact Evicted.trans ⟨lru, ready, retained, hs', hshelf, hready⟩
        (ih hshelf)
    · next s' heq =>
      rw [heq] at hevict
      exact hevict

/-- The shelf is its own part of the state. -/
theorem Shelf.congr (h : Shelf o s) (hlru : s'.lru = s.lru)
    (hready : s'.ready = s.ready)
    (hretained : s'.retainedBytes = s.retainedBytes) : Shelf o s' := by
  refine ⟨?_, ?_, ?_, ?_⟩
  · rw [hlru]
    exact h.lru_nodup
  · rw [hlru, hready]
    exact h.lru_perm
  · rw [hretained, hready]
    exact h.retained
  · rw [hretained]
    exact h.retained_le

/-- What the publishing section does to the shelf. -/
theorem publish_shelf [DecidableEq Key] (h : Shelf o s)
    (hkey : key ∉ keys s.ready) (media : PreparedMedia) {turn : Turn}
    (hnode : turn ≠ .noMapNode) :
    ∃ lru ready retained, (s.publish o key media turn).1 = { s with
        lru := lru, ready := ready, retainedBytes := retained }
      ∧ Shelf o { s with
        lru := lru, ready := ready, retainedBytes := retained }
      ∧ ∀ key', key' ∈ keys ready → key' = key ∨ key' ∈ keys s.ready := by
  unfold publish
  split
  · obtain ⟨lru, ready, retained, hroom, hshelf, hready⟩ :=
      makeRoom_evicted o media.bytes s.lru.length h
    rw [hroom] at hshelf
    rw [hroom]
    dsimp only
    have hout : key ∉ keys ready := fun hmem => hkey (hready key hmem)
    split
    · next hfits =>
      cases turn with
      | noMapNode => exact absurd rfl hnode
      | noMemory =>
        exact ⟨lru, ready, retained, rfl, hshelf,
          fun key' hk => Or.inr (hready key' hk)⟩
      | _ =>
        have hfind : findReady { s with
            lru := lru, ready := ready, retainedBytes := retained } key
              = none := by
          unfold findReady
          rw [find?_eq_none_iff.mpr hout]
          rfl
        rw [hfind]
        refine ⟨_, _, _, rfl, ⟨?_, ?_, ?_, ?_⟩, ?_⟩
        · refine nodup_cons.mpr ⟨fun hmem => hout ?_, hshelf.lru_nodup⟩
          exact hshelf.lru_perm.mem_iff.mp hmem
        · exact hshelf.lru_perm.cons key
        · have hretained : retained
              = (ready.map fun e => e.2.bytes).sum := hshelf.retained
          show retained + media.bytes
            = media.bytes + (ready.map fun e => e.2.bytes).sum
          omega
        · show retained + media.bytes ≤ o.capacityBytes
          omega
        · intro key' hk
          rcases mem_cons.mp hk with rfl | hk
          · exact Or.inl rfl
          · exact Or.inr (hready key' hk)
    · exact ⟨lru, ready, retained, rfl, hshelf,
        fun key' hk => Or.inr (hready key' hk)⟩
  · exact ⟨s.lru, s.ready, s.retainedBytes, rfl, h, fun _ hk => Or.inr hk⟩

/-- The publishing section keeps the books when the map's node can be
allocated. -/
theorem publish_inv [DecidableEq Key] (h : Inv o s)
    (hfl : s.flights[f]? = some fl) {media : PreparedMedia}
    (hstage : fl.stage = .publishing media) {turn : Turn}
    (hnode : turn ≠ .noMapNode) (error : Option PrepareError) :
    Inv o ((s.publish o fl.key media turn).1.setFlight f { fl with
      stage := .settling (some media) error }) := by
  have hok := h.flights f fl hfl
  have hrun : fl.stage.running = true := by rw [hstage]; rfl
  have hopen : fl.stage ≠ .closed := by rw [hstage]; nofun
  obtain ⟨lru, ready, retained, hpublish, hshelf, hready⟩ :=
    publish_shelf h.shelf (hok.unpublished (by rw [hstage]; rfl)) media hnode
  have hset : Inv o (s.setFlight f { fl with
      stage := .settling (some media) error }) :=
    h.setFlight hfl hrun rfl nofun (hok.moves hrun nofun rfl nofun)
  rw [hpublish]
  refine hset.reshelve (hshelf.congr rfl rfl rfl) fun g gl hgl hun hmem => ?_
  rcases getElem?_set_cases hgl with ⟨rfl, rfl⟩ | ⟨hne, hold⟩
  · cases hun
  · rcases hready gl.key hmem with heq | hmem
    · -- two open flights of one key are one
      have hgopen : gl.stage ≠ .closed := by
        intro hclosed
        rw [hclosed] at hun
        cases hun
      have hg := (h.flights g gl hold).inMap hgopen
      rw [heq, hok.inMap hopen] at hg
      exact absurd (some.inj hg).symm hne
    · exact hmem

/-- A hit moves its key to the front. -/
theorem Inv.touch [DecidableEq Key] (h : Inv o s)
    (hkey : key ∈ keys s.ready) : Inv o (s.touch key) := by
  have hmem : key ∈ s.lru := h.shelf.lru_perm.mem_iff.mpr hkey
  have hperm : (key :: s.lru.erase key).Perm s.lru :=
    (perm_cons_erase hmem).symm
  have hshelf : Shelf o { s with lru := key :: s.lru.erase key } :=
    ⟨hperm.nodup_iff.mpr h.shelf.lru_nodup, hperm.trans h.shelf.lru_perm,
      h.shelf.retained, h.shelf.retained_le⟩
  exact h.reshelve hshelf fun _ _ _ _ hk => hk

-- ============ flights and the map

/-- A flight enters the map for a key that is neither ready nor in
flight. -/
theorem Inv.addFlight [DecidableEq Key] (h : Inv o s) {r : Nat}
    (hready : key ∉ keys s.ready) (hmap : s.inflight key = none) :
    Inv o (s.addFlight key r) := by
  have hother : ∀ (f : Nat) (fl : Flight Key), s.flights[f]? = some fl →
      fl.stage ≠ .closed → fl.key ≠ key := by
    intro f fl hfl hopen heq
    have hin := (h.flights f fl hfl).inMap hopen
    rw [heq, hmap] at hin
    cases hin
  refine ⟨h.alive, { h.shelf with }, ?_, ?_, h.live, h.live_le, h.queue_nodup, ?_,
    h.permits, ?_⟩
  · intro f fl hfl
    rcases getElem?_concat_cases hfl with ⟨rfl, rfl⟩ | hold
    · exact ⟨fun _ => update_self .., fun _ => hready, nofun,
        Nat.zero_le _, fun _ => rfl⟩
    · exact (h.flights f fl hold).frame
        (fun hopen => update_of_ne (hother f fl hold hopen) ..) id
        fun _ _ hp _ _ => hp
  · intro key' f hf
    by_cases heq : key' = key
    · subst heq
      rw [show (s.addFlight key' r).inflight key' = some s.flights.length
        from update_self ..] at hf
      cases hf
      exact ⟨_, getElem?_concat_length, rfl, nofun⟩
    · have hold : s.inflight key' = some f :=
        (update_of_ne heq ..).symm.trans hf
      obtain ⟨fl, hfl, hrest⟩ := h.map key' f hold
      exact ⟨fl, getElem?_concat_old hfl, hrest⟩
  · intro f hf
    obtain ⟨fl, hfl, hstage⟩ := h.queued f hf
    exact ⟨fl, getElem?_concat_old hfl, hstage⟩
  · intro r' q hq
    exact (h.requests r' q hq).frame fun f fl hfl _ =>
      getElem?_concat_old hfl

/-- A flight leaves the map. -/
theorem closed_flights [DecidableEq Key] (h : Inv o s)
    (hfl : s.flights[f]? = some fl) (hopen : fl.stage ≠ .closed) :
    (∀ g gl, (s.flights.set f { fl with stage := .closed })[g]? = some gl →
      FlightOk ((s.eraseFlight fl.key).setFlight f
        { fl with stage := .closed }) g gl)
    ∧ ∀ key g, ((s.eraseFlight fl.key).setFlight f
        { fl with stage := .closed }).inflight key = some g →
      ∃ gl, (s.flights.set f { fl with stage := .closed })[g]? = some gl
        ∧ gl.key = key ∧ gl.stage ≠ .closed := by
  have hok := h.flights f fl hfl
  refine ⟨?_, ?_⟩
  · intro g gl hgl
    rcases getElem?_set_cases hgl with ⟨rfl, rfl⟩ | ⟨hne, hold⟩
    · exact ⟨fun hno => absurd rfl hno, nofun, nofun, hok.once, nofun⟩
    · refine (h.flights g gl hold).frame (fun hgopen => ?_) id
        fun _ _ hp _ _ => hp
      refine update_of_ne (fun heq => hne ?_) ..
      have hg := (h.flights g gl hold).inMap hgopen
      rw [heq, hok.inMap hopen] at hg
      exact (some.inj hg).symm
  · intro key g hg
    have hne : key ≠ fl.key := by
      rintro rfl
      rw [show ((s.eraseFlight fl.key).setFlight f
        { fl with stage := .closed }).inflight fl.key = none from
          update_self ..] at hg
      cases hg
    have hold : s.inflight key = some g :=
      (update_of_ne hne ..).symm.trans hg
    obtain ⟨gl, hgl, hkey, hgopen⟩ := h.map key g hold
    have hgf : g ≠ f := by
      rintro rfl
      obtain rfl := some.inj (hfl.symm.trans hgl)
      exact hne hkey.symm
    exact ⟨gl, (getElem?_set_ne (Ne.symm hgf)).trans hgl, hkey, hgopen⟩

/-- A task that is done leaves the map. -/
theorem Inv.closeFlight [DecidableEq Key] (h : Inv o s)
    (hfl : s.flights[f]? = some fl) (hrun : fl.stage.running = true) :
    Inv o ((s.eraseFlight fl.key).setFlight f
      { fl with stage := .closed }) := by
  have hopen : fl.stage ≠ .closed := by
    intro hclosed
    rw [hclosed] at hrun
    cases hrun
  obtain ⟨hflights, hmap⟩ := closed_flights h hfl hopen
  have hkept : ∀ (g : Nat) (gl : Flight Key), s.flights[g]? = some gl →
      gl.stage.running = false →
      (s.flights.set f { fl with stage := .closed })[g]? = some gl := by
    intro g gl hgl hstopped
    refine (getElem?_set_ne ?_).trans hgl
    rintro rfl
    obtain rfl := some.inj (hfl.symm.trans hgl)
    rw [hstopped] at hrun
    cases hrun
  refine ⟨h.alive, { h.shelf with }, hflights, hmap, h.live, h.live_le, h.queue_nodup,
    ?_, h.permits, ?_⟩
  · intro g hg
    obtain ⟨gl, hgl, hstage⟩ := h.queued g hg
    exact ⟨gl, hkept g gl hgl (by rw [hstage]; rfl), hstage⟩
  · intro r q hq
    exact (h.requests r q hq).frame fun g gl hgl hsub =>
      hkept g gl hgl (h.submission_producer hq hsub hgl).2.1

section

variable {r f : Nat} {q : Request Key} {fl : Flight Key}

variable (h : Inv o s) (hq : s.requests[r]? = some q)

include h hq

/-- The threads of the other requests, while this one writes the flight it
submits. -/
theorem Inv.others
    (hsub : q.phase.submission = some f) (hfl : s.flights[f]? = some fl)
    (fl' : Flight Key) {r' : Nat} {x : Request Key} (hne : r' ≠ r)
    (hx : s.requests[r']? = some x) {t : State Key}
    (ht : t.flights = s.flights.set f fl') : RequestOk t r' x := by
  refine (h.requests r' x hx).frame fun g gl hgl hgsub => ?_
  rw [ht]
  refine (getElem?_set_ne ?_).trans hgl
  rintro rfl
  obtain rfl := some.inj (hfl.symm.trans hgl)
  have hmine := (h.submission_producer hq hsub hfl).1
  have htheirs := (h.submission_producer hx hgsub hfl).1
  exact hne (htheirs.symm.trans hmine)

/-- The queue, while a flight that is not in it is written. -/
theorem Inv.queue_kept
    (hsub : q.phase.submission = some f) (hfl : s.flights[f]? = some fl)
    (fl' : Flight Key) : f ∉ s.queue ∧ ∀ g ∈ s.queue,
      ∃ gl, (s.flights.set f fl')[g]? = some gl ∧ gl.stage = .queued := by
  have hout : f ∉ s.queue := by
    intro hmem
    obtain ⟨gl, hgl, hstage⟩ := h.queued f hmem
    obtain rfl := some.inj (hfl.symm.trans hgl)
    exact (h.submission_producer hq hsub hfl).2.2 hstage
  refine ⟨hout, fun g hg => ?_⟩
  obtain ⟨gl, hgl, hstage⟩ := h.queued g hg
  refine ⟨gl, (getElem?_set_ne ?_).trans hgl, hstage⟩
  rintro rfl
  exact hout hg

/-- The pool took the task. -/
theorem Inv.submitted
    (hphase : q.phase = .submitting f) (hfl : s.flights[f]? = some fl)
    {q' : Request Key} (hpermit : q'.permit = q.permit)
    (hquiet : q'.phase.submission = none) (hside : q'.phase.admitted = true) :
    Inv o (((s.enqueue f).setFlight f { fl with stage := .queued }
      ).setRequest r q') := by
  have hsub : q.phase.submission = some f := by rw [hphase]; rfl
  have hok := h.flights f fl hfl
  obtain ⟨fl₀, hfl₀, hprod, hstage⟩ := (h.requests r q hq).submits f hphase
  obtain rfl := some.inj (hfl.symm.trans hfl₀)
  obtain ⟨hout, hqueue⟩ := h.queue_kept hq hsub hfl { fl with stage := .queued }
  refine ⟨h.alive, { h.shelf with }, ?_, ?_, h.live, h.live_le, ?_, ?_, ?_, ?_⟩
  · intro g gl hgl
    rcases getElem?_set_cases hgl with ⟨rfl, rfl⟩ | ⟨-, hold⟩
    · exact ⟨fun _ => hok.inMap (by rw [hstage]; nofun),
        fun _ => hok.unpublished (by rw [hstage]; rfl), nofun, hok.once,
        fun _ => hok.fresh (by rw [hstage]; rfl)⟩
    · exact { h.flights g gl hold with }
  · exact fun _ _ hg =>
      h.map_kept hfl { fl with stage := .queued } rfl nofun hg
  · refine nodup_append.mpr ⟨h.queue_nodup, nodup_singleton f, ?_⟩
    intro a ha b hb heq
    rw [heq, mem_singleton.mp hb] at ha
    exact hout ha
  · intro g hg
    rcases mem_append.mp hg with hg | hg
    · exact hqueue g hg
    · obtain rfl := mem_singleton.mp hg
      exact ⟨_, getElem?_set_same hfl, rfl⟩
  · exact h.permits.trans (permits_set q' hq hpermit).symm
  · intro r' x hx
    rcases getElem?_set_cases hx with ⟨rfl, rfl⟩ | ⟨hne, hold⟩
    · refine .quiet ?_ hquiet
      rw [hpermit, hside, (h.requests r' q hq).gate, hphase]
      rfl
    · exact h.others hq hsub hfl _ hne hold rfl

/-- The submission threw: the flight is done. -/
theorem Inv.withdrawn
    (hphase : q.phase = .submitting f) (hfl : s.flights[f]? = some fl)
    (e : PrepareError) :
    Inv o ((s.setFlight f { fl with
        stage := .withdrawn, error := some e, done := true }).setRequest r
      { q with phase := .withdrawing f e }) := by
  have hsub : q.phase.submission = some f := by rw [hphase]; rfl
  have hok := h.flights f fl hfl
  obtain ⟨fl₀, hfl₀, hprod, hstage⟩ := (h.requests r q hq).submits f hphase
  obtain rfl := some.inj (hfl.symm.trans hfl₀)
  refine ⟨h.alive, { h.shelf with }, ?_, ?_, h.live, h.live_le, h.queue_nodup,
    (h.queue_kept hq hsub hfl _).2, ?_, ?_⟩
  · intro g gl hgl
    rcases getElem?_set_cases hgl with ⟨rfl, rfl⟩ | ⟨-, hold⟩
    · exact ⟨fun _ => hok.inMap (by rw [hstage]; nofun),
        fun _ => hok.unpublished (by rw [hstage]; rfl), nofun, hok.once,
        fun _ => hok.fresh (by rw [hstage]; rfl)⟩
    · exact { h.flights g gl hold with }
  · exact fun _ _ hg => h.map_kept hfl { fl with
      stage := .withdrawn, error := some e, done := true } rfl nofun hg
  · exact h.permits.trans
      (permits_set { q with phase := .withdrawing f e } hq rfl).symm
  · intro r' x hx
    rcases getElem?_set_cases hx with ⟨rfl, rfl⟩ | ⟨hne, hold⟩
    · refine ⟨?_, nofun, fun f' e' hphase' => ?_⟩
      · show q.permit = true
        rw [(h.requests r' q hq).gate, hphase]
        rfl
      obtain ⟨rfl, rfl⟩ := Phase.withdrawing.inj hphase'
      exact ⟨_, getElem?_set_same hfl, hprod, rfl⟩
    · exact h.others hq hsub hfl _ hne hold rfl

/-- A withdrawn flight leaves the map. -/
theorem Inv.erased [DecidableEq Key] {e : PrepareError} (hphase : q.phase = .withdrawing f e)
    (hfl : s.flights[f]? = some fl) {q' : Request Key}
    (hpermit : q'.permit = q.permit) (hquiet : q'.phase.submission = none)
    (hside : q'.phase.admitted = true) :
    Inv o (((s.eraseFlight fl.key).setFlight f { fl with stage := .closed }
      ).setRequest r q') := by
  have hsub : q.phase.submission = some f := by rw [hphase]; rfl
  obtain ⟨fl₀, hfl₀, -, hstage⟩ := (h.requests r q hq).withdraws f e hphase
  obtain rfl := some.inj (hfl.symm.trans hfl₀)
  obtain ⟨hflights, hmap⟩ := closed_flights h hfl (by rw [hstage]; nofun)
  refine ⟨h.alive, { h.shelf with }, fun g gl hgl => ?_, hmap, h.live, h.live_le,
    h.queue_nodup, (h.queue_kept hq hsub hfl _).2, ?_, ?_⟩
  · exact { hflights g gl hgl with }
  · exact h.permits.trans (permits_set q' hq hpermit).symm
  · intro r' x hx
    rcases getElem?_set_cases hx with ⟨rfl, rfl⟩ | ⟨hne, hold⟩
    · refine .quiet ?_ hquiet
      rw [hpermit, hside, (h.requests r' q hq).gate, hphase]
      rfl
    · exact h.others hq hsub hfl _ hne hold rfl

omit h hq

end

-- ============ the gate

section

variable {r : Nat} {q q' : Request Key}

/-- The gate, with the request that passes it. -/
theorem Inv.enterGate (h : Inv o s) (hq : s.requests[r]? = some q)
    (hout : q.permit = false) (hin : q'.permit = true)
    (hquiet : q'.phase.submission = none) (hside : q'.phase.admitted = true) :
    Inv o (s.enterGate.setRequest r q') := by
  have hsum := sum_map_set Request.permits q' hq
  have hold : q.permits = 0 := by
    unfold Request.permits
    rw [hout]
    rfl
  have hnew : q'.permits = 1 := by
    unfold Request.permits
    rw [hin]
    rfl
  refine ⟨h.alive, { h.shelf with }, fun f fl hfl => ?_, h.map, h.live, h.live_le,
    h.queue_nodup, h.queued, ?_, ?_⟩
  · exact { h.flights f fl hfl with }
  · show s.active + 1 = ((s.requests.set r q').map Request.permits).sum
    have hactive := h.permits
    omega
  · intro r' x hx
    rcases getElem?_set_cases hx with ⟨rfl, rfl⟩ | ⟨-, hold⟩
    · exact .quiet (hin.trans hside.symm) hquiet
    · exact (h.requests r' x hold).frame fun _ _ hfl _ => hfl

/-- A permit that is held can be released. -/
theorem Inv.releasePermit (h : Inv o s) (hq : s.requests[r]? = some q)
    (hin : q'.permit = false) (hquiet : q'.phase.submission = none)
    (hside : q'.phase.admitted = false) :
    Inv o ((s.releasePermit q.permit).setRequest r q') := by
  unfold State.releasePermit
  cases hheld : q.permit with
  | false =>
    exact h.setRequest hq (hin.trans hheld.symm)
      (.quiet (hin.trans hside.symm) hquiet)
  | true =>
    have hsum := sum_map_set Request.permits q' hq
    have hold : q.permits = 1 := by
      unfold Request.permits
      rw [hheld]
      rfl
    have hnew : q'.permits = 0 := by
      unfold Request.permits
      rw [hin]
      rfl
    have hactive := h.permits
    have hpos := le_sum_map Request.permits hq
    rw [if_neg (by simp), if_neg (by omega)]
    refine ⟨h.alive, { h.shelf with }, fun f fl hfl => ?_, h.map,
      h.live, h.live_le, h.queue_nodup, h.queued, ?_, ?_⟩
    · exact { h.flights f fl hfl with }
    · show s.active - 1 = ((s.requests.set r q').map Request.permits).sum
      omega
    · intro r' x hx
      rcases getElem?_set_cases hx with ⟨rfl, rfl⟩ | ⟨-, hold⟩
      · exact .quiet (hin.trans hside.symm) hquiet
      · exact (h.requests r' x hold).frame fun _ _ hfl _ => hfl

end

-- ============ the steps

section

variable {r : Nat} {q : Request Key}

theorem takeMedia_permit (q : Request Key) (media : Option PreparedMedia) :
    (takeMedia o q media).permit = q.permit := by
  unfold takeMedia
  split
  · rfl
  split
  · rfl
  split
  · rfl
  dsimp only
  split
  · rfl
  · rfl

theorem recordFirst_permit (q : Request Key) (e : PrepareError) :
    (q.recordFirst e).permit = q.permit := by
  unfold Request.recordFirst
  split
  · rfl
  · rfl

theorem findReady_some [DecidableEq Key] {entry : Ready}
    (h : s.findReady key = some entry) : key ∈ keys s.ready := by
  unfold findReady at h
  obtain ⟨e, he, -⟩ := map_eq_some_iff.mp h
  refine mem_map.mpr ⟨e, mem_of_find?_eq_some he, ?_⟩
  simpa using find?_some he

theorem findReady_none [DecidableEq Key]
    (h : s.findReady key = none) : key ∉ keys s.ready := by
  unfold findReady at h
  exact find?_eq_none_iff.mp (map_eq_none_iff.mp h)

/-- A lookup. -/
theorem lookup_inv [DecidableEq Key] (h : Inv o s)
    (hq : s.requests[r]? = some q) (hphase : q.phase = .preparing) (key : Key) (turn : Turn) :
    Inv o (lookup s r q key turn) := by
  have hquiet : q.phase.submission = none := by rw [hphase]; rfl
  unfold lookup
  split
  · next entry hentry =>
    exact (h.touch (findReady_some hentry)).setQuiet hq rfl hquiet rfl
  next hmiss =>
  split
  · exact h.setQuiet hq rfl hquiet rfl
  next hfree =>
  split
  · exact h.setQuiet hq rfl rfl (by rw [hphase]; rfl)
  · refine (h.addFlight (findReady_none hmiss) hfree).setRequest hq rfl
      ⟨?_, fun f hphase' => ?_, nofun⟩
    · show q.permit = true
      rw [(h.requests r q hq).gate, hphase]
      rfl
    · cases hphase'
      exact ⟨_, getElem?_concat_length, rfl, rfl⟩

/-- A step of a request's thread. -/
theorem advance_inv [DecidableEq Key] (h : Inv o s)
    (hq : s.requests[r]? = some q) {turn : Turn}
    (hstep : advance o s r q turn = some s') : Inv o s' := by
  have hgate := (h.requests r q hq).gate
  unfold advance at hstep
  split at hstep
  · next hphase =>
    have hfail : ∀ e, Inv o (s.setRequest r (q.fail e)) := fun e =>
      h.setQuiet hq (by rw [hgate, hphase]; rfl) rfl (by rw [hphase]; rfl)
    split at hstep
    · cases hstep
      exact hfail _
    split at hstep
    · cases hstep
      exact hfail _
    · cases hstep
      exact h.setQuiet hq rfl rfl (by rw [hphase]; rfl)
  · next hphase =>
    split at hstep
    · cases hstep
      exact h.setQuiet hq (by rw [hgate, hphase]; rfl) rfl (by rw [hphase]; rfl)
    split at hstep
    · cases hstep
      exact h.enterGate hq (by rw [hgate, hphase]; rfl) rfl rfl rfl
    · cases hstep
  · next hphase =>
    split at hstep
    · cases hstep
      exact h.releasePermit hq rfl rfl rfl
    · cases hstep
      exact h.setQuiet hq rfl rfl (by rw [hphase]; rfl)
  · next hphase =>
    have hside : ∀ i, (Phase.awaiting i).admitted = q.phase.admitted := by
      intro i
      rw [hphase]
      rfl
    split at hstep
    · cases hstep
      exact h.setQuiet hq rfl rfl (hside 0)
    split at hstep
    · cases hstep
      exact h.setQuiet hq rfl rfl (hside 0)
    split at hstep
    · cases hstep
      exact h.setQuiet hq rfl rfl (hside 0)
    · cases hstep
      exact lookup_inv h hq hphase _ turn
  · next f hphase =>
    split at hstep
    · cases hstep
    next fl hfl =>
    split at hstep
    · cases hstep
      exact h.withdrawn hq hphase hfl _
    split at hstep
    · cases hstep
      exact h.submitted hq hphase hfl rfl rfl rfl
    · cases hstep
  · next f e hphase =>
    split at hstep
    · cases hstep
    next fl hfl =>
    cases hstep
    exact h.erased hq hphase hfl rfl rfl rfl
  · next i hphase =>
    split at hstep
    · split at hstep
      · cases hstep
        exact h.releasePermit hq rfl rfl rfl
      · cases hstep
        exact h.releasePermit hq rfl rfl rfl
    split at hstep
    · cases hstep
      exact h.setQuiet hq (recordFirst_permit q _) rfl (by rw [hphase]; rfl)
    · cases hstep
      exact h.setQuiet hq rfl rfl (by rw [hphase]; rfl)
  · next i hphase =>
    split at hstep
    · cases hstep
    split at hstep
    · split at hstep
      · cases hstep
        exact h.setQuiet hq (recordFirst_permit q _) rfl (by rw [hphase]; rfl)
      · cases hstep
    · cases hstep
      exact h.setQuiet hq (recordFirst_permit q _) rfl (by rw [hphase]; rfl)
    · cases hstep
      refine h.setQuiet hq ?_ rfl (by rw [hphase]; rfl)
      show Request.permit (if q.error.isSome = true then q
        else takeMedia o q _) = q.permit
      split
      · rfl
      · exact takeMedia_permit q _
  · next i hphase =>
    split at hstep
    · cases hstep
    split at hstep
    · cases hstep
      exact h.setQuiet hq rfl rfl (by rw [hphase]; rfl)
    · cases hstep
  · next hphase =>
    split at hstep
    · cases hstep
      exact h.setQuiet hq (by rw [hgate, hphase]; rfl) rfl (by rw [hphase]; rfl)
    · cases hstep
      exact h.setQuiet hq rfl rfl (by rw [hphase]; rfl)
  · cases hstep
  · cases hstep

end

section

variable {f : Nat} {fl : Flight Key}

/-- The flight moves on. -/
theorem Inv.moves (h : Inv o s) (hfl : s.flights[f]? = some fl)
    (hrun : fl.stage.running = true) {stage : Stage}
    (hun : stage.unpublished = true → fl.stage.unpublished = true)
    (hstarted : stage.unstarted = false) (hopen : stage ≠ .closed)
    (hfill : ∀ media, stage ≠ .filling media) :
    Inv o (s.setFlight f { fl with stage := stage }) :=
  h.setFlight hfl hrun rfl hopen
    ((h.flights f fl hfl).moves hrun hun hstarted hfill)

/-- The flight failed. -/
theorem Inv.fails (h : Inv o s) (hfl : s.flights[f]? = some fl)
    (hrun : fl.stage.running = true) (media : Option PreparedMedia)
    (e : PrepareError) :
    Inv o (s.setFlight f { fl with
      stage := .settling media (some e) }) :=
  h.moves hfl hrun nofun rfl nofun nofun

/-- A claim writes the stats of its producer. -/
theorem claim_inv (h : Inv o s) (item : Grid) :
    Inv o (claim o s fl item).1
      ∧ (claim o s fl item).1.flights = s.flights := by
  unfold claim
  split
  · exact ⟨h, rfl⟩
  next q hq =>
  split
  · exact ⟨h, rfl⟩
  · have hr := h.requests fl.producer q hq
    exact ⟨h.setRequest hq rfl { hr with }, rfl⟩

/-- A round of the allocation loop. -/
theorem reserve_inv (h : Inv o s) (hfl : s.flights[f]? = some fl)
    {item : Grid} (hstage : fl.stage = .allocating item) :
    Inv o (reserve o s f fl item) := by
  have hrun : fl.stage.running = true := by rw [hstage]; rfl
  unfold reserve
  split
  · exact h.fails hfl hrun none _
  split
  · exact h.fails hfl hrun none _
  split
  · next hfits =>
    have hok := h.flights f fl hfl
    refine (h.addPayload (by omega)).setFlight hfl hrun rfl nofun
      ⟨fun _ => ?_, fun _ => ?_, fun media hmedia => ?_, hok.once, nofun⟩
    · exact hok.inMap (by rw [hstage]; nofun)
    · exact hok.unpublished (by rw [hstage]; rfl)
    · cases hmedia
      exact getElem?_concat_length
  · exact h.moves hfl hrun (fun _ => by rw [hstage]; rfl) rfl nofun nofun

/-- A release and a flight's step meet in different places. -/
theorem release_setFlight (s : State Key) (p : Nat) (payload : Payload)
    (f : Nat) (fl : Flight Key) : (s.release p payload).setFlight f fl
      = (s.setFlight f fl).release p payload := by
  unfold release setFlight
  dsimp only
  split
  · rfl
  · rfl

/-- An allocation fails after its reservation. -/
theorem release_inv (h : Inv o s) (hfl : s.flights[f]? = some fl)
    {media : PreparedMedia} (hstage : fl.stage = .filling media)
    {payload : Payload} (hp : s.payloads[media.payload]? = some payload) :
    Inv o ((s.release media.payload payload).setFlight f { fl with
      stage := .settling none (some .badAlloc) }) := by
  have hrun : fl.stage.running = true := by rw [hstage]; rfl
  have hreserved := (h.flights f fl hfl).reserved media hstage
  obtain rfl := some.inj (hreserved.symm.trans hp)
  have hset := h.fails hfl hrun none .badAlloc
  rw [release_setFlight]
  refine hset.release hp rfl fun g gl media' hgl hgstage heq => ?_
  rcases getElem?_set_cases hgl with ⟨rfl, rfl⟩ | ⟨hne, hold⟩
  · cases hgstage
  · -- a payload is filled by the flight that reserved it
    have hother := (h.flights g gl hold).reserved media' hgstage
    rw [heq, hp] at hother
    exact hne (congrArg Payload.owner (some.inj hother)).symm

/-- The step is not the one that leaves the books in disorder: a
publication that pushes its key and finds no memory for the map node. -/
def MapNodes (s : State Key) : Action Key → Prop
  | .work f turn => ∀ fl media, s.flights[f]? = some fl →
    fl.stage = .publishing media → turn ≠ .noMapNode
  | _ => True

/-- A step of a task. -/
theorem work_inv [DecidableEq Key] (h : Inv o s) (hfl : s.flights[f]? = some fl)
    {turn : Turn} (hnode : MapNodes s (.work f turn))
    (hstep : work o s f fl turn = some s') : Inv o s' := by
  unfold work at hstep
  dsimp only at hstep
  split at hstep
  · cases hstep
  · cases hstep
  · cases hstep
  · cases hstep
  · next hstage =>
    have hrun : fl.stage.running = true := by rw [hstage]; rfl
    split at hstep
    · split at hstep
      · cases hstep
        exact h.fails hfl hrun none _
      · cases hstep
        exact h
    split at hstep
    · cases hstep
      exact h.fails hfl hrun none _
    · cases hstep
      exact h.moves hfl hrun (fun _ => by rw [hstage]; rfl) rfl nofun nofun
  · next item hstage =>
    have hrun : fl.stage.running = true := by rw [hstage]; rfl
    obtain ⟨hclaim, hflights⟩ := @claim_inv Key o s fl h item
    split at hstep
    · next s₁ e heq =>
      rw [heq] at hclaim hflights
      cases hstep
      exact Inv.fails hclaim
        ((congrArg (fun l => l[f]?) hflights).trans hfl) hrun none e
    · next s₁ heq =>
      rw [heq] at hclaim hflights
      cases hstep
      exact Inv.moves hclaim
        ((congrArg (fun l => l[f]?) hflights).trans hfl) hrun
        (fun _ => by rw [hstage]; rfl) rfl nofun nofun
  · next item hstage =>
    cases hstep
    exact reserve_inv h hfl hstage
  · next item hstage =>
    have hrun : fl.stage.running = true := by rw [hstage]; rfl
    cases hstep
    have hevict := (evictOneLocked_evicted h.shelf).1
    have hinv := hevict.inv h
    obtain ⟨lru, ready, retained, heq, -⟩ := hevict
    rw [heq] at hinv ⊢
    exact hinv.moves hfl hrun (fun _ => by rw [hstage]; rfl) rfl nofun nofun
  · next media hstage =>
    have hrun : fl.stage.running = true := by rw [hstage]; rfl
    split at hstep
    · split at hstep
      · cases hstep
      · next payload hp =>
        cases hstep
        exact release_inv h hfl hstage hp
    · split at hstep
      · cases hstep
        exact h.fails hfl hrun none _
      · cases hstep
        exact h
    · cases hstep
      exact h.moves hfl hrun (fun _ => by rw [hstage]; rfl) rfl nofun nofun
  · next media hstage =>
    have hrun : fl.stage.running = true := by rw [hstage]; rfl
    split at hstep
    · cases hstep
      exact h.fails hfl hrun (some media) _
    · cases hstep
      exact h.moves hfl hrun (fun _ => by rw [hstage]; rfl) rfl nofun nofun
  · next media hstage =>
    cases hstep
    exact publish_inv h hfl hstage (hnode fl media hfl hstage) _
  · next media error hstage =>
    have hrun : fl.stage.running = true := by rw [hstage]; rfl
    have hok := h.flights f fl hfl
    cases hstep
    refine h.setFlight hfl hrun rfl nofun
      ⟨fun _ => ?_, nofun, nofun, hok.once, nofun⟩
    exact hok.inMap (by rw [hstage]; nofun)
  · next hstage =>
    cases hstep
    exact h.closeFlight hfl (by rw [hstage]; rfl)

/-- The pool starts the task at the head of its queue. -/
theorem dequeue_inv (h : Inv o s) {rest : List Nat}
    (hqueue : s.queue = f :: rest) (hfl : s.flights[f]? = some fl) :
    Inv o (setFlight { s with queue := rest } f
      { fl with stage := .decoding, builds := fl.builds + 1 }) := by
  have hok := h.flights f fl hfl
  obtain ⟨fl₀, hfl₀, hstage⟩ := h.queued f (by rw [hqueue]; simp)
  obtain rfl := some.inj (hfl.symm.trans hfl₀)
  have hzero : fl.builds = 0 := hok.fresh (by rw [hstage]; rfl)
  have hnodup := h.queue_nodup
  rw [hqueue] at hnodup
  obtain ⟨hout, hrest⟩ := nodup_cons.mp hnodup
  have hkept : ∀ (g : Nat) (gl : Flight Key), s.flights[g]? = some gl →
      g ≠ f → (s.flights.set f { fl with
        stage := .decoding, builds := fl.builds + 1 })[g]? = some gl :=
    fun g gl hgl hne => (getElem?_set_ne (Ne.symm hne)).trans hgl
  refine ⟨h.alive, { h.shelf with }, ?_, ?_, h.live, h.live_le, hrest, ?_, h.permits,
    ?_⟩
  · intro g gl hgl
    rcases getElem?_set_cases hgl with ⟨rfl, rfl⟩ | ⟨-, hold⟩
    · refine ⟨fun _ => hok.inMap (by rw [hstage]; nofun),
        fun _ => hok.unpublished (by rw [hstage]; rfl), nofun, ?_, nofun⟩
      show fl.builds + 1 ≤ 1
      omega
    · exact { h.flights g gl hold with }
  · exact fun _ _ hg => h.map_kept hfl { fl with
      stage := .decoding, builds := fl.builds + 1 } rfl nofun hg
  · intro g hg
    obtain ⟨gl, hgl, hgstage⟩ := h.queued g
      (by rw [hqueue]; exact mem_cons_of_mem f hg)
    refine ⟨gl, hkept g gl hgl fun heq => hout ?_, hgstage⟩
    rw [← heq]
    exact hg
  · intro r q hq
    refine (h.requests r q hq).frame fun g gl hgl hsub => ?_
    refine hkept g gl hgl fun heq => ?_
    subst heq
    exact (h.submission_producer hq hsub hfl).2.2 hstage

/-- The deleter of an unreferenced payload. -/
theorem destroy_inv (h : Inv o s) {p : Nat} {payload : Payload}
    (hp : s.payloads[p]? = some payload)
    (hfree : (payload.released || s.referenced p) = false) :
    Inv o (s.release p payload) := by
  obtain ⟨hlive, hnone⟩ := Bool.or_eq_false_iff.mp hfree
  refine h.release hp hlive fun g gl media hgl hstage heq => ?_
  have href : s.referenced p = true := by
    unfold referenced
    rw [Bool.or_eq_true]
    right
    refine any_eq_true.mpr ⟨gl, mem_of_getElem? hgl, ?_⟩
    rw [hstage]
    simp [Stage.media, heq]
  rw [href] at hnone
  cases hnone

end

/-- Every step that finds memory for its map node keeps the books. -/
theorem step_inv [DecidableEq Key] {a : Action Key} (hnode : MapNodes s a)
    (hstep : step o s a = some s') (h : Inv o s) : Inv o s' := by
  unfold step at hstep
  split at hstep
  · cases hstep
  cases a with
  | arrive parts deadline =>
    cases hstep
    refine ⟨h.alive, { h.shelf with }, fun f fl hfl => ?_, h.map,
      h.live, h.live_le, h.queue_nodup, h.queued, ?_, ?_⟩
    · exact { h.flights f fl hfl with }
    · show s.active = ((s.requests ++ [_]).map Request.permits).sum
      rw [map_append, sum_append, ← h.permits]
      rfl
    · intro r q hq
      rcases getElem?_concat_cases hq with ⟨rfl, rfl⟩ | hold
      · exact .quiet rfl rfl
      · exact (h.requests r q hold).frame fun _ _ hfl _ => hfl
  | cancel r =>
    obtain ⟨q, hq, rfl⟩ := map_eq_some_iff.mp hstep
    have hr := h.requests r q hq
    exact h.setRequest hq rfl { hr with }
  | tick =>
    cases hstep
    refine ⟨h.alive, { h.shelf with }, fun f fl hfl => ?_, h.map,
      h.live, h.live_le, h.queue_nodup, h.queued, h.permits, ?_⟩
    · exact { h.flights f fl hfl with }
    · exact fun r q hq => (h.requests r q hq).frame fun _ _ hfl _ => hfl
  | advance r turn =>
    obtain ⟨q, hq, hstep⟩ := bind_eq_some_iff.mp hstep
    exact advance_inv h hq hstep
  | dequeue =>
    dsimp only at hstep
    split at hstep
    · cases hstep
    next f rest hqueue =>
    split at hstep
    · obtain ⟨fl, hfl, rfl⟩ := map_eq_some_iff.mp hstep
      exact dequeue_inv h hqueue hfl
    · cases hstep
  | work f turn =>
    obtain ⟨fl, hfl, hstep⟩ := bind_eq_some_iff.mp hstep
    exact work_inv h hfl hnode hstep
  | destroy p =>
    obtain ⟨payload, hp, hstep⟩ := bind_eq_some_iff.mp hstep
    split at hstep
    · cases hstep
    · next hfree =>
      cases hstep
      exact destroy_inv h hp (Bool.eq_false_iff.mpr hfree)
  | drop r =>
    obtain ⟨q, hq, hstep⟩ := bind_eq_some_iff.mp hstep
    split at hstep
    · cases hstep
      have hr := h.requests r q hq
      exact h.setRequest hq rfl { hr with }
    · cases hstep

-- ============ the runs

/-- The books of the cache: the LRU list is the ready keys, once each; the
retained bytes are the entries' and within the capacity; a key has one
open flight, and one that has not published has no entry; the account
holds what is unreleased, within its limit; no flight is built twice; and
nothing has called `std::terminate`. -/
structure Books (o : Setup Key) (s : State Key) : Prop where
  lru : s.lru.Nodup ∧ s.lru.Perm (keys s.ready)
  retained : s.retainedBytes = (s.ready.map fun e => e.2.bytes).sum
    ∧ s.retainedBytes ≤ o.capacityBytes
  flight : ∀ (f g : Nat) (fl gl : Flight Key), s.flights[f]? = some fl →
    s.flights[g]? = some gl → fl.stage ≠ .closed → gl.stage ≠ .closed →
    fl.key = gl.key → f = g
  inserted : (keys s.ready).Nodup ∧ ∀ (f : Nat) (fl : Flight Key),
    s.flights[f]? = some fl → fl.stage.unpublished = true →
    fl.key ∉ keys s.ready
  account : s.live = (s.payloads.map Payload.charge).sum ∧ s.live ≤ o.liveLimit
  builds : ∀ (f : Nat) (fl : Flight Key), s.flights[f]? = some fl → fl.builds ≤ 1
  alive : s.terminated = false

theorem Inv.books (h : Inv o s) : Books o s where
  lru := ⟨h.shelf.lru_nodup, h.shelf.lru_perm⟩
  retained := ⟨h.shelf.retained, h.shelf.retained_le⟩
  flight := by
    intro f g fl gl hfl hgl hopen hgopen hkey
    have hf := (h.flights f fl hfl).inMap hopen
    have hg := (h.flights g gl hgl).inMap hgopen
    rw [hkey, hg] at hf
    exact (some.inj hf).symm
  inserted := ⟨h.shelf.lru_perm.nodup_iff.mp h.shelf.lru_nodup,
    fun f fl hfl => (h.flights f fl hfl).unpublished⟩
  account := ⟨h.live, h.live_le⟩
  builds := fun f fl hfl => (h.flights f fl hfl).once
  alive := h.alive

theorem init_inv (o : Setup Key) : Inv o init where
  alive := rfl
  shelf := ⟨nodup_nil, .refl _, rfl, Nat.zero_le _⟩
  flights := fun f fl hfl => by simp [init] at hfl
  map := fun key f hf => by simp [init] at hf
  live := rfl
  live_le := Nat.zero_le _
  queue_nodup := nodup_nil
  queued := fun f hf => by simp [init] at hf
  permits := rfl
  requests := fun r q hq => by simp [init] at hq

/-- The books are in order after every run in which no publication runs out
of memory between its two insertions. -/
theorem media_cache_run [DecidableEq Key] (o : Setup Key)
    (acts : List (Action Key)) (s : State Key)
    (hnodes : Along (step o) MapNodes State.init acts)
    (hrun : run (step o) State.init acts = some s) : Books o s :=
  (run_inv_along (P := Inv o)
    (fun _ _ _ hnode hstep hs => step_inv hnode hstep hs) acts _ s hnodes
    hrun (init_inv o)).books

/-- A cache for one picture of four patches, and pictures numbered by their
content. -/
def onePicture : Setup Nat where
  capacityBytes := 12288
  liveLimit := 36864
  maximumRequestBytes := 12288
  threads := 1
  maxEncodedMediaBytes := 100
  maxRawPatches := 16
  maxVisionTokens := 4
  content := fun _ => ⟨10, .ok ⟨1, 2, 2⟩⟩

/-- A request for picture `key` becomes request `r`, and joins or starts a
flight for it. -/
def requests (r key : Nat) : List (Action Nat) :=
  .arrive [key] none :: List.replicate 4 (.advance r .go)

/-- Request `r` hands flight `f` to the pool, which builds and publishes
it. -/
def builds (r f : Nat) (publication : Turn) : List (Action Nat) :=
  [.advance r .go, .dequeue] ++ List.replicate 5 (.work f .go)
    ++ [.work f publication, .work f .go, .work f .go]

/-- A picture is built, and hit by the next request. -/
theorem media_cache_run_hit :
    ∃ s, run (step onePicture) State.init
        (requests 0 7 ++ builds 0 0 .go ++ requests 1 7) = some s
      ∧ s.lru = [7] ∧ Books onePicture s := by
  have hrun : (run (step onePicture) State.init
      (requests 0 7 ++ builds 0 0 .go ++ requests 1 7)).any
        (fun s => s.lru == [7]) = true := by decide +kernel
  obtain ⟨s, hs, hlru⟩ := (Option.any_eq_true _ _).mp hrun
  refine ⟨s, hs, beq_iff_eq.mp hlru,
    media_cache_run onePicture _ s (along_of_mem _ ?_) hs⟩
  intro a ha t
  have hgo : ∀ f turn, a = .work f turn → turn = .go := by
    simp [requests, builds] at ha
    aesop
  cases a with
  | work f turn =>
    intro fl media _ _
    rw [hgo f turn rfl]
    decide
  | _ => trivial

/-- The first picture's publication runs out of memory after it pushed its
key; the third one's makes room, and the process terminates. -/
theorem orphan_terminates : ∃ s, run (step onePicture) State.init
    (requests 0 1 ++ builds 0 0 .noMapNode ++ requests 1 2 ++ builds 1 1 .go
      ++ requests 2 3 ++ (builds 2 2 .go).take 8) = some s
      ∧ s.terminated = true ∧ ¬ Books onePicture s := by
  have hrun : (run (step onePicture) State.init
      (requests 0 1 ++ builds 0 0 .noMapNode ++ requests 1 2
        ++ builds 1 1 .go ++ requests 2 3 ++ (builds 2 2 .go).take 8)).any
          (fun s => s.terminated) = true := by decide +kernel
  obtain ⟨s, hs, hdead⟩ := (Option.any_eq_true _ _).mp hrun
  refine ⟨s, hs, hdead, fun hbooks => ?_⟩
  rw [hbooks.alive] at hdead
  cases hdead

end Ginfer.Frontend.Media
