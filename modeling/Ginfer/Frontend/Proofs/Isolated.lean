/-
What keeps the requests apart.

`Isolated` says of every request that its errors are its own, that what
it was given belongs to its parts, and that what its flights claim from
its budget stays within what its parts need; and of every flight that
what it holds was made of its key and that its error can be blamed on its
item or on its producer. Two of the clauses take an argument. A request
sets its `stop_preparation` only once it has an error to report, so it is
never told its own stop. And a claim moves an item from what is owed to
what is claimed, so the two together never exceed the parts the request
has looked up.
-/
import Ginfer.Frontend.Proofs.Blame
import Ginfer.Frontend.Proofs.MediaCache

namespace Ginfer.Frontend.Media

open Ginfer.Lib List Option

variable {Key : Type} {o : Setup Key} {e : PrepareError}

-- ============ the invariant

/-- The media was built from the content of the key. -/
def MediaOf (o : Setup Key) (key : Key) (media : PreparedMedia) : Prop :=
  (o.content key).decoded = .ok media.item

/-- The error of a flight lies with its item or with its producer. -/
def Blamed (o : Setup Key) (now : Nat) (requests : List (Request Key))
    (fl : Flight Key) (e : PrepareError) : Prop :=
  OfItem o fl.key e ∨ ∃ q, requests[fl.producer]? = some q ∧ OfProducer o now q e

/-- The item a task holds before its payload. -/
def Stage.item : Stage → Option Grid
  | .claiming item | .allocating item | .evicting item => some item
  | _ => none

/-- The error a task is about to give to its flight. -/
def Stage.failure : Stage → Option PrepareError
  | .settling _ error => error
  | _ => none

/-- The flight is in its producer's hands. -/
def Stage.offered : Stage → Bool
  | .created | .withdrawn => true
  | _ => false

/-- The item has not been claimed from the producer's budget. -/
def Stage.unclaimed : Stage → Bool
  | .created | .withdrawn | .queued | .decoding | .claiming _ => true
  | _ => false

theorem unclaimed_of_offered {stage : Stage} (h : stage.offered = true) :
    stage.unclaimed = true := by
  cases stage with
  | created | withdrawn => rfl
  | _ => cases h

/-- What a flight may still claim from the budget of request `r`. -/
def Flight.owes (o : Setup Key) (m : Measure) (r : Nat) (fl : Flight Key) : Nat :=
  if fl.producer = r ∧ fl.stage.unclaimed = true then m.item o fl.key else 0

/-- What the flights may still claim from it. -/
def owed (o : Setup Key) (m : Measure) (r : Nat)
    (flights : List (Flight Key)) : Nat :=
  (flights.map (Flight.owes o m r)).sum

/-- The thread has not met an error. -/
def Phase.early : Phase → Bool
  | .arrived | .gate | .rendering | .preparing | .submitting _ => true
  | _ => false

/-- The thread discards a part, because it has an error. -/
def Phase.discards : Phase → Bool
  | .discarding _ => true
  | _ => false

/-- How many parts the thread has taken the media of. -/
def Phase.taken : Phase → Option Nat
  | .arrived | .gate | .rendering | .preparing | .submitting _ => some 0
  | .awaiting i | .waiting i => some i
  | _ => none

/-- The error the thread is leaving with. -/
def Phase.thrown : Phase → Option PrepareError
  | .failed e | .withdrawing _ e => some e
  | _ => none

/-- The parts a thread may still start a flight for. -/
def Request.ahead (q : Request Key) : List Key :=
  match q.phase with
  | .arrived | .gate | .rendering | .preparing =>
    q.parts.drop q.pendings.length
  | .submitting _ => q.parts.drop (q.pendings.length + 1)
  | _ => []

/-- A request: its errors are its own, what it is given belongs to its
parts, and what it claims is within what they need. -/
structure RequestIso (o : Setup Key) (now : Nat)
    (flights : List (Flight Key)) (r : Nat) (q : Request Key) : Prop where
  looked : q.pendings.map Pending.key = q.parts.take q.pendings.length
  hits : ∀ pending ∈ q.pendings, ∀ media, pending.source = .hit media →
    MediaOf o pending.key media
  joins : ∀ pending ∈ q.pendings, ∀ f, pending.source = .flight f →
    ∃ fl, flights[f]? = some fl ∧ fl.key = pending.key
  early : q.phase.early = true → q.error = none
  discards : q.phase.discards = true → q.error ≠ none
  stopped : q.stop = true → q.error ≠ none
  own : ∀ e, q.error = some e → Own o now q e
  thrown : ∀ e, q.phase.thrown = some e → Own o now q e
  submits : ∀ f, q.phase.submission = some f → ∃ fl,
    flights[f]? = some fl ∧ fl.producer = r ∧ fl.stage.offered = true
  submitting : ∀ f, q.phase = .submitting f → ∃ fl,
    flights[f]? = some fl ∧ q.parts[q.pendings.length]? = some fl.key
  stats : ∀ i, q.phase.taken = some i → q.error = none →
    ∀ m : Measure, m.get q.stats = m.total o (q.parts.take i)
  claims : ∀ m : Measure, m.get q.claimed + owed o m r flights
    + m.total o q.ahead ≤ m.total o q.parts

/-- A flight: what it holds was made of its key, and its error can be
blamed. -/
structure FlightIso (o : Setup Key) (now : Nat)
    (requests : List (Request Key)) (fl : Flight Key) : Prop where
  producer : ∃ q, requests[fl.producer]? = some q
  item : ∀ g, fl.stage.item = some g → (o.content fl.key).decoded = .ok g
  media : ∀ media, fl.stage.media = some media → MediaOf o fl.key media
  result : ∀ media, fl.result = some media → MediaOf o fl.key media
  failure : ∀ e, fl.stage.failure = some e → Blamed o now requests fl e
  error : ∀ e, fl.error = some e → Blamed o now requests fl e

/-- What every step keeps that `Unshared` holds before. -/
structure Isolated (o : Setup Key) (s : State Key) : Prop where
  requests : ∀ r q, s.requests[r]? = some q → RequestIso o s.now s.flights r q
  flights : ∀ (f : Nat) (fl : Flight Key), s.flights[f]? = some fl →
    FlightIso o s.now s.requests fl
  ready : ∀ e ∈ s.ready, MediaOf o e.1 e.2.media
  map : ∀ key f, s.inflight key = some f → ∃ fl,
    s.flights[f]? = some fl ∧ fl.key = key
  queue_nodup : s.queue.Nodup
  queued : ∀ f ∈ s.queue, ∃ fl, s.flights[f]? = some fl ∧ fl.stage = .queued

-- ============ frames

/-- The same request, later. -/
structure Later (q q' : Request Key) : Prop where
  parts : q'.parts = q.parts
  deadline : q'.deadline = q.deadline
  cancelled : q.cancelled = true → q'.cancelled = true
  stop : q.stop = true → q'.stop = true

theorem Later.refl (q : Request Key) : Later q q := ⟨rfl, rfl, id, id⟩

section

variable {q q' : Request Key} {now now' : Nat}

theorem Later.expired (h : Later q q') (hnow : now ≤ now')
    (hexp : q.expired now) : q'.expired now' := by
  obtain ⟨t, ht, hle⟩ := hexp
  exact ⟨t, h.deadline.trans ht, le_trans hle hnow⟩

theorem Own.later (h : Own o now q e) (hq : Later q q')
    (hnow : now ≤ now') : Own o now' q' e := by
  cases e with
  | cancelled what => exact hq.cancelled h
  | queueTimeout what => exact hq.expired hnow h
  | _ =>
    intro hbudget
    rw [hq.parts]
    exact h hbudget

theorem OfProducer.later (h : OfProducer o now q e) (hq : Later q q')
    (hnow : now ≤ now') : OfProducer o now' q' e := by
  cases e with
  | cancelled what => exact hq.stop h
  | queueTimeout what => exact hq.expired hnow h
  | _ =>
    intro hbudget
    rw [hq.parts]
    exact h hbudget

end

/-- Every request is still there, later. -/
def Grows (requests requests' : List (Request Key)) : Prop :=
  ∀ (r : Nat) (q : Request Key), requests[r]? = some q →
    ∃ q', requests'[r]? = some q' ∧ Later q q'

theorem Grows.refl (requests : List (Request Key)) :
    Grows requests requests := fun _ q hq => ⟨q, hq, .refl q⟩

theorem Grows.set {requests : List (Request Key)} {r : Nat}
    {q q' : Request Key} (hq : requests[r]? = some q) (h : Later q q') :
    Grows requests (requests.set r q') := by
  intro r' x hx
  by_cases heq : r' = r
  · subst heq
    obtain rfl := some.inj (hq.symm.trans hx)
    exact ⟨q', getElem?_set_same hq, h⟩
  · exact ⟨x, (getElem?_set_ne (Ne.symm heq)).trans hx, .refl x⟩

variable {fl : Flight Key}

/-- A flight reads its producer. -/
theorem FlightIso.frame {now now' : Nat} {requests requests' : List (Request Key)}
    (h : FlightIso o now requests fl) (hnow : now ≤ now')
    (hgrows : Grows requests requests') :
    FlightIso o now' requests' fl := by
  have hblamed : ∀ e, Blamed o now requests fl e →
      Blamed o now' requests' fl e := by
    rintro e (hitem | ⟨q, hq, hprod⟩)
    · exact .inl hitem
    · obtain ⟨q', hq', hlater⟩ := hgrows _ q hq
      exact .inr ⟨q', hq', hprod.later hlater hnow⟩
  obtain ⟨q, hq⟩ := h.producer
  obtain ⟨q', hq', -⟩ := hgrows _ q hq
  exact ⟨⟨q', hq'⟩, h.item, h.media, h.result,
    fun e he => hblamed e (h.failure e he),
    fun e he => hblamed e (h.error e he)⟩

/-- A request reads the clock and the flights. -/
theorem RequestIso.frame {now now' : Nat}
    {flights flights' : List (Flight Key)} {r : Nat} {q : Request Key}
    (h : RequestIso o now flights r q) (hnow : now ≤ now')
    (hkept : ∀ (f : Nat) (fl : Flight Key), flights[f]? = some fl →
      ∃ fl', flights'[f]? = some fl' ∧ fl'.key = fl.key
        ∧ fl'.producer = fl.producer)
    (hsub : ∀ (f : Nat) (fl' : Flight Key),
      q.phase.submission = some f → flights'[f]? = some fl' →
      fl'.stage.offered = true)
    (howed : ∀ m, owed o m r flights' ≤ owed o m r flights) :
    RequestIso o now' flights' r q where
  looked := h.looked
  hits := h.hits
  joins := by
    intro pending hmem f hsource
    obtain ⟨fl, hfl, hkey⟩ := h.joins pending hmem f hsource
    obtain ⟨fl', hfl', hkey', -⟩ := hkept f fl hfl
    exact ⟨fl', hfl', hkey'.trans hkey⟩
  early := h.early
  discards := h.discards
  stopped := h.stopped
  own := fun e he => (h.own e he).later (.refl q) hnow
  thrown := fun e he => (h.thrown e he).later (.refl q) hnow
  submits := by
    intro f hphase
    obtain ⟨fl, hfl, hprod, -⟩ := h.submits f hphase
    obtain ⟨fl', hfl', -, hprod'⟩ := hkept f fl hfl
    exact ⟨fl', hfl', hprod'.trans hprod, hsub f fl' hphase hfl'⟩
  submitting := by
    intro f hphase
    obtain ⟨fl, hfl, hkey⟩ := h.submitting f hphase
    obtain ⟨fl', hfl', hkey', -⟩ := hkept f fl hfl
    exact ⟨fl', hfl', hkey'.symm ▸ hkey⟩
  stats := h.stats
  claims := by
    intro m
    have hclaims := h.claims m
    have hle := howed m
    omega

variable {s s' : State Key}

/-- The shelf, the account and the gate play no part. -/
theorem Isolated.frame (h : Isolated o s) (hnow : s'.now = s.now)
    (hrequests : s'.requests = s.requests) (hflights : s'.flights = s.flights)
    (hmap : ∀ key f, s'.inflight key = some f → s.inflight key = some f)
    (hqueue : s'.queue = s.queue)
    (hready : ∀ e ∈ s'.ready, MediaOf o e.1 e.2.media) :
    Isolated o s' where
  requests := by
    rw [hnow, hrequests, hflights]
    exact h.requests
  flights := by
    rw [hnow, hrequests, hflights]
    exact h.flights
  ready := hready
  map := by
    intro key f hf
    rw [hflights]
    exact h.map key f (hmap key f hf)
  queue_nodup := by
    rw [hqueue]
    exact h.queue_nodup
  queued := by
    rw [hqueue, hflights]
    exact h.queued

variable {f : Nat}

theorem eraseFlight_inflight [DecidableEq Key] {key key' : Key}
    (h : (s.eraseFlight key).inflight key' = some f) :
    s.inflight key' = some f := by
  replace h : Function.update s.inflight key none key' = some f := h
  rcases Decidable.em (key' = key) with rfl | hne
  · rw [Function.update_self] at h
    cases h
  · rw [Function.update_of_ne hne] at h
    exact h

/-- A request is written. -/
theorem Isolated.setRequest (h : Isolated o s) {r : Nat}
    {q q' : Request Key} (hq : s.requests[r]? = some q)
    (hlater : Later q q') (hiso : RequestIso o s.now s.flights r q') :
    Isolated o (s.setRequest r q') where
  requests := by
    intro r' x hx
    rcases getElem?_set_cases hx with ⟨rfl, rfl⟩ | ⟨-, hold⟩
    · exact hiso
    · exact h.requests r' x hold
  flights := fun f fl hfl =>
    (h.flights f fl hfl).frame (le_refl _) (.set hq hlater)
  ready := h.ready
  map := h.map
  queue_nodup := h.queue_nodup
  queued := h.queued

/-- What is owed, after a flight was written. -/
theorem owed_set {flights : List (Flight Key)}
    (fl' : Flight Key) (hfl : flights[f]? = some fl) (m : Measure) (r : Nat) :
    owed o m r (flights.set f fl') + fl.owes o m r
      = owed o m r flights + fl'.owes o m r :=
  sum_map_set (Flight.owes o m r) fl' hfl

/-- A flight that has its item claimed, or is as it was, owes no more. -/
theorem owes_le {fl' : Flight Key} (hkey : fl'.key = fl.key)
    (hprod : fl'.producer = fl.producer)
    (hun : fl'.stage.unclaimed = true → fl.stage.unclaimed = true)
    (m : Measure) (r : Nat) : fl'.owes o m r ≤ fl.owes o m r := by
  unfold Flight.owes
  split
  · next hnew =>
    exact le_of_eq (by rw [if_pos ⟨hprod ▸ hnew.1, hun hnew.2⟩, hkey])
  · exact Nat.zero_le _

/-- A flight is written. -/
theorem Isolated.setFlight (h : Isolated o s)
    {fl' : Flight Key} (hfl : s.flights[f]? = some fl)
    (hkey : fl'.key = fl.key) (hprod : fl'.producer = fl.producer)
    (hun : fl'.stage.unclaimed = true → fl.stage.unclaimed = true)
    (hsub : ∀ (r : Nat) (q : Request Key), s.requests[r]? = some q →
      q.phase.submission = some f → fl'.stage.offered = true)
    (hqueue : f ∈ s.queue → fl'.stage = .queued)
    (hiso : FlightIso o s.now s.requests fl') :
    Isolated o (s.setFlight f fl') := by
  have hkept : ∀ (g : Nat) (gl : Flight Key), s.flights[g]? = some gl →
      ∃ gl', (s.flights.set f fl')[g]? = some gl' ∧ gl'.key = gl.key
        ∧ gl'.producer = gl.producer := by
    intro g gl hgl
    by_cases heq : g = f
    · subst heq
      obtain rfl := some.inj (hfl.symm.trans hgl)
      exact ⟨fl', getElem?_set_same hfl, hkey, hprod⟩
    · exact ⟨gl, (getElem?_set_ne (Ne.symm heq)).trans hgl, rfl, rfl⟩
  refine ⟨?_, ?_, h.ready, ?_, h.queue_nodup, ?_⟩
  · intro r q hq
    have hr := h.requests r q hq
    refine hr.frame (le_refl _) hkept ?_ fun m => ?_
    · intro g gl' hphase hgl'
      rcases getElem?_set_cases hgl' with ⟨rfl, rfl⟩ | ⟨-, hold⟩
      · exact hsub r q hq hphase
      · obtain ⟨gl, hgl, -, hoffered⟩ := hr.submits g hphase
        obtain rfl := some.inj (hold.symm.trans hgl)
        exact hoffered
    · have hset := owed_set (o := o) fl' hfl m r
      have hle := owes_le (o := o) hkey hprod hun m r
      show owed o m r (s.flights.set f fl') ≤ _
      omega
  · intro g gl hgl
    rcases getElem?_set_cases hgl with ⟨rfl, rfl⟩ | ⟨-, hold⟩
    · exact hiso
    · exact h.flights g gl hold
  · intro key g hg
    obtain ⟨gl, hgl, hgkey⟩ := h.map key g hg
    obtain ⟨gl', hgl', hkey', -⟩ := hkept g gl hgl
    exact ⟨gl', hgl', hkey'.trans hgkey⟩
  · intro g hg
    by_cases heq : g = f
    · subst heq
      exact ⟨fl', getElem?_set_same hfl, hqueue hg⟩
    · obtain ⟨gl, hgl, hstage⟩ := h.queued g hg
      exact ⟨gl, (getElem?_set_ne (Ne.symm heq)).trans hgl, hstage⟩

-- ============ the requests

section

variable {now : Nat} {flights : List (Flight Key)} {r : Nat} {q : Request Key}

variable (h : RequestIso o now flights r q)

include h

/-- The thread goes on, with the same error and the same parts. -/
theorem RequestIso.moves {phase : Phase}
    (permit : Bool) (hsub : phase.submission = none)
    (hthrown : phase.thrown = none)
    (hearly : phase.early = true → q.error = none)
    (hdiscards : phase.discards = true → q.error ≠ none)
    (htaken : ∀ i, phase.taken = some i → q.error = none → q.phase.taken = some i)
    (hahead : Request.ahead { q with phase := phase } = q.ahead
      ∨ Request.ahead { q with phase := phase } = []) :
    RequestIso o now flights r
      { q with phase := phase, permit := permit } where
  looked := h.looked
  hits := h.hits
  joins := h.joins
  early := hearly
  discards := hdiscards
  stopped := h.stopped
  own := h.own
  thrown := fun e he => by
    rw [show phase.thrown = some e from he] at hthrown
    cases hthrown
  submits := fun f hphase => by
    rw [show phase.submission = some f from hphase] at hsub
    cases hsub
  submitting := fun f hphase => by
    rw [show phase = .submitting f from hphase] at hsub
    cases hsub
  stats := fun i hphase herror => h.stats i (htaken i hphase herror) herror
  claims := by
    intro m
    have hclaims := h.claims m
    have hle : m.total o (Request.ahead { q with phase := phase })
        ≤ m.total o q.ahead := by
      rcases hahead with heq | hnil
      · exact le_of_eq (by rw [heq])
      · rw [hnil]
        exact Nat.zero_le _
    show m.get q.claimed + owed o m r flights
      + m.total o (Request.ahead { q with phase := phase }) ≤ m.total o q.parts
    omega

/-- The exception leaves `process`. -/
theorem RequestIso.fail
    (hown : Own o now q e) : RequestIso o now flights r (q.fail e) where
  looked := rfl
  hits := nofun
  joins := nofun
  early := nofun
  discards := nofun
  stopped := h.stopped
  own := h.own
  thrown := by
    intro e' he'
    cases he'
    exact hown
  submits := nofun
  submitting := nofun
  stats := nofun
  claims := by
    intro m
    exact Nat.le_trans (Nat.add_le_add_left (Nat.zero_le _) _) (h.claims m)

/-- An error is recorded, and the parts are awaited or discarded. -/
theorem RequestIso.record
    (hown : Own o now q e) {phase : Phase} (stats : PreprocessStats)
    (hphase : (∃ i, phase = .awaiting i) ∨ ∃ i, phase = .discarding i) :
    RequestIso o now flights r
      { Request.record { q with stats := stats } e with
        phase := phase } where
  looked := h.looked
  hits := h.hits
  joins := h.joins
  early := by
    rcases hphase with ⟨i, rfl⟩ | ⟨i, rfl⟩
    · exact nofun
    · exact nofun
  discards := nofun
  stopped := nofun
  own := by
    intro e' he'
    cases he'
    exact hown
  thrown := by
    rcases hphase with ⟨i, rfl⟩ | ⟨i, rfl⟩
    · exact nofun
    · exact nofun
  submits := by
    rcases hphase with ⟨i, rfl⟩ | ⟨i, rfl⟩
    · exact nofun
    · exact nofun
  submitting := by
    rcases hphase with ⟨i, rfl⟩ | ⟨i, rfl⟩
    · exact nofun
    · exact nofun
  stats := nofun
  claims := by
    intro m
    refine le_trans (Nat.add_le_add_left ?_ _) (h.claims m)
    rcases hphase with ⟨i, rfl⟩ | ⟨i, rfl⟩
    · exact Nat.zero_le _
    · exact Nat.zero_le _

/-- The same in the await loop. -/
theorem RequestIso.recordFirst
    (hown : q.error = none → Own o now q e) (i : Nat) :
    RequestIso o now flights r
      { q.recordFirst e with phase := .discarding i } := by
  unfold Request.recordFirst
  split
  · next hsome =>
    refine h.moves q.permit rfl rfl nofun (fun _ hnone => ?_) nofun (.inr rfl)
    rw [hnone] at hsome
    cases hsome
  · next hnone =>
    exact h.record (hown (by simpa using hnone)) q.stats (.inr ⟨i, rfl⟩)

omit h

theorem Later.record (q : Request Key) (e : PrepareError)
    (stats : PreprocessStats) (phase : Phase) :
    Later q { Request.record { q with stats := stats } e with
      phase := phase } :=
  ⟨rfl, rfl, id, fun _ => rfl⟩

theorem Later.recordFirst (q : Request Key) (e : PrepareError) (phase : Phase) :
    Later q { q.recordFirst e with phase := phase } := by
  unfold Request.recordFirst
  split
  · exact ⟨rfl, rfl, id, id⟩
  · exact ⟨rfl, rfl, id, fun _ => rfl⟩

variable {key : Key}

/-- What a list of parts counts, from its head on. -/
theorem Measure.total_drop {parts : List Key} {n : Nat}
    (h : parts[n]? = some key) (m : Measure) :
    m.total o (parts.drop n)
      = m.item o key + m.total o (parts.drop (n + 1)) := by
  obtain ⟨hlt, heq⟩ := List.getElem?_eq_some_iff.mp h
  rw [drop_eq_getElem_cons hlt, heq]
  rfl

theorem Measure.total_take {parts : List Key} {n : Nat}
    (h : parts[n]? = some key) (m : Measure) :
    m.total o (parts.take (n + 1))
      = m.total o (parts.take n) + m.item o key := by
  unfold Measure.total
  rw [take_add_one, h, map_append, sum_append]
  simp

theorem Measure.total_take_le (m : Measure) (parts : List Key) (n : Nat) :
    m.total o (parts.take n) ≤ m.total o parts := by
  have hsplit : m.total o (parts.take n ++ parts.drop n)
      = m.total o parts := by
    rw [take_append_drop]
  unfold Measure.total at hsplit ⊢
  rw [map_append, sum_append] at hsplit
  omega

/-- What the media of a key counts. -/
theorem MediaOf.item {media : PreparedMedia}
    (h : MediaOf o key media) (m : Measure) :
    m.item o key = m.grid media.item := by
  unfold Measure.item
  rw [show (o.content key).decoded = .ok media.item from h]

variable (h : RequestIso o now flights r q)

include h

/-- A request without an error has not been stopped. -/
theorem RequestIso.running (herror : q.error = none) : q.stop = false := by
  cases hstop : q.stop with
  | false => rfl
  | true => exact absurd herror (h.stopped hstop)

/-- The part behind a pending. -/
theorem RequestIso.part {i : Nat}
    {pending : Pending Key} (hp : q.pendings[i]? = some pending) :
    q.parts[i]? = some pending.key := by
  obtain ⟨hlt, -⟩ := List.getElem?_eq_some_iff.mp hp
  have hmap : (q.pendings.map Pending.key)[i]? = some pending.key := by
    rw [getElem?_map, hp]
    rfl
  rw [h.looked, getElem?_take_of_lt hlt] at hmap
  exact hmap

/-- A part was looked up: a pending follows the others. -/
theorem RequestIso.looks {source : Source} (hphase : q.phase.early = true)
    (hkey : q.parts[q.pendings.length]? = some key)
    (hhit : ∀ media, source = .hit media → MediaOf o key media)
    (hjoin : ∀ f, source = .flight f → ∃ fl, flights[f]? = some fl ∧ fl.key = key)
    (hahead : ∀ m : Measure,
      m.total o (q.parts.drop (q.pendings.length + 1)) ≤ m.total o q.ahead) :
    RequestIso o now flights r
      { q with
        phase := .preparing
        pendings := q.pendings ++ [⟨key, source⟩] } where
  looked := by
    show (q.pendings ++ [(⟨key, source⟩ : Pending Key)]).map Pending.key
      = q.parts.take (q.pendings ++ [(⟨key, source⟩ : Pending Key)]).length
    rw [map_append, length_append, length_singleton,
      take_add_one, hkey, h.looked]
    rfl
  hits := by
    intro pending hmem media hsource
    rcases mem_append.mp hmem with hold | hnew
    · exact h.hits pending hold media hsource
    · obtain rfl := mem_singleton.mp hnew
      exact hhit media hsource
  joins := by
    intro pending hmem f hsource
    rcases mem_append.mp hmem with hold | hnew
    · exact h.joins pending hold f hsource
    · obtain rfl := mem_singleton.mp hnew
      exact hjoin f hsource
  early := fun _ => h.early hphase
  discards := nofun
  stopped := h.stopped
  own := h.own
  thrown := nofun
  submits := nofun
  submitting := nofun
  stats := by
    intro i hi herror
    refine h.stats i ?_ herror
    cases hq : q.phase with
    | arrived | gate | rendering | preparing | submitting _ => exact hi
    | _ => rw [hq] at hphase; cases hphase
  claims := by
    intro m
    have hclaims := h.claims m
    have hle := hahead m
    show m.get q.claimed + owed o m r flights + m.total o
      (q.parts.drop (q.pendings ++ [(⟨key, source⟩ : Pending Key)]).length)
        ≤ m.total o q.parts
    rw [length_append, length_singleton]
    omega

/-- Media is taken: the request's sums are those of its parts. -/
theorem RequestIso.takes {i : Nat}
    (hphase : q.phase = .waiting i) (herror : q.error = none)
    (hkey : q.parts[i]? = some key) {media : Option PreparedMedia}
    (hmedia : ∀ x, media = some x → MediaOf o key x) :
    RequestIso o now flights r
      { takeMedia o q media with phase := .awaiting (i + 1) } := by
  have hneutral : ∀ what, Own o now q (.logicError what) :=
    fun _ => own_of_neutral rfl nofun nofun
  unfold takeMedia
  cases media with
  | none => exact h.record (hneutral _) q.stats (.inl ⟨_, rfl⟩)
  | some x =>
    dsimp only
    split
    · exact h.record (hneutral _) q.stats (.inl ⟨_, rfl⟩)
    split
    · next e hadd =>
      obtain ⟨what, rfl⟩ := addBudget_error hadd
      have hown : Own o now q (.invalidArgument what) :=
        own_of_neutral rfl nofun nofun
      exact h.record hown q.stats (.inl ⟨_, rfl⟩)
    next stats hadd =>
    have hstats : ∀ m : Measure,
        m.get stats = m.total o (q.parts.take (i + 1)) := by
      intro m
      rw [addBudget_ok hadd m, Measure.total_take hkey,
        (hmedia x rfl).item, h.stats i (by rw [hphase]; rfl) herror m]
    split
    · next e henforce =>
      obtain ⟨⟨what, rfl⟩, m, hover⟩ := enforce_error henforce
      have hle := Measure.total_take_le (o := o) m q.parts (i + 1)
      rw [hstats m] at hover
      have hown : Own o now q (.budgetExceeded what) := fun _ =>
        .inr (.inr (.inl ⟨m, lt_of_lt_of_le hover hle⟩))
      exact h.record hown stats (.inl ⟨_, rfl⟩)
    · have hclaims := h.claims
      refine ⟨h.looked, h.hits, h.joins, nofun, nofun, h.stopped, h.own,
        nofun, nofun, nofun, ?_, fun m => ?_⟩
      · intro j hj _ m
        cases hj
        exact hstats m
      · exact Nat.le_trans (Nat.add_le_add_left (Nat.zero_le _) _) (hclaims m)

omit h

theorem Later.takeMedia (q : Request Key) (media : Option PreparedMedia)
    (phase : Phase) :
    Later q { takeMedia o q media with phase := phase } := by
  unfold Media.takeMedia
  cases media with
  | none => exact .record q _ q.stats phase
  | some x =>
    dsimp only
    split
    · exact .record q _ q.stats phase
    split
    · exact .record q _ q.stats phase
    split
    · exact .record q _ _ phase
    · exact ⟨rfl, rfl, id, id⟩

end

end Ginfer.Frontend.Media
