/-
Singleflight: a request fails for its own reasons.

Nothing tells an item's error from its producer's on the way to a waiter,
so the cancellation of one request fails another that waits for its
flight (`neighbour_cancelled`). `Unshared` is the condition under which it
does not: no request but the producer is attached to a flight that failed
for the producer's reasons. In every run whose states meet it each request
fails for its own (`singleflight_run`).
-/
import Ginfer.Frontend.Proofs.Isolated

namespace Ginfer.Frontend.Media

open Ginfer.Lib Option State List

variable {Key : Type} {o : Setup Key} {e : PrepareError} {s s' : State Key}

-- ============ the condition

/-- No request but its producer is attached to a flight that failed for its
producer's reasons. -/
def Unshared (o : Setup Key) (s : State Key) : Prop :=
  ∀ (r f : Nat) (q : Request Key) (pending : Pending Key)
    (fl : Flight Key) (e : PrepareError),
    s.requests[r]? = some q → pending ∈ q.pendings →
    pending.source = .flight f → s.flights[f]? = some fl →
    fl.producer ≠ r → fl.done = true → fl.error = some e →
    OfItem o fl.key e

-- ============ the threads

/-- A new flight owes its item to its producer only. -/
theorem owed_concat {flights : List (Flight Key)} (fl : Flight Key)
    (m : Measure) (r : Nat) :
    owed o m r (flights ++ [fl]) = owed o m r flights + fl.owes o m r := by
  unfold owed
  rw [map_append, sum_append]
  rfl

variable {r : Nat} {q : Request Key} {key : Key}

/-- A request starts a flight for its next part. -/
theorem Isolated.starts [DecidableEq Key] (h : Isolated o s)
    (hq : s.requests[r]? = some q) (hphase : q.phase = .preparing)
    (hkey : q.parts[q.pendings.length]? = some key) :
    Isolated o ((s.addFlight key r).setRequest r
      { q with phase := .submitting s.flights.length }) := by
  let fl : Flight Key := ⟨key, r, .created, 0, false, none, none⟩
  have hkept : ∀ (f : Nat) (x : Flight Key), s.flights[f]? = some x →
      ∃ x', (s.flights ++ [fl])[f]? = some x' ∧ x'.key = x.key
        ∧ x'.producer = x.producer :=
    fun f x hx => ⟨x, getElem?_concat_old hx, rfl, rfl⟩
  have hnew : (s.flights ++ [fl])[s.flights.length]? = some fl :=
    getElem?_concat_length
  have hr := h.requests r q hq
  have hlater : Later q { q with phase := .submitting s.flights.length } :=
    ⟨rfl, rfl, id, id⟩
  refine ⟨?_, ?_, h.ready, ?_, h.queue_nodup, ?_⟩
  · intro r' x hx
    rcases getElem?_set_cases hx with ⟨rfl, rfl⟩ | ⟨hne, hold⟩
    · refine ⟨hr.looked, hr.hits, ?_, fun _ => hr.early (by rw [hphase]; rfl),
        nofun, hr.stopped, hr.own, nofun, ?_, ?_, ?_, fun m => ?_⟩
      · intro pending hmem f hsource
        obtain ⟨x, hx, hxkey⟩ := hr.joins pending hmem f hsource
        exact ⟨x, getElem?_concat_old hx, hxkey⟩
      · intro f hf
        cases hf
        exact ⟨fl, hnew, rfl, rfl⟩
      · intro f hf
        cases hf
        exact ⟨fl, hnew, hkey⟩
      · exact fun i hi => hr.stats i (by rw [hphase]; exact hi)
      · have hclaims := hr.claims m
        have howes : fl.owes o m r' = m.item o key := if_pos ⟨rfl, rfl⟩
        have hahead : q.ahead = q.parts.drop q.pendings.length := by
          unfold Request.ahead
          rw [hphase]
        show m.get q.claimed + owed o m r' (s.flights ++ [fl])
          + m.total o (q.parts.drop (q.pendings.length + 1)) ≤ m.total o q.parts
        rw [hahead, Measure.total_drop hkey] at hclaims
        rw [owed_concat, howes]
        omega
    · have hr' := h.requests r' x hold
      refine hr'.frame (le_refl _) hkept ?_ fun m => ?_
      · intro f x' hsub hx'
        obtain ⟨y, hy, -, hoffered⟩ := hr'.submits f hsub
        obtain rfl := some.inj (hx'.symm.trans (getElem?_concat_old hy))
        exact hoffered
      · have howes : fl.owes o m r' = 0 :=
          if_neg fun hand => hne hand.1.symm
        show owed o m r' (s.flights ++ [fl]) ≤ _
        rw [owed_concat, howes]
        exact le_refl _
  · intro f x hx
    rcases getElem?_concat_cases hx with ⟨-, rfl⟩ | hold
    · exact ⟨⟨_, getElem?_set_same hq⟩, nofun, nofun, nofun, nofun, nofun⟩
    · exact (h.flights f x hold).frame (le_refl _) (.set hq hlater)
  · intro key' f hf
    replace hf : Function.update s.inflight key (some s.flights.length)
      key' = some f := hf
    rcases Decidable.em (key' = key) with rfl | hne
    · rw [Function.update_self] at hf
      cases hf
      exact ⟨fl, hnew, rfl⟩
    · rw [Function.update_of_ne hne] at hf
      obtain ⟨x, hx, hxkey⟩ := h.map key' f hf
      exact ⟨x, getElem?_concat_old hx, hxkey⟩
  · intro f hf
    obtain ⟨x, hx, hstage⟩ := h.queued f hf
    exact ⟨x, getElem?_concat_old hx, hstage⟩

/-- What the ready entry of a key holds. -/
theorem Isolated.findReady [DecidableEq Key] (h : Isolated o s)
    {entry : Ready} (hfind : s.findReady key = some entry) :
    MediaOf o key entry.media := by
  unfold State.findReady at hfind
  obtain ⟨x, hx, rfl⟩ := map_eq_some_iff.mp hfind
  have hkey : x.1 = key := by simpa using find?_some hx
  rw [← hkey]
  exact h.ready x (mem_of_find?_eq_some hx)

/-- A look into the cache. -/
theorem Isolated.lookup [DecidableEq Key] (h : Isolated o s)
    (hq : s.requests[r]? = some q) (hphase : q.phase = .preparing)
    (hkey : q.parts[q.pendings.length]? = some key) (turn : Turn) :
    Isolated o (lookup s r q key turn) := by
  have hr := h.requests r q hq
  have hearly : q.phase.early = true := by rw [hphase]; rfl
  have hahead : ∀ m : Measure,
      m.total o (q.parts.drop (q.pendings.length + 1))
        ≤ m.total o q.ahead := by
    intro m
    have heq : q.ahead = q.parts.drop q.pendings.length := by
      unfold Request.ahead
      rw [hphase]
    rw [heq, Measure.total_drop hkey]
    exact Nat.le_add_left _ _
  have hsame : ∀ pendings : List (Pending Key),
      ({ q with phase := .preparing, pendings := pendings } : Request Key)
        = { q with pendings := pendings } := by
    intro pendings
    rw [← hphase]
  unfold Media.lookup
  split
  · next entry hfind =>
    rw [← hsame]
    have htouched : Isolated o (s.touch key) :=
      h.frame rfl rfl rfl (fun _ _ hf => hf) rfl h.ready
    refine htouched.setRequest hq ⟨rfl, rfl, id, id⟩
      (hr.looks hearly hkey ?_ nofun hahead)
    rintro media hsource
    cases hsource
    exact h.findReady hfind
  split
  · next f hf =>
    rw [← hsame]
    refine h.setRequest hq ⟨rfl, rfl, id, id⟩
      (hr.looks hearly hkey nofun ?_ hahead)
    rintro g hsource
    cases hsource
    exact h.map key f hf
  split
  · have hown : Own o s.now q .badAlloc := own_of_neutral rfl nofun nofun
    exact h.setRequest hq (.record q _ q.stats _)
      (hr.record hown q.stats (.inl ⟨0, rfl⟩))
  · exact h.starts hq hphase hkey

theorem releasePermit_eq (s : State Key) (held : Bool) :
    ∃ active terminated, s.releasePermit held
      = { s with active := active, terminated := terminated } := by
  unfold releasePermit
  split
  · exact ⟨s.active, s.terminated, rfl⟩
  split
  · exact ⟨s.active, true, rfl⟩
  · exact ⟨s.active - 1, s.terminated, rfl⟩

variable (h : Isolated o s) (hq : s.requests[r]? = some q)

include h hq

/-- A request leaves the media behind, and its permit. -/
theorem Isolated.leaves {q' : Request Key} (held : Bool) (hlater : Later q q')
    (hiso : RequestIso o s.now s.flights r q') :
    Isolated o ((s.releasePermit held).setRequest r q') := by
  obtain ⟨active, terminated, heq⟩ := releasePermit_eq s held
  rw [heq]
  have hleft : Isolated o { s with active := active, terminated := terminated } :=
    h.frame rfl rfl rfl (fun _ _ hf => hf) rfl h.ready
  exact hleft.setRequest hq hlater hiso

variable {fl : Flight Key} {f : Nat}

/-- Only its producer has a flight in its hands. -/
theorem Isolated.hands
    (hsub : q.phase.submission = some f) (hfl : s.flights[f]? = some fl) :
    fl.producer = r ∧ fl.stage.offered = true ∧ f ∉ s.queue := by
  obtain ⟨x, hx, hprod, hoffered⟩ := (h.requests r q hq).submits f hsub
  obtain rfl := some.inj (hfl.symm.trans hx)
  refine ⟨hprod, hoffered, fun hmem => ?_⟩
  obtain ⟨y, hy, hqueued⟩ := h.queued f hmem
  obtain rfl := some.inj (hfl.symm.trans hy)
  rw [hqueued] at hoffered
  cases hoffered

/-- The submission of a flight throws. -/
theorem Isolated.withdraws
    (hphase : q.phase = .submitting f) (hfl : s.flights[f]? = some fl)
    (hown : Own o s.now q e) (hblame : Blamed o s.now s.requests fl e) :
    Isolated o ((s.setFlight f { fl with
        stage := .withdrawn
        error := some e
        done := true }).setRequest r
      { q with phase := .withdrawing f e }) := by
  have hr := h.requests r q hq
  have hlater : Later q { q with phase := .withdrawing f e } :=
    ⟨rfl, rfl, id, id⟩
  obtain ⟨hprod, hoffered, hfree⟩ := h.hands hq (by rw [hphase]; rfl) hfl
  have hrequest : Isolated o
      (s.setRequest r { q with phase := .withdrawing f e }) := by
    refine h.setRequest hq hlater ⟨hr.looked, hr.hits, hr.joins, nofun,
      nofun, hr.stopped, hr.own, ?_, ?_, nofun, nofun, fun m => ?_⟩
    · intro e' he'
      cases he'
      exact hown
    · intro g hg
      cases hg
      exact ⟨fl, hfl, hprod, hoffered⟩
    · exact Nat.le_trans (Nat.add_le_add_left (Nat.zero_le _) _) (hr.claims m)
  have hiso := hrequest.flights f fl hfl
  refine hrequest.setFlight hfl rfl rfl (fun _ => ?_) (fun _ _ _ _ => rfl)
    (fun hmem => absurd hmem hfree)
    ⟨hiso.producer, nofun, nofun, hiso.result, nofun, ?_⟩
  · exact unclaimed_of_offered hoffered
  · intro e' he'
    cases he'
    rcases hblame with hitem | ⟨x, hx, hproducer⟩
    · exact .inl hitem
    · obtain ⟨x', hx', hlater'⟩ := Grows.set hq hlater _ x hx
      exact .inr ⟨x', hx', hproducer.later hlater' (le_refl _)⟩

/-- Nobody has it, once its producer has moved on. -/
theorem Isolated.released
    (hfree : q.phase.submission = none) (hfl : s.flights[f]? = some fl)
    (hprod : fl.producer = r) (r' : Nat) (x : Request Key)
    (hx : s.requests[r']? = some x) (hsub : x.phase.submission = some f) :
    False := by
  obtain ⟨hprod', -⟩ := h.hands hx hsub hfl
  obtain rfl := hprod'.symm.trans hprod
  obtain rfl := some.inj (hq.symm.trans hx)
  rw [hfree] at hsub
  cases hsub

/-- The task of a flight is queued. -/
theorem Isolated.submits
    (hphase : q.phase = .submitting f) (hfl : s.flights[f]? = some fl) :
    Isolated o (((s.enqueue f).setFlight f
      { fl with stage := .queued }).setRequest r
        { q with
          phase := .preparing
          pendings := q.pendings ++ [⟨fl.key, .flight f⟩] }) := by
  have hr := h.requests r q hq
  obtain ⟨hprod, hoffered, hfree⟩ := h.hands hq (by rw [hphase]; rfl) hfl
  obtain ⟨fl₀, hfl₀, hkey⟩ := hr.submitting f hphase
  obtain rfl := some.inj (hfl.symm.trans hfl₀)
  have hahead : q.ahead = q.parts.drop (q.pendings.length + 1) := by
    unfold Request.ahead
    rw [hphase]
  have hjoin : ∀ g, Source.flight f = .flight g →
      ∃ x, s.flights[g]? = some x ∧ x.key = fl.key := by
    intro g hg
    cases hg
    exact ⟨fl, hfl, rfl⟩
  let q' : Request Key := { q with
    phase := .preparing
    pendings := q.pendings ++ [⟨fl.key, .flight f⟩] }
  have hrequest : Isolated o (s.setRequest r q') :=
    h.setRequest hq ⟨rfl, rfl, id, id⟩
      (hr.looks (by rw [hphase]; rfl) hkey nofun hjoin
        fun m => hahead ▸ le_refl _)
  have hiso := hrequest.flights f fl hfl
  have hflight : Isolated o
      ((s.setRequest r q').setFlight f { fl with stage := .queued }) :=
    hrequest.setFlight hfl rfl rfl (fun _ => unclaimed_of_offered hoffered)
      (fun r' x hx hsub => (hrequest.released (getElem?_set_same hq) rfl hfl
        hprod r' x hx hsub).elim) (fun _ => rfl)
      ⟨hiso.producer, nofun, nofun, hiso.result, nofun, hiso.error⟩
  refine ⟨hflight.requests, hflight.flights, hflight.ready, hflight.map, ?_, ?_⟩
  · show (s.queue ++ [f]).Nodup
    refine nodup_append.mpr ⟨h.queue_nodup, nodup_singleton f, ?_⟩
    rintro g hg g' hg' rfl
    obtain rfl := mem_singleton.mp hg'
    exact hfree hg
  · intro g hg
    rcases mem_append.mp hg with hold | hnew
    · exact hflight.queued g hold
    · obtain rfl := mem_singleton.mp hnew
      exact ⟨_, getElem?_set_same hfl, rfl⟩

/-- A withdrawn flight leaves the map. -/
theorem Isolated.closes [DecidableEq Key]
    (hphase : q.phase = .withdrawing f e) (hfl : s.flights[f]? = some fl) :
    Isolated o (((s.eraseFlight fl.key).setFlight f
      { fl with stage := .closed }).setRequest r
        { q.record e with phase := .awaiting 0 }) := by
  have hr := h.requests r q hq
  obtain ⟨hprod, -, hfree⟩ := h.hands hq (by rw [hphase]; rfl) hfl
  have hown : Own o s.now q e := hr.thrown e (by rw [hphase]; rfl)
  have hrequest : Isolated o
      (s.setRequest r { q.record e with phase := .awaiting 0 }) :=
    h.setRequest hq (.record q e q.stats _)
      (hr.record hown q.stats (.inl ⟨0, rfl⟩))
  have hiso := hrequest.flights f fl hfl
  have hflight : Isolated o ((s.setRequest r
      { q.record e with phase := .awaiting 0 }).setFlight f
        { fl with stage := .closed }) :=
    hrequest.setFlight hfl rfl rfl nofun
      (fun r' x hx hsub => (hrequest.released (getElem?_set_same hq) rfl hfl
        hprod r' x hx hsub).elim) (fun hmem => absurd hmem hfree)
      ⟨hiso.producer, nofun, nofun, hiso.result, nofun, hiso.error⟩
  refine hflight.frame rfl rfl rfl (fun key g hg => ?_) rfl hflight.ready
  exact eraseFlight_inflight hg

omit h hq

/-- A waiter is given the error of a flight. -/
theorem Isolated.rethrown (h : Isolated o s) (hC : Unshared o s)
    {i : Nat} {pending : Pending Key}
    (hq : s.requests[r]? = some q) (hp : q.pendings[i]? = some pending)
    (hawait : await s pending = .throws e) (herror : q.error = none) :
    Own o s.now q e := by
  have hr := h.requests r q hq
  have hmem : pending ∈ q.pendings := mem_of_getElem? hp
  unfold await at hawait
  split at hawait
  · cases hawait
  next f hsource =>
  split at hawait
  · cases hawait
  next fl hfl =>
  split at hawait
  · cases hawait
  next hdone =>
  split at hawait
  · next e' he' =>
    obtain rfl := Awaited.throws.inj hawait
    obtain ⟨x, hx, hkey⟩ := hr.joins pending hmem f hsource
    obtain rfl := some.inj (hfl.symm.trans hx)
    have hpart : fl.key ∈ q.parts := by
      rw [hkey]
      exact mem_of_getElem? (hr.part hp)
    by_cases hprod : fl.producer = r
    · rcases (h.flights f fl hfl).error e' he' with hitem | ⟨y, hy, hblame⟩
      · exact hitem.own hpart
      · rw [hprod] at hy
        obtain rfl := some.inj (hq.symm.trans hy)
        exact hblame.own (hr.running herror)
    · have hitem := hC r f q pending fl e' hq hmem hsource hfl hprod
        (by simpa using hdone) he'
      exact hitem.own hpart
  · cases hawait

/-- A waiter is given media of its part. -/
theorem Isolated.returned (h : Isolated o s)
    {i : Nat} {pending : Pending Key} {media : Option PreparedMedia}
    (hq : s.requests[r]? = some q) (hp : q.pendings[i]? = some pending)
    (hawait : await s pending = .returns media) (x : PreparedMedia)
    (hx : media = some x) : MediaOf o pending.key x := by
  subst hx
  have hr := h.requests r q hq
  have hmem : pending ∈ q.pendings := mem_of_getElem? hp
  unfold await at hawait
  split at hawait
  · next y hsource =>
    obtain rfl := some.inj (Awaited.returns.inj hawait)
    exact hr.hits pending hmem y hsource
  next f hsource =>
  split at hawait
  · cases hawait
  next fl hfl =>
  split at hawait
  · cases hawait
  split at hawait
  · cases hawait
  · obtain ⟨y, hy, hkey⟩ := hr.joins pending hmem f hsource
    obtain rfl := some.inj (hfl.symm.trans hy)
    rw [← hkey]
    exact (h.flights f fl hfl).result x (Awaited.returns.inj hawait)

/-- The control of its awaits is the request's own. -/
theorem awaitCheck_own {now : Nat}
    (h : q.awaitCheck now = .error e) : Own o now q e := by
  unfold Request.awaitCheck at h
  split at h
  · cases h
  · exact check_own h

/-- A step of a request's thread. -/
theorem Isolated.advance [DecidableEq Key] (h : Isolated o s)
    (hC : Unshared o s) {turn : Turn} (hq : s.requests[r]? = some q)
    (hstep : advance o s r q turn = some s') : Isolated o s' := by
  have hr := h.requests r q hq
  -- the four ways a thread goes on
  have hfails : ∀ {e : PrepareError}, Own o s.now q e →
      Isolated o (s.setRequest r (q.fail e)) := fun hown =>
    h.setRequest hq ⟨rfl, rfl, id, id⟩ (hr.fail hown)
  have hrecords : ∀ {e : PrepareError}, Own o s.now q e → Isolated o
      (s.setRequest r { q.record e with phase := .awaiting 0 }) :=
    fun hown => h.setRequest hq (.record q _ q.stats _)
      (hr.record hown q.stats (.inl ⟨0, rfl⟩))
  have hdiscards : ∀ {e : PrepareError} (i : Nat),
      (q.error = none → Own o s.now q e) → Isolated o
        (s.setRequest r { q.recordFirst e with phase := .discarding i }) :=
    fun i hown => h.setRequest hq (.recordFirst q _ _) (hr.recordFirst hown i)
  have hmoves : ∀ {phase : Phase}, RequestIso o s.now s.flights r
      { q with phase := phase } →
      Isolated o (s.setRequest r { q with phase := phase }) :=
    fun hiso => h.setRequest hq ⟨rfl, rfl, id, id⟩ hiso
  unfold Media.advance at hstep
  cases hphase : q.phase with
  | arrived =>
    rw [hphase] at hstep
    dsimp only at hstep
    split at hstep
    · next e he =>
      cases hstep
      exact hfails (check_own he)
    split at hstep
    · next e he =>
      cases hstep
      exact hfails (checkParts_own he)
    · cases hstep
      refine hmoves (hr.moves q.permit rfl rfl
        (fun _ => hr.early (by rw [hphase]; rfl)) nofun
        (fun i hi _ => by rw [hphase]; exact hi) (.inl ?_))
      unfold Request.ahead
      rw [hphase]
  | gate =>
    rw [hphase] at hstep
    dsimp only at hstep
    split at hstep
    · next e he =>
      cases hstep
      exact hfails (check_own he)
    split at hstep
    · cases hstep
      have hentered : Isolated o s.enterGate :=
        h.frame rfl rfl rfl (fun _ _ hf => hf) rfl h.ready
      refine hentered.setRequest hq ⟨rfl, rfl, id, id⟩ (hr.moves true rfl
        rfl (fun _ => hr.early (by rw [hphase]; rfl)) nofun
        (fun i hi _ => by rw [hphase]; exact hi) (.inl ?_))
      unfold Request.ahead
      rw [hphase]
    · cases hstep
  | rendering =>
    rw [hphase] at hstep
    dsimp only at hstep
    split at hstep
    · cases hstep
      have hown : Own o s.now q .badAlloc :=
        own_of_neutral rfl nofun nofun
      exact h.leaves hq q.permit ⟨rfl, rfl, id, id⟩ (hr.fail hown)
    · cases hstep
      refine hmoves (hr.moves q.permit rfl rfl
        (fun _ => hr.early (by rw [hphase]; rfl)) nofun
        (fun i hi _ => by rw [hphase]; exact hi) (.inl ?_))
      unfold Request.ahead
      rw [hphase]
  | preparing =>
    have herror : q.error = none := hr.early (by rw [hphase]; rfl)
    rw [hphase] at hstep
    dsimp only at hstep
    split at hstep
    · cases hstep
      exact hmoves (hr.moves q.permit rfl rfl nofun nofun
        (fun i hi _ => by rw [hphase]; exact hi) (.inr rfl))
    next key hkey =>
    split at hstep
    · next e he =>
      cases hstep
      exact hrecords (check_own he)
    split at hstep
    · next e he =>
      cases hstep
      exact hrecords ((workerCheck_producer he).own (hr.running herror))
    · cases hstep
      exact h.lookup hq hphase hkey turn
  | submitting f =>
    have herror : q.error = none := hr.early (by rw [hphase]; rfl)
    rw [hphase] at hstep
    dsimp only at hstep
    split at hstep
    · cases hstep
    next fl hfl =>
    obtain ⟨hprod, -⟩ := h.hands hq (by rw [hphase]; rfl) hfl
    split at hstep
    · next e he =>
      cases hstep
      split at he
      · cases he
        exact h.withdraws hq hphase hfl
          (own_of_neutral rfl nofun nofun) (.inl nofun)
      · have hblame := workerCheck_producer (o := o) he
        exact h.withdraws hq hphase hfl (hblame.own (hr.running herror))
          (.inr ⟨q, hprod.symm ▸ hq, hblame⟩)
    split at hstep
    · cases hstep
      exact h.submits hq hphase hfl
    · cases hstep
  | withdrawing f e =>
    rw [hphase] at hstep
    dsimp only at hstep
    split at hstep
    · cases hstep
    next fl hfl =>
    cases hstep
    exact h.closes hq hphase hfl
  | awaiting i =>
    rw [hphase] at hstep
    dsimp only at hstep
    split at hstep
    · split at hstep
      · next e he =>
        cases hstep
        exact h.leaves hq q.permit ⟨rfl, rfl, id, id⟩
          (hr.fail (hr.own e he).reported)
      · cases hstep
        exact h.leaves hq q.permit ⟨rfl, rfl, id, id⟩
          (hr.moves false rfl rfl nofun nofun nofun (.inr rfl))
    split at hstep
    · next e he =>
      cases hstep
      exact hdiscards i fun _ => awaitCheck_own he
    · cases hstep
      exact hmoves (hr.moves q.permit rfl rfl nofun nofun
        (fun j hj _ => by rw [hphase]; exact hj) (.inr rfl))
  | waiting i =>
    rw [hphase] at hstep
    dsimp only at hstep
    split at hstep
    · cases hstep
    next pending hp =>
    split at hstep
    · split at hstep
      · next e he =>
        cases hstep
        exact hdiscards i fun _ => awaitCheck_own he
      · cases hstep
    · next e hawait =>
      cases hstep
      exact hdiscards i fun herror =>
        h.rethrown hC hq hp hawait herror
    · next media hawait =>
      cases hstep
      split
      · next hsome =>
        refine hmoves (hr.moves q.permit rfl rfl nofun nofun
          (fun _ _ hnone => ?_) (.inr rfl))
        rw [hnone] at hsome
        cases hsome
      · next hnone =>
        exact h.setRequest hq (.takeMedia q media _)
          (hr.takes hphase (by simpa using hnone) (hr.part hp)
            (h.returned hq hp hawait))
  | discarding i =>
    have herror : q.error ≠ none := hr.discards (by rw [hphase]; rfl)
    rw [hphase] at hstep
    dsimp only at hstep
    split at hstep
    · cases hstep
    split at hstep
    · cases hstep
      exact hmoves (hr.moves q.permit rfl rfl nofun nofun
        (fun _ _ hnone => absurd hnone herror) (.inr rfl))
    · cases hstep
  | tokenizing =>
    rw [hphase] at hstep
    dsimp only at hstep
    split at hstep
    · next e he =>
      cases hstep
      exact hfails (check_own he)
    · cases hstep
      refine h.setRequest hq ⟨rfl, rfl, id, id⟩ ⟨rfl, nofun, nofun,
        nofun, nofun, hr.stopped, hr.own, nofun, nofun, nofun, nofun,
        fun m => ?_⟩
      exact Nat.le_trans (Nat.add_le_add_left (Nat.zero_le _) _) (hr.claims m)
  | failed e =>
    rw [hphase] at hstep
    cases hstep
  | succeeded =>
    rw [hphase] at hstep
    cases hstep

-- ============ the tasks

/-- A task under way moves on. -/
theorem Isolated.works (h : Isolated o s)
    (hfl : s.flights[f]? = some fl) (hrun : fl.stage.running = true)
    {fl' : Flight Key} (hkey : fl'.key = fl.key)
    (hprod : fl'.producer = fl.producer)
    (hun : fl'.stage.unclaimed = true → fl.stage.unclaimed = true)
    (hiso : FlightIso o s.now s.requests fl') :
    Isolated o (s.setFlight f fl') := by
  refine h.setFlight hfl hkey hprod hun (fun r q hq hsub => ?_)
    (fun hmem => ?_) hiso
  · obtain ⟨-, hoffered, -⟩ := h.hands hq hsub hfl
    cases hstage : fl.stage with
    | created | withdrawn => rw [hstage] at hrun; cases hrun
    | _ => rw [hstage] at hoffered; cases hoffered
  · obtain ⟨x, hx, hqueued⟩ := h.queued f hmem
    obtain rfl := some.inj (hfl.symm.trans hx)
    rw [hqueued] at hrun
    cases hrun

/-- What the look at the producer's control throws. -/
theorem producerCheck_blamed (h : producerCheck s fl = .error e) :
    Blamed o s.now s.requests fl e := by
  unfold producerCheck at h
  split at h
  · cases h
  · next q hq => exact .inr ⟨q, hq, workerCheck_producer h⟩

/-- The shelf only loses entries in an eviction. -/
theorem evictOneLocked_eq [DecidableEq Key] (s : State Key) :
    ∃ lru ready retained terminated, s.evictOneLocked.1 = { s with
        lru := lru, ready := ready, retainedBytes := retained,
        terminated := terminated }
      ∧ ∀ e ∈ ready, e ∈ s.ready := by
  unfold evictOneLocked
  split
  · exact ⟨s.lru, s.ready, s.retainedBytes, s.terminated, rfl, fun _ he => he⟩
  split
  · exact ⟨s.lru, s.ready, s.retainedBytes, true, rfl, fun _ he => he⟩
  split
  · exact ⟨s.lru, s.ready, s.retainedBytes, true, rfl, fun _ he => he⟩
  · exact ⟨_, _, _, s.terminated, rfl, fun _ he => (mem_filter.mp he).1⟩

theorem makeRoom_eq [DecidableEq Key] (bytes fuel : Nat) (s : State Key) :
    ∃ lru ready retained terminated,
      makeRoom o bytes fuel s = { s with
        lru := lru, ready := ready, retainedBytes := retained,
        terminated := terminated }
      ∧ ∀ e ∈ ready, e ∈ s.ready := by
  induction fuel generalizing s with
  | zero =>
    exact ⟨s.lru, s.ready, s.retainedBytes, s.terminated, rfl, fun _ he => he⟩
  | succ fuel ih =>
    unfold makeRoom
    split
    · exact ⟨s.lru, s.ready, s.retainedBytes, s.terminated, rfl,
        fun _ he => he⟩
    obtain ⟨lru, ready, retained, terminated, heq, hsub⟩ :=
      evictOneLocked_eq s
    split
    · next s' hevict =>
      obtain rfl : s.evictOneLocked.1 = s' := by rw [hevict]
      obtain ⟨lru', ready', retained', terminated', heq', hsub'⟩ :=
        ih s.evictOneLocked.1
      refine ⟨lru', ready', retained', terminated', ?_, fun e he => hsub e ?_⟩
      · rw [heq', heq]
      · have hmem := hsub' e he
        rw [heq] at hmem
        exact hmem
    · next s' hevict =>
      obtain rfl : s.evictOneLocked.1 = s' := by rw [hevict]
      exact ⟨lru, ready, retained, terminated, heq, hsub⟩

/-- The publishing section adds the media to the shelf at most. -/
theorem publish_eq [DecidableEq Key] (key : Key) (media : PreparedMedia)
    (turn : Turn) :
    ∃ lru ready retained terminated,
      (s.publish o key media turn).1 = { s with
        lru := lru, ready := ready, retainedBytes := retained,
        terminated := terminated }
      ∧ (∀ e ∈ ready, e ∈ s.ready ∨ e = (key, ⟨media, media.bytes⟩))
      ∧ ∀ e, (s.publish o key media turn).2 = some e → e = .badAlloc := by
  obtain ⟨lru, ready, retained, terminated, heq, hsub⟩ :=
    makeRoom_eq (o := o) media.bytes s.lru.length s
  have hold : ∀ e ∈ ready, e ∈ s.ready ∨ e = (key, ⟨media, media.bytes⟩) :=
    fun e he => .inl (hsub e he)
  have hnone : ∀ e : PrepareError, none = some e → e = .badAlloc := by
    intro e h
    cases h
  unfold publish
  split
  · dsimp only
    rw [heq]
    split
    · cases turn with
      | noMemory =>
        exact ⟨lru, ready, retained, terminated, rfl, hold,
          fun e he => (some.inj he).symm⟩
      | noMapNode =>
        exact ⟨key :: lru, ready, retained, terminated, rfl, hold,
          fun e he => (some.inj he).symm⟩
      | go | check =>
        refine ⟨key :: lru, _, retained + media.bytes, terminated, rfl, ?_, hnone⟩
        intro e he
        split at he
        · exact hold e he
        · rcases mem_cons.mp he with rfl | hin
          · exact .inr rfl
          · exact hold e hin
    · exact ⟨lru, ready, retained, terminated, rfl, hold, hnone⟩
  · exact ⟨s.lru, s.ready, s.retainedBytes, s.terminated, rfl,
      fun _ he => .inl he, hnone⟩

theorem release_eq (s : State Key) (p : Nat) (payload : Payload) :
    ∃ live payloads terminated, s.release p payload = { s with
      live := live, payloads := payloads, terminated := terminated } := by
  unfold release
  split
  · exact ⟨s.live, s.payloads, true, rfl⟩
  · exact ⟨_, _, s.terminated, rfl⟩

/-- The deleter of a payload plays no part. -/
theorem Isolated.release (h : Isolated o s) (p : Nat) (payload : Payload) :
    Isolated o (s.release p payload) := by
  obtain ⟨live, payloads, terminated, heq⟩ := release_eq s p payload
  rw [heq]
  exact h.frame rfl rfl rfl (fun _ _ hf => hf) rfl h.ready

section

variable {f : Nat} {fl : Flight Key}

/-- A flight whose task is at another stage. -/
theorem FlightIso.moves {now : Nat} {requests : List (Request Key)}
    (h : FlightIso o now requests fl) {stage : Stage}
    (hitem : ∀ g, stage.item = some g → (o.content fl.key).decoded = .ok g)
    (hmedia : ∀ media, stage.media = some media → MediaOf o fl.key media)
    (hfailure : ∀ e, stage.failure = some e → Blamed o now requests fl e) :
    FlightIso o now requests { fl with stage := stage } :=
  ⟨h.producer, hitem, hmedia, h.result, hfailure, h.error⟩

variable (h : Isolated o s) (hfl : s.flights[f]? = some fl)

include h hfl

/-- The task fails. -/
theorem Isolated.fails
    (hrun : fl.stage.running = true) {media : Option PreparedMedia}
    (hmedia : ∀ x, media = some x → MediaOf o fl.key x)
    (hblame : Blamed o s.now s.requests fl e) :
    Isolated o (s.setFlight f
      { fl with stage := .settling media (some e) }) := by
  refine h.works hfl hrun rfl rfl nofun
    ((h.flights f fl hfl).moves nofun hmedia ?_)
  intro e' he'
  cases he'
  exact hblame

/-- The claim of an item, and what it leaves of the budget. -/
theorem Isolated.claims {item : Grid} (hstage : fl.stage = .claiming item) :
    (∀ e, (claim o s fl item).2 = some e → Isolated o
      ((claim o s fl item).1.setFlight f
        { fl with stage := .settling none (some e) }))
      ∧ ((claim o s fl item).2 = none → Isolated o
        ((claim o s fl item).1.setFlight f
          { fl with stage := .allocating item })) := by
  have hiso := h.flights f fl hfl
  have hrun : fl.stage.running = true := by rw [hstage]; rfl
  have hitem : (o.content fl.key).decoded = .ok item :=
    hiso.item item (by rw [hstage]; rfl)
  have hmoves : Isolated o
      (s.setFlight f { fl with stage := .allocating item }) := by
    refine h.works hfl hrun rfl rfl nofun (hiso.moves ?_ nofun nofun)
    intro g hg
    cases hg
    exact hitem
  unfold claim
  split
  · exact ⟨nofun, fun _ => hmoves⟩
  next q hq =>
  split
  · next e hadd =>
    refine ⟨fun e' he' => ?_, nofun⟩
    cases he'
    obtain ⟨what, rfl⟩ := addBudget_error hadd
    exact h.fails hfl hrun nofun (.inl nofun)
  next stats hadd =>
  have hr := h.requests fl.producer q hq
  have howes : ∀ m : Measure, fl.owes o m fl.producer = m.grid item := by
    intro m
    have hcounts : m.item o fl.key = m.grid item := by
      unfold Measure.item
      rw [hitem]
    exact (if_pos ⟨rfl, by rw [hstage]; rfl⟩).trans hcounts
  -- the item leaves what is owed and enters what is claimed
  have hclaimed : ∀ (stage : Stage), stage.unclaimed = false →
      Isolated o (s.setFlight f { fl with stage := stage }) →
      Isolated o ((s.setRequest fl.producer
        { q with claimed := stats }).setFlight f
          { fl with stage := stage }) := by
    intro stage hclaimed hset
    have hq' : (s.setFlight f { fl with stage := stage }).requests[
        fl.producer]? = some q := hq
    have hr' := hset.requests fl.producer q hq'
    refine hset.setRequest hq' ⟨rfl, rfl, id, id⟩ ⟨hr'.looked, hr'.hits,
      hr'.joins, hr'.early, hr'.discards, hr'.stopped, hr'.own, hr'.thrown,
      hr'.submits, hr'.submitting, hr'.stats, fun m => ?_⟩
    have hclaims := hr.claims m
    have howed := owed_set (o := o) { fl with stage := stage } hfl m fl.producer
    have hzero : Flight.owes o m fl.producer { fl with stage := stage }
        = 0 := by
      refine if_neg fun hand => ?_
      rw [show stage.unclaimed = true from hand.2] at hclaimed
      cases hclaimed
    have hgets := addBudget_ok hadd m
    rw [howes m, hzero] at howed
    show m.get stats
      + owed o m fl.producer (s.flights.set f { fl with stage := stage })
        + m.total o q.ahead ≤ m.total o q.parts
    omega
  dsimp only
  refine ⟨fun e he => ?_, fun _ => hclaimed _ rfl hmoves⟩
  refine hclaimed _ rfl (h.fails hfl hrun nofun ?_)
  split at he
  · next e' henforce =>
    cases he
    obtain ⟨⟨what, rfl⟩, m, hover⟩ := enforce_error henforce
    refine .inr ⟨q, hq, fun _ => .inr (.inr (.inl ⟨m, ?_⟩))⟩
    have hclaims := hr.claims m
    have hle := le_sum_map (Flight.owes o m fl.producer) hfl
    rw [howes m] at hle
    rw [addBudget_ok hadd m] at hover
    unfold owed at hclaims
    omega
  · cases he

/-- A round of the allocation. -/
theorem Isolated.reserves {item : Grid} (hstage : fl.stage = .allocating item) :
    Isolated o (reserve o s f fl item) := by
  have hiso := h.flights f fl hfl
  have hrun : fl.stage.running = true := by rw [hstage]; rfl
  have hitem : (o.content fl.key).decoded = .ok item :=
    hiso.item item (by rw [hstage]; rfl)
  unfold reserve
  split
  · next e he =>
    exact h.fails hfl hrun nofun (.inl (checkAllocation_error hitem he))
  split
  · next e he => exact h.fails hfl hrun nofun (producerCheck_blamed he)
  split
  · have hpaid : Isolated o (s.addPayload f item.bytes) :=
      h.frame rfl rfl rfl (fun _ _ hf => hf) rfl h.ready
    refine hpaid.works hfl hrun rfl rfl nofun (hiso.moves nofun ?_ nofun)
    intro media hmedia
    cases hmedia
    exact hitem
  · refine h.works hfl hrun rfl rfl nofun (hiso.moves ?_ nofun nofun)
    intro g hg
    cases hg
    exact hitem

omit h hfl

end

/-- A step of a task. -/
theorem Isolated.work [DecidableEq Key] (h : Isolated o s)
    {turn : Turn} (hfl : s.flights[f]? = some fl)
    (hstep : work o s f fl turn = some s') : Isolated o s' := by
  have hiso := h.flights f fl hfl
  unfold Media.work at hstep
  cases hstage : fl.stage with
  | created | withdrawn | queued | closed =>
    rw [hstage] at hstep
    cases hstep
  | decoding =>
    have hrun : fl.stage.running = true := by rw [hstage]; rfl
    rw [hstage] at hstep
    dsimp only at hstep
    split at hstep
    · split at hstep
      · next e he =>
        cases hstep
        exact h.fails hfl hrun nofun (producerCheck_blamed he)
      · cases hstep
        exact h
    split at hstep
    · next e he =>
      cases hstep
      exact h.fails hfl hrun nofun (.inl (decodeItem_error he))
    · next item hitem =>
      cases hstep
      refine h.works hfl hrun rfl rfl (fun _ => by rw [hstage]; rfl)
        (hiso.moves ?_ nofun nofun)
      intro g hg
      cases hg
      exact decodeItem_ok hitem
  | claiming item =>
    obtain ⟨hfails, hmoves⟩ := h.claims hfl hstage
    rw [hstage] at hstep
    dsimp only at hstep
    split at hstep
    · next t e hclaim =>
      cases hstep
      rw [hclaim] at hfails
      exact hfails e rfl
    · next t hclaim =>
      cases hstep
      rw [hclaim] at hmoves
      exact hmoves rfl
  | allocating item =>
    rw [hstage] at hstep
    cases hstep
    exact h.reserves hfl hstage
  | evicting item =>
    have hrun : fl.stage.running = true := by rw [hstage]; rfl
    obtain ⟨lru, ready, retained, terminated, heq, hsub⟩ :=
      evictOneLocked_eq s
    rw [hstage] at hstep
    dsimp only at hstep
    cases hstep
    rw [heq]
    have hevicted : Isolated o { s with
        lru := lru, ready := ready, retainedBytes := retained,
        terminated := terminated } :=
      h.frame rfl rfl rfl (fun _ _ hf => hf) rfl
        fun e he => h.ready e (hsub e he)
    refine hevicted.works hfl hrun rfl rfl nofun (hiso.moves ?_ nofun nofun)
    intro g hg
    cases hg
    exact hiso.item item (by rw [hstage]; rfl)
  | filling media =>
    have hrun : fl.stage.running = true := by rw [hstage]; rfl
    rw [hstage] at hstep
    dsimp only at hstep
    split at hstep
    · split at hstep
      · cases hstep
      next payload hp =>
      cases hstep
      have hfreed := h.release media.payload payload
      obtain ⟨live, payloads, terminated, heq⟩ :=
        release_eq s media.payload payload
      rw [heq] at hfreed ⊢
      exact hfreed.fails hfl hrun nofun (.inl nofun)
    · split at hstep
      · next e he =>
        cases hstep
        exact h.fails hfl hrun nofun (producerCheck_blamed he)
      · cases hstep
        exact h
    · cases hstep
      exact h.works hfl hrun rfl rfl nofun (hiso.moves nofun
        (fun x hx => hiso.media x (by rw [hstage]; exact hx)) nofun)
  | built media =>
    have hrun : fl.stage.running = true := by rw [hstage]; rfl
    have hmedia : ∀ x, some media = some x → MediaOf o fl.key x :=
      fun x hx => hiso.media x (by rw [hstage]; exact hx)
    rw [hstage] at hstep
    dsimp only at hstep
    split at hstep
    · next e he =>
      cases hstep
      exact h.fails hfl hrun hmedia (producerCheck_blamed he)
    · cases hstep
      exact h.works hfl hrun rfl rfl nofun (hiso.moves nofun hmedia nofun)
  | publishing media =>
    have hrun : fl.stage.running = true := by rw [hstage]; rfl
    have hmedia : ∀ x, some media = some x → MediaOf o fl.key x :=
      fun x hx => hiso.media x (by rw [hstage]; exact hx)
    obtain ⟨lru, ready, retained, terminated, heq, hsub, herror⟩ :=
      publish_eq (o := o) (s := s) fl.key media turn
    rw [hstage] at hstep
    dsimp only at hstep
    cases hstep
    rw [heq]
    have hpublished : Isolated o { s with
        lru := lru, ready := ready, retainedBytes := retained,
        terminated := terminated } := by
      refine h.frame rfl rfl rfl (fun _ _ hf => hf) rfl fun e he => ?_
      rcases hsub e he with hold | rfl
      · exact h.ready e hold
      · exact hmedia media rfl
    refine hpublished.works hfl hrun rfl rfl nofun
      (hiso.moves nofun hmedia fun e he => ?_)
    obtain rfl := herror e he
    exact .inl nofun
  | settling media error =>
    have hrun : fl.stage.running = true := by rw [hstage]; rfl
    rw [hstage] at hstep
    cases hstep
    refine h.works hfl hrun rfl rfl nofun ⟨hiso.producer, nofun, nofun,
      fun x hx => hiso.media x (by rw [hstage]; exact hx), nofun,
      fun e he => hiso.failure e (by rw [hstage]; exact he)⟩
  | closing =>
    have hrun : fl.stage.running = true := by rw [hstage]; rfl
    rw [hstage] at hstep
    cases hstep
    have herased : Isolated o (s.eraseFlight fl.key) :=
      h.frame rfl rfl rfl (fun _ _ hf => eraseFlight_inflight hf) rfl h.ready
    exact herased.works hfl hrun rfl rfl nofun (hiso.moves nofun nofun nofun)

/-- A worker takes the task at the head of the queue. -/
theorem Isolated.dequeue (h : Isolated o s) {rest : List Nat}
    (hqueue : s.queue = f :: rest) (hfl : s.flights[f]? = some fl) :
    Isolated o (State.setFlight { s with queue := rest } f
      { fl with stage := .decoding, builds := fl.builds + 1 }) := by
  obtain ⟨x, hx, hqueued⟩ :=
    h.queued f (by rw [hqueue]; exact mem_cons_self)
  obtain rfl := some.inj (hfl.symm.trans hx)
  have hnodup := h.queue_nodup
  rw [hqueue] at hnodup
  obtain ⟨hnot, hrest⟩ := nodup_cons.mp hnodup
  have hshort : Isolated o { s with queue := rest } :=
    ⟨h.requests, h.flights, h.ready, h.map, hrest, fun g hg =>
      h.queued g (by rw [hqueue]; exact .tail f hg)⟩
  have hiso := h.flights f fl hfl
  refine hshort.setFlight hfl rfl rfl (fun _ => by rw [hqueued]; rfl)
    (fun r q hq hsub => ?_) (fun hmem => absurd hmem hnot)
    ⟨hiso.producer, nofun, nofun, hiso.result, nofun, hiso.error⟩
  obtain ⟨-, hoffered, -⟩ := h.hands hq hsub hfl
  rw [hqueued] at hoffered
  cases hoffered

/-- A request arrives: no flight owes it anything. -/
theorem Isolated.arrives (h : Isolated o s) (parts : List Key)
    (deadline : Option Nat) :
    Isolated o { s with
      requests := s.requests ++ [Request.arrive parts deadline] } := by
  have hgrows : Grows s.requests
      (s.requests ++ [Request.arrive parts deadline]) :=
    fun r q hq => ⟨q, getElem?_concat_old hq, .refl q⟩
  have hnone : ∀ m, owed o m s.requests.length s.flights = 0 := by
    intro m
    refine List.sum_eq_zero_iff_forall_eq_nat.mpr fun n hn => ?_
    obtain ⟨fl, hmem, rfl⟩ := List.mem_map.mp hn
    obtain ⟨f, hfl⟩ := mem_iff_getElem?.mp hmem
    obtain ⟨q, hq⟩ := (h.flights f fl hfl).producer
    refine if_neg fun hand => ?_
    rw [hand.1, getElem?_eq_none (le_refl _)] at hq
    cases hq
  refine ⟨fun r q hq => ?_, fun f fl hfl =>
    (h.flights f fl hfl).frame (le_refl _) hgrows, h.ready, h.map,
    h.queue_nodup, h.queued⟩
  rcases getElem?_concat_cases hq with ⟨rfl, rfl⟩ | hold
  · refine ⟨rfl, nofun, nofun, fun _ => rfl, nofun, nofun, nofun, nofun,
      nofun, nofun, fun i hi _ m => ?_, fun m => ?_⟩
    · cases hi
      cases m with
      | rawPatches => rfl
      | visionTokens => rfl
    · have hzero : m.get (Request.arrive parts deadline).claimed = 0 := by
        cases m with
        | rawPatches => rfl
        | visionTokens => rfl
      show m.get (Request.arrive parts deadline).claimed
        + owed o m s.requests.length s.flights + m.total o parts ≤ m.total o parts
      rw [hzero, hnone m]
      omega
  · exact h.requests r q hold

/-- Every step from a state that meets `Unshared` keeps the requests
apart. -/
theorem step_isolated [DecidableEq Key] {a : Action Key}
    (hC : Unshared o s) (hstep : step o s a = some s')
    (h : Isolated o s) : Isolated o s' := by
  unfold step at hstep
  split at hstep
  · cases hstep
  cases a with
  | arrive parts deadline =>
    cases hstep
    exact h.arrives parts deadline
  | cancel r =>
    obtain ⟨q, hq, rfl⟩ := map_eq_some_iff.mp hstep
    have hr := h.requests r q hq
    have hlater : Later q { q with cancelled := true } :=
      ⟨rfl, rfl, fun _ => rfl, id⟩
    exact h.setRequest hq hlater ⟨hr.looked, hr.hits, hr.joins, hr.early,
      hr.discards, hr.stopped,
      fun e he => (hr.own e he).later hlater (le_refl _),
      fun e he => (hr.thrown e he).later hlater (le_refl _),
      hr.submits, hr.submitting, hr.stats, hr.claims⟩
  | tick =>
    cases hstep
    refine ⟨fun r q hq => ?_, fun f fl hfl => ?_, h.ready, h.map,
      h.queue_nodup, h.queued⟩
    · have hr := h.requests r q hq
      refine hr.frame (Nat.le_succ _)
        (fun f fl hfl => ⟨fl, hfl, rfl, rfl⟩) (fun f fl hsub hfl => ?_)
        fun m => le_refl _
      exact (h.hands hq hsub hfl).2.1
    · exact (h.flights f fl hfl).frame (Nat.le_succ _) (.refl _)
  | advance r turn =>
    obtain ⟨q, hq, hstep⟩ := bind_eq_some_iff.mp hstep
    exact h.advance hC hq hstep
  | dequeue =>
    dsimp only at hstep
    split at hstep
    · cases hstep
    next f rest hqueue =>
    split at hstep
    · obtain ⟨fl, hfl, rfl⟩ := map_eq_some_iff.mp hstep
      exact h.dequeue hqueue hfl
    · cases hstep
  | work f turn =>
    obtain ⟨fl, hfl, hstep⟩ := bind_eq_some_iff.mp hstep
    exact h.work hfl hstep
  | destroy p =>
    obtain ⟨payload, hp, hstep⟩ := bind_eq_some_iff.mp hstep
    split at hstep
    · cases hstep
    · cases hstep
      exact h.release p payload
  | drop r =>
    obtain ⟨q, hq, hstep⟩ := bind_eq_some_iff.mp hstep
    split at hstep
    · cases hstep
      have hr := h.requests r q hq
      exact h.setRequest hq ⟨rfl, rfl, id, id⟩ { hr with }
    · cases hstep

-- ============ the runs

theorem init_isolated (o : Setup Key) : Isolated o init where
  requests := fun r q hq => by simp [init] at hq
  flights := fun f fl hfl => by simp [init] at hfl
  ready := fun e he => by simp [init] at he
  map := fun key f hf => by simp [init] at hf
  queue_nodup := nodup_nil
  queued := fun f hf => by simp [init] at hf

/-- Every request that failed did so for reasons of its own. -/
def FailsAlone (o : Setup Key) (s : State Key) : Prop :=
  ∀ (r : Nat) (q : Request Key) (e : PrepareError),
    s.requests[r]? = some q → q.phase = .failed e → Own o s.now q e

/-- The requests fail for their own reasons, in every run in which no
request but its producer is attached to a flight that failed for the
producer's. -/
theorem singleflight_run [DecidableEq Key] (o : Setup Key)
    (acts : List (Action Key)) (s : State Key)
    (hunshared : Along (step o) (fun t _ => Unshared o t) State.init acts)
    (hrun : run (step o) State.init acts = some s) : FailsAlone o s := by
  have hisolated : Isolated o s :=
    run_inv_along (P := Isolated o)
      (fun _ _ _ hC hstep hs => step_isolated hC hstep hs) acts _ s
      hunshared hrun (init_isolated o)
  intro r q e hq hphase
  exact (hisolated.requests r q hq).thrown e (by rw [hphase]; rfl)

/-- Two requests share a flight, and the one that only waits for it is
cancelled. -/
theorem singleflight_run_waiter :
    ∃ s, run (step onePicture) State.init
        (requests 0 7 ++ requests 1 7 ++ builds 0 0 .go
          ++ [.cancel 1] ++ List.replicate 4 (.advance 1 .go)) = some s
      ∧ s.requests.any (fun q => q.phase == .failed (.cancelled
          "inference request was cancelled during preparation")) = true
      ∧ FailsAlone onePicture s := by
  have hrun : (run (step onePicture) State.init
      (requests 0 7 ++ requests 1 7 ++ builds 0 0 .go
        ++ [.cancel 1] ++ List.replicate 4 (.advance 1 .go))).any
          (fun s => s.requests.any fun q => q.phase == .failed (.cancelled
            "inference request was cancelled during preparation"))
              = true := by decide +kernel
  obtain ⟨s, hs, hfailed⟩ := (Option.any_eq_true _ _).mp hrun
  refine ⟨s, hs, hfailed, singleflight_run onePicture _ s ?_ hs⟩
  refine along_of_check
    (c := fun t _ => t.flights.all fun fl => fl.error.isNone) ?_
    (by decide +kernel)
  intro t _ ht r f q pending fl e _ _ _ hfl _ _ herror
  have hnone := List.all_eq_true.mp ht fl (List.mem_of_getElem? hfl)
  rw [herror] at hnone
  cases hnone

/-- The producer of a flight is cancelled, and the request that waits for
it is told that it was. -/
theorem neighbour_cancelled :
    ∃ s q e, run (step onePicture) State.init
        (requests 0 7 ++ requests 1 7
          ++ [.advance 0 .go, .advance 0 .go, .cancel 0, .advance 0 .go,
            .dequeue, .work 0 .check, .work 0 .go]
          ++ List.replicate 5 (.advance 1 .go)) = some s
      ∧ s.requests[1]? = some q ∧ q.phase = .failed e
      ∧ q.cancelled = false ∧ ¬ FailsAlone onePicture s := by
  have hrun : (run (step onePicture) State.init
      (requests 0 7 ++ requests 1 7
        ++ [.advance 0 .go, .advance 0 .go, .cancel 0, .advance 0 .go,
          .dequeue, .work 0 .check, .work 0 .go]
        ++ List.replicate 5 (.advance 1 .go))).any
          (fun s => (s.requests[1]?).any fun q =>
            q.phase == .failed (.cancelled
              "inference request was cancelled during preparation")
                && !q.cancelled) = true := by decide +kernel
  obtain ⟨s, hs, hany⟩ := (Option.any_eq_true _ _).mp hrun
  obtain ⟨q, hq, hfailed⟩ := (Option.any_eq_true _ _).mp hany
  obtain ⟨hphase, hcancelled⟩ := (Bool.and_eq_true _ _).mp hfailed
  have hphase := beq_iff_eq.mp hphase
  have hcancelled : q.cancelled = false := by simpa using hcancelled
  refine ⟨s, q, _, hs, hq, hphase, hcancelled, fun halone => ?_⟩
  have hown : q.cancelled = true := halone 1 q _ hq hphase
  rw [hcancelled] at hown
  cases hown

end Ginfer.Frontend.Media
