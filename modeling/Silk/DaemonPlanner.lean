import Silk.DaemonConverger
import Silk.LeaserController
import Silk.StoppingLoop

/-!
# Polling

A cycle renews the lease, lists the active leases and converges. The result of
the controller reaches the daemon as an HTTP status, becomes an error of the
client, and is judged by a detector that remembers the last successful renewal.
The poller returns when the planner reports a fatal error and goes on after every
other error. Times are nanoseconds; the stop signal, logs and metrics are left out.
-/

namespace Silk.Daemon

open Leaser (LeaseError)
open Controller (Lease)

structure HttpResponse where
  statusCode : ℕ
  body : String

def StatusOK : ℕ := 200
def StatusBadRequest : ℕ := 400
def StatusConflict : ℕ := 409
def StatusInternalServerError : ℕ := 500

/-- `respondWithCode`; the description is not escaped. -/
def respondWithCode (statusCode : ℕ) (description : String) : HttpResponse :=
  ⟨statusCode, "\x7b\"error\": \"" ++ description ++ "\"\x7d"⟩

inductive BodyError where
  | read (err : String)
  | unmarshal (err : String)

def serveRenewLease : Except BodyError (Except LeaseError Unit) → HttpResponse
  | .error (.read err) => respondWithCode StatusBadRequest ("read-body: " ++ err)
  | .error (.unmarshal err) => respondWithCode StatusBadRequest ("unmarshal-request: " ++ err)
  | .ok (.error (.nonRetriable text)) =>
    respondWithCode StatusConflict ("renew-subnet-lease: " ++ text)
  | .ok (.error (.other text)) =>
    respondWithCode StatusInternalServerError ("renew-subnet-lease: " ++ text)
  | .ok (.ok ()) => ⟨StatusOK, "\x7b\x7d"⟩

inductive TransportError where
  | marshal (err : String)
  | newRequest (err : String)
  | clientDo (err : String)
  | bodyRead (err : String)

def TransportError.text : TransportError → String
  | .marshal err => "json marshal request body: " ++ err
  | .newRequest err => "http new request: " ++ err
  | .clientDo err => "http client do: " ++ err
  | .bodyRead err => "body read: " ++ err

inductive DoError where
  | httpResponseCode (statusCode : ℕ) (message : String)
  | other (text : String)

def DoError.text : DoError → String
  | .httpResponseCode statusCode message => "http status " ++ toString statusCode ++ ": " ++ message
  | .other text => text

/-- `JsonClient.Do` without response data; `unmarshalError` reads the `Error` field of a body. -/
def jsonClientDo (unmarshalError : String → Option String) :
    Except TransportError HttpResponse → Except DoError Unit
  | .error err => .error (.other err.text)
  | .ok resp =>
    if 299 < resp.statusCode then
      .error (.httpResponseCode resp.statusCode ((unmarshalError resp.body).getD resp.body))
    else .ok ()

inductive ClientError where
  | nonRetriable (text : String)
  | json (err : DoError)

def ClientError.text : ClientError → String
  | .nonRetriable text => text
  | .json err => err.text

def clientRenewSubnetLease : Except DoError Unit → Except ClientError Unit
  | .error (.httpResponseCode statusCode message) =>
    if statusCode = StatusConflict then .error (.nonRetriable ("non-retriable: " ++ message))
    else .error (.json (.httpResponseCode statusCode message))
  | .error (.other text) => .error (.json (.other text))
  | .ok () => .ok ()

inductive Renewal where
  | lost (err : TransportError)
  | unreadable (err : BodyError)
  | decided (result : Except LeaseError Unit)

namespace Renewal

def response : Renewal → Except TransportError HttpResponse
  | .lost err => .error err
  | .unreadable err => .ok (serveRenewLease (.error err))
  | .decided result => .ok (serveRenewLease (.ok result))

def outcome (unmarshalError : String → Option String) (r : Renewal) : Except ClientError Unit :=
  clientRenewSubnetLease (jsonClientDo unmarshalError r.response)

def Failed (r : Renewal) : Prop := r ≠ .decided (.ok ())

def NonRetriable (r : Renewal) : Prop := ∃ text, r = .decided (.error (.nonRetriable text))

/-- Success, a non-retriable error and every other error stay apart on the way to the client. -/
theorem outcome_cases (unmarshalError : String → Option String) (r : Renewal) :
    (¬ r.Failed ∧ r.outcome unmarshalError = .ok ()) ∨
    (r.Failed ∧ r.NonRetriable ∧ ∃ text, r.outcome unmarshalError = .error (.nonRetriable text)) ∨
    (r.Failed ∧ ¬ r.NonRetriable ∧ ∃ err, r.outcome unmarshalError = .error (.json err)) := by
  cases r with
  | lost err => exact Or.inr (Or.inr ⟨by simp [Failed], by simp [NonRetriable], _, rfl⟩)
  | unreadable err =>
    cases err with
    | read err => exact Or.inr (Or.inr ⟨by simp [Failed], by simp [NonRetriable], _, rfl⟩)
    | unmarshal err => exact Or.inr (Or.inr ⟨by simp [Failed], by simp [NonRetriable], _, rfl⟩)
  | decided result =>
    cases result with
    | ok _ => exact Or.inl ⟨by simp [Failed], rfl⟩
    | error err =>
      cases err with
      | nonRetriable text => exact Or.inr (Or.inl ⟨by simp [Failed], ⟨text, rfl⟩, _, rfl⟩)
      | other text => exact Or.inr (Or.inr ⟨by simp [Failed], by simp [NonRetriable], _, rfl⟩)

end Renewal

structure Duration where
  nanoseconds : ℤ
  range : -2 ^ 63 ≤ nanoseconds ∧ nanoseconds < 2 ^ 63

/-- `Time.Sub`, which saturates. -/
def timeSub (t u : ℤ) : Duration where
  nanoseconds := max (-2 ^ 63) (min (2 ^ 63 - 1) (t - u))
  range := by omega

structure GracefulDetector where
  graceDuration : Duration
  lastSuccessTime : ℤ

namespace GracefulDetector

def gotSuccess (d : GracefulDetector) (now : ℤ) : GracefulDetector :=
  { d with lastSuccessTime := now }

def isFatal (d : GracefulDetector) (err : ClientError) (now : ℤ) : Bool :=
  match err with
  | .nonRetriable _ => true
  | .json _ => d.graceDuration.nanoseconds ≤ (timeSub now d.lastSuccessTime).nanoseconds

end GracefulDetector

theorem le_timeSub_iff (g : Duration) {t u : ℤ} (h : u ≤ t) :
    g.nanoseconds ≤ (timeSub t u).nanoseconds ↔ g.nanoseconds ≤ t - u := by
  have hrange := g.range
  simp only [timeSub]
  omega

structure Cycle where
  renewal : Renewal
  now : ℤ
  listing : Except DoError (List Lease)
  converge : List Lease → Except ConvergeError Unit

inductive CycleError where
  | fatal (text : String)
  | plain (text : String)

def doCycle (unmarshalError : String → Option String) (d : GracefulDetector) (c : Cycle) :
    Except CycleError Unit × GracefulDetector :=
  match c.renewal.outcome unmarshalError with
  | .error err =>
    if d.isFatal err c.now then (.error (.fatal ("renew lease: " ++ err.text)), d)
    else (.error (.plain ("renew lease: " ++ err.text)), d)
  | .ok () =>
    match c.listing with
    | .error err => (.error (.plain ("get routable leases: " ++ err.text)), d.gotSuccess c.now)
    | .ok leases =>
      match c.converge leases with
      | .error err => (.error (.plain ("converge leases: " ++ err.text)), d.gotSuccess c.now)
      | .ok () => (.ok (), d.gotSuccess c.now)

def runFunction : Except CycleError Unit → Except String Unit
  | .error (.fatal text) =>
    .error ("This cell must be restarted (run \"bosh restart <job>\"): fatal: " ++ text)
  | .error (.plain _) => .ok ()
  | .ok () => .ok ()

def pollStep (unmarshalError : String → Option String) (d : GracefulDetector) (c : Cycle) :
    Except String GracefulDetector :=
  (runFunction (doCycle unmarshalError d c).1).map fun _ => (doCycle unmarshalError d c).2

/-- `Poller.Run` returns the error at cycle `k`; the detector was made at `t₀`. -/
def ReturnsAt (unmarshalError : String → Option String) (g : Duration) (t₀ : ℤ)
    (cycles : Stream'.Seq Cycle) (k : ℕ) (err : String) : Prop :=
  Loop.StopsAt (pollStep unmarshalError) ⟨g, t₀⟩ cycles k err

section Polling

variable (unmarshalError : String → Option String)

def detectorAfter (d : GracefulDetector) (c : Cycle) : GracefulDetector :=
  match c.renewal.outcome unmarshalError with
  | .error _ => d
  | .ok () => d.gotSuccess c.now

theorem pollStep_success (d : GracefulDetector) {c : Cycle}
    (h : c.renewal.outcome unmarshalError = .ok ()) :
    pollStep unmarshalError d c = .ok (d.gotSuccess c.now) := by
  have hrun : runFunction (doCycle unmarshalError d c).1 = .ok () ∧
      (doCycle unmarshalError d c).2 = d.gotSuccess c.now := by
    simp only [doCycle, h]
    cases c.listing with
    | error err => exact ⟨rfl, rfl⟩
    | ok leases =>
      cases hconv : c.converge leases with
      | error err => simp only [hconv, runFunction, and_self]
      | ok _ => simp only [hconv, runFunction, and_self]
  rw [pollStep, hrun.1, hrun.2]
  rfl

theorem pollStep_failure (d : GracefulDetector) {c : Cycle} {err : ClientError}
    (h : c.renewal.outcome unmarshalError = .error err) :
    pollStep unmarshalError d c = if d.isFatal err c.now then
      .error ("This cell must be restarted (run \"bosh restart <job>\"): fatal: " ++
        ("renew lease: " ++ err.text))
    else .ok d := by
  simp only [pollStep, doCycle, h]
  split_ifs with hfatal
  · rfl
  · rfl

theorem pollStep_detectorAfter (d : GracefulDetector) (c : Cycle) (d' : GracefulDetector)
    (h : pollStep unmarshalError d c = .ok d') : d' = detectorAfter unmarshalError d c := by
  rw [detectorAfter]
  cases hout : c.renewal.outcome unmarshalError with
  | ok _ =>
    rw [pollStep_success _ d hout] at h
    cases h
    rfl
  | error err =>
    rw [pollStep_failure _ d hout] at h
    split_ifs at h
    cases h
    rfl

theorem pollStep_error_iff {d : GracefulDetector} {c : Cycle} (hnow : d.lastSuccessTime ≤ c.now) :
    (∃ err, pollStep unmarshalError d c = .error err) ↔
      c.renewal.Failed ∧
        (c.renewal.NonRetriable ∨ d.graceDuration.nanoseconds ≤ c.now - d.lastSuccessTime) := by
  rcases c.renewal.outcome_cases unmarshalError with ⟨hok, hout⟩ | ⟨hfail, hnon, text, hout⟩ |
    ⟨hfail, hnon, err, hout⟩
  · simp [pollStep_success _ d hout, hok]
  · simp [pollStep_failure _ d hout, GracefulDetector.isFatal, hfail, hnon]
  · simp only [pollStep_failure _ d hout, GracefulDetector.isFatal, decide_eq_true_eq,
      le_timeSub_iff _ hnow, hfail, hnon, true_and, false_or]
    split_ifs with hgrace
    · simp [hgrace]
    · simp [hgrace]

end Polling

def Nondecreasing (t₀ : ℤ) (cycles : Stream'.Seq Cycle) : Prop :=
  (∀ j c, cycles.get? j = some c → t₀ ≤ c.now) ∧
    ∀ i j c c', i ≤ j → cycles.get? i = some c → cycles.get? j = some c' → c.now ≤ c'.now

/-- `t` is the time of the latest successful renewal before cycle `k`, or `t₀` if there is none. -/
def LatestSuccess (t₀ : ℤ) (cycles : Stream'.Seq Cycle) (k : ℕ) (t : ℤ) : Prop :=
  (∃ j < k, ∃ c, cycles.get? j = some c ∧ ¬ c.renewal.Failed ∧ c.now = t ∧
    ∀ i, j < i → i < k → ∀ c', cycles.get? i = some c' → c'.renewal.Failed) ∨
  (t = t₀ ∧ ∀ j < k, ∀ c, cycles.get? j = some c → c.renewal.Failed)

def Due (g : Duration) (t₀ : ℤ) (cycles : Stream'.Seq Cycle) (k : ℕ) : Prop :=
  ∃ c, cycles.get? k = some c ∧ c.renewal.Failed ∧
    (c.renewal.NonRetriable ∨ ∃ t, LatestSuccess t₀ cycles k t ∧ g.nanoseconds ≤ c.now - t)

section Runs

variable {t₀ : ℤ} {cycles : Stream'.Seq Cycle}

theorem LatestSuccess.unique {k : ℕ} {t u : ℤ} (ht : LatestSuccess t₀ cycles k t)
    (hu : LatestSuccess t₀ cycles k u) : t = u := by
  rcases ht with ⟨i, hi, c, hc, hok, rfl, hlast⟩ | ⟨rfl, hnone⟩
  · rcases hu with ⟨j, hj, c', hc', hok', rfl, hlast'⟩ | ⟨-, hnone⟩
    · rcases Nat.lt_trichotomy i j with hlt | rfl | hgt
      · exact absurd (hlast j hlt hj c' hc') hok'
      · rw [Option.some.inj (hc.symm.trans hc')]
      · exact absurd (hlast' i hgt hi c hc) hok
    · exact absurd (hnone i hi c hc) hok
  · rcases hu with ⟨j, hj, c', hc', hok', -⟩ | ⟨rfl, -⟩
    · exact absurd (hnone j hj c' hc') hok'
    · rfl

theorem LatestSuccess.succ_of_failed {k : ℕ} {t : ℤ} (h : LatestSuccess t₀ cycles k t)
    (hk : ∀ c, cycles.get? k = some c → c.renewal.Failed) : LatestSuccess t₀ cycles (k + 1) t := by
  rcases h with ⟨j, hj, c, hc, hok, hnow, hlast⟩ | ⟨ht, hnone⟩
  · refine Or.inl ⟨j, Nat.lt_succ_of_lt hj, c, hc, hok, hnow, fun i hji hik c' hc' => ?_⟩
    rcases Nat.lt_succ_iff_lt_or_eq.mp hik with hlt | rfl
    · exact hlast i hji hlt c' hc'
    · exact hk c' hc'
  · refine Or.inr ⟨ht, fun j hj c hc => ?_⟩
    rcases Nat.lt_succ_iff_lt_or_eq.mp hj with hlt | rfl
    · exact hnone j hlt c hc
    · exact hk c hc

theorem LatestSuccess.le {k : ℕ} {t : ℤ} (h : LatestSuccess t₀ cycles k t)
    (hclock : Nondecreasing t₀ cycles) {c : Cycle} (hc : cycles.get? k = some c) : t ≤ c.now := by
  rcases h with ⟨j, hj, c', hc', -, rfl, -⟩ | ⟨rfl, -⟩
  · exact hclock.2 j k c' c hj.le hc' hc
  · exact hclock.1 k c hc

theorem undisturbed_detector (unmarshalError : String → Option String) (g : Duration) (t₀ : ℤ)
    (cycles : Stream'.Seq Cycle) (k : ℕ) :
    (Loop.undisturbed (detectorAfter unmarshalError) ⟨g, t₀⟩ cycles k).graceDuration = g ∧
      LatestSuccess t₀ cycles k
        (Loop.undisturbed (detectorAfter unmarshalError) ⟨g, t₀⟩ cycles k).lastSuccessTime := by
  induction k with
  | zero =>
    refine ⟨rfl, Or.inr ⟨rfl, fun j hj => ?_⟩⟩
    exact absurd hj (Nat.not_lt_zero j)
  | succ k ih =>
    rw [Loop.undisturbed]
    cases hc : cycles.get? k with
    | none => exact ⟨ih.1, ih.2.succ_of_failed fun c hc' => by simp [hc] at hc'⟩
    | some c =>
      dsimp only
      rw [detectorAfter]
      rcases c.renewal.outcome_cases unmarshalError with ⟨hok, hout⟩ | ⟨hfail, -, text, hout⟩ |
        ⟨hfail, -, err, hout⟩
      · rw [hout]
        refine ⟨ih.1, Or.inl ⟨k, Nat.lt_succ_self k, c, hc, hok, rfl, fun i hki hik => ?_⟩⟩
        omega
      · rw [hout]
        exact ⟨ih.1, ih.2.succ_of_failed fun c' hc' => Option.some.inj (hc.symm.trans hc') ▸ hfail⟩
      · rw [hout]
        exact ⟨ih.1, ih.2.succ_of_failed fun c' hc' => Option.some.inj (hc.symm.trans hc') ▸ hfail⟩

theorem due_iff (unmarshalError : String → Option String) (g : Duration)
    (hclock : Nondecreasing t₀ cycles) (k : ℕ) :
    (∃ c, cycles.get? k = some c ∧ ∃ err, pollStep unmarshalError
      (Loop.undisturbed (detectorAfter unmarshalError) ⟨g, t₀⟩ cycles k) c = .error err) ↔
      Due g t₀ cycles k := by
  obtain ⟨hgrace, hlatest⟩ := undisturbed_detector unmarshalError g t₀ cycles k
  refine exists_congr fun c => and_congr_right fun hc => ?_
  rw [pollStep_error_iff _ (hlatest.le hclock hc), hgrace]
  refine and_congr_right fun _ => or_congr_right ?_
  constructor
  · exact fun h => ⟨_, hlatest, h⟩
  · rintro ⟨t, ht, h⟩
    rw [hlatest.unique ht]
    exact h

end Runs

def Cycle.quiet (c : Cycle) : Cycle := { c with listing := .ok [], converge := fun _ => .ok () }

theorem pollStep_quiet (unmarshalError : String → Option String) (d : GracefulDetector)
    (c : Cycle) : pollStep unmarshalError d c = pollStep unmarshalError d c.quiet := by
  cases hout : c.renewal.outcome unmarshalError with
  | ok _ =>
    rw [pollStep_success _ d hout, pollStep_success _ d (c := c.quiet) hout]
    rfl
  | error err =>
    rw [pollStep_failure _ d hout, pollStep_failure _ d (c := c.quiet) hout]
    rfl

theorem poller_returns_iff (unmarshalError : String → Option String) (g : Duration) {t₀ : ℤ}
    {cycles : Stream'.Seq Cycle} (hclock : Nondecreasing t₀ cycles) (k : ℕ) :
    ((∃ err, ReturnsAt unmarshalError g t₀ cycles k err) ↔
      Due g t₀ cycles k ∧ ∀ j < k, ¬ Due g t₀ cycles j) ∧
    ∀ cycles' : Stream'.Seq Cycle, cycles'.map Cycle.quiet = cycles.map Cycle.quiet → ∀ err,
      (ReturnsAt unmarshalError g t₀ cycles' k err ↔
        ReturnsAt unmarshalError g t₀ cycles k err) := by
  constructor
  · simp only [ReturnsAt, Loop.stopsAt_iff (pollStep_detectorAfter unmarshalError),
      ← due_iff unmarshalError g hclock]
    constructor
    · rintro ⟨err, ⟨c, hc, herr⟩, hbefore⟩
      refine ⟨⟨c, hc, err, herr⟩, fun j hj => ?_⟩
      rintro ⟨c', hc', err', herr'⟩
      obtain ⟨d, hd⟩ := hbefore j hj c' hc'
      rw [hd] at herr'
      cases herr'
    · rintro ⟨⟨c, hc, err, herr⟩, hbefore⟩
      refine ⟨err, ⟨c, hc, herr⟩, fun j hj c' hc' => ?_⟩
      cases hstep : pollStep unmarshalError
        (Loop.undisturbed (detectorAfter unmarshalError) ⟨g, t₀⟩ cycles j) c' with
      | ok d => exact ⟨d, rfl⟩
      | error err' => exact absurd ⟨c', hc', err', hstep⟩ (hbefore j hj)
  · intro cycles' hsame err
    have hquiet := pollStep_quiet unmarshalError
    rw [ReturnsAt, ReturnsAt, Loop.stopsAt_map hquiet, hsame, ← Loop.stopsAt_map hquiet]

def partitioned : Stream'.Seq Cycle :=
  .ofList [⟨.decided (.ok ()), 5, .error (.other "http client do: EOF"), fun _ => .ok ()⟩,
    ⟨.lost (.clientDo "connection refused"), 15, .ok [], fun _ => .ok ()⟩]

theorem partitioned_now {j : ℕ} {c : Cycle} (hc : partitioned.get? j = some c) :
    c.now = if j = 0 then 5 else 15 := by
  rcases j with _ | _ | j
  · cases hc
    rfl
  · cases hc
    rfl
  · cases hc

theorem partitioned_nondecreasing : Nondecreasing 0 partitioned := by
  constructor
  · intro j c hc
    rw [partitioned_now hc]
    split_ifs <;> decide
  · intro i j c c' hij hc hc'
    rw [partitioned_now hc, partitioned_now hc']
    split_ifs <;> omega

theorem poller_returns_partitioned :
    Due ⟨10, by decide⟩ 0 partitioned 1 ∧ ∀ j < 1, ¬ Due ⟨10, by decide⟩ 0 partitioned j :=
  (poller_returns_iff (fun _ => none) ⟨10, by decide⟩ partitioned_nondecreasing 1).1.mp
    ⟨_, ⟨_, rfl⟩, rfl⟩

end Silk.Daemon
