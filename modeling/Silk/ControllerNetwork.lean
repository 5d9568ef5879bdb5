import Silk.ControllerClient
import Silk.LeaserMembership
import Silk.LeaserValidity
import Silk.ResumptionDelegation

/-!
# Clients of the controllers

Any number of clients call controllers with one configuration over a network that
loses requests and replies, and others send requests of their own making. The
statements of all requests interleave. What the operations keep of the rows is
kept, and a lease that a client is given is one of them.
-/

namespace Silk.Controller

open GoJson GoNet Leaser Resumption
open Daemon (ClientError ConvergeError Converger DoError NetlinkCall TransportError)

namespace ClientCall

/-- What a call must meet so that the rows stay in `P`. -/
def Fits (c : LeaseController) (P : Lease → Prop) : ClientCall → Prop
  | .acquireLease u single => (parseIP u).bind to4 ≠ none → ∀ subnet l,
      c.Offered (AllRows P) single subnet → LeaseController.vtepLease u subnet = .ok l → P l
  | .renewSubnetLease l => validate l = .ok () → P l
  | .getActiveLeases | .releaseSubnetLease _ => True

/-- The leases of a result: the caller's own, or the active ones of some moment. -/
def Delivers (c : LeaseController) (P : Lease → Prop) : (q : ClientCall) → q.Result → Prop
  | .getActiveLeases, res => ∀ leases, res = .ok leases →
      ∃ ch db, AllRows P db ∧ leases = allActive ch db c.leaseExpirationSeconds
  | .acquireLease u _, res => ∀ l, res = .ok l → P l ∧ l.underlayIP = u
  | .renewSubnetLease _, _ | .releaseSubnetLease _, _ => True

theorem delivers_report (c : LeaseController) (P : Lease → Prop) (q : ClientCall) (err : DoError) :
    q.Delivers c P (q.report err) := by
  cases q with
  | getActiveLeases => exact fun _ h => by cases h
  | acquireLease u single => exact fun _ h => by cases h
  | renewSubnetLease l => trivial
  | releaseSubnetLease u => trivial

end ClientCall

section Safe

variable {c : LeaseController} {allowed : Choice → Prop} {P : Lease → Prop}

theorem safe_acquireSubnetLease {u : String} {single : Bool}
    (h : (ClientCall.acquireLease u single).Fits c P) (draws : ℕ → Draw) :
    (c.acquireSubnetLease draws u single).Safe exec allowed (AllRows P) fun res =>
      ∀ l, res = .ok (some l) → P l ∧ l.underlayIP = u := by
  by_cases hu : (parseIP u).bind to4 = none
  · rw [LeaseController.acquireSubnetLease, if_pos hu]
    exact fun _ h => by cases h
  · have hkeeps := AllRows.acquireKeeps (h hu)
    refine LeaseController.AcquireKeeps.safe ?_ draws
    refine ⟨fun db hI r hr hru hmem l hl => ?_, hkeeps.discard, hkeeps.reclaim,
      fun subnet hs l hl db hI hadm => ?_, fun _ _ h => (by cases h), fun _ h => by cases h⟩
    · cases hl
      exact ⟨hI r hr, hru⟩
    · obtain ⟨hrows, hP⟩ := hkeeps.insert subnet hs l hl db hI hadm
      refine ⟨hrows, fun k hk => ?_⟩
      cases hk
      exact ⟨hP l rfl, (LeaseController.vtepLease_ok hl).1⟩

theorem safe_renewSubnetLease {l : Lease} (h : (ClientCall.renewSubnetLease l).Fits c P) :
    (LeaseController.renewSubnetLease l).Safe exec allowed (AllRows P) fun _ => True :=
  (AllRows.renewKeeps h).safe

theorem safe_releaseSubnetLease (u : String) :
    (LeaseController.releaseSubnetLease u).Safe exec allowed (AllRows P) fun _ => True :=
  LeaseController.releaseSubnetLease_safe (fun _ hI => hI.delete u) fun _ => trivial

theorem safe_routableLeases (c : LeaseController) {I : Database → Prop} :
    c.routableLeases.Safe exec allowed I fun res => ∀ leases, res = .ok leases →
      ∃ ch db, I db ∧ leases = allActive ch db c.leaseExpirationSeconds := by
  rw [LeaseController.routableLeases]
  refine Program.Safe.bind (P := fun res => ∀ leases, res = .ok leases →
    ∃ ch db, I db ∧ leases = allActive ch db c.leaseExpirationSeconds) ?_ fun res hres => ?_
  · intro db ch _ hI
    rw [exec_reads ch db rfl]
    refine ⟨hI, fun leases hok => ?_⟩
    rw [exec_ok hok] at hok
    exact ⟨ch, db, hI, (Except.ok.inj hok).symm⟩
  · rcases res with err | active
    · exact fun _ h => by cases h
    · exact hres

theorem ClientCall.safe_operation {q : ClientCall} (h : q.Fits c P) (draws : ℕ → Draw) :
    (q.operation c draws).Safe exec allowed (AllRows P) (q.Delivers c P) := by
  cases q with
  | getActiveLeases =>
    refine (safe_routableLeases c).bind fun res hres leases hok => ?_
    rcases res with err | active
    · cases hok
    · cases hok
      exact hres leases rfl
  | acquireLease u single =>
    refine (safe_acquireSubnetLease h draws).bind fun res hres l hok => ?_
    rcases res with err | _ | lease
    · cases hok
    · cases hok
    · cases hok
      exact hres l rfl
  | renewSubnetLease l => exact (safe_renewSubnetLease h).bind fun _ _ => trivial
  | releaseSubnetLease u => exact (safe_releaseSubnetLease u).bind fun _ _ => trivial

section

variable {I : Database → Prop} {q : ClientCall} {Q : q.Result → Prop}

theorem ClientCall.safe_settle (hop : ∀ draws, (q.operation c draws).Safe exec allowed I Q)
    (hreport : ∀ err, Q (q.report err)) (v : Verdict) :
    (settle q.report (q.attend c) v).Safe exec allowed I Q := by
  cases v with
  | unserved err => exact hreport _
  | served draws unread lost =>
    refine Program.Safe.bind (P := Q) ?_ fun res hres => ?_
    · cases unread with
      | none => exact hop draws
      | some text =>
        rw [ClientCall.attend]
        split_ifs
        · exact hreport _
        · exact hop draws
    · cases lost with
      | none => exact hres
      | some err => exact hreport _

theorem safe_statements {α : Type} {network : Verdict → Prop} {Q : α → Prop} {p : Prog α}
    (h : p.Safe exec allowed I Q) :
    (p.embed statements).Safe wireExec (Permits network allowed) I Q :=
  h.lift (v := id) (fun _ hI => hI) fun ch _ _ hch _ => ⟨ch.choice, hch.2, rfl, id⟩

theorem ClientCall.safe_through (jsonError : GoString → DecodeError → String)
    (network : Verdict → Prop) (hop : ∀ draws, (q.operation c draws).Safe exec allowed I Q)
    (hreport : ∀ err, Q (q.report err)) :
    ((q.program jsonError).through (overWire jsonError c)).Safe wireExec (Permits network allowed)
      I Q := by
  obtain ⟨req, hreq⟩ := q.program_through jsonError c
  rw [hreq]
  exact fun db ch _ hI => ⟨hI, safe_statements (q.safe_settle hop hreport ch.verdict)⟩

end

theorem ClientCall.safe (jsonError : GoString → DecodeError → String) (network : Verdict → Prop)
    (allowed : Choice → Prop) {q : ClientCall} (h : q.Fits c P) :
    ((q.program jsonError).through (overWire jsonError c)).Safe wireExec (Permits network allowed)
      (AllRows P) (q.Delivers c P) :=
  q.safe_through jsonError network (q.safe_operation h) (q.delivers_report c P)

section

variable (jsonError : GoString → DecodeError → String)

theorem safe_withPayload {α : Type} {r : Record α} {handle : α → Prog HttpReply}
    {I : Database → Prop}
    (h : ∀ x, (handle x).Safe exec allowed I fun _ => True) (body : Except String GoString) :
    (Handlers.withPayload jsonError r handle body).Safe exec allowed I fun _ => True := by
  rcases body with err | bytes
  · trivial
  · rw [Handlers.withPayload]
    cases r.unmarshal bytes with
    | error err => trivial
    | ok x => exact h x

theorem safe_serveHTTP (h : ∀ q : ClientCall, q.Fits c P) (draws : ℕ → Draw) (req : HttpRequest)
    (body : Except String GoString) :
    (serveHTTP jsonError c draws req body).Safe exec allowed (AllRows P) fun _ => True := by
  rw [serveHTTP]
  split
  · trivial
  · exact (safe_routableLeases c).bind fun _ _ => trivial
  · refine safe_withPayload jsonError (fun payload => ?_) body
    exact (safe_acquireSubnetLease (h (.acquireLease _ _)) draws).bind fun _ _ => trivial
  · refine safe_withPayload jsonError (fun payload => ?_) body
    exact (safe_releaseSubnetLease payload.underlayIP).bind fun _ _ => trivial
  · refine safe_withPayload jsonError (fun lease => ?_) body
    exact (safe_renewSubnetLease (h (.renewSubnetLease lease))).bind fun _ _ => trivial

theorem safe_overWire {network : Verdict → Prop} (h : ∀ q : ClientCall, q.Fits c P)
    (req : HttpRequest) :
    (overWire jsonError c req).Safe wireExec (Permits network allowed) (AllRows P)
      fun _ => True := by
  intro db ch _ hI
  refine ⟨hI, ?_⟩
  cases hv : ch.verdict with
  | unserved err =>
    rw [wireExec, hv]
    trivial
  | served draws unread lost =>
    rw [wireExec, hv]
    exact (safe_statements (safe_serveHTTP jsonError h draws req _)).bind fun _ _ => trivial

end

end Safe

inductive Party where
  | client (q : ClientCall)
  | raw (req : HttpRequest)

abbrev Party.Result : Party → Type
  | .client q => q.Result
  | .raw _ => Except TransportError HttpReply

def Party.program (jsonError : GoString → DecodeError → String) (c : LeaseController) :
    (p : Party) → Program WireCall WireReply p.Result
  | .client q => (q.program jsonError).through (overWire jsonError c)
  | .raw req => overWire jsonError c req

abbrev Network : Type := System WireCall WireReply (Sigma Party.Result) Party Database

def network (jsonError : GoString → DecodeError → String) (c : LeaseController)
    (verdicts : Verdict → Prop) (allowed : Choice → Prop) (accepts : Network → Party → Prop) :
    Machine WireCall WireReply (Sigma Party.Result) Party Database WireChoice where
  exec := wireExec
  allowed := Permits verdicts allowed
  drift := anyTime
  body p := p.program jsonError c >>= fun result => .done ⟨p, result⟩
  accepts := accepts

def Given (c : LeaseController) (P : Lease → Prop) (res : Sigma Party.Result) : Prop :=
  ∀ q result, res = ⟨.client q, result⟩ → q.Delivers c P result

theorem network_safe {jsonError : GoString → DecodeError → String} {c : LeaseController}
    {verdicts : Verdict → Prop} {allowed : Choice → Prop} {P : Lease → Prop}
    {accepts : Network → Party → Prop} {now : ℤ} {ls : List (Label Party Database WireChoice)}
    {cond : Network → Label Party Database WireChoice → Prop} {sys : Network}
    (hclient : ∀ sys q, (∀ th ∈ sys.threads, ∀ res, th.program = .done res → Given c P res) →
      accepts sys (.client q) → q.Fits c P)
    (hraw : ∀ sys req, accepts sys (.raw req) → ∀ q : ClientCall, q.Fits c P)
    (hr : Run (network jsonError c verdicts allowed accepts) cond ⟨⟨Table.empty, now⟩, []⟩ ls sys) :
    AllRows P sys.shared ∧ ∀ th ∈ sys.threads, ∀ res, th.program = .done res → Given c P res := by
  have hsafe : SystemSafe (network jsonError c verdicts allowed accepts) (AllRows P)
      (fun _ => Given c P) sys := by
    refine Run.safe (fun s t hs hdrift r hr => hs r (hdrift ▸ hr)) (fun sys p hsys hacc => ?_) hr
      ⟨fun r hr => absurd hr List.not_mem_nil, fun th hth => absurd hth List.not_mem_nil⟩
    have hgiven : ∀ th ∈ sys.threads, ∀ res, th.program = .done res → Given c P res := by
      intro th hth res hdone
      have hth := hsys.2 th hth
      rw [hdone] at hth
      exact hth
    cases p with
    | client q =>
      refine (ClientCall.safe jsonError verdicts allowed (hclient sys q hgiven hacc)).bind
        fun res hres q' res' h => ?_
      cases h
      exact hres
    | raw req =>
      refine (safe_overWire jsonError (hraw sys req hacc) req).bind fun res _ q' res' h => ?_
      cases h
  refine ⟨hsafe.1, fun th hth res hdone => ?_⟩
  have hth := hsafe.2 th hth
  rw [hdone] at hth
  exact hth

theorem run_served {jsonError : GoString → DecodeError → String} {c : LeaseController}
    {accepts : Network → Party → Prop} {start : Network}
    {ls : List (Label Party Database WireChoice)}
    {db : Database} {ths : List (Thread WireCall WireReply (Sigma Party.Result) Party)}
    (hr : Run (network jsonError c (fun _ => True) faultless accepts) (fun _ _ => True) start ls
      ⟨db, ths⟩)
    {q : ClientCall} (hacc : accepts ⟨db, ths⟩ (.client q)) (draws : ℕ → Draw) {res : q.Result}
    {db' : Database} (hrun : (q.operation c draws).runWith exec .quiet db = (res, db')) :
    ∃ ls' th, Run (network jsonError c (fun _ => True) faultless accepts)
      (fun _ _ => True) start ls' ⟨db', ths ++ [th]⟩ ∧ th.program = .done ⟨.client q, res⟩ := by
  have hop : (q.operation c draws).Runs exec faultless db res db' := by
    have hop := executes_runWith (q.operation c draws) db
    rw [hrun] at hop
    exact hop
  have hcall : ((q.program jsonError).through (overWire jsonError c)).Runs wireExec
      (Permits (fun _ => True) faultless) db res db' :=
    (ClientCall.runs_iff (rfl : faultless .quiet)).mpr
      ⟨.served draws none none, trivial, Program.runs_bind.mpr ⟨res, db', hop, rfl, rfl⟩⟩
  exact Resumption.Run.serve hr hacc (Program.runs_bind.mpr ⟨res, db', hcall, rfl, rfl⟩)

/-- Whatever requests arrive, the rows are leases that the validator accepts, and no daemon fails to
parse the list that it is given. -/
theorem served_rows_valid (jsonError : GoString → DecodeError → String) (c : LeaseController)
    {verdicts : Verdict → Prop} {allowed : Choice → Prop} {now : ℤ}
    {ls : List (Label Party Database WireChoice)} {sys : Network}
    (hr : Run (network jsonError c verdicts allowed fun _ _ => True) (fun _ _ => True)
      ⟨⟨Table.empty, now⟩, []⟩ ls sys) :
    (∀ r ∈ sys.shared.table.rows, validate r.toLease = .ok ()) ∧
    ∀ th ∈ sys.threads, ∀ leases, th.program = .done ⟨.client .getActiveLeases, .ok leases⟩ →
      ∀ (conv : Converger) {σ C : Type}
        (netlink : C → σ → (q : NetlinkCall) → Except String (Daemon.Answer q) × σ)
        (allowed' : C → Prop) (s s' : σ) (e : ConvergeError),
        (conv.converge leases).run.Runs netlink allowed' s (.error e) s' → ¬ ParseError e := by
  have hfits : ∀ q : ClientCall, q.Fits c fun l => validate l = .ok () := by
    intro q
    cases q with
    | acquireLease u single => exact fun hu subnet l _ hl => validate_vtepLease hu hl
    | renewSubnetLease l => exact id
    | getActiveLeases => trivial
    | releaseSubnetLease u => trivial
  obtain ⟨hrows, hgiven⟩ := network_safe (fun _ q _ _ => hfits q) (fun _ _ _ => hfits) hr
  refine ⟨hrows, fun th hth leases hdone conv σ C netlink allowed' s s' e hrun => ?_⟩
  obtain ⟨ch, db, hdb, rfl⟩ := hgiven th hth _ hdone _ _ rfl leases rfl
  refine ((parsesAll_converge conv fun l hl => ?_).runs trivial hrun).2 e rfl
  obtain ⟨r, hrow, -, rfl⟩ := mem_leasesWhere.mp hl
  exact hdb r hrow

theorem operation_acquire_small :
    ((ClientCall.acquireLease "10.0.0.1" false).operation (Overlay.small.controller 2 5)
      fun _ => .first).runWith exec .quiet ⟨Table.empty, 0⟩ =
      (.ok ⟨"10.0.0.1", "10.255.0.4/30", "ee:ee:0a:ff:00:04"⟩, blockHeld 0) := rfl

theorem served_rows_valid_small : ∃ ls sys,
    Run (network (fun _ _ => "") (Overlay.small.controller 2 5) (fun _ => True) faultless
      fun _ _ => True) (fun _ _ => True) ⟨⟨Table.empty, 0⟩, []⟩ ls sys ∧
    sys.shared = blockHeld 0 ∧
    validate ⟨"10.0.0.1", "10.255.0.4/30", "ee:ee:0a:ff:00:04"⟩ = .ok () := by
  have hnil : Run (network (fun _ _ => "") (Overlay.small.controller 2 5) (fun _ => True) faultless
      fun _ _ => True) (fun _ _ => True) ⟨⟨Table.empty, 0⟩, []⟩ [] ⟨⟨Table.empty, 0⟩, []⟩ := .nil _
  obtain ⟨ls, th, hrun, -⟩ := run_served hnil trivial _ operation_acquire_small
  exact ⟨ls, _, hrun, rfl, (served_rows_valid _ _ hrun).1 _ List.mem_cons_self⟩

theorem grants_of_offered_rows {o : Overlay} {A E : ℤ} {P : Lease → Prop}
    (hP : ∀ l, P l → o.Grants l) {single : Bool} {u subnet : String} {l : Lease}
    (hs : (o.controller A E).Offered (AllRows P) single subnet)
    (hl : LeaseController.vtepLease u subnet = .ok l) : o.Grants l := by
  rcases hs with hs | ⟨db, hI, r, hr, hexp, hkind, rfl⟩
  · exact Overlay.grants_of_offered (A := A) (E := E) (Or.inl hs) hl
  · exact Overlay.grants_of_offered (A := A) (E := E)
      (Or.inr ⟨db, fun s hs => hP _ (hI s hs), r, hr, hexp, hkind, rfl⟩) hl

/-- A renewal carries a lease that some acquire has given to a client, and nobody else calls. -/
def RenewsGiven (sys : Network) : Party → Prop
  | .client (.renewSubnetLease l) => ∃ th ∈ sys.threads, ∃ u single,
      th.program = .done ⟨.client (.acquireLease u single), .ok l⟩
  | .client _ => True
  | .raw _ => False

theorem distinct_leasesWhere (ch : Choice) (db : Database) (cond : Row → Bool) :
    (leasesWhere ch db cond).Pairwise Lease.Distinct := by
  have hscan : (ch.order.scan db.table.rows).Pairwise fun r s => r.toLease.Distinct s.toLease :=
    ((ch.order.perm db.table.rows).pairwise_iff fun h => h.symm).mpr db.table.unique
  exact (hscan.filter cond).map _ fun _ _ h => h

theorem pairwise_allActive {o : Overlay} {db : Database} (hdb : AllRows o.Grants db) (ch : Choice)
    (E : ℤ) :
    (allActive ch db E).Pairwise fun l k => rangesDisjoint l.overlaySubnet k.overlaySubnet := by
  refine (distinct_leasesWhere ch db _).imp_of_mem fun {l k} hl hk hd => ?_
  obtain ⟨r, hr, -, rfl⟩ := mem_leasesWhere.mp hl
  obtain ⟨s, hs, -, rfl⟩ := mem_leasesWhere.mp hk
  exact (hdb r hr).rangesDisjoint (hdb s hs) hd.2.1

/-- With clients that only renew what they were given, the rows, the acquired leases and the listed
ones are leases of the overlay, and the ranges of different rows, and of different leases of one
list, are disjoint. -/
theorem given_leases_disjoint (jsonError : GoString → DecodeError → String) (o : Overlay) (A E : ℤ)
    {verdicts : Verdict → Prop} {allowed : Choice → Prop} {now : ℤ}
    {ls : List (Label Party Database WireChoice)} {sys : Network}
    (hr : Run (network jsonError (o.controller A E) verdicts allowed RenewsGiven) (fun _ _ => True)
      ⟨⟨Table.empty, now⟩, []⟩ ls sys) :
    (∀ r ∈ sys.shared.table.rows, o.pool.isMember r.overlaySubnet = true ∧
      ∀ x, covers r.overlaySubnet x → o.net.contains x = true) ∧
    (∀ r ∈ sys.shared.table.rows, ∀ s ∈ sys.shared.table.rows, r ≠ s →
      rangesDisjoint r.overlaySubnet s.overlaySubnet) ∧
    (∀ th ∈ sys.threads, ∀ u single l,
      th.program = .done ⟨.client (.acquireLease u single), .ok l⟩ →
      l.underlayIP = u ∧ o.pool.isMember l.overlaySubnet = true ∧
        ∀ x, covers l.overlaySubnet x → o.net.contains x = true) ∧
    ∀ th ∈ sys.threads, ∀ leases, th.program = .done ⟨.client .getActiveLeases, .ok leases⟩ →
      (∀ l ∈ leases, o.pool.isMember l.overlaySubnet = true ∧
        ∀ x, covers l.overlaySubnet x → o.net.contains x = true) ∧
        leases.Pairwise fun l k => rangesDisjoint l.overlaySubnet k.overlaySubnet := by
  have hclient : ∀ (sys : Network) (q : ClientCall), (∀ th ∈ sys.threads, ∀ res,
      th.program = .done res → Given (o.controller A E) o.Grants res) →
      RenewsGiven sys (.client q) → q.Fits (o.controller A E) o.Grants := by
    intro sys q hgiven hacc
    cases q with
    | acquireLease u single => exact fun _ subnet l hs hl => Overlay.grants_of_offered hs hl
    | renewSubnetLease l =>
      obtain ⟨th, hth, u, single, hdone⟩ := hacc
      exact fun _ => (hgiven th hth _ hdone _ _ rfl l rfl).1
    | getActiveLeases => trivial
    | releaseSubnetLease u => trivial
  obtain ⟨hrows, hgiven⟩ := network_safe hclient (fun _ _ h => h.elim) hr
  refine ⟨fun r hr => ⟨(hrows r hr).isMember, fun x hx => (hrows r hr).inside hx⟩,
    fun r hr s hs hne => ?_, fun th hth u single l hdone => ?_, fun th hth leases hdone => ?_⟩
  · exact (hrows r hr).rangesDisjoint (hrows s hs) (Table.distinct_of_mem hr hs hne).2.1
  · obtain ⟨hgrant, hu⟩ := hgiven th hth _ hdone _ _ rfl l rfl
    exact ⟨hu, hgrant.isMember, fun x hx => hgrant.inside hx⟩
  · obtain ⟨ch, db, hdb, rfl⟩ := hgiven th hth _ hdone _ _ rfl leases rfl
    refine ⟨fun l hl => ?_, pairwise_allActive hdb ch E⟩
    obtain ⟨r, hrow, -, rfl⟩ := mem_leasesWhere.mp hl
    exact ⟨(hdb r hrow).isMember, fun x hx => (hdb r hrow).inside hx⟩

def bothHeld : Database :=
  ⟨⟨[⟨⟨"10.0.0.1", "10.255.0.4/30", "ee:ee:0a:ff:00:04"⟩, 0⟩,
    ⟨⟨"10.0.0.2", "10.255.0.1/32", "ee:ee:0a:ff:00:01"⟩, 0⟩], by decide, by decide⟩, 0⟩

theorem given_leases_disjoint_small : ∃ ls sys,
    Run (network (fun _ _ => "") (Overlay.small.controller 2 5) (fun _ => True) faultless
      RenewsGiven) (fun _ _ => True) ⟨⟨Table.empty, 0⟩, []⟩ ls sys ∧
    (∃ th ∈ sys.threads, th.program = .done ⟨.client (.acquireLease "10.0.0.1" false),
      .ok ⟨"10.0.0.1", "10.255.0.4/30", "ee:ee:0a:ff:00:04"⟩⟩) ∧
    Overlay.small.pool.isMember "10.255.0.4/30" = true ∧
    rangesDisjoint "10.255.0.4/30" "10.255.0.1/32" := by
  have hnil : Run (network (fun _ _ => "") (Overlay.small.controller 2 5) (fun _ => True) faultless
      RenewsGiven) (fun _ _ => True) ⟨⟨Table.empty, 0⟩, []⟩ [] ⟨⟨Table.empty, 0⟩, []⟩ := .nil _
  obtain ⟨ls, th, hfirst, hdone⟩ := run_served hnil
    (q := .acquireLease "10.0.0.1" false) trivial _ operation_acquire_small
  have hop : ((ClientCall.acquireLease "10.0.0.2" true).operation (Overlay.small.controller 2 5)
      fun _ => .first).runWith exec .quiet (blockHeld 0) =
      (.ok ⟨"10.0.0.2", "10.255.0.1/32", "ee:ee:0a:ff:00:01"⟩, bothHeld) := rfl
  obtain ⟨ls', th', hboth, -⟩ := run_served hfirst
    (q := .acquireLease "10.0.0.2" true) trivial _ hop
  obtain ⟨-, hrows, hgiven, -⟩ := given_leases_disjoint _ Overlay.small 2 5 hboth
  refine ⟨ls', _, hboth, ⟨th, by simp, hdone⟩, (hgiven th (by simp) _ _ _ hdone).2.1, ?_⟩
  exact hrows _ List.mem_cons_self _ (List.mem_cons_of_mem _ List.mem_cons_self) (by decide)

theorem not_renewed_of_error (err : DoError)
    (h : Daemon.clientRenewSubnetLease (.error err) = .ok ()) : False := by
  cases err with
  | httpResponseCode statusCode message =>
    rw [Daemon.clientRenewSubnetLease] at h
    split_ifs at h
  | other text => cases h

theorem eq_ok_of_renewed {res : Except LeaseError Unit} (h : renewed res = .ok ()) :
    res = .ok () := by
  rcases res with (text | text) | _
  · rw [renewed] at h
    exact (not_renewed_of_error _ h).elim
  · cases h
  · rfl

namespace ClientCall

def Affirms : (q : ClientCall) → q.Result → Lease → Prop
  | .acquireLease _ _, res, l => res = .ok l
  | .renewSubnetLease k, res, l => k = l ∧ res = .ok ()
  | .getActiveLeases, _, _ | .releaseSubnetLease _, _, _ => False

theorem not_affirms_report (q : ClientCall) (err : DoError) (l : Lease) :
    ¬ q.Affirms (q.report err) l := by
  cases q with
  | getActiveLeases => exact id
  | acquireLease u single => exact fun h => by cases h
  | renewSubnetLease k =>
    rintro ⟨-, h⟩
    exact not_renewed_of_error err h
  | releaseSubnetLease u => exact id

end ClientCall

section Evidence

variable {c : LeaseController} {q : ClientCall} {ρ : Type} {A : Sigma Reply → ρ → Prop}
  {Q : q.Result → ρ → Prop}

theorem ClientCall.earns_settle
    (hop : ∀ draws history, (q.operation c draws).Earns
      (fun history res => ∀ x, Q res x → ∃ e ∈ history, A e x) history)
    (hreport : ∀ err x, ¬ Q (q.report err) x) (v : Verdict) (history : List (Sigma Reply)) :
    (settle q.report (q.attend c) v).Earns
      (fun history res => ∀ x, Q res x → ∃ e ∈ history, A e x) history := by
  have hrefused : ∀ (err : DoError) (history : List (Sigma Reply)),
      (Program.done (q.report err) : Prog q.Result).Earns
        (fun history res => ∀ x, Q res x → ∃ e ∈ history, A e x) history :=
    fun err history x hx => absurd hx (hreport err x)
  cases v with
  | unserved err => exact hrefused _ _
  | served draws unread lost =>
    refine Program.Earns.bind (P := fun history res => ∀ x, Q res x → ∃ e ∈ history, A e x) ?_
      fun res later hres => ?_
    · cases unread with
      | none => exact hop draws _
      | some text =>
        rw [ClientCall.attend]
        split_ifs
        · exact hrefused _ _
        · exact hop draws _
    · cases lost with
      | none => exact hres
      | some err => exact hrefused _ _

theorem ClientCall.earns_through (jsonError : GoString → DecodeError → String)
    (hop : ∀ draws history, (q.operation c draws).Earns
      (fun history res => ∀ x, Q res x → ∃ e ∈ history, A e x) history)
    (hreport : ∀ err x, ¬ Q (q.report err) x) (later : List (Sigma WireReply)) :
    ((q.program jsonError).through (overWire jsonError c)).Earns (fun later res => ∀ x,
      Q res x → ∃ e ∈ later, ∃ s r, e = ⟨.statement s, r⟩ ∧ A ⟨s, r⟩ x) later := by
  obtain ⟨req, hreq⟩ := q.program_through jsonError c
  rw [hreq]
  exact fun v => (q.earns_settle hop hreport v []).embed (fun s r x hx => ⟨s, r, rfl, hx⟩) _

end Evidence

section Affirmed

variable {c : LeaseController} {history : List (Sigma Reply)}

theorem established_renewal (l : Lease) :
    (LeaseController.renewSubnetLease l).Earns (fun history res => res = .ok () →
      ∃ e ∈ history, Establishes (some e) l) history := by
  have hconfirm : ∀ (e : Sigma Reply) (history : List (Sigma Reply)), e ∈ history →
      Establishes (some e) l → (LeaseController.confirmRenewal l).Earns (fun history res =>
        res = .ok () → ∃ e ∈ history, Establishes (some e) l) history := fun e history he hest =>
    (Program.Earns.keeps _ he).mono fun later _ he _ => ⟨e, he, hest⟩
  rw [LeaseController.renewSubnetLease]
  cases validate l with
  | error err => exact fun h => by cases h
  | ok =>
    intro found
    rcases found with err | _ | existing
    · exact fun h => by cases h
    · intro added
      rcases added with err | _
      · exact fun h => by cases h
      · exact hconfirm _ _ (List.mem_append_right _ (List.mem_singleton_self _)) (Or.inr rfl)
    · change Program.Earns _ _ (if _ then _ else _)
      split_ifs with hne
      · exact fun h => by cases h
      · refine hconfirm _ _ (List.mem_append_right _ (List.mem_singleton_self _)) (Or.inl ?_)
        rw [not_ne_iff.mp hne]
        exact ⟨_, rfl⟩

theorem established_operation (q : ClientCall) (draws : ℕ → Draw) :
    (q.operation c draws).Earns (fun history res => ∀ l, q.Affirms res l →
      ∃ e ∈ history, Establishes (some e) l) history := by
  cases q with
  | getActiveLeases => exact .of_forall (fun _ _ _ h => h.elim) _ _
  | releaseSubnetLease u => exact .of_forall (fun _ _ _ h => h.elim) _ _
  | renewSubnetLease k =>
    refine (established_renewal k).bind fun res later hres l hl => ?_
    obtain ⟨rfl, hok⟩ := hl
    exact hres (eq_ok_of_renewed hok)
  | acquireLease u single =>
    refine (earns_acquireSubnetLease draws u single).bind fun res later hres l hl => ?_
    rcases res with err | _ | lease
    · cases hl
    · cases hl
    · cases hl
      have hest := hres l rfl
      cases hlast : later.getLast? with
      | none =>
        rw [hlast] at hest
        rcases hest with ⟨_, h⟩ | h
        · cases h
        · cases h
      | some e =>
        rw [hlast] at hest
        exact ⟨e, List.mem_of_getLast? hlast, hest⟩

end Affirmed

def Reliable (v : Verdict) : Prop := ∃ draws, v = .served draws none none

theorem runs_acquireLease_ok {c : LeaseController} {u : String} {single : Bool} {draws : ℕ → Draw}
    {allowed : Choice → Prop} {db db' : Database} {l : Lease} :
    ((ClientCall.acquireLease u single).operation c draws).Runs exec allowed db (.ok l) db' ↔
      (c.acquireSubnetLease draws u single).Runs exec allowed db (.ok (some l)) db' := by
  constructor
  · intro h
    obtain ⟨res, db₁, hrun, hres, rfl⟩ := Program.runs_bind.mp h
    rcases res with err | _ | k
    · cases hres
    · cases hres
    · cases hres
      exact hrun
  · exact fun h => Program.runs_bind.mpr ⟨_, _, h, rfl, rfl⟩

/-- A call over HTTP and JSON is at most one run of the controller's operation: the client is told
the very result of that run, or an error, and after an error without a run the database is as
before. -/
theorem call_runs_at_most_once (jsonError : GoString → DecodeError → String) (c : LeaseController)
    {network : Verdict → Prop} {allowed : Choice → Prop} {q : ClientCall} {db db' : Database}
    {res : q.Result} (hrun : ((q.program jsonError).through (overWire jsonError c)).Runs wireExec
      (Permits network allowed) db res db') :
    (db' = db ∧ ∃ err, res = q.report err) ∨ ∃ draws result,
      (q.operation c draws).Runs exec allowed db result db' ∧
        (res = result ∨ ∃ err : TransportError, res = q.report (.other err.text)) := by
  obtain ⟨req, hreq⟩ := q.program_through jsonError c
  rw [hreq] at hrun
  obtain ⟨ch, hch, hrun⟩ := hrun
  have hsettle := (runs_statements hch.1).mp hrun
  change (settle q.report (q.attend c) ch.verdict).Runs exec allowed db res db' at hsettle
  cases hv : ch.verdict with
  | unserved err =>
    rw [hv] at hsettle
    obtain ⟨rfl, rfl⟩ := hsettle
    exact Or.inl ⟨rfl, _, rfl⟩
  | served draws unread lost =>
    rw [hv] at hsettle
    obtain ⟨result, db₁, hattend, hres, rfl⟩ := Program.runs_bind.mp hsettle
    have hreported : res = result ∨ ∃ err : TransportError, res = q.report (.other err.text) := by
      cases lost with
      | none => exact Or.inl hres
      | some err => exact Or.inr ⟨err, hres⟩
    by_cases hbody : unread ≠ none ∧ q.sendsBody = true
    · obtain ⟨text, rfl⟩ := Option.ne_none_iff_exists'.mp hbody.1
      rw [ClientCall.attend, if_pos hbody.2] at hattend
      obtain ⟨rfl, rfl⟩ := hattend
      rcases hreported with rfl | ⟨err, rfl⟩
      · exact Or.inl ⟨rfl, _, rfl⟩
      · exact Or.inl ⟨rfl, _, rfl⟩
    · refine Or.inr ⟨draws, result, ?_, hreported⟩
      cases unread with
      | none => exact hattend
      | some text =>
        rw [ClientCall.attend, if_neg fun hsends => hbody ⟨by simp, hsends⟩] at hattend
        exact hattend

theorem call_runs_at_most_once_lost : ∃ err draws result,
    (((ClientCall.acquireLease "10.0.0.1" false).program fun _ _ => "").through
      (overWire (fun _ _ => "") (Overlay.small.controller 2 5))).Runs wireExec
        (Permits (fun _ => True) faultless) ⟨Table.empty, 0⟩ (.error err) (blockHeld 0) ∧
    ((ClientCall.acquireLease "10.0.0.1" false).operation (Overlay.small.controller 2 5) draws).Runs
      exec faultless ⟨Table.empty, 0⟩ result (blockHeld 0) := by
  have hop := executes_runWith ((ClientCall.acquireLease "10.0.0.1" false).operation
    (Overlay.small.controller 2 5) fun _ => .first) ⟨Table.empty, 0⟩
  rw [operation_acquire_small] at hop
  have hcall : (((ClientCall.acquireLease "10.0.0.1" false).program fun _ _ => "").through
      (overWire (fun _ _ => "") (Overlay.small.controller 2 5))).Runs wireExec
        (Permits (fun _ => True) faultless) ⟨Table.empty, 0⟩ _ (blockHeld 0) :=
    (ClientCall.runs_iff (rfl : faultless .quiet)).mpr
      ⟨.served (fun _ => .first) none (some (.clientDo "EOF")), trivial,
        Program.runs_bind.mpr ⟨_, _, hop, rfl, rfl⟩⟩
  rcases call_runs_at_most_once _ _ hcall with ⟨hsame, -⟩ | ⟨draws, result, hrun, -⟩
  · have hrows := congrArg (fun db => db.table.rows.length) hsame
    cases hrows
  · exact ⟨_, draws, result, hcall, hrun⟩

/-- A client that was granted a lease but has lost the reply acquires again: it is given the same
lease and the database does not change. Calls for other hosts were served in between, one after
another, and the lease has not expired. -/
theorem lost_reply_recovered (jsonError : GoString → DecodeError → String) (o : Overlay) (A E : ℤ)
    {allowed : Choice → Prop} {u : String} {single : Bool} {l : Lease} {draws : ℕ → Draw}
    {db db₁ db₂ db₃ : Database} {es : List (Event Response Request Database)}
    {res : Except DoError Lease} (hrows : AllRows o.Grants db)
    (hgranted : ((ClientCall.acquireLease u single).operation (o.controller A E) draws).Runs exec
      allowed db (.ok l) db₁)
    (hnew : ∀ r ∈ db.table.rows, r.toLease ≠ l)
    (ht : Trace (controllers (o.controller A E) allowed timePasses fun _ _ => True)
      (Sparing u) db₁ es db₂)
    (hlive : db₂.now < db.now + E) (single' : Bool)
    (hagain : (((ClientCall.acquireLease u single').program jsonError).through
      (overWire jsonError (o.controller A E))).Runs wireExec (Permits Reliable faultless)
        db₂ res db₃) :
    res = .ok l ∧ db₃ = db₂ := by
  have hrun := runs_acquireLease_ok.mp hgranted
  obtain ⟨hrows₁, hl⟩ := (safe_acquireSubnetLease (P := o.Grants)
    (fun _ _ _ hs hk => Overlay.grants_of_offered hs hk) draws).runs hrows hrun
  obtain ⟨hgrant, rfl⟩ := hl l rfl
  have hip : (parseIP l.underlayIP).bind to4 ≠ none := by
    intro hnone
    rw [LeaseController.acquireSubnetLease, if_pos hnone] at hrun
    cases hrun.1
  have hsec : Secures (o.controller A E) allowed l db db₁ :=
    .inserted draws single (runs_serve_acquire.mpr hrun) hnew
  obtain ⟨hnow, hheld⟩ := hsec.held
  obtain ⟨-, r, hr, rfl, -⟩ := trace_held ht hnow.ge hheld hlive
  obtain ⟨v, ⟨draws', rfl⟩, hsettle⟩ := (ClientCall.runs_iff (rfl : faultless .quiet)).mp hagain
  obtain ⟨res', db', hop, rfl, rfl⟩ := Program.runs_bind.mp hsettle
  obtain ⟨found, db'', hacquire, rfl, rfl⟩ := Program.runs_bind.mp hop
  have hpool := empty_not_mem_poolOf_of_new o.newCIDRPool_eq single'
  obtain ⟨rfl, rfl⟩ := (LeaseController.executes_acquireSubnetLease hpool hacquire).of_member
    hip hr rfl hgrant.isMember
  exact ⟨rfl, rfl⟩

theorem lost_reply_recovered_small : ∃ res db',
    (((ClientCall.acquireLease "10.0.0.1" false).program fun _ _ => "").through
      (overWire (fun _ _ => "") (Overlay.small.controller 2 5))).Runs wireExec
        (Permits Reliable faultless) (blockHeld 3) res db' ∧
    res = .ok ⟨"10.0.0.1", "10.255.0.4/30", "ee:ee:0a:ff:00:04"⟩ ∧ db' = blockHeld 3 := by
  have hgranted := executes_runWith ((ClientCall.acquireLease "10.0.0.1" false).operation
    (Overlay.small.controller 2 5) fun _ => .first) ⟨Table.empty, 0⟩
  have hagain := executes_runWith ((ClientCall.acquireLease "10.0.0.1" false).operation
    (Overlay.small.controller 2 5) fun _ => .first) (blockHeld 3)
  have hcall : (((ClientCall.acquireLease "10.0.0.1" false).program fun _ _ => "").through
      (overWire (fun _ _ => "") (Overlay.small.controller 2 5))).Runs wireExec
        (Permits Reliable faultless) (blockHeld 3) _ _ :=
    (ClientCall.runs_iff (rfl : faultless .quiet)).mpr ⟨.served (fun _ => .first) none none,
      ⟨_, rfl⟩, Program.runs_bind.mpr ⟨_, _, hagain, rfl, rfl⟩⟩
  have ht : Trace (controllers (Overlay.small.controller 2 5) faultless timePasses fun _ _ => True)
      (Sparing "10.0.0.1") (blockHeld 0) _ (blockHeld 3) :=
    .drift (.nil _) ⟨rfl, by decide⟩ fun req res h => by cases h
  exact ⟨_, _, hcall, lost_reply_recovered _ Overlay.small 2 5
    (fun r hr => absurd hr List.not_mem_nil)
    hgranted (fun r hr => absurd hr List.not_mem_nil) ht (by decide) false hcall⟩

end Silk.Controller
