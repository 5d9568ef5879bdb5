import Silk.DaemonConverger
import Silk.GoNetText
import Silk.LeaserConfirmation
import Silk.LeaserFailure

/-!
# Well-formed leases, at the controller and at the daemon

A row enters the table with a subnet that parses and the hardware address
generated from it, or with a client's lease that has passed the validator. Both
pass the validator, and the validator asks for exactly what the converger parses.
-/

namespace Silk.Leaser

open GoNet Controller Resumption
open Daemon (ConvergeError Converger NetlinkCall)

theorem validate_ok {l : Lease} : validate l = .ok () ↔
    (∃ u, parseIP l.underlayIP = some u) ∧ (∃ net, parseCIDR l.overlaySubnet = .ok net) ∧
      ∃ hw, parseMAC l.overlayHardwareAddr = .ok hw := by
  rw [validate]
  cases parseIP l.underlayIP with
  | none => simp
  | some u =>
    cases parseCIDR l.overlaySubnet with
    | error err => simp
    | ok net =>
      cases parseMAC l.overlayHardwareAddr with
      | error err => simp
      | ok hw => simp

theorem validate_vtepLease {u subnet : String} {l : Lease} (hu : (parseIP u).bind to4 ≠ none)
    (h : LeaseController.vtepLease u subnet = .ok l) : validate l = .ok () := by
  rw [LeaseController.vtepLease] at h
  cases hnet : parseCIDR subnet with
  | error err =>
    rw [hnet] at h
    cases h
  | ok net =>
    rw [hnet] at h
    dsimp only at h
    cases hgen : generateForVTEP net.1 with
    | error err =>
      rw [hgen] at h
      cases h
    | ok hw =>
      rw [hgen] at h
      cases h
      obtain ⟨z, hz, hhw⟩ := generateForVTEP_ok hgen
      have hlen : hw.length = 6 := by simp [hhw, to4_length hz]
      refine validate_ok.mpr ⟨?_, ⟨net, hnet⟩, hw, parseMAC_of_length hlen⟩
      cases hip : parseIP u with
      | none => simp [hip] at hu
      | some ip => exact ⟨ip, rfl⟩

theorem serve_validRows {c : LeaseController} {allowed : Choice → Prop} (req : Request) :
    (serve c req).Safe exec allowed (AllRows fun l => validate l = .ok ())
      fun res => ∀ l, res = .acquired (.ok (some l)) → validate l = .ok () := by
  by_cases hu : ∃ draws u single, req = .acquire draws u single ∧ (parseIP u).bind to4 = none
  · -- the address is refused before the first statement
    obtain ⟨draws, u, single, rfl, hnone⟩ := hu
    rw [serve, LeaseController.acquireSubnetLease, if_pos hnone]
    intro l hl
    cases hl
  · refine serve_allRows req (fun draws u single hreq subnet l _ hl => ?_)
      (fun lease _ hval => hval)
    exact validate_vtepLease (fun hnone => hu ⟨draws, u, single, hreq, hnone⟩) hl

section Establishes

/-- Whatever the statements reply, a lease is only returned by the statement that
found it or has stored it. -/
def ReturnsEstablished (history : List (Sigma Reply)) (res : Except Err (Option Lease)) : Prop :=
  ∀ l, res = .ok (some l) → Establishes history.getLast? l

variable {c : LeaseController} {history : List (Sigma Reply)}

theorem earns_tryAcquireLease (draw : Draw) (u : String) (single : Bool) :
    (c.tryAcquireLease draw u single).Earns ReturnsEstablished history := by
  rw [LeaseController.tryAcquireLease_eq]
  refine (Program.Earns.of_forall (P := fun _ _ => True) (fun _ _ => trivial) _ _).bind ?_
  intro res history _
  rcases res with err | subnet
  · exact fun l hl => by cases hl
  dsimp only
  split_ifs
  · exact fun l hl => by cases hl
  rw [LeaseController.addLease]
  cases LeaseController.vtepLease u subnet with
  | error err => exact fun l hl => by cases hl
  | ok lease =>
    intro added
    rcases added with err | _
    · exact fun l hl => by cases hl
    · intro l hl
      cases hl
      exact Or.inr List.getLast?_concat

theorem earns_attempts (u : String) (single : Bool) (n : ℕ) (draws : ℕ → Draw)
    {result : Except Err (Option Lease)} (hres : ∀ l, result ≠ .ok (some l)) :
    (c.attempts u single n draws result).Earns ReturnsEstablished history := by
  induction n generalizing draws result history with
  | zero => exact fun l hl => absurd hl (hres l)
  | succ n ih =>
    rw [LeaseController.attempts]
    refine (earns_tryAcquireLease (draws 0) u single).bind fun res history hest => ?_
    rcases res with err | _ | lease
    · exact ih _ fun l hl => by cases hl
    · exact ih _ fun l hl => by cases hl
    · exact hest

theorem earns_acquireSubnetLease (draws : ℕ → Draw) (u : String) (single : Bool) :
    (c.acquireSubnetLease draws u single).Earns ReturnsEstablished history := by
  have hnone : ∀ l, (.ok none : Except Err (Option Lease)) ≠ .ok (some l) := by simp
  rw [LeaseController.acquireSubnetLease]
  split_ifs
  · exact fun l hl => by cases hl
  intro found
  rcases found with err | _ | lease
  · exact fun l hl => by cases hl
  · exact earns_attempts _ _ _ _ hnone
  · change Program.Earns _ _ (if _ then _ else _)
    split_ifs
    · intro l hl
      cases hl
      exact Or.inl ⟨u, List.getLast?_concat⟩
    · intro deleted
      rcases deleted with err | _
      · exact fun l hl => by cases hl
      · exact earns_attempts _ _ _ _ hnone

theorem earns_serve (c : LeaseController) (req : Request) :
    (serve c req).Earns (fun history res => ∀ l, res = .acquired (.ok (some l)) →
      Establishes history.getLast? l) [] := by
  cases req with
  | acquire draws u single =>
    refine (earns_acquireSubnetLease draws u single).bind fun res history hres l hl => ?_
    cases hl
    exact hres l rfl
  | release u =>
    refine (Program.Earns.of_forall (P := fun _ _ => True) (fun _ _ => trivial) _ _).bind ?_
    exact fun res history _ l hl => by cases hl
  | renew lease =>
    refine (Program.Earns.of_forall (P := fun _ _ => True) (fun _ _ => trivial) _ _).bind ?_
    exact fun res history _ l hl => by cases hl

theorem acquired_mem {allowed : Choice → Prop} {drift : Database → Database → Prop}
    {accepts : Controllers → Request → Prop}
    {cond : Controllers → Label Request Database Choice → Prop} {start : Database}
    {ls : List (Label Request Database Choice)} {sys sys' : Controllers}
    (hr : Run (controllers c allowed drift accepts) cond ⟨start, []⟩ ls sys) {i : ℕ} {ch : Choice}
    (hs : Step (controllers c allowed drift accepts) sys (.statement i ch) sys') {th : Client}
    (hi : sys'.threads[i]? = some th) {l : Lease}
    (hdone : th.program = .done (.acquired (.ok (some l)))) :
    ∃ r ∈ sys'.shared.table.rows, r.toLease = l := by
  have hearns := hr.earns (earns_serve c) fun th hth => absurd hth List.not_mem_nil
  cases hs with
  | @statement _ _ th₀ q next hi₀ hp _ =>
    rw [List.getElem?_set_self (List.getElem?_eq_some_iff.mp hi₀).1] at hi
    cases hi
    have hnext := hearns th₀ (List.mem_of_getElem? hi₀)
    rw [hp] at hnext
    have hest := hnext (exec ch sys.shared q).1
    rw [show next (exec ch sys.shared q).1 = .done (.acquired (.ok (some l))) from hdone] at hest
    have hlast := hest l rfl
    rw [List.getLast?_concat] at hlast
    exact exec_establishes hlast

end Establishes

theorem executes_renewSubnetLease_held {l : Lease} (hval : validate l = .ok ())
    {db db' : Database} {res : Except LeaseError Unit} (hrow : ∃ r ∈ db.table.rows, r.toLease = l)
    (h : Executes (LeaseController.renewSubnetLease l) db res db') :
    res = .ok () ∧ db' = renewLeaseForUnderlayIP db l.underlayIP := by
  obtain ⟨r, hr, rfl⟩ := hrow
  rw [LeaseController.renewSubnetLease, hval] at h
  obtain ⟨found, db₁, hfound, hrest⟩ := Program.runs_bind.mp h
  obtain ⟨rfl, rfl⟩ := executes_leaseForUnderlayIP.mp hfound
  rw [leaseForUnderlayIP_some.mpr ⟨r, hr, rfl, rfl⟩] at hrest
  dsimp only at hrest
  rw [if_neg (not_not_intro rfl)] at hrest
  exact executes_confirmRenewal hrest ⟨r, hr, rfl⟩

theorem rows_renewLeaseForUnderlayIP {db : Database} {r : Row} (hr : r ∈ db.table.rows) :
    (renewLeaseForUnderlayIP db r.underlayIP).table.rows =
      db.table.rows.map fun s => if s.toLease = r.toLease then { s with lastRenewedAt := db.now }
        else s := by
  rw [renewLeaseForUnderlayIP, Table.renew]
  apply List.map_congr_left
  intro s hs
  have hiff : s.underlayIP = r.underlayIP ↔ s.toLease = r.toLease := by
    constructor
    · exact fun heq => by rw [Table.eq_of_underlayIP hs hr heq]
    · exact fun heq => by rw [heq]
  rw [Table.touch]
  simp only [hiff]

section Converge

variable {σ C : Type} {exec : C → σ → (q : NetlinkCall) → Except String (Daemon.Answer q) × σ}
  {allowed : C → Prop}

def ParseError : ConvergeError → Prop
  | .parseLease _ | .invalidUnderlayIP _ | .invalidHardwareAddr _ => True
  | _ => False

def ParsesAll {α : Type} (res : Except ConvergeError α) : Prop :=
  ∀ e, res = .error e → ¬ ParseError e

theorem parsesAll_netlink {q : NetlinkCall} {wrap : String → ConvergeError}
    (h : ∀ text, ¬ ParseError (wrap text)) :
    (Daemon.netlink q wrap).run.Safe exec allowed (fun _ => True) ParsesAll := by
  intro s ch _ _
  refine ⟨trivial, ?_⟩
  rcases (exec ch s q).1 with text | a
  · intro e he
    cases he
    exact h text
  · intro e he
    cases he

theorem parsesAll_bind {α β : Type} {p : Daemon.Netlink α} {f : α → Daemon.Netlink β}
    (hp : p.run.Safe exec allowed (fun _ => True) ParsesAll)
    (hf : ∀ a, (f a).run.Safe exec allowed (fun _ => True) ParsesAll) :
    (p >>= f).run.Safe exec allowed (fun _ => True) ParsesAll := by
  refine Fallible.safe_bind_results hp (fun a _ => hf a) fun e he e' he' => ?_
  cases he'
  exact he e rfl

theorem parsesAll_pure {α : Type} (a : α) :
    (pure a : Daemon.Netlink α).run.Safe exec allowed (fun _ => True) ParsesAll :=
  fun _ he => by cases he

theorem parsesAll_installLease (conv : Converger) {l : Lease} (hl : validate l = .ok ()) :
    (conv.installLease l).run.Safe exec allowed (fun _ => True) ParsesAll := by
  obtain ⟨⟨u, hu⟩, ⟨⟨addr, net⟩, hnet⟩, hw, hhw⟩ := validate_ok.mp hl
  rw [Converger.installLease]
  simp only [hu, hnet, hhw]
  split_ifs
  · exact parsesAll_pure _
  · exact parsesAll_pure _
  · apply parsesAll_bind
    · exact parsesAll_bind (parsesAll_netlink fun _ => id) fun _ => parsesAll_pure _
    intro route
    apply parsesAll_bind
    · refine parsesAll_bind (parsesAll_netlink fun _ => id) fun _ => ?_
      exact parsesAll_bind (parsesAll_netlink fun _ => id) fun _ => parsesAll_pure _
    · exact fun neighs => parsesAll_pure _

theorem parsesAll_installLeases (conv : Converger) {ls : List Lease}
    (hls : ∀ l ∈ ls, validate l = .ok ()) :
    (conv.installLeases ls).run.Safe exec allowed (fun _ => True) ParsesAll := by
  induction ls with
  | nil => exact parsesAll_pure _
  | cons l ls ih =>
    refine parsesAll_bind (parsesAll_installLease conv (hls l List.mem_cons_self)) fun _ => ?_
    refine parsesAll_bind (ih fun k hk => hls k (List.mem_cons_of_mem l hk)) fun _ => ?_
    exact parsesAll_pure _

theorem parsesAll_deleteRoutes (conv : Converger) (rs : List Daemon.Route) :
    (conv.deleteRoutes rs).run.Safe exec allowed (fun _ => True) ParsesAll := by
  induction rs with
  | nil => exact parsesAll_pure _
  | cons r rs ih =>
    rw [Converger.deleteRoutes]
    split_ifs
    · exact parsesAll_bind (parsesAll_netlink fun _ => id) fun _ => ih
    · exact ih

theorem parsesAll_deleteNeighs (conv : Converger) (ns : List Daemon.Neigh) :
    (conv.deleteNeighs ns).run.Safe exec allowed (fun _ => True) ParsesAll := by
  induction ns with
  | nil => exact parsesAll_pure _
  | cons n ns ih =>
    rw [Converger.deleteNeighs]
    split_ifs
    · exact parsesAll_bind (parsesAll_netlink fun _ => id) fun _ => ih
    · exact ih

theorem parsesAll_converge (conv : Converger) {ls : List Lease}
    (hls : ∀ l ∈ ls, validate l = .ok ()) :
    (conv.converge ls).run.Safe exec allowed (fun _ => True) ParsesAll := by
  rw [Converger.converge]
  apply parsesAll_bind
  · refine parsesAll_bind (parsesAll_netlink fun _ => id) fun _ => ?_
    refine parsesAll_bind (parsesAll_netlink fun _ => id) fun _ => ?_
    refine parsesAll_bind (parsesAll_netlink fun _ => id) fun _ => ?_
    exact parsesAll_bind (parsesAll_netlink fun _ => id) fun _ => parsesAll_pure _
  intro previous
  refine parsesAll_bind (parsesAll_installLeases conv hls) fun current => ?_
  exact parsesAll_bind (parsesAll_deleteRoutes conv _) fun _ => parsesAll_deleteNeighs conv _

end Converge

theorem runs_routableLeases_mem {c : LeaseController} {allowed : Choice → Prop} {db db' : Database}
    {leases : List Lease} (h : c.routableLeases.Runs exec allowed db (.ok leases) db') {l : Lease}
    (hl : l ∈ leases) : ∃ r ∈ db.table.rows, r.toLease = l := by
  rw [LeaseController.routableLeases] at h
  obtain ⟨active, db₁, hactive, hrest⟩ := Program.runs_bind.mp h
  rcases active with err | active
  · cases hrest.1
  cases hrest.1
  obtain ⟨ch, heq⟩ := runs_call_ok (q := .allActive c.leaseExpirationSeconds) hactive
  have hactive' : allActive ch db c.leaseExpirationSeconds = leases :=
    Except.ok.inj (Prod.mk.inj heq).1
  rw [← hactive', allActive, mem_leasesWhere] at hl
  obtain ⟨r, hr, -, hrl⟩ := hl
  exact ⟨r, hr, hrl⟩

/-- Every row that the operations leave in the table is a lease that the validator
accepts. An acquired lease is accepted for renewal at once, which changes only the
timestamp of its row, and no daemon fails to parse a routable lease. -/
theorem rows_well_formed (c : LeaseController) {allowed : Choice → Prop} {now : ℤ}
    {sys : Controllers} {ls : List (Label Request Database Choice)}
    (hr : Run (controllers c allowed anyTime fun _ _ => True) (fun _ _ => True)
      ⟨⟨Table.empty, now⟩, []⟩ ls sys) :
    (∀ r ∈ sys.shared.table.rows, validate r.toLease = .ok ()) ∧
    (∀ i ch sys' th l, Step (controllers c allowed anyTime fun _ _ => True) sys (.statement i ch)
        sys' → sys'.threads[i]? = some th → th.program = .done (.acquired (.ok (some l))) →
      ∀ res db', Executes (LeaseController.renewSubnetLease l) sys'.shared res db' →
        res = .ok () ∧ db'.now = sys'.shared.now ∧
          db'.table.rows = sys'.shared.table.rows.map fun s =>
            if s.toLease = l then { s with lastRenewedAt := sys'.shared.now } else s) ∧
    ∀ leases db', c.routableLeases.Runs exec allowed sys.shared (.ok leases) db' →
      ∀ (conv : Converger) {σ C : Type}
        (netlink : C → σ → (q : NetlinkCall) → Except String (Daemon.Answer q) × σ)
        (allowed' : C → Prop) (s s' : σ) (e : ConvergeError),
        (conv.converge leases).run.Runs netlink allowed' s (.error e) s' → ¬ ParseError e := by
  have hvalid : ∀ {ls : List (Label Request Database Choice)} {sys : Controllers},
      Run (controllers c allowed anyTime fun _ _ => True) (fun _ _ => True)
        ⟨⟨Table.empty, now⟩, []⟩ ls sys →
      ∀ r ∈ sys.shared.table.rows, validate r.toLease = .ok () := by
    intro ls sys hr
    refine (hr.safe (I := AllRows fun l => validate l = .ok ())
      (Q := fun _ res => ∀ l, res = .acquired (.ok (some l)) → validate l = .ok ())
      (fun db db' hI (hd : db'.table = db.table) r hr => hI r (hd ▸ hr))
      (fun _ req _ _ => serve_validRows req) ⟨?_, ?_⟩).1
    · exact fun r hr => absurd hr List.not_mem_nil
    · exact fun th hth => absurd hth List.not_mem_nil
  refine ⟨hvalid hr, fun i ch sys' th l hs hi hdone res db' hrenew => ?_,
    fun leases db' hroutable conv σ C netlink allowed' s s' e hrun => ?_⟩
  · obtain ⟨r, hrow, rfl⟩ := acquired_mem hr hs hi hdone
    have hval := hvalid (hr.snoc hs trivial) r hrow
    obtain ⟨hres, rfl⟩ := executes_renewSubnetLease_held hval ⟨r, hrow, rfl⟩ hrenew
    exact ⟨hres, rfl, rows_renewLeaseForUnderlayIP hrow⟩
  · have hleases : ∀ l ∈ leases, validate l = .ok () := by
      intro l hl
      obtain ⟨r, hrow, rfl⟩ := runs_routableLeases_mem hroutable hl
      exact hvalid hr r hrow
    exact ((parsesAll_converge conv hleases).runs trivial hrun).2 e rfl

def untilStored : List (Label Request Database Choice) :=
  [.start (.acquire (fun _ => .first) "10.0.0.1" false), .statement 0 .quiet, .statement 0 .quiet]

theorem rows_well_formed_small :
    ∃ db db' : Database,
      db.table.rows = [⟨⟨"10.0.0.1", "10.255.0.4/30", "ee:ee:0a:ff:00:04"⟩, 0⟩] ∧
      Executes (LeaseController.renewSubnetLease
        ⟨"10.0.0.1", "10.255.0.4/30", "ee:ee:0a:ff:00:04"⟩) db (.ok ()) db' ∧
      db'.table.rows = [⟨⟨"10.0.0.1", "10.255.0.4/30", "ee:ee:0a:ff:00:04"⟩, 0⟩] := by
  have hplay : (controllers (Overlay.small.controller 2 5) faultless anyTime
      fun _ _ => True).Playable (fun _ _ => True) ⟨⟨Table.empty, 0⟩, []⟩ untilStored :=
    ⟨⟨trivial, trivial⟩, ⟨⟨rfl, rfl⟩, trivial⟩, ⟨⟨rfl, rfl⟩, trivial⟩, trivial⟩
  have hall := rows_well_formed _ (Run.of_playable hplay)
  have hexec := executes_runWith (LeaseController.renewSubnetLease
    ⟨"10.0.0.1", "10.255.0.4/30", "ee:ee:0a:ff:00:04"⟩) (blockHeld 0)
  have hrenew := hall.2.1 0 .quiet _ _ ⟨"10.0.0.1", "10.255.0.4/30", "ee:ee:0a:ff:00:04"⟩
    (.of_enabled ⟨rfl, rfl⟩) rfl rfl _ _ hexec
  rw [hrenew.1] at hexec
  exact ⟨_, _, rfl, hexec, hrenew.2.2⟩

end Silk.Leaser
