import Silk.LeaserRules
import Silk.LeaserGeometry
import Silk.ResumptionInterleaving

/-!
# Controllers sharing one table

Any number of controllers with one configuration serve requests on the shared
table, one statement at a time. Rows stay inside the pools in every reachable
state, whatever the interleaving, the clock and the failing statements: a stale
read can make an insert fail, but never makes it store a subnet from elsewhere.
-/

namespace Silk.Leaser

open GoNet Controller Resumption

abbrev Client : Type := Thread Statement Reply Response Request

abbrev Controllers : Type := System Statement Reply Response Request Database

def controllers (c : LeaseController) (allowed : Choice → Prop)
    (drift : Database → Database → Prop)
    (accepts : Controllers → Request → Prop) :
    Machine Statement Reply Response Request Database Choice :=
  ⟨exec, allowed, drift, serve c, accepts⟩

def anyTime (db db' : Database) : Prop := db'.table = db.table

def timePasses (db db' : Database) : Prop := db'.table = db.table ∧ db.now ≤ db'.now

/-- A renewal carries a lease that some finished acquire returned. -/
def RenewsReturned (sys : Controllers) (req : Request) :
    Prop :=
  ∀ lease, req = .renew lease →
    ∃ th ∈ sys.threads, th.program = .done (.acquired (.ok (some lease)))

def AllRows (P : Lease → Prop) (db : Database) : Prop := ∀ r ∈ db.table.rows, P r.toLease

section AllRows

variable {P : Lease → Prop} {db : Database}

theorem AllRows.delete (h : AllRows P db) (u : String) : AllRows P ⟨db.table.delete u, db.now⟩ :=
  fun r hr => h r (Table.mem_delete.mp hr).1

theorem AllRows.renew (h : AllRows P db) (u : String) :
    AllRows P ⟨db.table.renew u db.now, db.now⟩ := by
  intro r hr
  obtain ⟨s, hs, rfl⟩ := Table.mem_renew.mp hr
  rw [Table.touch_toLease]
  exact h s hs

theorem AllRows.insert (h : AllRows P db) {l : Lease} (hl : P l) (hadm : db.table.Admits l) :
    AllRows P ⟨db.table.insert l db.now hadm, db.now⟩ := by
  intro r hr
  rcases (Table.mem_insert hadm).mp hr with hr | rfl
  · exact h r hr
  · exact hl

theorem AllRows.acquireKeeps {c : LeaseController} {u : String} {single : Bool}
    (hoff : ∀ subnet l, c.Offered (AllRows P) single subnet →
      LeaseController.vtepLease u subnet = .ok l → P l) :
    c.AcquireKeeps (AllRows P) u single fun res => ∀ l, res = .ok (some l) → P l where
  lookup db hI r hr _ _ l hl := by
    cases hl
    exact hI r hr
  discard _ _ _ _ _ _ db' hI' := hI'.delete u
  reclaim _ _ r _ _ db' hI' := hI'.delete r.underlayIP
  insert subnet hs l hl db hI hadm := by
    refine ⟨hI.insert (hoff subnet l hs hl) hadm, fun l' hl' => ?_⟩
    cases hl'
    exact hoff subnet l hs hl
  failed err l hl := by cases hl
  exhausted l hl := by cases hl

theorem AllRows.renewKeeps {lease : Lease} (hl : validate lease = .ok () → P lease) :
    LeaseController.RenewKeeps (AllRows P) lease fun _ => True where
  insert hval _ hI hadm := hI.insert (hl hval) hadm
  touch _ hI := hI.renew _
  succeeded _ _ _ _ := trivial
  failed _ := trivial

theorem serve_allRows {c : LeaseController} {allowed : Choice → Prop} (req : Request)
    (hacquire : ∀ draws u single, req = .acquire draws u single →
      ∀ subnet l, c.Offered (AllRows P) single subnet →
        LeaseController.vtepLease u subnet = .ok l → P l)
    (hrenew : ∀ lease, req = .renew lease → validate lease = .ok () → P lease) :
    (serve c req).Safe exec allowed (AllRows P)
      fun res => ∀ l, res = .acquired (.ok (some l)) → P l := by
  cases req with
  | acquire draws u single =>
    refine serve_acquire_safe draws (AllRows.acquireKeeps (hacquire draws u single rfl)) ?_
    intro res hres l hl
    cases hl
    exact hres l rfl
  | release u =>
    apply serve_release_safe
    · exact fun db hI => hI.delete u
    · intro res l h
      cases h
  | renew lease =>
    refine serve_renew_safe (AllRows.renewKeeps (hrenew lease rfl)) ?_
    intro res _ l hl
    cases hl

end AllRows

/-- A lease on a slot, with the hardware address derived from it. -/
def Overlay.Grants (o : Overlay) (l : Lease) : Prop :=
  ∃ a w, o.Slot a w ∧ l.overlaySubnet = cidrText (addrBytes a) w ∧
    l.overlayHardwareAddr = macText a

namespace Overlay

variable {o : Overlay}

def controller (o : Overlay) (acquireSubnetLeaseAttempts leaseExpirationSeconds : ℤ) :
    LeaseController :=
  ⟨acquireSubnetLeaseAttempts, o.pool, leaseExpirationSeconds⟩

theorem vtepLease_slot {a w : ℕ} (h : o.Slot a w) (u : String) :
    LeaseController.vtepLease u (cidrText (addrBytes a) w) =
      .ok ⟨u, cidrText (addrBytes a) w, macText a⟩ := by
  obtain ⟨net, hparse⟩ := parseCIDR_slot h.le (a := a)
  simp only [LeaseController.vtepLease, hparse, generateForVTEP_mapped, macText, macOf]

theorem Grants.isMember {l : Lease} (h : o.Grants l) : o.pool.isMember l.overlaySubnet = true := by
  obtain ⟨a, w, hslot, hsub, -⟩ := h
  exact isMember_iff.mpr ⟨a, w, hslot, hsub⟩

theorem Grants.of_vtepLease {u s : String} {l : Lease} (hs : o.pool.isMember s = true)
    (hl : LeaseController.vtepLease u s = .ok l) : o.Grants l := by
  obtain ⟨a, w, hslot, rfl⟩ := isMember_iff.mp hs
  rw [vtepLease_slot hslot] at hl
  cases hl
  exact ⟨a, w, hslot, rfl, rfl⟩

theorem Grants.inside {l : Lease} (h : o.Grants l) {x : IP} (hx : covers l.overlaySubnet x) :
    o.net.contains x = true := by
  obtain ⟨a, w, hslot, hsub, -⟩ := h
  rw [hsub] at hx
  exact hslot.inside hx

theorem Grants.hardwareAddr {l : Lease} (h : o.Grants l) :
    ∃ a b c d net, parseCIDR l.overlaySubnet = .ok (ipv4 a b c d, net) ∧
      l.overlayHardwareAddr = hardwareAddrString [0xee, 0xee, a, b, c, d] := by
  obtain ⟨a, w, hslot, hsub, hmac⟩ := h
  rw [hsub, hmac]
  exact ⟨_, _, _, _, _, parseCIDR_cidrText _ _ _ _ hslot.le, rfl⟩

theorem Grants.rangesDisjoint {l k : Lease} (hl : o.Grants l) (hk : o.Grants k)
    (hne : l.overlaySubnet ≠ k.overlaySubnet) : rangesDisjoint l.overlaySubnet k.overlaySubnet := by
  obtain ⟨a, v, hslot, hsub, -⟩ := hl
  obtain ⟨b, w, hslot', hsub', -⟩ := hk
  rw [hsub, hsub'] at hne ⊢
  apply hslot.rangesDisjoint hslot'
  intro hab
  rw [hab] at hslot hne
  exact hne (by rw [hslot.eq_of_addr hslot'])

theorem grants_of_offered {A E : ℤ} {single : Bool} {u subnet : String} {l : Lease}
    (hs : (o.controller A E).Offered (AllRows o.Grants) single subnet)
    (hl : LeaseController.vtepLease u subnet = .ok l) : o.Grants l := by
  rcases hs with hs | ⟨db, hI, r, hr, -, -, rfl⟩
  · exact .of_vtepLease (CIDRPool.isMember_of_poolOf hs) hl
  · exact .of_vtepLease (hI r hr).isMember hl

theorem serve_grants {A E : ℤ} {allowed : Choice → Prop} {req : Request}
    (hrenew : ∀ lease, req = .renew lease → o.Grants lease) :
    (serve (o.controller A E) req).Safe exec allowed (AllRows o.Grants)
      fun res => ∀ l, res = .acquired (.ok (some l)) → o.Grants l :=
  serve_allRows req (fun _ _ _ _ _ _ hs hl => grants_of_offered hs hl)
    fun lease h _ => hrenew lease h

theorem run_grants {A E now : ℤ} {allowed : Choice → Prop}
    {cond : Controllers →
      Label Request Database Choice → Prop}
    {sys : Controllers}
    {ls : List (Label Request Database Choice)}
    (hr : Run (controllers (o.controller A E) allowed anyTime RenewsReturned) cond
      ⟨⟨Table.empty, now⟩, []⟩ ls sys) : AllRows o.Grants sys.shared := by
  refine (Run.safe (I := AllRows o.Grants)
    (Q := fun _ res => ∀ l, res = .acquired (.ok (some l)) → o.Grants l) ?_ ?_ hr ?_).1
  · intro s t hs hdrift r hr
    rw [hdrift] at hr
    exact hs r hr
  · intro sys req hsys hacc
    apply serve_grants
    intro lease hreq
    obtain ⟨th, hth, hdone⟩ := hacc lease hreq
    have hsafe := hsys.2 th hth
    rw [hdone] at hsafe
    exact hsafe lease rfl
  · exact ⟨fun r hr => absurd hr List.not_mem_nil, fun th hth => absurd hth List.not_mem_nil⟩

end Overlay

def Overlay.small : Overlay :=
  ⟨"10.255.0.0/29", 30, ipv4 10 255 0 0, ⟨[10, 255, 0, 0], [255, 255, 255, 248]⟩,
    by decide, by decide, by decide, by decide⟩

/-- In every state that controllers sharing an overlay configuration reach, the
rows are pool members inside the network with derived hardware addresses, and
distinct rows have disjoint ranges. -/
theorem shared_rows_disjoint (o : Overlay) (A E now : ℤ)
    {sys : Controllers}
    {ls : List (Label Request Database Choice)}
    (hr : Run (controllers (o.controller A E) (fun _ => True) anyTime RenewsReturned)
      (fun _ _ => True) ⟨⟨Table.empty, now⟩, []⟩ ls sys) :
    newCIDRPool o.subnetRange o.subnetMask = .value (o.controller A E).cidrPool ∧
      (∀ r ∈ sys.shared.table.rows,
        (o.controller A E).cidrPool.isMember r.overlaySubnet = true ∧
        (∀ x, covers r.overlaySubnet x → o.net.contains x = true) ∧
        ∃ a b c d net, parseCIDR r.overlaySubnet = .ok (ipv4 a b c d, net) ∧
          r.overlayHardwareAddr = hardwareAddrString [0xee, 0xee, a, b, c, d]) ∧
      ∀ r ∈ sys.shared.table.rows, ∀ s ∈ sys.shared.table.rows, r ≠ s →
        rangesDisjoint r.overlaySubnet s.overlaySubnet ∧ r.underlayIP ≠ s.underlayIP ∧
          r.overlaySubnet ≠ s.overlaySubnet ∧ r.overlayHardwareAddr ≠ s.overlayHardwareAddr := by
  have hrows := Overlay.run_grants hr
  refine ⟨o.newCIDRPool_eq, fun r hr => ?_, fun r hr s hs hne => ?_⟩
  · have hgrant := hrows r hr
    exact ⟨hgrant.isMember, fun x hx => hgrant.inside hx, hgrant.hardwareAddr⟩
  · have hdist := Table.distinct_of_mem hr hs hne
    exact ⟨(hrows r hr).rangesDisjoint (hrows s hs) hdist.2.1, hdist⟩

def twoAcquires : List (Label Request Database Choice) :=
  [.start (.acquire (fun _ => .first) "10.0.0.1" false),
    .start (.acquire (fun _ => .first) "10.0.0.2" true), .statement 0 .quiet, .statement 1 .quiet,
    .statement 1 .quiet, .statement 0 .quiet, .statement 0 .quiet, .statement 1 .quiet]

theorem shared_rows_disjoint_small : ∃ sys : Controllers,
    Run (controllers (Overlay.small.controller 2 5) (fun _ => True) anyTime RenewsReturned)
      (fun _ _ => True) ⟨⟨Table.empty, 0⟩, []⟩ twoAcquires sys ∧
    ⟨⟨"10.0.0.1", "10.255.0.4/30", "ee:ee:0a:ff:00:04"⟩, 0⟩ ∈ sys.shared.table.rows ∧
    ⟨⟨"10.0.0.2", "10.255.0.1/32", "ee:ee:0a:ff:00:01"⟩, 0⟩ ∈ sys.shared.table.rows ∧
    rangesDisjoint "10.255.0.4/30" "10.255.0.1/32" := by
  have hplay : (controllers (Overlay.small.controller 2 5) (fun _ => True) anyTime
      RenewsReturned).Playable (fun _ _ => True) ⟨⟨Table.empty, 0⟩, []⟩ twoAcquires :=
    ⟨⟨(fun _ h => nomatch h), trivial⟩, ⟨(fun _ h => nomatch h), trivial⟩,
      ⟨⟨rfl, trivial⟩, trivial⟩, ⟨⟨rfl, trivial⟩, trivial⟩, ⟨⟨rfl, trivial⟩, trivial⟩,
      ⟨⟨rfl, trivial⟩, trivial⟩, ⟨⟨rfl, trivial⟩, trivial⟩, ⟨⟨rfl, trivial⟩, trivial⟩, trivial⟩
  have hrun := Run.of_playable hplay
  refine ⟨_, hrun, by decide, by decide, ?_⟩
  exact ((shared_rows_disjoint Overlay.small 2 5 0 hrun).2.2
    ⟨⟨"10.0.0.1", "10.255.0.4/30", "ee:ee:0a:ff:00:04"⟩, 0⟩ (by decide)
    ⟨⟨"10.0.0.2", "10.255.0.1/32", "ee:ee:0a:ff:00:01"⟩, 0⟩ (by decide) (by decide)).1

end Silk.Leaser
