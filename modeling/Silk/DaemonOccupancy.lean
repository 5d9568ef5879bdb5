import Silk.DaemonDiscovery

/-!
# Starts on a host with containers

A start gives up the lease on the VTEP only after it has read an empty datastore.
While the datastore has entries, no start changes the VTEP, whatever fails, and a
start that succeeds goes by the lease that the VTEP shows.
-/

namespace Silk.Daemon

open GoNet Resumption Keyed
open Controller (Lease)
open Fallible (Triple Reads)

section Occupied

variable {allowed : HostChoice → Prop} {cfg : Config} {l : Link}

theorem acquireLease_refused (cfg : Config) (l : Link) :
    Triple Host.exec allowed (fun h => h.link cfg.vtepName = some l) (acquireLease cfg)
      (fun _ _ => False) fun _ h => h.link cfg.vtepName = some l := by
  refine Triple.bind (reads_requestLease cfg _ _) fun lease => ?_
  split_ifs
  · exact .throw fun _ hs => hs
  refine Triple.bind (Triple.wrap (triple_create_reads cfg lease)) fun v => ?_
  refine Triple.bind (Q := fun _ _ => False) (Triple.wrap ?_) fun _ => .of_false
  refine Triple.bind (Q := fun _ _ => False) (.request ?_ ?_) fun _ => .of_false
  · rintro h ch a t - ⟨hv, hl⟩ hexec
    have hexists : h.link v.vxlan.name = some l := (congrArg h.link hv.1).trans hl
    have hres := Host.exec_ok hexec
    rw [Host.respond_linkAdd_exists hexists] at hres
    cases hres
  · rintro h ch e t - ⟨hv, hl⟩ hexec
    have hexists : h.link v.vxlan.name = some l := (congrArg h.link hv.1).trans hl
    refine keeps_of_respond (I := fun h => h.link cfg.vtepName = some l) hl ?_ hexec
    rw [Host.respond_linkAdd_exists hexists]
    exact hl

variable (hoccupied : ∀ ch, allowed ch → ch.containers ≠ 0)

include hoccupied

theorem replaceLease_refused (I : Host → Prop) (cfg : Config) (refusal : String) :
    Triple Host.exec allowed I (replaceLease cfg refusal) (fun _ _ => False) fun _ => I := by
  have hread : Triple Host.exec allowed I (ask (.readAll cfg.datastore) "read datastore: ")
      (fun containers h => I h ∧ containers ≠ 0) fun _ => I := by
    have hcount : Triple Host.exec allowed I (ask (.readAll cfg.datastore) "read datastore: ")
        (fun containers _ => containers ≠ 0) fun _ _ => True := by
      refine .request (fun h ch containers t hch _ hexec => ?_) fun _ _ _ _ _ _ _ => trivial
      have hres := Host.exec_ok hexec
      cases hres
      exact hoccupied ch hch
    exact (hcount.and (reads_ask (.readAll cfg.datastore) rfl _ _ _)).post (fun _ _ hq => hq.symm)
      fun _ _ hx => hx.2
  refine Triple.bind hread fun containers => Triple.assuming fun hne => ?_
  rw [if_pos hne]
  exact .throw fun _ hs => hs

theorem establishLease_occupied (overlayNetwork : IPNet) :
    Triple Host.exec allowed (fun h => h.link cfg.vtepName = some l)
      (establishLease cfg overlayNetwork)
      (fun lease h => h.link cfg.vtepName = some l ∧ Presents cfg lease h)
      fun _ h => h.link cfg.vtepName = some l := by
  have hchecked : ∀ lease, Triple Host.exec allowed
      (fun h => h.link cfg.vtepName = some l ∧ Presents cfg lease h)
      (checkLease cfg overlayNetwork lease)
      (fun lease h => h.link cfg.vtepName = some l ∧ Presents cfg lease h)
      fun _ h => h.link cfg.vtepName = some l := by
    intro lease
    refine Triple.bind (Q := fun _ h => h.link cfg.vtepName = some l ∧ Presents cfg lease h)
      ((Reads.lift _ _ _).onError fun _ _ hx => hx.1) fun subnet => ?_
    split_ifs
    · exact .pure fun _ hs => hs
    · exact (replaceLease_refused hoccupied _ cfg _).post (fun _ _ hq => hq.elim) fun _ _ hx => hx.1
  have hrenewed : ∀ lease, Triple Host.exec allowed
      (fun h => h.link cfg.vtepName = some l ∧ Presents cfg lease h) (renewLease cfg lease)
      (fun lease h => h.link cfg.vtepName = some l ∧ Presents cfg lease h)
      fun _ h => h.link cfg.vtepName = some l := by
    intro lease
    refine Triple.bind
      (.attempt (Q := fun _ h => h.link cfg.vtepName = some l ∧ Presents cfg lease h)
      (reads_ask (.renewSubnetLease lease) rfl _ _ _)) fun renewed => ?_
    cases renewed with
    | ok _ => exact .pure fun _ hs => hs
    | error e =>
      exact (replaceLease_refused hoccupied _ cfg _).post (fun _ _ hq => hq.elim) fun _ _ hx => hx.1
  refine Triple.bind (.attempt (Q := fun res h => h.link cfg.vtepName = some l ∧
    ∀ lease, res = .ok lease → Presents cfg lease h) ((triple_discover cfg).post ?_ ?_))
      fun discovered => ?_
  · intro lease h hq
    refine ⟨hq.2, fun lease' h' => ?_⟩
    cases h'
    exact hq.1
  · exact fun e h hx => ⟨hx, fun _ h' => by cases h'⟩
  cases discovered with
  | error e =>
    exact (acquireLease_refused cfg l).mono (fun _ hs => hs.1) (fun _ _ hq => hq.elim)
      fun _ _ hx => hx
  | ok lease =>
    refine Triple.bind
      ((hchecked lease).mono (fun _ hs => ⟨hs.1, hs.2 lease rfl⟩) (fun _ _ hq => hq)
      fun _ _ hx => hx) fun lease => hrenewed lease

theorem start_occupied :
    Triple Host.exec allowed (fun h => h.link cfg.vtepName = some l) (start cfg)
      (fun running h => h.link cfg.vtepName = some l ∧ Presents cfg running.lease h ∧
        running.networkInfo = ⟨running.lease.overlaySubnet, l.mtu⟩)
      fun _ h => h.link cfg.vtepName = some l := by
  refine Triple.bind (Reads.lift _ _ _) fun overlayNetwork => ?_
  refine Triple.bind (establishLease_occupied hoccupied overlayNetwork.2) fun lease => ?_
  have hinfo : Triple Host.exec allowed
      (fun h => h.link cfg.vtepName = some l ∧ Presents cfg lease h)
      (within "get network info: " (getNetworkInfo cfg lease))
      (fun info h => (h.link cfg.vtepName = some l ∧ Presents cfg lease h) ∧
        info = ⟨lease.overlaySubnet, l.mtu⟩)
      fun _ h => h.link cfg.vtepName = some l := by
    refine Triple.wrap (Triple.bind (Triple.wrap ((triple_getVTEPState_reads _).onError
      fun _ _ hx => hx.1)) fun st => .pure fun h hst => ?_)
    obtain ⟨⟨l', addr, hl', -, rfl⟩, hl, hp⟩ := hst
    rw [hl] at hl'
    cases hl'
    exact ⟨⟨hl, hp⟩, rfl⟩
  refine Triple.bind hinfo fun info => ?_
  refine Triple.bind (Q := fun _ h => (h.link cfg.vtepName = some l ∧ Presents cfg lease h) ∧
    info = ⟨lease.overlaySubnet, l.mtu⟩) ((Reads.lift _ _ _).onError fun _ _ hx => hx.1.1)
    fun localSubnet => ?_
  refine Triple.bind (Q := fun _ h => (h.link cfg.vtepName = some l ∧ Presents cfg lease h) ∧
    info = ⟨lease.overlaySubnet, l.mtu⟩)
    ((reads_ask (.interfaceByName cfg.vtepName) rfl _ _ _).onError fun _ _ hx => hx.1.1)
    fun vxlanIface => ?_
  exact .pure fun h hs => ⟨hs.1.1, hs.1.2, hs.2⟩

end Occupied

/-- Daemons started one after the other while the datastore has entries. Other links of the host may
change in between. -/
def startsOccupied (name : String) : Machine HostCall (fun q => Except String (HostAnswer q))
    (Except String Running) Config Host HostChoice where
  exec := Host.exec
  allowed ch := ch.containers ≠ 0
  drift h h' := h'.link name = h.link name
  body cfg := (start cfg).run
  accepts _ _ := True

/-- While containers run, no sequence of starts changes the VTEP, and every start that succeeds goes
by the lease that the VTEP shows and announces it with the MTU of the VTEP. -/
theorem starts_spare_containers {name : String} {h h' : Host}
    {es : List (Event (Except String Running) Config Host)}
    (ht : Trace (startsOccupied name) (SameVtep name) h es h') {l : Link}
    (hl : h.link name = some l) :
    h'.link name = some l ∧ ∀ cfg running, .served cfg (.ok running) ∈ es →
      Presents cfg running.lease h ∧
        running.networkInfo = ⟨running.lease.overlaySubnet, l.mtu⟩ := by
  have hpresents : ∀ {cfg : Config} {lease : Lease} {t : Host}, cfg.vtepName = name →
      t.link name = some l → Presents cfg lease t → Presents cfg lease h := by
    rintro cfg lease t rfl ht ⟨hw, addr, ⟨l', hl', hshown⟩, hlease⟩
    rw [ht, ← hl] at hl'
    exact ⟨hw, addr, ⟨l', hl', hshown⟩, hlease⟩
  obtain ⟨hkept, hserved⟩ := ht.outcomes (I := fun t => t.link name = some l)
    (Q := fun cfg res => ∀ running, res = .ok running → Presents cfg running.lease h ∧
      running.networkInfo = ⟨running.lease.overlaySubnet, l.mtu⟩)
    (fun _ s t _ hs (hdrift : t.link name = s.link name) => hdrift.trans hs)
    (fun _ cfg res s t hname hs hrun => by
      cases (hname : cfg.vtepName = name)
      have hend := start_occupied (fun _ hch => hch) s res t hs hrun
      cases res with
      | error e => exact ⟨hend, fun _ h => by cases h⟩
      | ok running =>
        refine ⟨hend.1, fun _ h => ?_⟩
        cases h
        exact ⟨hpresents rfl hend.1 hend.2.1, hend.2.2⟩) hl
  exact ⟨hkept, fun cfg running hmem => hserved cfg _ hmem running rfl⟩

def isRenewal : HostCall → Bool
  | .renewSubnetLease _ => true
  | _ => false

def startedHost : Host :=
  ((start (sampleConfig false)).run.runWith Host.exec (quietChoice sampleLease) sampleHost).2

def refusing : HostChoice where
  fault q := if isRenewal q then some ⟨false, "non-retriable: lease not found"⟩ else none
  lease := sampleLease
  containers := 2
  index := 7
  mtu := 1450

def renewing : HostChoice := { refusing with fault := fun _ => none }

theorem starts_spare_containers_sample : ∃ h l running,
    Trace (startsOccupied "silk-vtep") (SameVtep "silk-vtep") startedHost
      [.served (sampleConfig false) (.error "renew subnet lease with containers: 2"),
        .served (sampleConfig false) (.ok running)] h ∧
    startedHost.link "silk-vtep" = some l ∧ h.link "silk-vtep" = some l ∧
    Presents (sampleConfig false) running.lease startedHost ∧
    running.networkInfo = ⟨"10.255.30.0/24", l.mtu⟩ := by
  have hrefusing : (startsOccupied "silk-vtep").allowed refusing := show (2 : ℕ) ≠ 0 by decide
  have hrenewing : (startsOccupied "silk-vtep").allowed renewing := show (2 : ℕ) ≠ 0 by decide
  have hfirst := runs_with _ hrefusing (start (sampleConfig false)) startedHost
  have hsecond := runs_with _ hrenewing (start (sampleConfig false))
    ((start (sampleConfig false)).run.runWith Host.exec refusing startedHost).2
  have hnil : Trace (startsOccupied "silk-vtep") (SameVtep "silk-vtep") startedHost
      [] startedHost :=
    .nil _
  have htrace := (hnil.served hfirst rfl).served hsecond rfl
  obtain ⟨hkept, hserved⟩ := starts_spare_containers htrace rfl
  obtain ⟨hpresents, hinfo⟩ := hserved (sampleConfig false) _
    (List.mem_cons_of_mem _ List.mem_cons_self)
  exact ⟨_, _, _, htrace, rfl, hkept, hpresents, hinfo⟩

end Silk.Daemon
