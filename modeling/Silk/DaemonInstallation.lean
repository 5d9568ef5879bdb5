import Silk.DaemonConverger

/-!
# What one convergence installs and deletes

For leases that parse, an execution of `Converge` without failures sets the
wanted entries and removes the stale ones, table by table. The stale entries are
computed from the tables before, by printed fields; the kernel replaces and
deletes by key. So the entries just installed survive, and no deletion fails,
exactly when no stale entry has the key of an installed one.
-/

namespace Silk.Daemon

open GoNet Resumption Keyed
open Controller (Lease)

structure Remote where
  destAddr : IP
  destNet : IPNet
  underlayIP : IP
  remoteMac : HardwareAddr

def remote (lease : Lease) : Option Remote :=
  match parseCIDR lease.overlaySubnet, parseIP lease.underlayIP,
      parseMAC lease.overlayHardwareAddr with
  | .ok (destAddr, destNet), some underlayIP, .ok remoteMac =>
    some ⟨destAddr, destNet, underlayIP, remoteMac⟩
  | _, _, _ => none

theorem remote_eq_some {l : Lease} {r : Remote} :
    remote l = some r ↔ parseCIDR l.overlaySubnet = .ok (r.destAddr, r.destNet) ∧
      parseIP l.underlayIP = some r.underlayIP ∧
      parseMAC l.overlayHardwareAddr = .ok r.remoteMac := by
  rw [remote]
  rcases hc : parseCIDR l.overlaySubnet with err | ⟨a, n⟩
  · simp
  rcases hi : parseIP l.underlayIP with _ | u
  · simp
  rcases hm : parseMAC l.overlayHardwareAddr with err | m
  · simp
  · obtain ⟨a', n', u', m'⟩ := r
    simp [and_assoc]

namespace Converger

variable (c : Converger)

/-- A lease the converger installs: neither its own nor outside the overlay network. -/
def routed (r : Remote) : Bool :=
  !c.isLocal r.destNet && c.overlayNetwork.contains r.destNet.ip

def route (r : Remote) : Route := c.routeFor r.destNet r.destAddr

def arp (r : Remote) : Neigh := c.arpFor r.destAddr r.remoteMac

def fdb (r : Remote) : Neigh := c.fdbFor r.underlayIP r.remoteMac

def wantedRoutes (rs : List Remote) : List Route := (rs.filter c.routed).map c.route

def wantedNeighs (rs : List Remote) : List Neigh :=
  (rs.filter c.routed).flatMap fun r => [c.arp r, c.fdb r]

def managed (r : Route) : Bool :=
  r.linkIndex = c.localVTEP && c.overlayNetwork.contains r.gw

def staleRoutes (k : Kernel) (rs : List Remote) : List Route :=
  (getDeletedRoutes (k.routeList c.localVTEP) (c.wantedRoutes rs)).filter c.managed

def staleNeighs (k : Kernel) (rs : List Remote) : List Neigh :=
  getDeletedNeighs (k.arpList c.localVTEP ++ k.fdbList c.localVTEP) (c.wantedNeighs rs)

section Strict

open Fallible (Strict)

theorem strict_netlink (q : NetlinkCall) (wrap : String → ConvergeError) :
    Strict (netlink q wrap).run := Strict.request q wrap

theorem strict_getPreviousState : Strict c.getPreviousState.run := by
  refine (strict_netlink _ _).bind fun _ => (strict_netlink _ _).bind fun _ => ?_
  exact (strict_netlink _ _).bind fun _ => (strict_netlink _ _).bind fun _ => trivial

theorem strict_addRoute (n : IPNet) (a : IP) : Strict (c.addRoute n a).run :=
  (strict_netlink _ _).bind fun _ => trivial

theorem strict_addNeighs (u a : IP) (m : HardwareAddr) : Strict (c.addNeighs u a m).run :=
  (strict_netlink _ _).bind fun _ => (strict_netlink _ _).bind fun _ => trivial

theorem strict_installLease (l : Lease) : Strict (c.installLease l).run := by
  rw [installLease]
  split
  · trivial
  split_ifs
  · trivial
  · trivial
  refine (c.strict_addRoute _ _).bind fun _ => ?_
  split
  · trivial
  split
  · trivial
  · exact (c.strict_addNeighs _ _ _).bind fun _ => trivial

theorem strict_installLeases (ls : List Lease) : Strict (c.installLeases ls).run := by
  induction ls with
  | nil => trivial
  | cons l ls ih => exact (c.strict_installLease l).bind fun _ => ih.bind fun _ => trivial

theorem strict_deleteRoutes (rs : List Route) : Strict (c.deleteRoutes rs).run := by
  induction rs with
  | nil => trivial
  | cons r rs ih =>
    rw [deleteRoutes]
    split_ifs
    · exact (strict_netlink _ _).bind fun _ => ih
    · exact ih

theorem strict_deleteNeighs (ns : List Neigh) : Strict (c.deleteNeighs ns).run := by
  induction ns with
  | nil => trivial
  | cons n ns ih =>
    rw [deleteNeighs]
    split_ifs
    · exact (strict_netlink _ _).bind fun _ => ih
    · exact ih

theorem strict_converge (ls : List Lease) : Strict (c.converge ls).run := by
  refine c.strict_getPreviousState.bind fun _ => (c.strict_installLeases ls).bind fun _ => ?_
  exact (c.strict_deleteRoutes _).bind fun _ => c.strict_deleteNeighs _

end Strict

section Execution

open Kernel Fallible

variable {c} {k k' : Kernel}

theorem runWith_getPreviousState :
    c.getPreviousState.run.runWith exec none k =
      (.ok (k.routeList c.localVTEP, k.arpList c.localVTEP ++ k.fdbList c.localVTEP), k) := rfl

theorem runWith_installLease {l : Lease} {r : Remote} (h : remote l = some r) :
    (c.installLease l).run.runWith exec none k =
      (.ok (c.wantedRoutes [r], c.wantedNeighs [r]),
        ⟨k.routes.setAll (c.wantedRoutes [r]), k.neighs.setAll (c.wantedNeighs [r])⟩) := by
  obtain ⟨hc, hi, hm⟩ := remote_eq_some.mp h
  rw [installLease, wantedRoutes, wantedNeighs, List.filter_singleton, routed]
  simp only [hc, hi, hm]
  cases c.isLocal r.destNet with
  | true => rfl
  | false =>
    cases c.overlayNetwork.contains r.destNet.ip with
    | false => rfl
    | true => rfl

theorem wantedRoutes_cons (r : Remote) (rs : List Remote) :
    c.wantedRoutes (r :: rs) = c.wantedRoutes [r] ++ c.wantedRoutes rs := by
  rw [wantedRoutes, wantedRoutes, wantedRoutes, ← List.map_append, ← List.filter_append,
    List.singleton_append]

theorem wantedNeighs_cons (r : Remote) (rs : List Remote) :
    c.wantedNeighs (r :: rs) = c.wantedNeighs [r] ++ c.wantedNeighs rs := by
  rw [wantedNeighs, wantedNeighs, wantedNeighs, ← List.flatMap_append, ← List.filter_append,
    List.singleton_append]

theorem runWith_installLeases {ls : List Lease} {rs : List Remote}
    (h : ls.map remote = rs.map some) :
    (c.installLeases ls).run.runWith exec none k =
      (.ok (c.wantedRoutes rs, c.wantedNeighs rs),
        ⟨k.routes.setAll (c.wantedRoutes rs), k.neighs.setAll (c.wantedNeighs rs)⟩) := by
  induction ls generalizing rs k with
  | nil =>
    cases List.map_eq_nil_iff.mp h.symm
    rfl
  | cons l ls ih =>
    obtain ⟨r, rs', rfl, hr, hrs⟩ := List.map_eq_cons_iff.mp h.symm
    rw [installLeases, runWith_bind, runWith_installLease hr.symm]
    dsimp only
    rw [runWith_bind, ih hrs.symm, wantedRoutes_cons r rs', wantedNeighs_cons r rs',
      Table.setAll_append, Table.setAll_append]
    rfl

theorem runWith_deleteRoutes {rs : List Route} (hlink : ∀ r ∈ rs, r.linkIndex = c.localVTEP)
    (k k' : Kernel) :
    (c.deleteRoutes rs).run.runWith exec none k = (.ok (), k') ↔
      ∃ t, Table.removeAll routeAgrees (rs.filter c.managed) k.routes = some t ∧
        k' = { k with routes := t } := by
  induction rs generalizing k with
  | nil => simp [deleteRoutes, Program.runWith, Table.removeAll, eq_comm]
  | cons r rs ih =>
    have hr := hlink r List.mem_cons_self
    have ih := ih fun s hs => hlink s (List.mem_cons_of_mem r hs)
    rw [deleteRoutes, List.filter_cons, managed]
    by_cases hgw : c.overlayNetwork.contains r.gw = true
    · rw [if_pos ⟨hr, hgw⟩, if_pos (by simp [hr, hgw]), runWith_bind, netlink, runWith_request,
        Table.removeAll]
      cases hrem : k.routes.remove routeAgrees r with
      | none => simp [exec, respond, hrem, Except.mapError]
      | some t =>
        simp only [exec, respond, hrem, Except.mapError]
        exact ih _
    · rw [if_neg fun h => hgw h.2, if_neg (by simp [hgw])]
      exact ih k

theorem runWith_deleteNeighs {ns : List Neigh} (hlink : ∀ n ∈ ns, n.linkIndex = c.localVTEP)
    (k k' : Kernel) :
    (c.deleteNeighs ns).run.runWith exec none k = (.ok (), k') ↔
      ∃ t, Table.removeAll neighAgrees ns k.neighs = some t ∧ k' = { k with neighs := t } := by
  induction ns generalizing k with
  | nil => simp [deleteNeighs, Program.runWith, Table.removeAll, eq_comm]
  | cons n ns ih =>
    have ih := ih fun m hm => hlink m (List.mem_cons_of_mem n hm)
    rw [deleteNeighs, if_pos (hlink n List.mem_cons_self), runWith_bind, netlink, runWith_request,
      Table.removeAll]
    cases hrem : k.neighs.remove neighAgrees n with
    | none => simp [exec, respond, hrem, Except.mapError]
    | some t =>
      simp only [exec, respond, hrem, Except.mapError]
      exact ih _

theorem converge_runs (c : Converger) (ls : List Lease) (k : Kernel) :
    (c.converge ls).run.Runs exec faultless k ((c.converge ls).run.runWith exec none k).1
      ((c.converge ls).run.runWith exec none k).2 :=
  Program.runs_runWith (show faultless none from rfl) _ _

theorem mem_routeList {i : ℤ} {r : Route} :
    r ∈ k.routeList i ↔ r ∈ k.routes.entries ∧ r.linkIndex = i := by
  simp [routeList]

theorem mem_neighList {i : ℤ} {n : Neigh} :
    n ∈ k.arpList i ++ k.fdbList i ↔ n ∈ k.neighs.entries ∧ n.linkIndex = i := by
  by_cases h : n.family = AF_BRIDGE
  · simp [arpList, fdbList, h]
  · simp [arpList, fdbList, h]

theorem mem_staleRoutes {rs : List Remote} {p : Route} :
    p ∈ c.staleRoutes k rs ↔ p ∈ k.routeList c.localVTEP ∧ c.overlayNetwork.contains p.gw = true ∧
      ∀ s ∈ c.wantedRoutes rs, routeEqual p s = false := by
  simp only [staleRoutes, getDeletedRoutes, managed, List.mem_filter, List.all_eq_true,
    Bool.not_eq_true', Bool.and_eq_true, decide_eq_true_eq, mem_routeList]
  tauto

theorem mem_staleNeighs {rs : List Remote} {p : Neigh} :
    p ∈ c.staleNeighs k rs ↔ p ∈ k.arpList c.localVTEP ++ k.fdbList c.localVTEP ∧
      ∀ s ∈ c.wantedNeighs rs, neighEqual p s = false := by
  simp only [staleNeighs, getDeletedNeighs, List.mem_filter, List.all_eq_true, Bool.not_eq_true']

theorem runWith_converge {ls : List Lease} {rs : List Remote} (h : ls.map remote = rs.map some) :
    (c.converge ls).run.runWith exec none k = (.ok (), k') ↔
      ∃ routes neighs,
        Table.removeAll routeAgrees (c.staleRoutes k rs) (k.routes.setAll (c.wantedRoutes rs)) =
          some routes ∧
        Table.removeAll neighAgrees (c.staleNeighs k rs) (k.neighs.setAll (c.wantedNeighs rs)) =
          some neighs ∧ k' = ⟨routes, neighs⟩ := by
  have hlinkRoutes : ∀ r ∈ getDeletedRoutes (k.routeList c.localVTEP) (c.wantedRoutes rs),
      r.linkIndex = c.localVTEP := fun r hr => (mem_routeList.mp (List.mem_filter.mp hr).1).2
  have hlinkNeighs : ∀ n ∈ c.staleNeighs k rs, n.linkIndex = c.localVTEP :=
    fun n hn => (mem_neighList.mp (List.mem_filter.mp hn).1).2
  have hroutes := runWith_deleteRoutes hlinkRoutes
    ⟨k.routes.setAll (c.wantedRoutes rs), k.neighs.setAll (c.wantedNeighs rs)⟩
  have hneighs := runWith_deleteNeighs hlinkNeighs
  rw [converge, runWith_bind, runWith_getPreviousState]
  dsimp only
  rw [runWith_bind, runWith_installLeases h]
  dsimp only
  rw [runWith_bind]
  rcases hdel : (c.deleteRoutes (getDeletedRoutes (k.routeList c.localVTEP)
    (c.wantedRoutes rs))).run.runWith exec none
      ⟨k.routes.setAll (c.wantedRoutes rs), k.neighs.setAll (c.wantedNeighs rs)⟩ with
    ⟨err | _, k₁⟩
  · constructor
    · intro herr
      cases (Prod.mk.inj herr).1
    · rintro ⟨routes, -, hrem, -⟩
      cases (Prod.mk.inj (hdel.symm.trans ((hroutes _).mpr ⟨routes, hrem, rfl⟩))).1
  · obtain ⟨routes, hrem, rfl⟩ := (hroutes k₁).mp hdel
    rw [show getDeletedNeighs (k.arpList c.localVTEP ++ k.fdbList c.localVTEP) (c.wantedNeighs rs) =
      c.staleNeighs k rs from rfl, hneighs]
    constructor
    · rintro ⟨neighs, hneigh, rfl⟩
      exact ⟨routes, neighs, hrem, hneigh, rfl⟩
    · rintro ⟨routes', neighs, hrem', hneigh, rfl⟩
      cases hrem.symm.trans hrem'
      exact ⟨neighs, hneigh, rfl⟩

end Execution

section Keys

def Distinct (rs : List Remote) : Prop :=
  rs.Pairwise fun a b => netString (some a.destNet) ≠ netString (some b.destNet) ∧
    ipString a.destAddr ≠ ipString b.destAddr ∧
    hardwareAddrString a.remoteMac ≠ hardwareAddrString b.remoteMac

variable {c} {k : Kernel}

@[simp] theorem route_key (r : Remote) :
    (c.route r).key = (c.localVTEP, netString (some r.destNet)) := rfl

@[simp] theorem arp_key (r : Remote) : (c.arp r).key = .arp c.localVTEP (ipString r.destAddr) := rfl

@[simp] theorem fdb_key (r : Remote) :
    (c.fdb r).key = .fdb c.localVTEP (hardwareAddrString r.remoteMac) := rfl

theorem mem_wantedRoutes {rs : List Remote} {p : Route} :
    p ∈ c.wantedRoutes rs ↔ ∃ r ∈ rs, c.routed r = true ∧ c.route r = p := by
  simp [wantedRoutes, and_assoc]

theorem mem_wantedNeighs {rs : List Remote} {p : Neigh} :
    p ∈ c.wantedNeighs rs ↔ ∃ r ∈ rs, c.routed r = true ∧ (p = c.arp r ∨ p = c.fdb r) := by
  simp [wantedNeighs, and_assoc]

theorem wantedRoutes_keys {rs : List Remote} (hd : Distinct rs) :
    ((c.wantedRoutes rs).map Route.key).Nodup := by
  rw [wantedRoutes, List.map_map]
  refine List.Pairwise.map _ (fun a b hab => ?_) (hd.filter c.routed)
  simp [hab.1]

theorem wantedNeighs_keys {rs : List Remote} (hd : Distinct rs) :
    ((c.wantedNeighs rs).map Neigh.key).Nodup := by
  rw [wantedNeighs, List.map_flatMap, List.nodup_flatMap]
  refine ⟨fun r _ => by simp, (hd.filter c.routed).imp fun hab => ?_⟩
  simp [Function.onFun, Ne.symm hab.2.1, Ne.symm hab.2.2]

theorem staleRoutes_keys (k : Kernel) (rs : List Remote) :
    ((c.staleRoutes k rs).map Route.key).Nodup := by
  have hsub : (c.staleRoutes k rs).Sublist k.routes.entries :=
    (List.filter_sublist.trans List.filter_sublist).trans List.filter_sublist
  exact (hsub.map _).nodup k.routes.distinct

theorem staleNeighs_keys (k : Kernel) (rs : List Remote) :
    ((c.staleNeighs k rs).map Neigh.key).Nodup := by
  have hlist : (k.arpList c.localVTEP ++ k.fdbList c.localVTEP).Nodup := by
    refine (k.neighs.nodup.filter _).append (k.neighs.nodup.filter _) fun n hn hn' => ?_
    have harp := (List.mem_filter.mp hn).2
    have hfdb := (List.mem_filter.mp hn').2
    simp only [decide_eq_true_eq] at harp hfdb
    exact harp.2 hfdb.2
  refine List.Nodup.map_on (fun n hn m hm heq => ?_) (hlist.filter _)
  have hn := (mem_neighList.mp (List.mem_filter.mp hn).1).1
  exact k.neighs.eq_of_key hn (mem_neighList.mp (List.mem_filter.mp hm).1).1 heq

end Keys

def Installed (k : Kernel) (r : Remote) : Prop :=
  c.route r ∈ k.routes.entries ∧ c.arp r ∈ k.neighs.entries ∧ c.fdb r ∈ k.neighs.entries

/-- An entry that is there already under the key of an entry to install prints
like one of the entries to install. -/
def Unshadowed (k : Kernel) (rs : List Remote) : Prop :=
  (∀ p ∈ k.routeList c.localVTEP, c.overlayNetwork.contains p.gw = true →
    p.key ∈ (c.wantedRoutes rs).map Route.key → ∃ s ∈ c.wantedRoutes rs, routeEqual p s = true) ∧
  ∀ p ∈ k.arpList c.localVTEP ++ k.fdbList c.localVTEP,
    p.key ∈ (c.wantedNeighs rs).map Neigh.key → ∃ s ∈ c.wantedNeighs rs, neighEqual p s = true

theorem unshadowed_iff (k : Kernel) (rs : List Remote) :
    c.Unshadowed k rs ↔
      (∀ p ∈ c.staleRoutes k rs, p.key ∉ (c.wantedRoutes rs).map Route.key) ∧
        ∀ p ∈ c.staleNeighs k rs, p.key ∉ (c.wantedNeighs rs).map Neigh.key := by
  simp only [Unshadowed, mem_staleRoutes, mem_staleNeighs, ← Bool.not_eq_true]
  constructor
  · rintro ⟨hroutes, hneighs⟩
    refine ⟨fun p hp hkey => ?_, fun p hp hkey => ?_⟩
    · obtain ⟨s, hs, heq⟩ := hroutes p hp.1 hp.2.1 hkey
      exact hp.2.2 s hs heq
    · obtain ⟨s, hs, heq⟩ := hneighs p hp.1 hkey
      exact hp.2 s hs heq
  · rintro ⟨hroutes, hneighs⟩
    refine ⟨fun p hp hgw hkey => ?_, fun p hp hkey => ?_⟩
    · by_contra hnone
      exact hroutes p ⟨hp, hgw, fun s hs heq => hnone ⟨s, hs, heq⟩⟩ hkey
    · by_contra hnone
      exact hneighs p ⟨hp, fun s hs heq => hnone ⟨s, hs, heq⟩⟩ hkey

theorem routeAgrees_refl (r : Route) : Kernel.routeAgrees r r = true := by simp [Kernel.routeAgrees]

theorem neighAgrees_refl (n : Neigh) : Kernel.neighAgrees n n = true := by simp [Kernel.neighAgrees]

end Converger

open Converger in
/-- Converge succeeds and leaves everything it has installed exactly when no
entry it replaces is also one it deletes. -/
theorem converge_installs_iff (c : Converger) {ls : List Lease} {rs : List Remote}
    (hls : ls.map remote = rs.map some) (hd : Distinct rs) {k k' : Kernel}
    {res : Except ConvergeError Unit}
    (hr : (c.converge ls).run.Runs Kernel.exec Kernel.faultless k res k') :
    (res = .ok () ∧ ∀ r ∈ rs, c.routed r = true → c.Installed k' r) ↔ c.Unshadowed k rs := by
  have hrun : (c.converge ls).run.runWith Kernel.exec none k = (res, k') :=
    hr.runWith_eq Kernel.exec_faultless
  have hroutes := Table.removeAll_setAll_keeps_iff (t := k.routes) routeAgrees_refl
    (c.wantedRoutes_keys hd) (c.staleRoutes_keys k rs)
    fun p hp => (mem_routeList.mp (mem_staleRoutes.mp hp).1).1
  have hneighs := Table.removeAll_setAll_keeps_iff (t := k.neighs) neighAgrees_refl
    (c.wantedNeighs_keys hd) (c.staleNeighs_keys k rs)
    fun p hp => (mem_neighList.mp (mem_staleNeighs.mp hp).1).1
  rw [c.unshadowed_iff, ← hroutes, ← hneighs]
  constructor
  · rintro ⟨rfl, hinst⟩
    obtain ⟨routes, neighs, hrem, hrem', rfl⟩ := (runWith_converge hls).mp hrun
    refine ⟨⟨routes, hrem, fun p hp => ?_⟩, ⟨neighs, hrem', fun p hp => ?_⟩⟩
    · obtain ⟨r, hr, hrouted, rfl⟩ := mem_wantedRoutes.mp hp
      exact (hinst r hr hrouted).1
    · obtain ⟨r, hr, hrouted, rfl | rfl⟩ := mem_wantedNeighs.mp hp
      · exact (hinst r hr hrouted).2.1
      · exact (hinst r hr hrouted).2.2
  · rintro ⟨⟨routes, hrem, hkept⟩, ⟨neighs, hrem', hkept'⟩⟩
    have hok := (runWith_converge hls).mpr ⟨routes, neighs, hrem, hrem', rfl⟩
    obtain ⟨rfl, rfl⟩ := Prod.mk.inj (hrun.symm.trans hok)
    refine ⟨rfl, fun r hr hrouted => ⟨hkept _ ?_, hkept' _ ?_, hkept' _ ?_⟩⟩
    · exact mem_wantedRoutes.mpr ⟨r, hr, hrouted, rfl⟩
    · exact mem_wantedNeighs.mpr ⟨r, hr, hrouted, Or.inl rfl⟩
    · exact mem_wantedNeighs.mpr ⟨r, hr, hrouted, Or.inr rfl⟩

def cell : Converger :=
  ⟨⟨[10, 255, 0, 0], [255, 255, 0, 0]⟩, ⟨[10, 255, 0, 0], [255, 255, 255, 0]⟩, 3⟩

def movedLease : Lease := ⟨"10.0.0.2", "10.255.1.0/24", "ee:ee:0a:ff:01:00"⟩

def movedRemote : Remote :=
  ⟨ipv4 10 255 1 0, ⟨[10, 255, 1, 0], [255, 255, 255, 0]⟩, ipv4 10 0 0 2,
    [0xee, 0xee, 10, 255, 1, 0]⟩

def onlyNeigh (n : Neigh) : Kernel := ⟨Table.empty, ⟨[n], List.nodup_singleton _⟩⟩

def nextLease : Lease := ⟨"10.0.0.3", "10.255.2.0/24", "ee:ee:0a:ff:02:00"⟩

def nextRemote : Remote :=
  ⟨ipv4 10 255 2 0, ⟨[10, 255, 2, 0], [255, 255, 255, 0]⟩, ipv4 10 0 0 3,
    [0xee, 0xee, 10, 255, 2, 0]⟩

def goneRemote : Remote :=
  ⟨ipv4 10 255 9 0, ⟨[10, 255, 9, 0], [255, 255, 255, 0]⟩, ipv4 10 0 0 9,
    [0xee, 0xee, 10, 255, 9, 0]⟩

def installedBefore : Kernel :=
  ⟨⟨[{ cell.route movedRemote with gw := [10, 255, 1, 0] }, cell.route goneRemote], by decide⟩,
    ⟨[{ cell.arp movedRemote with ip := [10, 255, 1, 0] },
      { cell.fdb movedRemote with ip := [10, 0, 0, 2] }, cell.arp goneRemote, cell.fdb goneRemote],
      by decide⟩⟩

theorem converge_installs_again :
    ∃ k', (cell.converge [movedLease, nextLease]).run.Runs Kernel.exec Kernel.faultless
      installedBefore (.ok ()) k' ∧ cell.Installed k' movedRemote ∧
        cell.Installed k' nextRemote := by
  have hrun := cell.converge_runs [movedLease, nextLease] installedBefore
  have hdistinct : Converger.Distinct [movedRemote, nextRemote] := by
    unfold Converger.Distinct
    decide
  have hiff := converge_installs_iff cell (show [movedLease, nextLease].map remote =
    [movedRemote, nextRemote].map some from rfl) hdistinct hrun
  have hunshadowed : cell.Unshadowed installedBefore [movedRemote, nextRemote] := by
    unfold Converger.Unshadowed
    decide
  obtain ⟨hok, hinst⟩ := hiff.mpr hunshadowed
  rw [hok] at hrun
  exact ⟨_, hrun, hinst movedRemote List.mem_cons_self rfl,
    hinst nextRemote (List.mem_cons_of_mem _ List.mem_cons_self) rfl⟩

/-- The subnet has moved to another host: the deletion of the old FDB entry fails.
An ARP entry was not permanent: the deletion of the old entry removes the new one. -/
theorem converge_undoes_installation :
    (∃ k', (cell.converge [movedLease]).run.Runs Kernel.exec Kernel.faultless
      (onlyNeigh (cell.fdbFor (ipv4 10 0 0 1) [0xee, 0xee, 10, 255, 1, 0]))
      (.error (.delNeigh "10.0.0.1 ee:ee:0a:ff:01:00" "no such file or directory")) k') ∧
    ∃ k', (cell.converge [movedLease]).run.Runs Kernel.exec Kernel.faultless
      (onlyNeigh { cell.arp movedRemote with state := 2 }) (.ok ()) k' ∧
      k'.neighs.entries = [cell.fdb movedRemote] :=
  ⟨⟨_, cell.converge_runs _ _⟩, _, cell.converge_runs _ _, rfl⟩

end Silk.Daemon
