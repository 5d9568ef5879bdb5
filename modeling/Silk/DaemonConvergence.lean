import Silk.DaemonInstallation
import Silk.GoNetText
import Silk.LeaserGeometry
import Silk.ResumptionSequential

/-!
# Convergence over whole runs

A converger that starts on an empty VTEP and is only given canonical leases with
derived hardware addresses keeps its tables tidy, whatever calls fail: every
neighbour and every route into the overlay network was installed for some such
lease. In a tidy table the entry under the key of a wanted route or ARP entry is
that entry, and the deletion of an FDB entry that was replaced fails. A call of
`Converge` that succeeds therefore leaves exactly the entries of its leases.
-/

namespace Silk.Daemon

open GoNet Resumption Keyed
open Controller (Lease)
open Leaser (generateForVTEP generateForVTEP_ok)

structure Remote.Canonical (r : Remote) : Prop where
  text : parseCIDR (netString (some r.destNet)) = .ok (r.destAddr, r.destNet)
  address : ipString r.destAddr = ipString r.destNet.ip
  mac : generateForVTEP r.destAddr = .ok r.remoteMac

namespace Remote.Canonical

variable {r s : Remote}

theorem to4_destAddr (h : r.Canonical) :
    ∃ z, to4 r.destAddr = some z ∧ to4 r.destNet.ip = some z ∧
      r.remoteMac = [0xee, 0xee] ++ z := by
  obtain ⟨z, hz, hhw⟩ := generateForVTEP_ok h.mac
  exact ⟨z, hz, to4_of_ipString_eq hz h.address.symm, hhw⟩

theorem covers {x z : IP} (h : r.Canonical) (hr : to4 r.destAddr = some z) (hx : to4 x = some z) :
    covers (netString (some r.destNet)) x :=
  ⟨_, _, h.text, contains_self h.text (to4_of_ipString_eq hr h.address.symm) hx⟩

theorem eq_of_net (hr : r.Canonical) (hs : s.Canonical)
    (h : netString (some r.destNet) = netString (some s.destNet)) :
    r.destAddr = s.destAddr ∧ r.destNet = s.destNet := by
  have htext := hr.text
  rw [h, hs.text] at htext
  obtain ⟨haddr, hnet⟩ := Prod.mk.inj (Except.ok.inj htext)
  exact ⟨haddr.symm, hnet.symm⟩

theorem mac_eq (hr : r.Canonical) (hs : s.Canonical)
    (h : ipString r.destAddr = ipString s.destAddr) : r.remoteMac = s.remoteMac := by
  obtain ⟨z, hz, -, hmac⟩ := hr.to4_destAddr
  obtain ⟨w, hw, -, hmac'⟩ := hs.to4_destAddr
  rw [to4_of_ipString_eq hw h] at hz
  rw [hmac, hmac', Option.some.inj hz]

theorem distinct (hr : r.Canonical) (hs : s.Canonical)
    (h : rangesDisjoint (netString (some r.destNet)) (netString (some s.destNet))) :
    netString (some r.destNet) ≠ netString (some s.destNet) ∧
      ipString r.destAddr ≠ ipString s.destAddr ∧
      hardwareAddrString r.remoteMac ≠ hardwareAddrString s.remoteMac := by
  obtain ⟨z, hz, -, hmac⟩ := hr.to4_destAddr
  obtain ⟨w, hw, -, hmac'⟩ := hs.to4_destAddr
  have hne : z ≠ w := by
    rintro rfl
    exact h r.destAddr ⟨hr.covers hz hz, hs.covers hw hz⟩
  refine ⟨fun heq => hne ?_, fun heq => hne ?_, fun heq => hne ?_⟩
  · rw [(hr.eq_of_net hs heq).1, hw] at hz
    exact (Option.some.inj hz).symm
  · rw [to4_of_ipString_eq hw heq] at hz
    exact (Option.some.inj hz).symm
  · have hbytes := hardwareAddrString_injective heq
    rw [hmac, hmac'] at hbytes
    exact List.append_cancel_left hbytes

end Remote.Canonical

namespace Converger

/-- The leases of the assumption: canonical subnet, derived hardware address,
underlay address outside the overlay network, no initial route to the subnet. -/
structure Admissible (c : Converger) (start : Kernel) (l : Lease) (r : Remote) : Prop where
  parsed : remote l = some r
  canonical : netString (some r.destNet) = l.overlaySubnet
  address : ipString r.destAddr = ipString r.destNet.ip
  derived : (generateForVTEP r.destAddr).map hardwareAddrString = .ok l.overlayHardwareAddr
  underlay : c.overlayNetwork.contains r.underlayIP = false
  unrouted : ∀ p ∈ start.routeList c.localVTEP, netString p.dst ≠ netString (some r.destNet)

structure AdmissibleList (c : Converger) (start : Kernel) (ls : List Lease) : Prop where
  each : ∀ l ∈ ls, ∃ r, c.Admissible start l r
  disjoint : ls.Pairwise fun l l' => rangesDisjoint l.overlaySubnet l'.overlaySubnet

structure Owned (c : Converger) (start : Kernel) (r : Remote) : Prop extends r.Canonical where
  routed : c.routed r = true
  underlay : c.overlayNetwork.contains r.underlayIP = false
  unrouted : ∀ p ∈ start.routeList c.localVTEP, netString p.dst ≠ netString (some r.destNet)

variable {c : Converger} {start : Kernel} {r s : Remote}

theorem Admissible.toCanonical {l : Lease} (h : c.Admissible start l r) : r.Canonical := by
  obtain ⟨hc, -, hm⟩ := remote_eq_some.mp h.parsed
  refine ⟨?_, h.address, ?_⟩
  · rw [h.canonical]
    exact hc
  · have hder := h.derived
    cases hgen : generateForVTEP r.destAddr with
    | error err =>
      rw [hgen] at hder
      cases hder
    | ok hw =>
      rw [hgen] at hder
      obtain ⟨z, hz, hhw⟩ := generateForVTEP_ok hgen
      have hlen : hw.length = 6 := by simp [hhw, to4_length hz]
      have hparse := parseMAC_of_length hlen
      rw [Except.ok.inj hder, hm] at hparse
      rw [Except.ok.inj hparse]

theorem Admissible.owned {l : Lease} (h : c.Admissible start l r) (hrouted : c.routed r = true) :
    c.Owned start r :=
  ⟨h.toCanonical, hrouted, h.underlay, h.unrouted⟩

namespace Owned

theorem gw_mem (h : c.Owned start r) : c.overlayNetwork.contains r.destAddr = true := by
  obtain ⟨z, hz, hz', -⟩ := h.to4_destAddr
  rw [contains_congr hz hz']
  exact (Bool.and_eq_true_iff.mp h.routed).2

theorem underlay_ne (hr : c.Owned start r) (hs : c.Owned start s) :
    ipString r.destAddr ≠ ipString s.underlayIP := by
  intro heq
  obtain ⟨z, hz, -⟩ := hr.to4_destAddr
  have hmem := hr.gw_mem
  rw [contains_congr hz (to4_of_ipString_eq hz heq.symm), hs.underlay] at hmem
  cases hmem

end Owned

/-- The tables hold only the initial routes and entries of owned leases. -/
structure Tidy (c : Converger) (start k : Kernel) : Prop where
  routes : ∀ p ∈ k.routeList c.localVTEP,
    p ∈ start.routeList c.localVTEP ∨ ∃ r, c.Owned start r ∧ p = c.route r
  kept : ∀ p ∈ start.routeList c.localVTEP, p ∈ k.routeList c.localVTEP
  neighs : ∀ p ∈ k.neighs.entries, p.linkIndex = c.localVTEP →
    ∃ r, c.Owned start r ∧ (p = c.arp r ∨ p = c.fdb r)

namespace Tidy

variable {k : Kernel}

theorem setRoute (h : c.Tidy start k) (hr : c.Owned start r) :
    c.Tidy start { k with routes := k.routes.set (c.route r) } := by
  refine ⟨fun p hp => ?_, fun p hp => ?_, h.neighs⟩
  · obtain ⟨hmem, hlink⟩ := mem_routeList.mp hp
    rcases Table.mem_set.mp hmem with ⟨hold, -⟩ | rfl
    · exact h.routes p (mem_routeList.mpr ⟨hold, hlink⟩)
    · exact Or.inr ⟨r, hr, rfl⟩
  · obtain ⟨hmem, hlink⟩ := mem_routeList.mp (h.kept p hp)
    refine mem_routeList.mpr ⟨Table.mem_set.mpr (Or.inl ⟨hmem, fun hkey => ?_⟩), hlink⟩
    exact hr.unrouted p hp (Prod.mk.inj hkey).2

theorem eraseRoute (h : c.Tidy start k) (hr : c.Owned start r) :
    c.Tidy start { k with routes := k.routes.erase (c.route r).key } := by
  refine ⟨fun p hp => ?_, fun p hp => ?_, h.neighs⟩
  · obtain ⟨hmem, hlink⟩ := mem_routeList.mp hp
    exact h.routes p (mem_routeList.mpr ⟨(Table.mem_erase.mp hmem).1, hlink⟩)
  · obtain ⟨hmem, hlink⟩ := mem_routeList.mp (h.kept p hp)
    refine mem_routeList.mpr ⟨Table.mem_erase.mpr ⟨hmem, fun hkey => ?_⟩, hlink⟩
    exact hr.unrouted p hp (Prod.mk.inj hkey).2

theorem setNeigh (h : c.Tidy start k) {n : Neigh} (hr : c.Owned start r)
    (hn : n = c.arp r ∨ n = c.fdb r) : c.Tidy start { k with neighs := k.neighs.set n } := by
  refine ⟨h.routes, h.kept, fun p hp hlink => ?_⟩
  rcases Table.mem_set.mp hp with ⟨hold, -⟩ | rfl
  · exact h.neighs p hold hlink
  · exact ⟨r, hr, hn⟩

theorem eraseNeigh (h : c.Tidy start k) (key : NeighKey) :
    c.Tidy start { k with neighs := k.neighs.erase key } :=
  ⟨h.routes, h.kept, fun p hp hlink => h.neighs p (Table.mem_erase.mp hp).1 hlink⟩

end Tidy

section Safety

open Kernel Fallible

variable {allowed : Option Fault → Prop}

theorem safe_netlink (q : NetlinkCall) {wrap : String → ConvergeError}
    (h : ∀ k, c.Tidy start k → c.Tidy start (respond k q).2) {P : Answer q → Prop}
    (hP : ∀ k a, c.Tidy start k → (respond k q).1 = .ok a → P a) :
    (netlink q wrap).run.Safe exec allowed (c.Tidy start) fun res => ∀ a, res = .ok a → P a := by
  refine safe_request fun k ch _ hk => ⟨?_, fun a ha => ?_⟩
  · rcases exec_cases ch k q with heq | heq
    · rw [heq]
      exact hk
    · rw [heq]
      exact h k hk
  · rcases exec_eq_or_error ch k q with heq | ⟨e, he⟩
    · rw [heq] at ha
      exact hP k a hk ha
    · rw [he] at ha
      cases ha

theorem safe_getPreviousState (hstart : ∀ p ∈ start.routeList c.localVTEP,
    c.overlayNetwork.contains p.gw = false) :
    c.getPreviousState.run.Safe exec allowed (c.Tidy start) fun res => ∀ a, res = .ok a →
      ∀ p ∈ a.1, c.overlayNetwork.contains p.gw = true →
        ∃ r, c.Owned start r ∧ p = c.route r := by
  refine safe_bind (P := fun link : ℤ => link = c.localVTEP) ?_ (fun link hlink => ?_)
    (fun e a ha => by cases ha)
  · exact safe_netlink (.linkByIndex _) (fun _ hk => hk) fun _ _ _ ha => (Except.ok.inj ha).symm
  refine safe_bind (P := fun rs : List Route => ∀ p ∈ rs, c.overlayNetwork.contains p.gw = true →
    ∃ r, c.Owned start r ∧ p = c.route r) ?_ (fun rs hrs => ?_) (fun e a ha => by cases ha)
  · refine safe_netlink (.routeList _) (fun _ hk => hk) fun k rs hk hrs p hp hgw => ?_
    rw [← Except.ok.inj hrs, hlink] at hp
    rcases hk.routes p hp with hold | howned
    · rw [hstart p hold] at hgw
      cases hgw
    · exact howned
  refine safe_bind (P := fun _ => True) ?_ (fun _ _ => ?_) (fun e a ha => by cases ha)
  · exact safe_netlink (.fdbList _) (fun _ hk => hk) fun _ _ _ _ => trivial
  refine safe_bind (P := fun _ => True) ?_ (fun _ _ => ?_) (fun e a ha => by cases ha)
  · exact safe_netlink (.arpList _) (fun _ hk => hk) fun _ _ _ _ => trivial
  intro a ha
  cases ha
  exact hrs

theorem safe_installLease {l : Lease} (hl : c.Admissible start l r) :
    (c.installLease l).run.Safe exec allowed (c.Tidy start) fun _ => True := by
  obtain ⟨hc, hi, hm⟩ := remote_eq_some.mp hl.parsed
  rw [installLease]
  simp only [hc, hi, hm]
  split_ifs with hlocal hover
  · trivial
  · trivial
  have howned := hl.owned (by simpa [routed, hlocal] using hover)
  refine safe_bind (P := fun _ => True) ?_ (fun _ _ => ?_) (fun _ => trivial)
  · refine safe_bind (P := fun _ => True) ?_ (fun _ _ => fun _ _ => trivial) (fun _ _ _ => trivial)
    exact safe_netlink (.routeReplace _) (fun _ hk => hk.setRoute howned) fun _ _ _ _ => trivial
  refine safe_bind (P := fun _ => True) ?_ (fun _ _ => trivial) (fun _ => trivial)
  refine safe_bind (P := fun _ => True) ?_ (fun _ _ => ?_) (fun _ _ _ => trivial)
  · exact safe_netlink (.neighSet _) (fun _ hk => hk.setNeigh howned (Or.inl rfl))
      fun _ _ _ _ => trivial
  refine safe_bind (P := fun _ => True) ?_ (fun _ _ => fun _ _ => trivial) (fun _ _ _ => trivial)
  exact safe_netlink (.neighSet _) (fun _ hk => hk.setNeigh howned (Or.inr rfl))
    fun _ _ _ _ => trivial

theorem safe_installLeases {ls : List Lease} (hls : ∀ l ∈ ls, ∃ r, c.Admissible start l r) :
    (c.installLeases ls).run.Safe exec allowed (c.Tidy start) fun _ => True := by
  induction ls with
  | nil => trivial
  | cons l ls ih =>
    obtain ⟨r, hl⟩ := hls l List.mem_cons_self
    have ih := ih fun l' hl' => hls l' (List.mem_cons_of_mem l hl')
    refine safe_bind (P := fun _ => True) ?_ (fun _ _ => ?_) (fun _ => trivial)
    · exact (safe_installLease hl).mono fun _ _ _ _ => trivial
    · refine safe_bind (P := fun _ => True) ?_ (fun _ _ => trivial) (fun _ => trivial)
      exact ih.mono fun _ _ _ _ => trivial

theorem safe_deleteRoutes {rs : List Route} (hrs : ∀ p ∈ rs,
    c.overlayNetwork.contains p.gw = true → ∃ r, c.Owned start r ∧ p = c.route r) :
    (c.deleteRoutes rs).run.Safe exec allowed (c.Tidy start) fun _ => True := by
  induction rs with
  | nil => trivial
  | cons p rs ih =>
    have ih := ih fun p' hp' => hrs p' (List.mem_cons_of_mem p hp')
    rw [deleteRoutes]
    split_ifs with hgw
    · obtain ⟨r, howned, rfl⟩ := hrs p List.mem_cons_self hgw.2
      refine safe_bind (P := fun _ => True) ?_ (fun _ _ => ih) (fun _ => trivial)
      refine safe_netlink (.routeDel _) (fun k hk => ?_) fun _ _ _ _ => trivial
      rw [respond]
      cases hrem : k.routes.remove routeAgrees (c.route r) with
      | none => exact hk
      | some t =>
        obtain ⟨-, rfl⟩ := Table.remove_eq_some.mp hrem
        exact hk.eraseRoute howned
    · exact ih

theorem safe_deleteNeighs (ns : List Neigh) :
    (c.deleteNeighs ns).run.Safe exec allowed (c.Tidy start) fun _ => True := by
  induction ns with
  | nil => trivial
  | cons n ns ih =>
    rw [deleteNeighs]
    split_ifs
    · refine safe_bind (P := fun _ => True) ?_ (fun _ _ => ih) (fun _ => trivial)
      refine safe_netlink (.neighDel _) (fun k hk => ?_) fun _ _ _ _ => trivial
      rw [respond]
      cases hrem : k.neighs.remove neighAgrees n with
      | none => exact hk
      | some t =>
        obtain ⟨-, rfl⟩ := Table.remove_eq_some.mp hrem
        exact hk.eraseNeigh _
    · exact ih

theorem safe_converge (hstart : ∀ p ∈ start.routeList c.localVTEP,
    c.overlayNetwork.contains p.gw = false) {ls : List Lease} (hls : c.AdmissibleList start ls) :
    (c.converge ls).run.Safe exec allowed (c.Tidy start) fun _ => True := by
  refine safe_bind (safe_getPreviousState hstart) (fun previous hprevious => ?_) fun _ => trivial
  refine safe_bind (P := fun _ => True) ?_ (fun _ _ => ?_) fun _ => trivial
  · exact (safe_installLeases hls.each).mono fun _ _ _ _ => trivial
  refine safe_bind (P := fun _ => True) ?_ (fun _ _ => safe_deleteNeighs _) fun _ => trivial
  refine (safe_deleteRoutes fun p hp hgw => ?_).mono fun _ _ _ _ => trivial
  exact hprevious p (List.mem_filter.mp hp).1 hgw

end Safety

section Exactness

open Kernel

variable {k k' : Kernel} {ls : List Lease}

theorem AdmissibleList.remotes (hls : c.AdmissibleList start ls) :
    ls.map remote = (ls.filterMap remote).map some := by
  have heach := hls.each
  clear hls
  induction ls with
  | nil => rfl
  | cons l ls ih =>
    obtain ⟨r, hl⟩ := heach l List.mem_cons_self
    rw [List.map_cons, List.filterMap_cons_some hl.parsed, List.map_cons, hl.parsed,
      ih fun l' hl' => heach l' (List.mem_cons_of_mem l hl')]

theorem AdmissibleList.owned (hls : c.AdmissibleList start ls) (hr : r ∈ ls.filterMap remote)
    (hrouted : c.routed r = true) : c.Owned start r := by
  obtain ⟨l, hl, hparsed⟩ := List.mem_filterMap.mp hr
  obtain ⟨r', hadm⟩ := hls.each l hl
  rw [hadm.parsed] at hparsed
  cases hparsed
  exact hadm.owned hrouted

theorem AdmissibleList.distinct (hls : c.AdmissibleList start ls) :
    Distinct (ls.filterMap remote) := by
  refine List.pairwise_filterMap.mpr (hls.disjoint.imp_of_mem fun hl hl' h r hr s hs => ?_)
  obtain ⟨r', hadm⟩ := hls.each _ hl
  obtain ⟨s', hadm'⟩ := hls.each _ hl'
  cases hadm.parsed.symm.trans hr
  cases hadm'.parsed.symm.trans hs
  rw [← hadm.canonical, ← hadm'.canonical] at h
  exact hadm.toCanonical.distinct hadm'.toCanonical h

theorem Tidy.not_stale_route (hk : c.Tidy start k) (hstart : ∀ p ∈ start.routeList c.localVTEP,
    c.overlayNetwork.contains p.gw = false) (hls : c.AdmissibleList start ls) {p : Route}
    (hp : p ∈ c.staleRoutes k (ls.filterMap remote)) :
    p.key ∉ (c.wantedRoutes (ls.filterMap remote)).map Route.key := by
  intro hkey
  obtain ⟨hmem, hgw, hne⟩ := mem_staleRoutes.mp hp
  obtain ⟨w, hw, hwkey⟩ := List.mem_map.mp hkey
  obtain ⟨s, hs, hrouted, rfl⟩ := mem_wantedRoutes.mp hw
  rcases hk.routes p hmem with hold | ⟨r, hr, rfl⟩
  · rw [hstart p hold] at hgw
    cases hgw
  · have heq := (hls.owned hs hrouted).eq_of_net hr.toCanonical (Prod.mk.inj hwkey).2
    have hfalse := hne _ hw
    rw [route, route, heq.1, heq.2] at hfalse
    simp [routeEqual] at hfalse

theorem neighEqual_cases {rs : List Remote} (hrs : ∀ r ∈ rs, c.routed r = true → c.Owned start r)
    (hr : c.Owned start r) {p n : Neigh} (hp : p = c.arp r ∨ p = c.fdb r)
    (hn : n ∈ c.wantedNeighs rs) (h : neighEqual p n = true) : p.key = n.key := by
  obtain ⟨s, hs, hrouted, hn⟩ := mem_wantedNeighs.mp hn
  have howned := hrs s hs hrouted
  simp only [neighEqual, Bool.and_eq_true, decide_eq_true_eq] at h
  obtain ⟨⟨-, hip⟩, hmac⟩ := h
  rcases hp with rfl | rfl
  · rcases hn with rfl | rfl
    · rw [arp_key, arp_key, show ipString r.destAddr = ipString s.destAddr from hip]
    · exact absurd hip (hr.underlay_ne howned)
  · rcases hn with rfl | rfl
    · exact absurd hip.symm (howned.underlay_ne hr)
    · rw [fdb_key, fdb_key,
        show hardwareAddrString r.remoteMac = hardwareAddrString s.remoteMac from hmac]

/-- A neighbour that was replaced by another entry cannot be deleted any more. -/
theorem Tidy.not_stale_neigh (hk : c.Tidy start k) (hls : c.AdmissibleList start ls) {p : Neigh}
    {t : Table Neigh.key}
    (hrem : Table.removeAll neighAgrees (c.staleNeighs k (ls.filterMap remote))
      (k.neighs.setAll (c.wantedNeighs (ls.filterMap remote))) = some t)
    (hp : p ∈ c.staleNeighs k (ls.filterMap remote)) :
    p.key ∉ (c.wantedNeighs (ls.filterMap remote)).map Neigh.key := by
  intro hkey
  obtain ⟨hmem, hne⟩ := mem_staleNeighs.mp hp
  obtain ⟨hentry, hlink⟩ := mem_neighList.mp hmem
  obtain ⟨w, hw, hwkey⟩ := List.mem_map.mp hkey
  obtain ⟨s, hs, hrouted, hwanted⟩ := mem_wantedNeighs.mp hw
  have howned := hls.owned hs hrouted
  have hfalse := hne w hw
  obtain ⟨r, hr, rfl | rfl⟩ := hk.neighs p hentry hlink
  · rcases hwanted with rfl | rfl
    · -- the hardware address is derived from the address, so the entries print alike
      rw [arp_key, arp_key] at hwkey
      have hip := (NeighKey.arp.inj hwkey).2
      have hmac := howned.mac_eq hr.toCanonical hip
      simp [neighEqual, arp, arpFor, hip, hmac] at hfalse
    · cases hwkey
  · rcases hwanted with rfl | rfl
    · cases hwkey
    · rw [fdb_key, fdb_key] at hwkey
      have hmac := (NeighKey.fdb.inj hwkey).2
      -- the entry that the deletion finds is the wanted one, with another address
      obtain ⟨e, he, hekey, hagree⟩ := Table.agrees_of_removeAll hrem _ hp
      have hwset := (Table.mem_setAll (t := k.neighs) (c.wantedNeighs_keys hls.distinct)).mpr
        (Or.inr hw)
      have hew : e = c.fdb s := Table.eq_of_key he hwset (by rw [hekey, fdb_key, fdb_key, hmac])
      rw [hew, neighAgrees, Bool.or_eq_true] at hagree
      have hip : ipString s.underlayIP = ipString r.underlayIP := by
        rcases hagree with hfamily | hip
        · exact absurd rfl (of_decide_eq_true hfamily)
        · exact of_decide_eq_true hip
      simp [neighEqual, fdb, fdbFor, hip, hmac] at hfalse

theorem Tidy.mem_routes (hk : c.Tidy start k) (hstart : ∀ p ∈ start.routeList c.localVTEP,
    c.overlayNetwork.contains p.gw = false) (hls : c.AdmissibleList start ls)
    {t : Table Route.key}
    (hrem : Table.removeAll routeAgrees (c.staleRoutes k (ls.filterMap remote))
      (k.routes.setAll (c.wantedRoutes (ls.filterMap remote))) = some t) {p : Route} :
    (p ∈ t.entries ∧ p.linkIndex = c.localVTEP) ∧ c.overlayNetwork.contains p.gw = true ↔
      p ∈ c.wantedRoutes (ls.filterMap remote) := by
  rw [Table.mem_removeAll hrem, Table.mem_setAll (c.wantedRoutes_keys hls.distinct)]
  constructor
  · rintro ⟨⟨⟨⟨hold, hkey⟩ | hwanted, hnot⟩, hlink⟩, hgw⟩
    · have hlist := mem_routeList.mpr ⟨hold, hlink⟩
      have hfresh : p ∉ c.staleRoutes k (ls.filterMap remote) :=
        fun hp => hnot (List.mem_map_of_mem hp)
      simp only [mem_staleRoutes, hlist, hgw, true_and, not_forall, Bool.not_eq_false] at hfresh
      obtain ⟨w, hw, heq⟩ := hfresh
      simp only [routeEqual, Bool.and_eq_true, decide_eq_true_eq] at heq
      refine absurd (List.mem_map.mpr ⟨w, hw, ?_⟩) hkey
      rw [Route.key, Route.key, heq.1.1.1.1, heq.1.1.2]
    · exact hwanted
  · intro hp
    obtain ⟨r, hr, hrouted, rfl⟩ := mem_wantedRoutes.mp hp
    refine ⟨⟨⟨Or.inr hp, fun hkey => ?_⟩, rfl⟩, (hls.owned hr hrouted).gw_mem⟩
    obtain ⟨q, hq, hqkey⟩ := List.mem_map.mp hkey
    refine hk.not_stale_route hstart hls hq ?_
    rw [hqkey]
    exact List.mem_map_of_mem hp

theorem Tidy.mem_neighs (hk : c.Tidy start k) (hls : c.AdmissibleList start ls)
    {t : Table Neigh.key}
    (hrem : Table.removeAll neighAgrees (c.staleNeighs k (ls.filterMap remote))
      (k.neighs.setAll (c.wantedNeighs (ls.filterMap remote))) = some t) {p : Neigh} :
    p ∈ t.entries ∧ p.linkIndex = c.localVTEP ↔ p ∈ c.wantedNeighs (ls.filterMap remote) := by
  rw [Table.mem_removeAll hrem, Table.mem_setAll (c.wantedNeighs_keys hls.distinct)]
  constructor
  · rintro ⟨⟨⟨hold, hkey⟩ | hwanted, hnot⟩, hlink⟩
    · have hlist := mem_neighList.mpr ⟨hold, hlink⟩
      have hfresh : p ∉ c.staleNeighs k (ls.filterMap remote) :=
        fun hp => hnot (List.mem_map_of_mem hp)
      simp only [mem_staleNeighs, hlist, true_and, not_forall, Bool.not_eq_false] at hfresh
      obtain ⟨w, hw, heq⟩ := hfresh
      obtain ⟨r, hr, hp⟩ := hk.neighs p hold hlink
      refine absurd (List.mem_map.mpr ⟨w, hw, ?_⟩) hkey
      exact (neighEqual_cases (fun _ => hls.owned) hr hp hw heq).symm
    · exact hwanted
  · intro hp
    refine ⟨⟨Or.inr hp, fun hkey => ?_⟩, ?_⟩
    · obtain ⟨q, hq, hqkey⟩ := List.mem_map.mp hkey
      refine hk.not_stale_neigh hls hrem hq ?_
      rw [hqkey]
      exact List.mem_map_of_mem hp
    · obtain ⟨r, -, -, rfl | rfl⟩ := mem_wantedNeighs.mp hp
      · rfl
      · rfl

theorem mem_arpList_iff {rs : List Remote} (h : ∀ p, p ∈ k.neighs.entries ∧
    p.linkIndex = c.localVTEP ↔ p ∈ c.wantedNeighs rs) (p : Neigh) :
    p ∈ k.arpList c.localVTEP ↔ p ∈ (rs.filter c.routed).map c.arp := by
  rw [arpList, List.mem_filter, decide_eq_true_eq, ← and_assoc, h, mem_wantedNeighs, List.mem_map]
  constructor
  · rintro ⟨⟨r, hr, hrouted, rfl | rfl⟩, hfamily⟩
    · exact ⟨r, List.mem_filter.mpr ⟨hr, hrouted⟩, rfl⟩
    · exact absurd rfl hfamily
  · rintro ⟨r, hr, rfl⟩
    obtain ⟨hr, hrouted⟩ := List.mem_filter.mp hr
    exact ⟨⟨r, hr, hrouted, Or.inl rfl⟩, show (0 : ℤ) ≠ 7 by decide⟩

theorem mem_fdbList_iff {rs : List Remote} (h : ∀ p, p ∈ k.neighs.entries ∧
    p.linkIndex = c.localVTEP ↔ p ∈ c.wantedNeighs rs) (p : Neigh) :
    p ∈ k.fdbList c.localVTEP ↔ p ∈ (rs.filter c.routed).map c.fdb := by
  rw [fdbList, List.mem_filter, decide_eq_true_eq, ← and_assoc, h, mem_wantedNeighs, List.mem_map]
  constructor
  · rintro ⟨⟨r, hr, hrouted, rfl | rfl⟩, hfamily⟩
    · exact absurd hfamily (show (0 : ℤ) ≠ 7 by decide)
    · exact ⟨r, List.mem_filter.mpr ⟨hr, hrouted⟩, rfl⟩
  · rintro ⟨r, hr, rfl⟩
    obtain ⟨hr, hrouted⟩ := List.mem_filter.mp hr
    exact ⟨⟨r, hr, hrouted, Or.inr rfl⟩, rfl⟩

theorem nodup_entries {rs : List Remote} (hd : Distinct rs) :
    ((rs.filter c.routed).map c.route).Nodup ∧ ((rs.filter c.routed).map c.arp).Nodup ∧
      ((rs.filter c.routed).map c.fdb).Nodup := by
  have hpair := hd.filter c.routed
  refine ⟨hpair.map _ fun a b hab heq => ?_, hpair.map _ fun a b hab heq => ?_,
    hpair.map _ fun a b hab heq => ?_⟩
  · exact hab.1 (Prod.mk.inj (congrArg Route.key heq)).2
  · exact hab.2.1 (congrArg (fun n : Neigh => ipString n.ip) heq)
  · exact hab.2.2 (congrArg (fun n : Neigh => hardwareAddrString n.hardwareAddr) heq)

end Exactness

def convergers (c : Converger) : Machine NetlinkCall (fun q => Except String (Answer q))
    (Except ConvergeError Unit) (List Lease) Kernel (Option Kernel.Fault) where
  exec := Kernel.exec
  allowed _ := True
  drift _ _ := False
  body leases := (c.converge leases).run
  accepts _ _ := True

end Converger

open Converger in
/-- After every call that succeeds the routes into the overlay network, the ARP
entries and the FDB entries are those of the remote leases, one for each, and
the other routes are the initial ones. -/
theorem converged_exact (c : Converger) {start k k' : Kernel}
    (harp : start.arpList c.localVTEP = []) (hfdb : start.fdbList c.localVTEP = [])
    (hroutes : ∀ p ∈ start.routeList c.localVTEP, c.overlayNetwork.contains p.gw = false)
    {es : List (Event (Except ConvergeError Unit) (List Lease) Kernel)}
    (ht : Trace c.convergers (fun _ e => ∀ leases res, e = .served leases res →
      c.AdmissibleList start leases) start es k)
    {ls : List Lease} (hls : c.AdmissibleList start ls)
    (hr : (c.converge ls).run.Runs Kernel.exec (fun _ => True) k (.ok ()) k') :
    ((k'.routeList c.localVTEP).filter fun p => c.overlayNetwork.contains p.gw).Perm
      (((ls.filterMap remote).filter c.routed).map c.route) ∧
    (k'.arpList c.localVTEP).Perm (((ls.filterMap remote).filter c.routed).map c.arp) ∧
    (k'.fdbList c.localVTEP).Perm (((ls.filterMap remote).filter c.routed).map c.fdb) ∧
    ((k'.routeList c.localVTEP).filter fun p => !c.overlayNetwork.contains p.gw).Perm
      (start.routeList c.localVTEP) := by
  have htidy : c.Tidy start start := by
    refine ⟨fun p hp => Or.inl hp, fun p hp => hp, fun p hp hlink => ?_⟩
    have hp := mem_neighList.mpr ⟨hp, hlink⟩
    rw [harp, hfdb] at hp
    cases hp
  have hk : c.Tidy start k :=
    ht.invariant (P := c.Tidy start) (fun _ _ _ _ _ (hd : False) => hd.elim)
    (fun _ leases res _ _ hcond hI hrun =>
      ((safe_converge hroutes (hcond leases res rfl)).runs hI hrun).1) htidy
  have hk' : c.Tidy start k' := ((safe_converge hroutes hls).runs hk hr).1
  have hrun := (c.strict_converge ls).runWith_eq Kernel.exec_eq_or_error hr
  obtain ⟨routes, neighs, hrem, hrem', rfl⟩ := (runWith_converge hls.remotes).mp hrun
  have hneighs : ∀ p, p ∈ (Kernel.mk routes neighs).neighs.entries ∧ p.linkIndex = c.localVTEP ↔
      p ∈ c.wantedNeighs (ls.filterMap remote) := fun p => hk.mem_neighs hls hrem'
  have hroutesNodup : ((Kernel.mk routes neighs).routeList c.localVTEP).Nodup :=
    routes.nodup.filter _
  have harpNodup : ((Kernel.mk routes neighs).arpList c.localVTEP).Nodup := neighs.nodup.filter _
  have hfdbNodup : ((Kernel.mk routes neighs).fdbList c.localVTEP).Nodup := neighs.nodup.filter _
  obtain ⟨hroute, harp', hfdb'⟩ := nodup_entries (c := c) hls.distinct
  refine ⟨(List.perm_ext_iff_of_nodup (hroutesNodup.filter _) hroute).mpr fun p => ?_,
    (List.perm_ext_iff_of_nodup harpNodup harp').mpr (mem_arpList_iff hneighs),
    (List.perm_ext_iff_of_nodup hfdbNodup hfdb').mpr (mem_fdbList_iff hneighs),
    (List.perm_ext_iff_of_nodup (hroutesNodup.filter _) (start.routes.nodup.filter _)).mpr
      fun p => ?_⟩
  · rw [List.mem_filter, mem_routeList]
    exact hk.mem_routes hroutes hls hrem
  · rw [List.mem_filter, Bool.not_eq_true']
    constructor
    · rintro ⟨hp, hgw⟩
      rcases hk'.routes p hp with hold | ⟨r, hr, rfl⟩
      · exact hold
      · rw [show c.overlayNetwork.contains (c.route r).gw = true from hr.gw_mem] at hgw
        cases hgw
    · exact fun hp => ⟨hk'.kept p hp, hroutes p hp⟩

def freshVTEP : Kernel :=
  ⟨⟨[⟨3, 253, some ⟨[10, 255, 0, 0], [255, 255, 0, 0]⟩, [], ipv4 10 255 0 0⟩],
    List.nodup_singleton _⟩, Table.empty⟩

def formerLease : Lease := ⟨"10.0.0.1", "10.255.1.0/24", "ee:ee:0a:ff:01:00"⟩

def formerRemote : Remote :=
  ⟨ipv4 10 255 1 0, ⟨[10, 255, 1, 0], [255, 255, 255, 0]⟩, ipv4 10 0 0 1,
    [0xee, 0xee, 10, 255, 1, 0]⟩

theorem admissible_singleton {c : Converger} {start : Kernel} {l : Lease} {r : Remote}
    (h : c.Admissible start l r) : c.AdmissibleList start [l] := by
  refine ⟨fun l' hl' => ⟨r, ?_⟩, List.pairwise_singleton _ _⟩
  rw [List.mem_singleton.mp hl']
  exact h

theorem admissible_former : cell.AdmissibleList freshVTEP [formerLease] :=
  admissible_singleton (r := formerRemote) ⟨rfl, rfl, rfl, rfl, rfl, by decide⟩

theorem admissible_moved : cell.Admissible freshVTEP movedLease movedRemote :=
  ⟨rfl, rfl, rfl, rfl, rfl, by decide⟩

theorem admissible_both : cell.AdmissibleList freshVTEP [movedLease, nextLease] := by
  have hnext : cell.Admissible freshVTEP nextLease nextRemote :=
    ⟨rfl, rfl, rfl, rfl, rfl, by decide⟩
  have hdisjoint : rangesDisjoint movedLease.overlaySubnet nextLease.overlaySubnet :=
    rangesDisjoint_cidrText (a := 0x0aff0100) (b := 0x0aff0200) (m := 24) (by decide) (by decide)
      (by decide) (by decide)
  refine ⟨fun l hl => ?_, List.pairwise_pair.mpr hdisjoint⟩
  rcases List.mem_cons.mp hl with rfl | hl
  · exact ⟨_, admissible_moved⟩
  · rw [List.mem_singleton.mp hl]
    exact ⟨_, hnext⟩

theorem cell_runs (ls : List Lease) (k : Kernel) :
    (cell.converge ls).run.Runs Kernel.exec (fun _ => True) k
      ((cell.converge ls).run.runWith Kernel.exec none k).1
      ((cell.converge ls).run.runWith Kernel.exec none k).2 :=
  (cell.converge_runs ls k).mono fun _ _ => trivial

theorem converged_exact_small : ∃ k k₁ k₂,
    (cell.converge [formerLease]).run.Runs Kernel.exec (fun _ => True) freshVTEP (.ok ()) k ∧
    (cell.converge [movedLease, nextLease]).run.Runs Kernel.exec (fun _ => True) k
      (.error (.delNeigh "10.0.0.1 ee:ee:0a:ff:01:00" "no such file or directory")) k₁ ∧
    (cell.converge [movedLease, nextLease]).run.Runs Kernel.exec (fun _ => True) k₁ (.ok ()) k₂ ∧
    ((k₂.routeList 3).filter fun p => cell.overlayNetwork.contains p.gw).Perm
      [cell.route movedRemote, cell.route nextRemote] ∧
    (k₂.arpList 3).Perm [cell.arp movedRemote, cell.arp nextRemote] ∧
    (k₂.fdbList 3).Perm [cell.fdb movedRemote, cell.fdb nextRemote] ∧
    ((k₂.routeList 3).filter fun p => !cell.overlayNetwork.contains p.gw).Perm
      (freshVTEP.routeList 3) := by
  have h₀ := cell_runs [formerLease] freshVTEP
  have h₁ := cell_runs [movedLease, nextLease]
    ((cell.converge [formerLease]).run.runWith Kernel.exec none freshVTEP).2
  have h₂ := cell_runs [movedLease, nextLease] ((cell.converge [movedLease, nextLease]).run.runWith
    Kernel.exec none ((cell.converge [formerLease]).run.runWith Kernel.exec none freshVTEP).2).2
  have ht : Trace cell.convergers (fun _ e => ∀ leases res, e = .served leases res →
      cell.AdmissibleList freshVTEP leases) freshVTEP _ _ :=
    .served (.served (.nil freshVTEP) h₀ fun leases res h => by
      cases h
      exact admissible_former) h₁ fun leases res h => by
      cases h
      exact admissible_both
  exact ⟨_, _, _, h₀, h₁, h₂, converged_exact cell rfl rfl (by decide) ht admissible_both h₂⟩

end Silk.Daemon
