import Silk.DaemonInstallation
import Silk.GoNetSubnet
import Silk.ResumptionTriple

/-!
# Routes outside the overlay network

The converger looks at the network address of a lease only. A lease that shares
its network address with the overlay network but has a shorter prefix gets a
route for addresses that are not in the overlay network.
-/

namespace Silk.Daemon

open GoNet Resumption
open Controller (Lease)

namespace Converger

variable (c : Converger)

/-- A call installs a route within the overlay network only. -/
def Confines : NetlinkCall → Prop
  | .routeReplace r => ∀ dst, r.dst = some dst → dst.Within c.overlayNetwork
  | _ => True

def Routes (destNet : IPNet) : Prop :=
  c.isLocal destNet = false ∧ c.overlayNetwork.contains destNet.ip = true

def Passes (l : Lease) : Prop :=
  ∃ destAddr destNet, parseCIDR l.overlaySubnet = .ok (destAddr, destNet) ∧
    (c.Routes destNet →
      parseIP l.underlayIP ≠ none ∧ ∃ mac, parseMAC l.overlayHardwareAddr = .ok mac)

def Reaches (leases : List Lease) (l : Lease) : Prop :=
  ∃ before after, leases = before ++ l :: after ∧ ∀ b ∈ before, c.Passes b

variable {c}

theorem reaches_cons {l m : Lease} {ls : List Lease} :
    c.Reaches (l :: ls) m ↔ m = l ∨ c.Passes l ∧ c.Reaches ls m := by
  constructor
  · rintro ⟨before, after, heq, hbefore⟩
    cases before with
    | nil =>
      rw [List.nil_append, List.cons.injEq] at heq
      exact Or.inl heq.1.symm
    | cons b bs =>
      rw [List.cons_append, List.cons.injEq] at heq
      obtain ⟨rfl, heq⟩ := heq
      exact Or.inr ⟨hbefore _ List.mem_cons_self, bs, after, heq,
        fun b hb => hbefore b (List.mem_cons_of_mem _ hb)⟩
  · rintro (rfl | ⟨hl, before, after, rfl, hbefore⟩)
    · exact ⟨[], ls, rfl, fun b hb => absurd hb List.not_mem_nil⟩
    · exact ⟨l :: before, after, rfl, List.forall_mem_cons.mpr ⟨hl, hbefore⟩⟩

section Lease

variable {l : Lease} {destAddr : IP} {destNet : IPNet}
  (hparse : parseCIDR l.overlaySubnet = .ok (destAddr, destNet))
include hparse

theorem installLease_of_not_routes (h : ¬ c.Routes destNet) :
    c.installLease l = return ([], []) := by
  simp only [installLease, hparse]
  cases hlocal : c.isLocal destNet with
  | true => rfl
  | false =>
    have hout : c.overlayNetwork.contains destNet.ip = false := by
      rw [← Bool.not_eq_true]
      exact fun hin => h ⟨hlocal, hin⟩
    rw [hout]
    rfl

def neighsFor (c : Converger) (l : Lease) (destAddr : IP) (route : Route) :
    Netlink (List Route × List Neigh) :=
  match parseIP l.underlayIP with
  | none => throw (.invalidUnderlayIP l.underlayIP)
  | some underlayIP =>
    match parseMAC l.overlayHardwareAddr with
    | .error _ => throw (.invalidHardwareAddr l.overlayHardwareAddr)
    | .ok remoteMac => do
      let neighs ← c.addNeighs underlayIP destAddr remoteMac
      return ([route], neighs)

theorem installLease_of_routes (h : c.Routes destNet) :
    c.installLease l =
      (c.addRoute destNet destAddr >>= fun route => c.neighsFor l destAddr route) := by
  simp only [installLease, hparse, h.1, h.2]
  rfl

end Lease

theorem only_addNeighs (underlayIP destAddr : IP) (mac : HardwareAddr) :
    Fallible.Only c.Confines (c.addNeighs underlayIP destAddr mac) :=
  Fallible.Only.bind (.request trivial _) fun _ =>
    .bind (.request trivial _) fun _ => .lift c.Confines (.ok _)

theorem only_neighsFor (l : Lease) (destAddr : IP) (route : Route) :
    Fallible.Only c.Confines (c.neighsFor l destAddr route) := by
  rw [neighsFor]
  cases parseIP l.underlayIP with
  | none => exact .lift c.Confines (.error _)
  | some underlayIP =>
    cases parseMAC l.overlayHardwareAddr with
    | error err => exact .lift c.Confines (.error _)
    | ok mac =>
      exact (only_addNeighs underlayIP destAddr mac).bind fun _ => .lift c.Confines (.ok _)

theorem yields_addNeighs (underlayIP destAddr : IP) (mac : HardwareAddr) :
    ∃ neighs, (c.addNeighs underlayIP destAddr mac).run.Yields (.ok neighs) :=
  ⟨_, Fallible.yields_bind.mpr ⟨(), Fallible.yields_request _,
    Fallible.yields_bind.mpr ⟨(), Fallible.yields_request _, rfl⟩⟩⟩

theorem yields_neighsFor (l : Lease) (destAddr : IP) (route : Route) :
    (∃ res, (c.neighsFor l destAddr route).run.Yields (.ok res)) ↔
      parseIP l.underlayIP ≠ none ∧ ∃ mac, parseMAC l.overlayHardwareAddr = .ok mac := by
  rw [neighsFor]
  cases parseIP l.underlayIP with
  | none => simp [Program.Yields]
  | some underlayIP =>
    cases parseMAC l.overlayHardwareAddr with
    | error err => simp [Program.Yields]
    | ok mac =>
      obtain ⟨neighs, hneighs⟩ := c.yields_addNeighs underlayIP destAddr mac
      simp only [ne_eq, reduceCtorEq, not_false_eq_true, true_and, Except.ok.injEq, exists_eq',
        iff_true]
      exact ⟨_, Fallible.yields_bind.mpr ⟨neighs, hneighs, rfl⟩⟩

theorem only_addRoute {destNet : IPNet} {destAddr : IP} :
    Fallible.Only c.Confines (c.addRoute destNet destAddr) ↔ destNet.Within c.overlayNetwork := by
  rw [addRoute, Fallible.only_bind_iff]
  constructor
  · intro h
    exact (h.1 none).1 destNet rfl
  · intro h
    refine ⟨.request ?_ _, fun _ _ => .lift c.Confines (.ok _)⟩
    rintro dst hdst
    cases hdst
    exact h

theorem only_installLease {l : Lease} {destAddr : IP} {destNet : IPNet}
    (hparse : parseCIDR l.overlaySubnet = .ok (destAddr, destNet)) :
    Fallible.Only c.Confines (c.installLease l) ↔
      (c.Routes destNet → destNet.Within c.overlayNetwork) := by
  by_cases h : c.Routes destNet
  · rw [installLease_of_routes hparse h, Fallible.only_bind_iff, only_addRoute]
    simp [h, only_neighsFor]
  · rw [installLease_of_not_routes hparse h]
    simp only [h, false_imp_iff, iff_true]
    exact .lift c.Confines (.ok _)

theorem yields_installLease {l : Lease} {destAddr : IP} {destNet : IPNet}
    (hparse : parseCIDR l.overlaySubnet = .ok (destAddr, destNet)) :
    (∃ res, (c.installLease l).run.Yields (.ok res)) ↔ c.Passes l := by
  have hpasses : c.Passes l ↔ (c.Routes destNet → parseIP l.underlayIP ≠ none ∧
      ∃ mac, parseMAC l.overlayHardwareAddr = .ok mac) := by
    simp [Passes, hparse]
  rw [hpasses]
  by_cases h : c.Routes destNet
  · rw [installLease_of_routes hparse h,
      ← c.yields_neighsFor l destAddr (c.routeFor destNet destAddr)]
    simp only [h, true_imp_iff]
    constructor
    · rintro ⟨res, hres⟩
      obtain ⟨route, hroute, hrest⟩ := Fallible.yields_bind.mp hres
      obtain ⟨_, -, hroute⟩ := Fallible.yields_bind.mp hroute
      cases hroute
      exact ⟨res, hrest⟩
    · rintro ⟨res, hres⟩
      refine ⟨res, Fallible.yields_bind.mpr ⟨_, ?_, hres⟩⟩
      exact Fallible.yields_bind.mpr ⟨(), Fallible.yields_request _, rfl⟩
  · rw [installLease_of_not_routes hparse h]
    simp only [h, false_imp_iff, iff_true]
    exact ⟨_, rfl⟩

def ReachedWithin (c : Converger) (leases : List Lease) : Prop :=
  ∀ l, c.Reaches leases l → ∀ destAddr destNet,
    parseCIDR l.overlaySubnet = .ok (destAddr, destNet) → c.Routes destNet →
      destNet.Within c.overlayNetwork

theorem only_installLeases {leases : List Lease}
    (h : ∀ l ∈ leases, ∃ res, parseCIDR l.overlaySubnet = .ok res) :
    Fallible.Only c.Confines (c.installLeases leases) ↔ c.ReachedWithin leases := by
  induction leases with
  | nil =>
    simp only [ReachedWithin, Reaches, List.nil_eq, List.append_eq_nil_iff, reduceCtorEq, and_false,
      false_and, exists_false, false_imp_iff, implies_true, iff_true]
    exact .lift c.Confines (.ok _)
  | cons l ls ih =>
    obtain ⟨⟨destAddr, destNet⟩, hparse⟩ := h l List.mem_cons_self
    have hrest := ih fun m hm => h m (List.mem_cons_of_mem _ hm)
    have htail : Fallible.Only c.Confines (c.installLeases (l :: ls)) ↔
        Fallible.Only c.Confines (c.installLease l) ∧
          (c.Passes l → Fallible.Only c.Confines (c.installLeases ls)) := by
      rw [installLeases, Fallible.only_bind_iff, ← yields_installLease hparse]
      apply and_congr_right
      rintro -
      constructor
      · rintro hall ⟨res, hres⟩
        exact (Fallible.only_bind_iff.mp (hall res hres)).1
      · rintro hall res hres
        exact (hall ⟨res, hres⟩).bind fun _ => .lift c.Confines (.ok _)
    rw [htail, only_installLease hparse, hrest]
    simp only [ReachedWithin, reaches_cons]
    constructor
    · rintro ⟨hfirst, hlater⟩ m (rfl | ⟨hpasses, hm⟩) a n hmparse
      · rw [hparse] at hmparse
        cases hmparse
        exact hfirst
      · exact hlater hpasses m hm a n hmparse
    · intro hall
      exact ⟨hall l (Or.inl rfl) _ _ hparse, fun hpasses m hm => hall m (Or.inr ⟨hpasses, hm⟩)⟩

theorem only_deleteRoutes (routes : List Route) :
    Fallible.Only c.Confines (c.deleteRoutes routes) := by
  induction routes with
  | nil => exact .lift c.Confines (.ok ())
  | cons route routes ih =>
    rw [deleteRoutes]
    split_ifs
    · exact Fallible.Only.bind (.request trivial _) fun _ => ih
    · exact ih

theorem only_deleteNeighs (neighs : List Neigh) :
    Fallible.Only c.Confines (c.deleteNeighs neighs) := by
  induction neighs with
  | nil => exact .lift c.Confines (.ok ())
  | cons neigh neighs ih =>
    rw [deleteNeighs]
    split_ifs
    · exact Fallible.Only.bind (.request trivial _) fun _ => ih
    · exact ih

theorem only_getPreviousState : Fallible.Only c.Confines c.getPreviousState :=
  Fallible.Only.bind (.request trivial _) fun _ =>
    .bind (.request trivial _) fun _ =>
      .bind (.request trivial _) fun _ =>
        .bind (.request trivial _) fun _ => .lift c.Confines (.ok _)

theorem yields_getPreviousState : c.getPreviousState.run.Yields (.ok ([], [])) :=
  Fallible.yields_bind.mpr ⟨c.localVTEP, Fallible.yields_request _,
    Fallible.yields_bind.mpr ⟨[], Fallible.yields_request _,
      Fallible.yields_bind.mpr ⟨[], Fallible.yields_request _,
        Fallible.yields_bind.mpr ⟨[], Fallible.yields_request _, rfl⟩⟩⟩⟩

theorem only_converge {leases : List Lease} :
    Fallible.Only c.Confines (c.converge leases) ↔
      Fallible.Only c.Confines (c.installLeases leases) := by
  rw [converge, Fallible.only_bind_iff]
  constructor
  · rintro ⟨-, h⟩
    exact (Fallible.only_bind_iff.mp (h _ yields_getPreviousState)).1
  · intro h
    refine ⟨only_getPreviousState, fun previous _ => h.bind fun current => ?_⟩
    exact (only_deleteRoutes _).bind fun _ => only_deleteNeighs _

end Converger

theorem within_of_parsed {s t : String} {a b : IP} {inner outer : IPNet}
    (hs : parseCIDR s = .ok (a, inner)) (hinner : inner.mask.length = 4)
    (ht : parseCIDR t = .ok (b, outer)) (houter : outer.mask.length = 4)
    (hin : outer.contains inner.ip = true) :
    inner.Within outer ↔ (maskSize outer.mask).1 ≤ (maskSize inner.mask).1 := by
  obtain ⟨n, q, hn, hq, rfl⟩ := parseCIDR_ipv4Net hs hinner
  obtain ⟨m, p, hm, hp, rfl⟩ := parseCIDR_ipv4Net ht houter
  rw [within_iff hn hm hp hq, ipv4Net_mask, ipv4Net_mask, maskSize_cidrMask p (by omega),
    maskSize_cidrMask q (by omega)]
  simp [hin]

/-- Whatever the calls reply, no route leads out of the overlay network, exactly when no lease that
is routed has a shorter prefix than the overlay network. -/
theorem routes_confined_iff (c : Converger) {overlay : String} {ip : IP}
    (hoverlay : parseCIDR overlay = .ok (ip, c.overlayNetwork))
    (hv4 : c.overlayNetwork.mask.length = 4) {leases : List Lease}
    (hleases : ∀ l ∈ leases, ∃ destAddr destNet,
      parseCIDR l.overlaySubnet = .ok (destAddr, destNet) ∧ destNet.mask.length = 4) :
    Fallible.Only c.Confines (c.converge leases) ↔
      ∀ l, c.Reaches leases l → ∀ destAddr destNet,
        parseCIDR l.overlaySubnet = .ok (destAddr, destNet) → c.Routes destNet →
          (maskSize c.overlayNetwork.mask).1 ≤ (maskSize destNet.mask).1 := by
  have hparsed : ∀ l ∈ leases, ∃ res, parseCIDR l.overlaySubnet = .ok res := by
    intro l hl
    obtain ⟨destAddr, destNet, hparse, -⟩ := hleases l hl
    exact ⟨_, hparse⟩
  rw [Converger.only_converge, Converger.only_installLeases hparsed]
  refine forall_congr' fun l => forall_congr' fun hl => forall_congr' fun destAddr =>
    forall_congr' fun destNet => forall_congr' fun hparse => forall_congr' fun hroutes => ?_
  obtain ⟨before, after, rfl, -⟩ := hl
  obtain ⟨destAddr', destNet', hparse', hnet⟩ := hleases l (by simp)
  rw [hparse] at hparse'
  cases hparse'
  exact within_of_parsed hparse hnet hoverlay hv4 hroutes.2

theorem routes_confined_iff_small :
    Fallible.Only cell.Confines (cell.converge [movedLease]) := by
  have hoverlay : parseCIDR "10.255.0.0/16" = .ok (ipv4 10 255 0 0, cell.overlayNetwork) := rfl
  refine (routes_confined_iff cell hoverlay rfl ?_).mpr ?_
  · intro l hl
    rw [List.mem_singleton.mp hl]
    exact ⟨_, _, rfl, rfl⟩
  · rintro l ⟨before, after, heq, -⟩ destAddr destNet hparse -
    obtain rfl : l = movedLease := List.mem_singleton.mp (heq ▸ by simp)
    cases hparse
    decide

def wideLease : Lease := ⟨"10.10.0.5", "10.0.0.0/8", "ee:ee:0a:00:00:00"⟩

def narrowCell : Converger :=
  ⟨⟨[10, 0, 0, 0], [255, 255, 0, 0]⟩, ⟨[10, 0, 5, 0], [255, 255, 255, 0]⟩, 3⟩

/-- A lease for 10.0.0.0/8 in the overlay network 10.0.0.0/16: its route takes 10.200.0.1 along. -/
theorem wide_lease_leaves_overlay :
    parseCIDR "10.0.0.0/16" = .ok (ipv4 10 0 0 0, narrowCell.overlayNetwork) ∧
    ∃ k', (narrowCell.converge [wideLease]).run.Runs Kernel.exec Kernel.faultless
        ⟨.empty, .empty⟩ (.ok ()) k' ∧
      ∃ r ∈ k'.routeList 3, ∃ dst, r.dst = some dst ∧ dst.contains (ipv4 10 200 0 1) = true ∧
        narrowCell.overlayNetwork.contains (ipv4 10 200 0 1) = false := by
  have hrun := narrowCell.converge_runs [wideLease] ⟨.empty, .empty⟩
  refine ⟨rfl, _, hrun, narrowCell.routeFor ⟨[10, 0, 0, 0], [255, 0, 0, 0]⟩ (ipv4 10 0 0 0), ?_,
    _, rfl, rfl, rfl⟩
  decide

end Silk.Daemon
