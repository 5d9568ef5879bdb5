import Silk.DaemonConvergence

/-!
# What the tables are for

A packet to an overlay address leaves through the most specific route. On the
VTEP its next hop is resolved by the ARP entries, and the FDB entry of the
hardware address names the host to send it to. Converged tables send a packet to
the holder of the lease that covers its address, and no other packet anywhere.
-/

namespace Silk.Daemon

open GoNet Resumption Keyed
open Controller (Lease)

def Route.reaches (r : Route) (x : IP) : Bool :=
  match r.dst with
  | none => true
  | some net => net.contains x

def Route.specificity (r : Route) : ℕ :=
  match r.dst with
  | none => 0
  | some net => (maskSize net.mask).1

namespace Kernel

def lookup (k : Kernel) (x : IP) : Option Route :=
  (k.routes.entries.filter (·.reaches x)).argmax Route.specificity

end Kernel

namespace Converger

/-- The routes into the overlay network and the neighbours are those of the leases. -/
structure Exact (c : Converger) (k : Kernel) (ls : List Lease) : Prop where
  routes : ∀ p : Route, (p ∈ k.routes.entries ∧ p.linkIndex = c.localVTEP) ∧
    c.overlayNetwork.contains p.gw = true ↔ p ∈ c.wantedRoutes (ls.filterMap remote)
  neighs : ∀ n : Neigh, n ∈ k.neighs.entries ∧ n.linkIndex = c.localVTEP ↔
    n ∈ c.wantedNeighs (ls.filterMap remote)

variable {c : Converger} {start k k' : Kernel} {ls : List Lease}

theorem exact_of_converge (hstart : ∀ p ∈ start.routeList c.localVTEP,
    c.overlayNetwork.contains p.gw = false) (hk : c.Tidy start k) (hls : c.AdmissibleList start ls)
    (hr : (c.converge ls).run.Runs Kernel.exec (fun _ => True) k (.ok ()) k') : c.Exact k' ls := by
  have hrun := (c.strict_converge ls).runWith_eq Kernel.exec_eq_or_error hr
  obtain ⟨routes, neighs, hrem, hrem', rfl⟩ := (runWith_converge hls.remotes).mp hrun
  exact ⟨fun p => hk.mem_routes hstart hls hrem, fun n => hk.mem_neighs hls hrem'⟩

theorem tidy_self (harp : start.arpList c.localVTEP = []) (hfdb : start.fdbList c.localVTEP = []) :
    c.Tidy start start := by
  refine ⟨fun p hp => Or.inl hp, fun p hp => hp, fun p hp hlink => ?_⟩
  have hp := mem_neighList.mpr ⟨hp, hlink⟩
  rw [harp, hfdb] at hp
  cases hp

theorem trace_tidy (harp : start.arpList c.localVTEP = []) (hfdb : start.fdbList c.localVTEP = [])
    (hroutes : ∀ p ∈ start.routeList c.localVTEP, c.overlayNetwork.contains p.gw = false)
    {es : List (Event (Except ConvergeError Unit) (List Lease) Kernel)}
    (ht : Trace c.convergers (fun _ e => ∀ leases res, e = .served leases res →
      c.AdmissibleList start leases) start es k) : c.Tidy start k := by
  refine ht.invariant (P := c.Tidy start) (fun _ _ _ _ _ (hd : False) => hd.elim) ?_
    (tidy_self harp hfdb)
  intro _ leases res _ _ hcond hI hrun
  exact ((safe_converge hroutes (hcond leases res rfl)).runs hI hrun).1

end Converger

end Silk.Daemon
