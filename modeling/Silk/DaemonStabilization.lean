import Silk.DaemonForwarding

/-!
# Cycles without faults

A cycle may fail although no call has failed for another reason: the entry that it
wants to delete was replaced while it installed a lease that has moved. Whatever
such a cycle has reported, it leaves the entries of all its leases behind, so the
next cycle finds nothing replaced, succeeds and leaves exact tables.
-/

namespace Silk.Daemon

open GoNet Resumption Keyed
open Controller (Lease)

namespace Converger

open Kernel Fallible

variable {c : Converger} {start k k' : Kernel} {ls : List Lease} {rs : List Remote}

def AllInstalled (c : Converger) (rs : List Remote) (k : Kernel) : Prop :=
  (∀ p ∈ c.wantedRoutes rs, p ∈ k.routes.entries) ∧ ∀ n ∈ c.wantedNeighs rs, n ∈ k.neighs.entries

theorem AllInstalled.unshadowed (h : c.AllInstalled rs k) : c.Unshadowed k rs := by
  constructor
  · intro p hp _ hkey
    obtain ⟨w, hw, hwkey⟩ := List.mem_map.mp hkey
    have heq : p = w := Table.eq_of_key (mem_routeList.mp hp).1 (h.1 w hw) hwkey.symm
    exact ⟨w, hw, by simp [heq, routeEqual]⟩
  · intro n hn hkey
    obtain ⟨w, hw, hwkey⟩ := List.mem_map.mp hkey
    have heq : n = w := Table.eq_of_key (mem_neighList.mp hn).1 (h.2 w hw) hwkey.symm
    exact ⟨w, hw, by simp [heq, neighEqual]⟩

theorem safe_deleteRoutes_installed {ps : List Route} (hps : ∀ p ∈ ps,
    c.overlayNetwork.contains p.gw = true → ∀ w ∈ c.wantedRoutes rs, w.key ≠ p.key) :
    (c.deleteRoutes ps).run.Safe exec faultless (c.AllInstalled rs) fun _ => True := by
  induction ps with
  | nil => trivial
  | cons p ps ih =>
    have ih := ih fun q hq => hps q (List.mem_cons_of_mem p hq)
    rw [deleteRoutes]
    split_ifs with hgw
    · refine safe_bind (P := fun _ => True)
        (safe_request fun k ch hch hk => ⟨?_, fun _ _ => trivial⟩) (fun _ _ => ih) fun _ => trivial
      rw [exec_faultless ch k _ hch, exec, respond]
      cases hrem : k.routes.remove routeAgrees p with
      | none => exact hk
      | some t =>
        refine ⟨fun w hw => Table.mem_of_remove hrem (hk.1 w hw) fun hkey => ?_, hk.2⟩
        exact absurd hkey (hps p List.mem_cons_self hgw.2 w hw)
    · exact ih

theorem safe_deleteNeighs_installed {ns : List Neigh} (hns : ∀ n ∈ ns, ∀ w ∈ c.wantedNeighs rs,
    w.key = n.key → neighAgrees w n = false) :
    (c.deleteNeighs ns).run.Safe exec faultless (c.AllInstalled rs) fun _ => True := by
  induction ns with
  | nil => trivial
  | cons n ns ih =>
    have ih := ih fun m hm => hns m (List.mem_cons_of_mem n hm)
    rw [deleteNeighs]
    split_ifs
    · refine safe_bind (P := fun _ => True)
        (safe_request fun k ch hch hk => ⟨?_, fun _ _ => trivial⟩) (fun _ _ => ih) fun _ => trivial
      rw [exec_faultless ch k _ hch, exec, respond]
      cases hrem : k.neighs.remove neighAgrees n with
      | none => exact hk
      | some t =>
        exact ⟨hk.1,
          fun w hw => Table.mem_of_remove hrem (hk.2 w hw) (hns n List.mem_cons_self w hw)⟩
    · exact ih

/-- A stale neighbour under the key of a wanted one is an FDB entry with another host. -/
theorem Tidy.stale_disagrees (hk : c.Tidy start k) (hls : c.AdmissibleList start ls) {n w : Neigh}
    (hn : n ∈ c.staleNeighs k (ls.filterMap remote))
    (hw : w ∈ c.wantedNeighs (ls.filterMap remote)) (hkey : w.key = n.key) :
    neighAgrees w n = false := by
  obtain ⟨hmem, hne⟩ := mem_staleNeighs.mp hn
  obtain ⟨hentry, hlink⟩ := mem_neighList.mp hmem
  obtain ⟨s, hs, hrouted, hwanted⟩ := mem_wantedNeighs.mp hw
  have howned := hls.owned hs hrouted
  have hfalse := hne w hw
  obtain ⟨r, hr, rfl | rfl⟩ := hk.neighs n hentry hlink
  · rcases hwanted with rfl | rfl
    · -- the hardware address is derived from the address, so the entries print alike
      rw [arp_key, arp_key] at hkey
      have hip := (NeighKey.arp.inj hkey).2
      have hmac := howned.mac_eq hr.toCanonical hip
      simp [neighEqual, arp, arpFor, hip, hmac] at hfalse
    · cases hkey
  · rcases hwanted with rfl | rfl
    · cases hkey
    · rw [fdb_key, fdb_key] at hkey
      have hmac := (NeighKey.fdb.inj hkey).2
      by_contra hagree
      have hip : ipString s.underlayIP = ipString r.underlayIP := by
        rw [Bool.not_eq_false, neighAgrees, Bool.or_eq_true] at hagree
        rcases hagree with hfamily | hip
        · exact absurd rfl (of_decide_eq_true hfamily)
        · exact of_decide_eq_true hip
      simp [neighEqual, fdb, fdbFor, hip, hmac] at hfalse

theorem allInstalled_of_converge (hroutes : ∀ p ∈ start.routeList c.localVTEP,
    c.overlayNetwork.contains p.gw = false) (hk : c.Tidy start k) (hls : c.AdmissibleList start ls)
    {res : Except ConvergeError Unit} (hr : (c.converge ls).run.Runs exec faultless k res k') :
    c.AllInstalled (ls.filterMap remote) k' := by
  have hrun := hr.runWith_eq exec_faultless
  rw [converge, runWith_bind, runWith_getPreviousState] at hrun
  dsimp only at hrun
  rw [runWith_bind, runWith_installLeases hls.remotes] at hrun
  dsimp only at hrun
  have hsafe : (c.deleteRoutes (getDeletedRoutes (k.routeList c.localVTEP)
      (c.wantedRoutes (ls.filterMap remote))) >>= fun _ =>
        c.deleteNeighs (c.staleNeighs k (ls.filterMap remote))).run.Safe exec faultless
          (c.AllInstalled (ls.filterMap remote)) fun _ => True := by
    refine safe_bind (P := fun _ => True) ?_ (fun _ _ => ?_) fun _ => trivial
    · refine (safe_deleteRoutes_installed fun p hp hgw w hw hkey => ?_).mono fun _ _ _ _ => trivial
      obtain ⟨hlist, hne⟩ := List.mem_filter.mp hp
      have hstale : p ∈ c.staleRoutes k (ls.filterMap remote) := by
        refine mem_staleRoutes.mpr ⟨hlist, hgw, fun s hs => ?_⟩
        simpa using List.all_eq_true.mp hne s hs
      exact hk.not_stale_route hroutes hls hstale (List.mem_map.mpr ⟨w, hw, hkey⟩)
    · exact safe_deleteNeighs_installed fun n hn w hw => hk.stale_disagrees hls hn hw
  have hset : c.AllInstalled (ls.filterMap remote)
      ⟨k.routes.setAll (c.wantedRoutes (ls.filterMap remote)),
        k.neighs.setAll (c.wantedNeighs (ls.filterMap remote))⟩ :=
    ⟨fun p hp => (Table.mem_setAll (c.wantedRoutes_keys hls.distinct)).mpr (Or.inr hp),
      fun n hn => (Table.mem_setAll (c.wantedNeighs_keys hls.distinct)).mpr (Or.inr hn)⟩
  have hend := (hsafe.runs hset (Program.runs_runWith (show faultless none from rfl) _ _)).1
  have hlast : _ = k' := congrArg Prod.snd hrun
  rw [← hlast]
  exact hend

theorem AllInstalled.mono {rs' : List Remote} (h : c.AllInstalled rs k) (hsub : ∀ r ∈ rs', r ∈ rs) :
    c.AllInstalled rs' k := by
  constructor
  · intro p hp
    obtain ⟨r, hr, hrouted, rfl⟩ := mem_wantedRoutes.mp hp
    exact h.1 _ (mem_wantedRoutes.mpr ⟨r, hsub r hr, hrouted, rfl⟩)
  · intro n hn
    obtain ⟨r, hr, hrouted, hn⟩ := mem_wantedNeighs.mp hn
    exact h.2 _ (mem_wantedNeighs.mpr ⟨r, hsub r hr, hrouted, hn⟩)

theorem Unshadowed.converge_ok (hls : c.AdmissibleList start ls)
    (hk : c.Unshadowed k (ls.filterMap remote)) {res : Except ConvergeError Unit}
    (hr : (c.converge ls).run.Runs exec faultless k res k') : res = .ok () := by
  obtain ⟨hroutes, hneighs⟩ := (c.unshadowed_iff k _).mp hk
  obtain ⟨routes, hrem, -⟩ := (Table.removeAll_setAll_keeps_iff (t := k.routes) routeAgrees_refl
    (c.wantedRoutes_keys hls.distinct) (c.staleRoutes_keys k _)
    fun p hp => (mem_routeList.mp (mem_staleRoutes.mp hp).1).1).mpr hroutes
  obtain ⟨neighs, hrem', -⟩ := (Table.removeAll_setAll_keeps_iff (t := k.neighs) neighAgrees_refl
    (c.wantedNeighs_keys hls.distinct) (c.staleNeighs_keys k _)
    fun p hp => (mem_neighList.mp (mem_staleNeighs.mp hp).1).1).mpr hneighs
  have hok := (runWith_converge hls.remotes).mpr ⟨routes, neighs, hrem, hrem', rfl⟩
  exact (Prod.mk.inj ((hr.runWith_eq exec_faultless).symm.trans hok)).1

end Converger

open Converger in
/-- Whatever has failed before: of two consecutive cycles without faults, of which the second
lists no lease that the first did not, the second succeeds and leaves exactly the entries of its
leases. -/
theorem second_cycle_exact (c : Converger) {start k k₁ k₂ : Kernel}
    (harp : start.arpList c.localVTEP = []) (hfdb : start.fdbList c.localVTEP = [])
    (hroutes : ∀ p ∈ start.routeList c.localVTEP, c.overlayNetwork.contains p.gw = false)
    {es : List (Event (Except ConvergeError Unit) (List Lease) Kernel)}
    (ht : Trace c.convergers (fun _ e => ∀ leases res, e = .served leases res →
      c.AdmissibleList start leases) start es k)
    {ls ls' : List Lease} (hls : c.AdmissibleList start ls) (hls' : c.AdmissibleList start ls')
    (hsub : ∀ l ∈ ls', l ∈ ls) {res res' : Except ConvergeError Unit}
    (hfirst : (c.converge ls).run.Runs Kernel.exec Kernel.faultless k res k₁)
    (hsecond : (c.converge ls').run.Runs Kernel.exec Kernel.faultless k₁ res' k₂) :
    res' = .ok () ∧ c.Exact k₂ ls' := by
  have hk := trace_tidy harp hfdb hroutes ht
  have hk₁ := ((safe_converge hroutes hls).runs hk hfirst).1
  have hinstalled : c.AllInstalled (ls'.filterMap remote) k₁ := by
    refine (allInstalled_of_converge hroutes hk hls hfirst).mono fun r hr => ?_
    obtain ⟨l, hl, hlr⟩ := List.mem_filterMap.mp hr
    exact List.mem_filterMap.mpr ⟨l, hsub l hl, hlr⟩
  have hok := hinstalled.unshadowed.converge_ok hls' hsecond
  rw [hok] at hsecond
  exact ⟨hok, exact_of_converge hroutes hk₁ hls' (hsecond.mono fun _ _ => trivial)⟩

theorem second_cycle_exact_moved : ∃ k k₁ k₂,
    (cell.converge [formerLease]).run.Runs Kernel.exec Kernel.faultless freshVTEP (.ok ()) k ∧
    (cell.converge [movedLease]).run.Runs Kernel.exec Kernel.faultless k
      (.error (.delNeigh "10.0.0.1 ee:ee:0a:ff:01:00" "no such file or directory")) k₁ ∧
    (cell.converge [movedLease]).run.Runs Kernel.exec Kernel.faultless k₁ (.ok ()) k₂ ∧
    cell.Exact k₂ [movedLease] := by
  have hmoved := admissible_singleton admissible_moved
  have h₀ := cell.converge_runs [formerLease] freshVTEP
  have h₁ := cell.converge_runs [movedLease]
    ((cell.converge [formerLease]).run.runWith Kernel.exec none freshVTEP).2
  have h₂ := cell.converge_runs [movedLease]
    ((cell.converge [movedLease]).run.runWith Kernel.exec none
    ((cell.converge [formerLease]).run.runWith Kernel.exec none freshVTEP).2).2
  have ht : Trace cell.convergers (fun _ e => ∀ leases res, e = .served leases res →
      cell.AdmissibleList freshVTEP leases) freshVTEP _ _ :=
    .served (.nil freshVTEP) (cell_runs [formerLease] freshVTEP) fun leases res h => by
      cases h
      exact admissible_former
  obtain ⟨-, hexact⟩ := second_cycle_exact cell rfl rfl (by decide) ht hmoved hmoved
    (fun _ h => h) h₁ h₂
  exact ⟨_, _, _, h₀, h₁, h₂, hexact⟩

end Silk.Daemon
