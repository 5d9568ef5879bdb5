import Silk.DaemonStabilization
import Silk.DaemonVtep
import Silk.FleetPolling
import Mathlib.Data.List.Permutation

/-!
# The overlay network that the daemons make

Nobody but its daemon writes the tables of a cell, so a cycle converges them as if
it were alone, and the rows it has listed stay leases of the overlay whatever the
other cells do meanwhile. After a successful cycle the cell sends packets to the
holders of the leases that were active when the cycle listed them.
-/

namespace Silk.Fleet

open Controller Daemon GoJson GoNet Leaser Resumption

variable {ι : Type}

theorem Slot.dvd {o : Overlay} {a w : ℕ} (h : o.Slot a w) : 2 ^ (32 - w) ∣ a := by
  rcases h with ⟨rfl, k, -, -, rfl⟩ | ⟨rfl, i, -, -, rfl⟩
  · exact (Nat.dvd_add_right o.blockSize_dvd_base).mpr (Nat.dvd_mul_left _ k)
  · exact one_dvd _

theorem Slot.parseCIDR {o : Overlay} {a w : ℕ} (h : o.Slot a w) :
    GoNet.parseCIDR (cidrText (addrBytes a) w) =
      .ok (v4InV6Prefix ++ addrBytes a, ⟨addrBytes a, cidrMask w 32⟩) := by
  have hip : (ipv4Net a w).ip = addrBytes a := by
    rw [ipv4Net_ip h.lt h.le, Nat.div_mul_cancel (Slot.dvd h)]
  have hnet : ipv4Net a w = ⟨addrBytes a, cidrMask w 32⟩ := by rw [← hip, ← ipv4Net_mask a w]
  rw [← hnet]
  exact parseCIDR_cidrText _ _ _ _ h.le

/-- A lease of the overlay for a host whose address is outside the overlay network of every cell. -/
def Placed (o : Overlay) (sites : ι → Site) (l : Lease) : Prop :=
  o.Grants l ∧ ∃ ip, parseIP l.underlayIP = some ip ∧
    ∀ i, (sites i).converger.overlayNetwork.contains ip = false

/-- The VTEP of a cell at the start: it has a lease, no neighbours, and no routes that lead into the
overlay network or to a subnet of the pool. -/
structure Sited (o : Overlay) (sites : ι → Site) (i : ι) : Prop where
  lease : Placed o sites (sites i).lease
  arp : (sites i).initial.arpList (sites i).converger.localVTEP = []
  fdb : (sites i).initial.fdbList (sites i).converger.localVTEP = []
  gateways : ∀ p ∈ (sites i).initial.routeList (sites i).converger.localVTEP,
    (sites i).converger.overlayNetwork.contains p.gw = false
  subnets : ∀ p ∈ (sites i).initial.routeList (sites i).converger.localVTEP,
    o.pool.isMember (netString p.dst) = false

section Leases

variable {o : Overlay} {sites : ι → Site} {i : ι}

theorem Placed.admissible {l : Lease} (h : Placed o sites l) (hi : Sited o sites i) :
    ∃ r, (sites i).converger.Admissible (sites i).initial l r := by
  obtain ⟨⟨a, w, hslot, hsub, hmac⟩, ip, hip, hout⟩ := h
  have htext : netString (some ⟨addrBytes a, cidrMask w 32⟩) = cidrText (addrBytes a) w :=
    netString_block a hslot.le
  refine ⟨⟨v4InV6Prefix ++ addrBytes a, ⟨addrBytes a, cidrMask w 32⟩, ip,
    [0xee, 0xee] ++ addrBytes a⟩,
    remote_eq_some.mpr ⟨?_, hip, ?_⟩, ?_, ?_, ?_, hout i, fun p hp hdst => ?_⟩
  · rw [hsub]
    exact Slot.parseCIDR hslot
  · rw [hmac]
    exact parseMAC_hardwareAddrString _ _ _ _ _ _
  · rw [htext, hsub]
  · rw [ipString_of_to4 (to4_mapped a), ipString_of_to4 (to4_addrBytes a)]
  · rw [generateForVTEP_mapped, hmac]
    rfl
  · have hmember := hi.subnets p hp
    rw [hdst, htext, Overlay.isMember_iff.mpr ⟨a, w, hslot, rfl⟩] at hmember
    cases hmember

theorem Placed.validate {l : Lease} (h : Placed o sites l) : Leaser.validate l = .ok () := by
  obtain ⟨⟨a, w, hslot, hsub, hmac⟩, ip, hip, -⟩ := h
  have hparse : parseMAC l.overlayHardwareAddr = .ok ([0xee, 0xee] ++ addrBytes a) := by
    rw [hmac]
    exact parseMAC_hardwareAddrString _ _ _ _ _ _
  rw [Leaser.validate, if_neg (by rw [hip]; simp), hsub, Slot.parseCIDR hslot]
  simp only [hparse]

theorem admissibleList_allActive {db : Database} (hdb : AllRows (Placed o sites) db)
    (hi : Sited o sites i) (ch : Choice) (E : ℤ) :
    (sites i).converger.AdmissibleList (sites i).initial (allActive ch db E) := by
  refine ⟨fun l hl => ?_, pairwise_allActive (fun r hr => (hdb r hr).1) ch E⟩
  obtain ⟨r, hr, -, rfl⟩ := mem_leasesWhere.mp hl
  exact (hdb r hr).admissible hi

end Leases

structure Orderly (o : Overlay) (sites : ι → Site) (s : State ι) : Prop where
  rows : AllRows (Placed o sites) s.db
  tables : ∀ i, (sites i).converger.Tidy (sites i).initial (s.tables i)

abbrev Rely (o : Overlay) (sites : ι → Site) : Option ι → State ι → State ι → Prop :=
  Relies (Keeps (Orderly o sites)) fun i s => s.tables i

abbrev Guarantee (o : Overlay) (sites : ι → Site) : Option ι → State ι → State ι → Prop :=
  Guarantees (Keeps (Orderly o sites)) fun i s => s.tables i

theorem Rely.tables_eq {o : Overlay} {sites : ι → Site} {i : ι} {s t : State ι}
    (h : Rely o sites (some i) s t) : t.tables i = s.tables i := h.2 i rfl

section Programs

variable [DecidableEq ι] {o : Overlay} {sites : ι → Site} {owner : Option ι} {i : ι} {s : State ι}
  {network : Verdict → Prop} {allowed : Choice → Prop} {A E : ℤ}
  {jsonError : GoString → DecodeError → String}

theorem guarded_request {c : LeaseController} {q : ClientCall} (h : q.Fits c (Placed o sites))
    (hs : Orderly o sites s) :
    (request wire jsonError c q).Guarded fleetExec (fun ch => Permits network allowed ch.wire)
      (Rely o sites owner) (Guarantee o sites owner)
      (fun res t => q.Delivers c (Placed o sites) res ∧ Orderly o sites t) s := by
  refine onWire.guarded_request h (fun _ hch => hch) (fun _ _ hst hs => hst.1 hs)
    (fun _ hs => hs.rows) (fun s db hs hdb => ?_) hs
  have hnext : Orderly o sites { s with db := db } := ⟨hdb, hs.tables⟩
  exact ⟨hnext, fun _ => hnext, fun _ _ => rfl⟩

theorem guarded_clock (hs : Orderly o sites s) :
    (clock i).Guarded fleetExec (fun ch => Permits network allowed ch.wire) (Rely o sites owner)
      (Guarantee o sites owner) (fun _ t => Orderly o sites t) s := by
  intro t ch hst _
  exact ⟨⟨fun _ => hst.1 hs, fun _ _ => rfl⟩, fun u htu => htu.1 (hst.1 hs)⟩

theorem guarded_wait (hs : Orderly o sites s) :
    (wait i).Guarded fleetExec (fun ch => Permits network allowed ch.wire) (Rely o sites owner)
      (Guarantee o sites owner) (fun _ t => Orderly o sites t) s := by
  intro t ch hst _
  have ht : Orderly o sites { t with fired := Function.update t.fired i t.db.now } :=
    ⟨(hst.1 hs).rows, (hst.1 hs).tables⟩
  exact ⟨⟨fun _ => ht, fun _ _ => rfl⟩, fun u htu => htu.1 ht⟩

theorem guarded_converge (hi : Sited o sites i) {leases : List Lease}
    (hleases : (sites i).converger.AdmissibleList (sites i).initial leases)
    (hs : Orderly o sites s) :
    (((sites i).converger.converge leases).run.embed (netlinkOf i)).Guarded fleetExec
      (fun ch => Permits network allowed ch.wire) (Rely o sites (some i))
      (Guarantee o sites (some i))
      (fun res t => (res = .ok () → (sites i).converger.Exact (t.tables i) leases) ∧
        Orderly o sites t)
      s := by
  have hsafe : ((sites i).converger.converge leases).run.Safe Kernel.exec (fun _ => True)
      ((sites i).converger.Tidy (sites i).initial) fun _ => True :=
    Converger.safe_converge hi.gateways hleases
  have halone := hsafe.guarded_alone (hs.tables i)
    (P := fun res k => res = .ok () → (sites i).converger.Exact k leases) fun res k hrun hok => by
      rw [hok] at hrun
      exact Converger.exact_of_converge hi.gateways (hs.tables i) hleases hrun
  refine halone.embed (v := fun t : State ι => t.tables i) (J := Orderly o sites)
    (fun _ _ hst hs => ⟨hst.1 hs, hst.tables_eq⟩)
    (fun ch t q hch ht => ⟨FleetChoice.fault ch, trivial, ?_, fun hkeeps => ?_⟩) hs
  · simp only [netlinkOf, fleetExec, Function.update_self]
  · have hnext : Orderly o sites { t with
        tables := Function.update t.tables i (Kernel.exec ch.fault (t.tables i) q).2 } := by
      refine ⟨ht.rows, fun j => ?_⟩
      dsimp only
      by_cases hij : j = i
      · subst hij
        rw [Function.update_self]
        exact hkeeps (ht.tables j)
      · rw [Function.update_of_ne hij]
        exact ht.tables j
    exact ⟨hnext, fun _ => hnext, fun j hij =>
      Function.update_of_ne (fun h => hij (congrArg some h.symm)) _ _⟩

def Converged (sites : ι → Site) (i : ι)
    (outcome : Except CycleError (List Lease) × GracefulDetector) (s : State ι) : Prop :=
  ∀ leases, outcome.1 = .ok leases → (sites i).converger.Exact (s.tables i) leases ∧
    (sites i).converger.AdmissibleList (sites i).initial leases

theorem guarded_done {outcome : Except CycleError (List Lease) × GracefulDetector}
    (hs : Orderly o sites s) (h : Converged sites i outcome s) :
    (Program.done outcome : FleetProgram ι _).Guarded fleetExec
      (fun ch => Permits network allowed ch.wire) (Rely o sites (some i))
      (Guarantee o sites (some i))
      (fun outcome t => Converged sites i outcome t ∧ Orderly o sites t) s := by
  refine fun t hst => ⟨fun leases hok => ?_, hst.1 hs⟩
  rw [hst.tables_eq]
  exact h leases hok

theorem guarded_doCycle (hi : Sited o sites i) (d : GracefulDetector)
    (hs : Orderly o sites s) :
    (doCycle jsonError (o.controller A E) i (sites i).lease (sites i).converger d).Guarded fleetExec
      (fun ch => Permits network allowed ch.wire) (Rely o sites (some i))
      (Guarantee o sites (some i))
      (fun outcome t => Converged sites i outcome t ∧ Orderly o sites t) s := by
  have hfits : (ClientCall.renewSubnetLease (sites i).lease).Fits (o.controller A E)
      (Placed o sites) := fun _ => hi.lease
  refine (guarded_request hfits hs).bind (Relies.refl Keeps.refl) fun renewal s₁ ⟨_, hs₁⟩ => ?_
  refine (guarded_clock hs₁).bind (Relies.refl Keeps.refl) fun now s₂ hs₂ => ?_
  cases renewal with
  | error err =>
    dsimp only
    split_ifs
    · exact guarded_done hs₂ fun _ h => by cases h
    · exact guarded_done hs₂ fun _ h => by cases h
  | ok _ =>
    refine (guarded_request (q := .getActiveLeases) trivial hs₂).bind (Relies.refl Keeps.refl)
      fun listing s₃ ⟨hlisting, hs₃⟩ => ?_
    cases listing with
    | error err => exact guarded_done hs₃ fun _ h => by cases h
    | ok leases =>
      obtain ⟨ch', db, hdb, rfl⟩ := hlisting leases rfl
      have hleases := admissibleList_allActive hdb hi ch' E
      refine (guarded_converge hi hleases hs₃).bind (Relies.refl Keeps.refl)
        fun converged s₄ ⟨hexact, hs₄⟩ => ?_
      cases converged with
      | error err => exact guarded_done hs₄ fun _ h => by cases h
      | ok _ =>
        refine guarded_done hs₄ fun leases hok => ?_
        cases hok
        exact ⟨hexact rfl, hleases⟩

theorem guarded_poll (hi : Sited o sites i) (turns : ℕ) (d : GracefulDetector)
    (hs : Orderly o sites s) :
    (poll jsonError (o.controller A E) i (sites i).lease (sites i).converger turns d).Guarded
      fleetExec (fun ch => Permits network allowed ch.wire) (Rely o sites (some i))
      (Guarantee o sites (some i))
      (fun res t => (∀ outcome, res = .ok outcome → Converged sites i outcome t) ∧
        Orderly o sites t)
      s := by
  induction turns generalizing d s with
  | zero =>
    rw [poll]
    refine (guarded_doCycle hi d hs).bind (Relies.refl Keeps.refl) fun outcome s₁ ⟨hconv, hs₁⟩ => ?_
    cases runFunction (outcome.1.map fun _ => ()) with
    | error text => exact fun t hst => ⟨fun _ h => (by cases h), hst.1 hs₁⟩
    | ok _ =>
      refine fun t hst => ⟨fun _ hres leases hok => ?_, hst.1 hs₁⟩
      cases hres
      rw [Rely.tables_eq hst]
      exact hconv leases hok
  | succ turns ih =>
    rw [poll]
    refine (guarded_doCycle hi d hs).bind (Relies.refl Keeps.refl) fun outcome s₁ ⟨_, hs₁⟩ => ?_
    cases runFunction (outcome.1.map fun _ => ()) with
    | error text => exact fun t hst => ⟨fun _ h => (by cases h), hst.1 hs₁⟩
    | ok _ =>
      exact (guarded_wait hs₁).bind (Relies.refl Keeps.refl) fun _ s₂ hs₂ => ih outcome.2 hs₂

end Programs

def listed (c : LeaseController) (leases : List Lease) : Entry ι :=
  ⟨.wire (.statement (.allActive c.leaseExpirationSeconds)), .ok leases⟩

section Listing

variable {jsonError : GoString → DecodeError → String} {c : LeaseController}
  {history : List (Entry ι)}

end Listing

section Runs

def atStart (sites : ι → Site) (db : Database) : State ι :=
  ⟨db, fun i => (sites i).initial, fun _ => db.now⟩

/-- Other clients acquire for hosts outside the overlay networks, and renew only such leases. -/
def Fits (o : Overlay) (sites : ι → Site) : Job ι ℕ → Prop
  | .client (.acquireLease u _) =>
    ∀ ip, parseIP u = some ip → ∀ i, (sites i).converger.overlayNetwork.contains ip = false
  | .client (.renewSubnetLease l) => Placed o sites l
  | .client .getActiveLeases | .client (.releaseSubnetLease _) | .cell _ _ => True

variable {jsonError : GoString → DecodeError → String} {o : Overlay} {A E : ℤ} {sites : ι → Site}
  {network : Verdict → Prop} {allowed : Choice → Prop}

def Finished (sites : ι → Site) : Outcome ι → State ι → Prop
  | ⟨.client _, _⟩, _ => True
  | ⟨.cell i _, res⟩, s => ∀ outcome, res = .ok outcome → Converged sites i outcome s

theorem fits_client {q : ClientCall} (h : Fits o sites (.client q)) :
    q.Fits (o.controller A E) (Placed o sites) := by
  cases q with
  | acquireLease u single =>
    intro hu subnet l hs hl
    obtain ⟨ip, hip⟩ : ∃ ip, parseIP u = some ip := by
      cases hp : parseIP u with
      | none =>
        rw [hp] at hu
        exact absurd rfl hu
      | some ip => exact ⟨ip, rfl⟩
    have hunderlay := (LeaseController.vtepLease_ok hl).1
    exact ⟨grants_of_offered_rows (fun _ hl => hl.1) hs hl, ip, by rw [hunderlay, hip], h ip hip⟩
  | renewSubnetLease l => exact fun _ => h
  | getActiveLeases => trivial
  | releaseSubnetLease u => trivial

variable [DecidableEq ι]

theorem guarded_job (hsites : ∀ i, Sited o sites i) {job : Job ι ℕ} (h : Fits o sites job)
    {s : State ι} (hs : Orderly o sites s) :
    (job.body wire jsonError (o.controller A E) (daemon jsonError (o.controller A E) sites)).Guarded
      fleetExec (fun ch => Permits network allowed ch.wire) (Rely o sites job.owner)
      (Guarantee o sites job.owner) (Finished sites) s := by
  refine Job.guarded_body (Relies.refl Keeps.refl) (fun q hq => ?_) fun i turns hi => ?_
  · subst hq
    exact (guarded_request (fits_client h) hs).mono fun _ _ _ _ _ => trivial
  · subst hi
    refine (guarded_poll (hsites i) turns _ hs).mono fun res t hpost u htu outcome hok => ?_
    intro leases hleases
    rw [Rely.tables_eq htu]
    exact hpost.1 outcome hok leases hleases

end Runs

def smallSite : Unit → Site := fun _ =>
  ⟨⟨"10.0.0.1", "10.255.0.4/30", "ee:ee:0a:ff:00:04"⟩,
    ⟨Overlay.small.net, ⟨[10, 255, 0, 4], [255, 255, 255, 252]⟩, 3⟩, ⟨⟨10, by decide⟩, 0⟩,
    ⟨⟨[⟨3, 253, some Overlay.small.net, [], ipv4 10 255 0 4⟩], List.nodup_singleton _⟩,
      Keyed.Table.empty⟩⟩

theorem placed_small : AllRows (Placed Overlay.small smallSite) bothHeld := by
  have hplaced : ∀ u s l ip, Overlay.small.pool.isMember s = true →
      LeaseController.vtepLease u s = .ok l → parseIP u = some ip →
      Overlay.small.net.contains ip = false → Placed Overlay.small smallSite l := by
    intro u s l ip hs hl hip hout
    exact ⟨.of_vtepLease hs hl, ip, by rw [(LeaseController.vtepLease_ok hl).1, hip], fun _ => hout⟩
  intro r hr
  rcases List.mem_cons.mp hr with rfl | hr
  · exact hplaced "10.0.0.1" "10.255.0.4/30" _ (ipv4 10 0 0 1) (by decide) rfl rfl rfl
  · rw [List.mem_singleton.mp hr]
    exact hplaced "10.0.0.2" "10.255.0.1/32" _ (ipv4 10 0 0 2) (by decide) rfl rfl rfl

theorem sited_small : ∀ i, Sited Overlay.small smallSite i
  | () => ⟨placed_small _ List.mem_cons_self, rfl, rfl, by decide, by decide⟩

def quietChoice : FleetChoice Unit :=
  ⟨⟨.served (fun _ => .first) none none, .quiet⟩, none, fun _ => 0⟩

theorem fits_small (turns : ℕ) : ∀ job ∈ [Job.cell () turns], Fits Overlay.small smallSite job := by
  simp [Fits]

end Silk.Fleet
