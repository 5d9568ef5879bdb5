import Silk.ControllerNetwork

/-!
# Leases that have not expired

A lease that stays in the table and does not expire is left alone by every
operation on other hosts, and by every acquire and renewal on its own: a reclaim
has read an expired row, and a discard has read a row outside the pools.
-/

namespace Silk.Controller

open GoJson GoNet Leaser Resumption

def Unexpired (c : LeaseController) (tenants : Lease → Prop) (db : Database) : Prop :=
  ∀ l, tenants l → ∃ t ≤ db.now, Held l t db ∧ db.now < t + c.leaseExpirationSeconds

section Unexpired

variable {c : LeaseController} {tenants : Lease → Prop} {db : Database}

theorem Unexpired.delete (h : Unexpired c tenants db) {u : String}
    (hu : ∀ l, tenants l → u ≠ l.underlayIP) : Unexpired c tenants ⟨db.table.delete u, db.now⟩ := by
  intro l hl
  obtain ⟨t, ht, hheld, hlive⟩ := h l hl
  exact ⟨t, ht, hheld.delete (hu l hl), hlive⟩

theorem Unexpired.insert (h : Unexpired c tenants db) {k : Lease} (hadm : db.table.Admits k) :
    Unexpired c tenants ⟨db.table.insert k db.now hadm, db.now⟩ := by
  intro l hl
  obtain ⟨t, ht, hheld, hlive⟩ := h l hl
  exact ⟨t, ht, hheld.insert hadm, hlive⟩

theorem Unexpired.renew (h : Unexpired c tenants db) (u : String) :
    Unexpired c tenants ⟨db.table.renew u db.now, db.now⟩ := by
  intro l hl
  obtain ⟨t, ht, hheld, hlive⟩ := h l hl
  exact ⟨t, ht, hheld.renew ht u, hlive⟩

theorem Unexpired.not_expired (h : Unexpired c tenants db) {r : Row} (hr : r ∈ db.table.rows)
    (hexp : c.Expired db r) {l : Lease} (hl : tenants l) : r.underlayIP ≠ l.underlayIP := by
  obtain ⟨t, -, hheld, hlive⟩ := h l hl
  exact hheld.not_expired hlive hr hexp

theorem Unexpired.apart (h : Unexpired c tenants db) {r : Row} (hr : r ∈ db.table.rows) {l : Lease}
    (hl : tenants l) (hne : r.toLease ≠ l) : r.overlaySubnet ≠ l.overlaySubnet := by
  obtain ⟨t, -, hheld, -⟩ := h l hl
  exact fun hs => hne (hheld.eq_of_overlaySubnet hr hs).1

theorem Unexpired.not_admits (h : Unexpired c tenants db) {k : Lease} (hadm : db.table.Admits k)
    {l : Lease} (hl : tenants l) : k.overlaySubnet ≠ l.overlaySubnet := by
  obtain ⟨t, -, hheld, -⟩ := h l hl
  exact fun hs => hheld.not_admits hs hadm

end Unexpired

theorem Effect.held {db db' : Database} {q : Statement} (h : Effect db q db') {l : Lease} {t : ℤ}
    (hheld : Held l t db) (ht : t ≤ db.now) (hrow : ∃ r ∈ db'.table.rows, r.toLease = l) :
    Held l t db' := by
  cases h with
  | unchanged q => exact hheld
  | inserted hadm => exact hheld.insert hadm
  | renewed u => exact hheld.renew ht u
  | deleted u =>
    refine hheld.delete ?_
    obtain ⟨r, hr, rfl⟩ := hrow
    exact (Table.mem_delete.mp hr).2.symm

theorem wireExec_effect (ch : WireChoice) (db : Database) (c : WireCall) :
    ∃ q, Effect db q (wireExec ch db c).2 := by
  cases c with
  | request req => exact ⟨_, Effect.unchanged (.allActive 0)⟩
  | statement q => exact ⟨q, exec_effect ch.choice db q⟩

theorem held_of_renewed {ch : Choice} {db : Database} {l : Lease}
    (hok : (exec ch db (.renewLeaseForUnderlayIP l.underlayIP)).1 = .ok ())
    (hrow : ∃ r ∈ db.table.rows, r.toLease = l) :
    Held l db.now (exec ch db (.renewLeaseForUnderlayIP l.underlayIP)).2 := by
  obtain ⟨r, hr, rfl⟩ := hrow
  rw [exec_ok hok]
  refine ⟨_, Table.mem_renew.mpr ⟨r, hr, rfl⟩, Table.touch_toLease _ _ _, ?_⟩
  rw [Table.touch, if_pos rfl]

namespace ClientCall

def Spares (tenants : Lease → Prop) : ClientCall → Prop
  | .releaseSubnetLease u => ∀ l, tenants l → u ≠ l.underlayIP
  | .getActiveLeases | .acquireLease _ _ | .renewSubnetLease _ => True

/-- A lease that the call is given is a tenant's own or has another subnet. -/
def Respects (P tenants : Lease → Prop) : (q : ClientCall) → q.Result → Prop
  | .acquireLease _ _, res => ∀ k, res = .ok k →
      P k ∧ ∀ l, tenants l → k ≠ l → k.overlaySubnet ≠ l.overlaySubnet
  | .getActiveLeases, _ | .renewSubnetLease _, _ | .releaseSubnetLease _, _ => True

theorem respects_report (P tenants : Lease → Prop) (q : ClientCall) (err : Daemon.DoError) :
    q.Respects P tenants (q.report err) := by
  cases q with
  | acquireLease u single => exact fun _ h => by cases h
  | getActiveLeases => trivial
  | renewSubnetLease l => trivial
  | releaseSubnetLease u => trivial

end ClientCall

section Safe

variable {c : LeaseController} {P tenants : Lease → Prop} {allowed : Choice → Prop}

theorem acquireKeeps_unexpired {u : String} {single : Bool}
    (hoff : ∀ subnet l, c.Offered (AllRows P) single subnet →
      LeaseController.vtepLease u subnet = .ok l → P l)
    (hmember : ∀ l, P l → c.cidrPool.isMember l.overlaySubnet = true) :
    c.AcquireKeeps (fun db => AllRows P db ∧ Unexpired c tenants db) u single
      fun res => ∀ k, res = .ok (some k) →
        P k ∧ ∀ l, tenants l → k ≠ l → k.overlaySubnet ≠ l.overlaySubnet where
  lookup db hI r hr _ _ k hk := by
    cases hk
    exact ⟨hI.1 r hr, fun l hl hne => hI.2.apart hr hl hne⟩
  discard db hI r hr _ hout := by
    rw [hmember _ (hI.1 r hr)] at hout
    cases hout
  reclaim db hI r hr hexp db' hI' :=
    ⟨hI'.1.delete _, hI'.2.delete fun l hl => hI.2.not_expired hr hexp hl⟩
  insert subnet hs k hk db hI hadm := by
    have hP : P k := by
      refine hoff subnet k ?_ hk
      rcases hs with hs | ⟨db, hI, r, hr, hexp, hkind, rfl⟩
      · exact Or.inl hs
      · exact Or.inr ⟨db, hI.1, r, hr, hexp, hkind, rfl⟩
    refine ⟨⟨hI.1.insert hP hadm, hI.2.insert hadm⟩, fun k' hk' => ?_⟩
    cases hk'
    exact ⟨hP, fun l hl _ => hI.2.not_admits hadm hl⟩
  failed err k hk := by cases hk
  exhausted k hk := by cases hk

theorem renewKeeps_unexpired {lease : Lease} (hl : validate lease = .ok () → P lease) :
    LeaseController.RenewKeeps (fun db => AllRows P db ∧ Unexpired c tenants db) lease
      fun _ => True where
  insert hval _ hI hadm := ⟨hI.1.insert (hl hval) hadm, hI.2.insert hadm⟩
  touch _ hI := ⟨hI.1.renew _, hI.2.renew _⟩
  succeeded _ _ _ _ := trivial
  failed _ := trivial

/-- At every moment between the statements of a call no tenant has expired, if this is so when time
passes. -/
theorem ClientCall.safe_unexpired {q : ClientCall} (hfits : q.Fits c P) (hspares : q.Spares tenants)
    (hmember : ∀ l, P l → c.cidrPool.isMember l.overlaySubnet = true) (draws : ℕ → Draw) :
    (q.operation c draws).Safe exec allowed (fun db => AllRows P db ∧ Unexpired c tenants db)
      (q.Respects P tenants) := by
  cases q with
  | getActiveLeases => exact (safe_routableLeases c).bind fun _ _ => trivial
  | renewSubnetLease l => exact (renewKeeps_unexpired hfits).safe.bind fun _ _ => trivial
  | releaseSubnetLease u =>
    have hrelease : (LeaseController.releaseSubnetLease u).Safe exec allowed
        (fun db => AllRows P db ∧ Unexpired c tenants db) fun _ => True :=
      LeaseController.releaseSubnetLease_safe
        (fun _ hI => ⟨hI.1.delete u, hI.2.delete hspares⟩) fun _ => trivial
    exact hrelease.bind fun _ _ => trivial
  | acquireLease u single =>
    refine Program.Safe.bind (P := fun res => ∀ k, res = .ok (some k) →
      P k ∧ ∀ l, tenants l → k ≠ l → k.overlaySubnet ≠ l.overlaySubnet) ?_ fun res hres k hk => ?_
    · by_cases hu : (parseIP u).bind to4 = none
      · rw [LeaseController.acquireSubnetLease, if_pos hu]
        exact fun _ h => by cases h
      · exact (acquireKeeps_unexpired (hfits hu) hmember).safe draws
    · rcases res with err | _ | lease
      · cases hk
      · cases hk
      · cases hk
        exact hres k rfl

end Safe

end Silk.Controller
