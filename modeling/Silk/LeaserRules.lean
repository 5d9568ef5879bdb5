import Silk.LeaserController

/-!
# Invariant rules for the operations of the lease controller

For an invariant of the database the rules reduce safety of a whole operation
to one condition for each way it can change the table. They hold for any
interleaving and any failing statement: what an operation knows about an
earlier reply is only that some state with the invariant gave it.
-/

namespace Silk.Leaser

open GoNet Controller Resumption

def CIDRPool.poolOf (p : CIDRPool) (singleOverlayIP : Bool) : StringSet :=
  if singleOverlayIP then p.singlePool else p.blockPool

theorem CIDRPool.isMember_of_poolOf {p : CIDRPool} {single : Bool} {s : String}
    (h : s ∈ (p.poolOf single).keys) : p.isMember s = true := by
  cases single with
  | false => exact Bool.or_eq_true_iff.mpr (Or.inl (decide_eq_true h))
  | true => exact Bool.or_eq_true_iff.mpr (Or.inr (decide_eq_true h))

def LeaseController.Expired (c : LeaseController) (db : Database) (r : Row) : Prop :=
  r.lastRenewedAt + c.leaseExpirationSeconds ≤ db.now

def DatabaseHandler.allSubnets (singleOverlayIP : Bool) : Prog (Except Err (List Lease)) :=
  if singleOverlayIP then allSingleIPSubnets else allBlockSubnets

def DatabaseHandler.oldestExpired (singleOverlayIP : Bool) (expirationTime : ℤ) :
    Prog (Except Err (Option Lease)) :=
  if singleOverlayIP then oldestExpiredSingleIP expirationTime
  else oldestExpiredBlockSubnet expirationTime

namespace LeaseController

def tryAcquireSubnet (c : LeaseController) (draw : Draw) (singleOverlayIP : Bool) :
    Prog (Except Err String) :=
  tryAcquireAvailable (DatabaseHandler.allSubnets singleOverlayIP)
    (fun taken => getAvailable draw taken (c.cidrPool.poolOf singleOverlayIP))
    (DatabaseHandler.oldestExpired singleOverlayIP c.leaseExpirationSeconds)
    (if singleOverlayIP then "getting all single ip subnets" else "getting all subnets")
    (if singleOverlayIP then "get oldest expired single ip" else "get oldest expired")

theorem tryAcquireLease_eq (c : LeaseController) (draw : Draw) (u : String) (single : Bool) :
    c.tryAcquireLease draw u single = (c.tryAcquireSubnet draw single >>= fun res =>
      match res with
      | .error err => .done (.error err)
      | .ok subnet => if subnet = "" then .done (.ok none) else addLease u subnet) := by
  cases single <;> rfl

end LeaseController

section Statements

variable {allowed : Choice → Prop} {I : Database → Prop}

theorem safe_addEntry {l : Lease}
    (h : ∀ db, I db → ∀ hadm : db.table.Admits l, I ⟨db.table.insert l db.now hadm, db.now⟩) :
    (DatabaseHandler.addEntry l).Safe exec allowed I
      fun res => res = .ok () → ∃ db, I db ∧ db.table.Admits l := by
  intro db ch _ hI
  constructor
  · have heff := exec_effect ch db (.addEntry l)
    generalize (exec ch db (.addEntry l)).2 = db' at heff
    cases heff with
    | unchanged => exact hI
    | inserted hadm => exact h db hI hadm
  · intro hok
    rw [exec_ok hok] at hok
    simp only [respond, addEntry] at hok
    split_ifs at hok with hadm
    exact ⟨db, hI, hadm⟩

theorem safe_deleteEntry {u : String} (h : ∀ db, I db → I ⟨db.table.delete u, db.now⟩) :
    (DatabaseHandler.deleteEntry u).Safe exec allowed I fun _ => True := by
  intro db ch _ hI
  refine ⟨?_, trivial⟩
  have heff := exec_effect ch db (.deleteEntry u)
  generalize (exec ch db (.deleteEntry u)).2 = db' at heff
  cases heff with
  | unchanged => exact hI
  | deleted => exact h db hI

theorem safe_renewLeaseForUnderlayIP {u : String}
    (h : ∀ db, I db → I ⟨db.table.renew u db.now, db.now⟩) :
    (DatabaseHandler.renewLeaseForUnderlayIP u).Safe exec allowed I fun _ => True := by
  intro db ch _ hI
  refine ⟨?_, trivial⟩
  have heff := exec_effect ch db (.renewLeaseForUnderlayIP u)
  generalize (exec ch db (.renewLeaseForUnderlayIP u)).2 = db' at heff
  cases heff with
  | unchanged => exact hI
  | renewed => exact h db hI

theorem safe_lastRenewedAtForUnderlayIP {u : String} :
    (DatabaseHandler.lastRenewedAtForUnderlayIP u).Safe exec allowed I fun _ => True := by
  intro db ch _ hI
  rw [exec_reads ch db rfl]
  exact ⟨hI, trivial⟩

theorem safe_leaseForUnderlayIP {u : String} :
    (DatabaseHandler.leaseForUnderlayIP u).Safe exec allowed I fun res =>
      ∀ l, res = .ok (some l) →
        ∃ db, I db ∧ ∃ r ∈ db.table.rows, r.underlayIP = u ∧ r.toLease = l := by
  intro db ch _ hI
  rw [exec_reads ch db rfl]
  refine ⟨hI, fun l hok => ?_⟩
  rw [exec_ok hok] at hok
  exact ⟨db, hI, leaseForUnderlayIP_some.mp (Except.ok.inj hok)⟩

theorem safe_allSubnets (single : Bool) :
    (DatabaseHandler.allSubnets single).Safe exec allowed I fun _ => True := by
  cases single with
  | false =>
    intro db ch _ hI
    rw [exec_reads ch db rfl]
    exact ⟨hI, trivial⟩
  | true =>
    intro db ch _ hI
    rw [exec_reads ch db rfl]
    exact ⟨hI, trivial⟩

theorem LeaseController.expired_of_oldest (c : LeaseController) (kind : String → Bool) {ch : Choice}
    {db : Database} {l : Lease} (h : oldestWhere ch db (fun r => kind r.overlaySubnet &&
      decide (r.lastRenewedAt + c.leaseExpirationSeconds ≤ db.now)) = some l) :
    ∃ r ∈ db.table.rows, c.Expired db r ∧ kind r.overlaySubnet = true ∧ r.toLease = l := by
  obtain ⟨r, hr, hl, hcond, -⟩ := oldestWhere_some h
  rw [Bool.and_eq_true, decide_eq_true_eq] at hcond
  exact ⟨r, hr, hcond.2, hcond.1, hl⟩

theorem safe_oldestExpired (c : LeaseController) (single : Bool) :
    (DatabaseHandler.oldestExpired single c.leaseExpirationSeconds).Safe
      exec allowed I fun res => ∀ l, res = .ok (some l) →
        ∃ db, I db ∧ ∃ r ∈ db.table.rows, c.Expired db r ∧
          likeSingleIP r.overlaySubnet = single ∧ r.toLease = l := by
  cases single with
  | false =>
    intro db ch _ hI
    rw [exec_reads ch db rfl]
    refine ⟨hI, fun l hok => ?_⟩
    rw [exec_ok hok] at hok
    obtain ⟨r, hr, hexp, hkind, hl⟩ :=
      c.expired_of_oldest (fun s => !likeSingleIP s) (Except.ok.inj hok)
    exact ⟨db, hI, r, hr, hexp, Bool.not_eq_eq_eq_not.mp hkind, hl⟩
  | true =>
    intro db ch _ hI
    rw [exec_reads ch db rfl]
    refine ⟨hI, fun l hok => ?_⟩
    rw [exec_ok hok] at hok
    exact ⟨db, hI, c.expired_of_oldest likeSingleIP (Except.ok.inj hok)⟩

end Statements

namespace LeaseController

/-- Subnets an acquire may insert: members of the requested pool, and subnets of
expired rows of the requested kind. -/
def Offered (c : LeaseController) (I : Database → Prop) (single : Bool) (subnet : String) : Prop :=
  subnet ∈ (c.cidrPool.poolOf single).keys ∨
    ∃ db, I db ∧ ∃ r ∈ db.table.rows, c.Expired db r ∧ likeSingleIP r.overlaySubnet = single ∧
      r.overlaySubnet = subnet

/-- What an invariant must meet for `AcquireSubnetLease` to keep it and end in `Q`. -/
structure AcquireKeeps (c : LeaseController) (I : Database → Prop) (u : String) (single : Bool)
    (Q : Except Err (Option Lease) → Prop) : Prop where
  lookup : ∀ db, I db → ∀ r ∈ db.table.rows, r.underlayIP = u →
    c.cidrPool.isMember r.overlaySubnet = true → Q (.ok (some r.toLease))
  discard : ∀ db, I db → ∀ r ∈ db.table.rows, r.underlayIP = u →
    c.cidrPool.isMember r.overlaySubnet = false →
    ∀ db', I db' → I ⟨db'.table.delete u, db'.now⟩
  reclaim : ∀ db, I db → ∀ r ∈ db.table.rows, c.Expired db r →
    ∀ db', I db' → I ⟨db'.table.delete r.underlayIP, db'.now⟩
  insert : ∀ subnet, c.Offered I single subnet → ∀ l, vtepLease u subnet = .ok l →
    ∀ db, I db → ∀ h : db.table.Admits l,
      I ⟨db.table.insert l db.now h, db.now⟩ ∧ Q (.ok (some l))
  failed : ∀ err, Q (.error err)
  exhausted : Q (.ok none)

variable {c : LeaseController} {allowed : Choice → Prop} {I : Database → Prop} {u : String}
  {single : Bool} {Q : Except Err (Option Lease) → Prop}

theorem AcquireKeeps.tryAcquireSubnet (h : c.AcquireKeeps I u single Q) (draw : Draw) :
    (c.tryAcquireSubnet draw single).Safe exec allowed I fun res =>
      ∀ subnet, res = .ok subnet → subnet ≠ "" → c.Offered I single subnet := by
  rw [LeaseController.tryAcquireSubnet, tryAcquireAvailable]
  refine (safe_allSubnets single).bind fun taken _ => ?_
  rcases taken with err | leases
  · intro subnet hres
    cases hres
  dsimp only
  have havail := getAvailable_spec draw (leases.map (·.overlaySubnet)) (c.cidrPool.poolOf single)
  generalize getAvailable draw _ _ = free at havail
  by_cases hne : free ≠ ""
  · rw [if_pos hne]
    intro subnet hres _
    cases hres
    rcases havail with hx | hx
    · exact absurd hx.2 hne
    · exact Or.inl hx.1
  · rw [if_neg hne]
    refine (safe_oldestExpired c single).bind fun oldest hold => ?_
    rcases oldest with err | _ | lease
    · intro subnet hres
      cases hres
    · intro subnet hres hsub
      cases hres
      exact absurd rfl hsub
    · obtain ⟨db, hI, r, hr, hexp, hkind, hl⟩ := hold lease rfl
      rw [← hl]
      refine (safe_deleteEntry fun db' hI' => h.reclaim db hI r hr hexp db' hI').bind
        fun res _ => ?_
      rcases res with err | _
      · intro subnet hres
        cases hres
      · intro subnet hres _
        cases hres
        exact Or.inr ⟨db, hI, r, hr, hexp, hkind, rfl⟩

theorem AcquireKeeps.addLease (h : c.AcquireKeeps I u single Q) {subnet : String}
    (hoff : c.Offered I single subnet) : (addLease u subnet).Safe exec allowed I Q := by
  rw [LeaseController.addLease]
  cases hl : vtepLease u subnet with
  | error err => exact h.failed err
  | ok lease =>
    refine (safe_addEntry fun db hI hadm => (h.insert subnet hoff lease hl db hI hadm).1).bind
      fun res hres => ?_
    rcases res with err | _
    · exact h.failed _
    · obtain ⟨db, hI, hadm⟩ := hres rfl
      exact (h.insert subnet hoff lease hl db hI hadm).2

theorem AcquireKeeps.tryAcquireLease (h : c.AcquireKeeps I u single Q) (draw : Draw) :
    (c.tryAcquireLease draw u single).Safe exec allowed I Q := by
  rw [tryAcquireLease_eq]
  refine (h.tryAcquireSubnet draw).bind fun res hres => ?_
  rcases res with err | subnet
  · exact h.failed err
  · dsimp only
    split_ifs with hsub
    · exact h.exhausted
    · exact h.addLease (hres subnet rfl hsub)

theorem AcquireKeeps.attempts (h : c.AcquireKeeps I u single Q) (n : ℕ) (draws : ℕ → Draw)
    {result : Except Err (Option Lease)} (hres : Q result) :
    (c.attempts u single n draws result).Safe exec allowed I Q := by
  induction n generalizing draws result with
  | zero => exact hres
  | succ n ih =>
    rw [LeaseController.attempts]
    refine (h.tryAcquireLease (draws 0)).bind fun res hq => ?_
    rcases res with err | _ | lease
    · exact ih _ hq
    · exact ih _ hq
    · exact hq

theorem AcquireKeeps.safe (h : c.AcquireKeeps I u single Q) (draws : ℕ → Draw) :
    (c.acquireSubnetLease draws u single).Safe exec allowed I Q := by
  rw [LeaseController.acquireSubnetLease]
  split_ifs
  · exact h.failed _
  refine safe_leaseForUnderlayIP.bind fun found hfound => ?_
  rcases found with err | _ | lease
  · exact h.failed _
  · exact h.attempts _ draws h.exhausted
  · obtain ⟨db, hI, r, hr, hu, hl⟩ := hfound lease rfl
    rw [← hl]
    dsimp only
    split_ifs with hmem
    · exact h.lookup db hI r hr hu hmem
    · have hdel := h.discard db hI r hr hu (Bool.not_eq_true _ ▸ hmem)
      refine (safe_deleteEntry hdel).bind fun res _ => ?_
      rcases res with err | _
      · exact h.failed _
      · exact h.attempts _ draws h.exhausted

structure RenewKeeps (I : Database → Prop) (lease : Lease) (Q : Except LeaseError Unit → Prop) :
    Prop where
  insert : validate lease = .ok () → ∀ db, I db → ∀ h : db.table.Admits lease,
    I ⟨db.table.insert lease db.now h, db.now⟩
  touch : ∀ db, I db → I ⟨db.table.renew lease.underlayIP db.now, db.now⟩
  succeeded : validate lease = .ok () → ∀ db, I db →
    (db.table.Admits lease ∨ ∃ r ∈ db.table.rows, r.toLease = lease) → Q (.ok ())
  failed : ∀ err, Q (.error err)

variable {lease : Lease} {R : Except LeaseError Unit → Prop}

theorem RenewKeeps.confirmRenewal (h : RenewKeeps I lease R) (hok : R (.ok ())) :
    (confirmRenewal lease).Safe exec allowed I R := by
  rw [LeaseController.confirmRenewal]
  refine (safe_renewLeaseForUnderlayIP h.touch).bind fun res _ => ?_
  rcases res with err | _
  · exact h.failed _
  · refine safe_lastRenewedAtForUnderlayIP.bind fun res _ => ?_
    rcases res with err | _
    · exact h.failed _
    · exact hok

theorem RenewKeeps.safe (h : RenewKeeps I lease R) :
    (renewSubnetLease lease).Safe exec allowed I R := by
  rw [renewSubnetLease]
  cases hval : validate lease with
  | error err => exact h.failed _
  | ok =>
    refine safe_leaseForUnderlayIP.bind fun found hfound => ?_
    rcases found with err | _ | existing
    · exact h.failed _
    · refine (safe_addEntry (h.insert hval)).bind fun res hres => ?_
      rcases res with err | _
      · exact h.failed _
      · obtain ⟨db, hI, hadm⟩ := hres rfl
        exact h.confirmRenewal (h.succeeded hval db hI (Or.inl hadm))
    · dsimp only
      split_ifs with hne
      · exact h.failed _
      · obtain ⟨db, hI, r, hr, -, hl⟩ := hfound existing rfl
        rw [not_ne_iff.mp hne] at h hval ⊢
        exact h.confirmRenewal (h.succeeded hval db hI (Or.inr ⟨r, hr, hl⟩))

theorem releaseSubnetLease_safe {T : Except Err Unit → Prop}
    (hdel : ∀ db, I db → I ⟨db.table.delete u, db.now⟩) (hT : ∀ res, T res) :
    (releaseSubnetLease u).Safe exec allowed I T := by
  rw [releaseSubnetLease]
  refine (safe_deleteEntry hdel).bind fun res _ => ?_
  rcases res with (_ | text) | _
  · exact hT _
  · exact hT _
  · exact hT _

end LeaseController

section Serve

variable {c : LeaseController} {allowed : Choice → Prop} {I : Database → Prop}
  {Q : Response → Prop}

theorem serve_acquire_safe {u : String} {single : Bool} {R : Except Err (Option Lease) → Prop}
    (draws : ℕ → Draw) (h : c.AcquireKeeps I u single R) (hQ : ∀ res, R res → Q (.acquired res)) :
    (serve c (.acquire draws u single)).Safe exec allowed I Q :=
  (h.safe draws).bind fun res hres => hQ res hres

theorem serve_renew_safe {lease : Lease} {R : Except LeaseError Unit → Prop}
    (h : LeaseController.RenewKeeps I lease R) (hQ : ∀ res, R res → Q (.renewed res)) :
    (serve c (.renew lease)).Safe exec allowed I Q :=
  h.safe.bind fun res hres => hQ res hres

theorem serve_release_safe {u : String} (hdel : ∀ db, I db → I ⟨db.table.delete u, db.now⟩)
    (hQ : ∀ res, Q (.released res)) : (serve c (.release u)).Safe exec allowed I Q :=
  (LeaseController.releaseSubnetLease_safe hdel hQ).bind fun _ hq => hq

end Serve

end Silk.Leaser
