import Silk.LeaserReconfiguration

/-!
# Leases outside the current pools

Only the caller's own row is checked against the pools. A search that finds its
pool exhausted takes the subnet of the oldest expired row of the requested kind,
and with rows left by an earlier configuration that subnet may lie outside the
pools. The next acquire of the host then gives the lease up again.
-/

namespace Silk.Leaser

open GoNet Controller Resumption

namespace LeaseController

/-- The pool of the requested kind is exhausted and the search reclaims a row
outside the pools, perhaps after rows whose subnet cannot be stored for `u`. -/
inductive ReclaimsOutside (c : LeaseController) (u : String) (single : Bool) :
    ℕ → Database → Prop where
  | outside {n : ℕ} {db : Database} {r : Row} {l : Lease} :
      (∀ s ∈ (c.cidrPool.poolOf single).keys, Taken db single s) → c.Oldest db single r →
      vtepLease u r.overlaySubnet = .ok l → (db.table.delete r.underlayIP).Admits l →
      c.cidrPool.isMember r.overlaySubnet = false → ReclaimsOutside c u single (n + 1) db
  | refused {n : ℕ} {db : Database} {r : Row} :
      (∀ s ∈ (c.cidrPool.poolOf single).keys, Taken db single s) → c.Oldest db single r →
      (∀ l, vtepLease u r.overlaySubnet = .ok l → ¬ (db.table.delete r.underlayIP).Admits l) →
      ReclaimsOutside c u single n ⟨db.table.delete r.underlayIP, db.now⟩ →
      ReclaimsOutside c u single (n + 1) db

variable {c : LeaseController} {u : String} {single : Bool} {db db' : Database} {n : ℕ} {l : Lease}

theorem ReclaimsOutside.full (h : c.ReclaimsOutside u single n db) :
    ∀ s ∈ (c.cidrPool.poolOf single).keys, Taken db single s := by
  cases h with
  | outside hfull => exact hfull
  | refused hfull => exact hfull

theorem ReclaimsOutside.exists_oldest (h : c.ReclaimsOutside u single n db) :
    ∃ r, c.Oldest db single r := by
  cases h with
  | outside _ hold => exact ⟨_, hold⟩
  | refused _ hold => exact ⟨_, hold⟩

theorem vtepLease_empty : ∀ l, vtepLease u "" ≠ .ok l := fun _ h => nomatch h

theorem Attempt.isMember (h : c.Attempt u single db (.ok (some l)) db') :
    c.cidrPool.isMember l.overlaySubnet = true ∨ c.ReclaimsOutside u single (n + 1) db := by
  cases h with
  | free hs _ hadd =>
    cases hadd with
    | stored hl =>
      rw [(vtepLease_ok hl).2]
      exact Or.inl (CIDRPool.isMember_of_poolOf hs)
  | @reclaimed r _ _ hfull hold _ hadd =>
    cases hadd with
    | stored hl hadm =>
      rw [(vtepLease_ok hl).2]
      cases hmem : c.cidrPool.isMember r.overlaySubnet with
      | true => exact Or.inl rfl
      | false => exact Or.inr (.outside hfull hold hl hadm hmem)

theorem Attempt.reclaimsOutside {res : Except Err (Option Lease)}
    (h : c.Attempt u single db res db') (hnil : ∀ l, res ≠ .ok (some l))
    (hrest : c.ReclaimsOutside u single n db') : c.ReclaimsOutside u single (n + 1) db := by
  cases h with
  | free hs hfree hadd =>
    cases hadd with
    | stored => exact absurd rfl (hnil _)
    | refused => exact absurd (hrest.full _ hs) hfree
  | exhausted _ hnone =>
    obtain ⟨r, hold⟩ := hrest.exists_oldest
    exact absurd hold.expired (hnone r hold.mem hold.kind)
  | reclaimed hfull hold _ hadd =>
    cases hadd with
    | stored => exact absurd rfl (hnil _)
    | refused _ hno => exact .refused hfull hold hno hrest
  | lost hfull hold hempty =>
    refine .refused hfull hold (fun l hl => ?_) hrest
    rw [hempty] at hl
    exact absurd hl (vtepLease_empty l)

theorem Attempts.isMember {result res : Except Err (Option Lease)}
    (h : c.Attempts u single n result db res db') (hres : res = .ok (some l))
    (hresult : result ≠ .ok (some l)) :
    c.cidrPool.isMember l.overlaySubnet = true ∨ c.ReclaimsOutside u single n db := by
  induction h with
  | spent => exact absurd hres hresult
  | granted hatt =>
    cases hres
    exact hatt.isMember
  | retried hatt hnil _ ih =>
    rcases ih hres (hnil l) with hmem | hout
    · exact Or.inl hmem
    · exact Or.inr (hatt.reclaimsOutside hnil hout)

theorem ReclaimsOutside.attempts (h : c.ReclaimsOutside u single n db)
    (result : Except Err (Option Lease)) :
    ∃ l db', c.Attempts u single n result db (.ok (some l)) db' ∧
      c.cidrPool.isMember l.overlaySubnet = false := by
  induction h generalizing result with
  | @outside n db r l hfull hold hl hadm hout =>
    have hne : r.overlaySubnet ≠ "" := by
      intro hempty
      rw [hempty] at hl
      exact vtepLease_empty l hl
    refine ⟨l, _, .granted (.reclaimed hfull hold hne (.stored hl hadm)), ?_⟩
    rw [(vtepLease_ok hl).2]
    exact hout
  | @refused n db r hfull hold hno _ ih =>
    by_cases hempty : r.overlaySubnet = ""
    · obtain ⟨l, db', hatt, hout⟩ := ih (.ok none)
      exact ⟨l, db', .retried (.lost hfull hold hempty) (fun l hl => nomatch hl) hatt, hout⟩
    · obtain ⟨l, db', hatt, hout⟩ := ih (.error (.message ""))
      exact ⟨l, db', .retried (.reclaimed hfull hold hempty (.refused (.message "") hno))
        (fun l hl => nomatch hl) hatt, hout⟩

theorem Acquired.of_member {res : Except Err (Option Lease)} {r : Row}
    (hip : (parseIP u).bind to4 ≠ none) (hr : r ∈ db.table.rows) (hu : r.underlayIP = u)
    (hmem : c.cidrPool.isMember r.overlaySubnet = true) (h : c.Acquired u single db res db') :
    res = .ok (some r.toLease) ∧ db' = db := by
  cases h with
  | invalid hbad => exact absurd hbad hip
  | existing _ hs hsu _ =>
    rw [Table.eq_of_underlayIP hs hr (hsu.trans hu.symm)]
    exact ⟨rfl, rfl⟩
  | searched _ hno _ =>
    have hout := hno r hr hu
    rw [hmem] at hout
    cases hout

theorem executes_again {draws : ℕ → Draw} (hne : "" ∉ (c.cidrPool.poolOf single).keys)
    (h : Executes (c.acquireSubnetLease draws u single) db (.ok (some l)) db')
    (hmem : c.cidrPool.isMember l.overlaySubnet = true) {draws' : ℕ → Draw}
    {res : Except Err (Option Lease)} {db'' : Database}
    (h' : Executes (c.acquireSubnetLease draws' u single) db' res db'') :
    res = .ok (some l) ∧ db'' = db' := by
  obtain ⟨hu, hcase⟩ := runs_acquireSubnetLease_some h
  have hrow : ∃ r ∈ db'.table.rows, r.toLease = l := by
    rcases hcase with ⟨-, rfl, hrow⟩ | ⟨-, hrow⟩
    · exact hrow
    · exact ⟨_, hrow, rfl⟩
  have hip : (parseIP u).bind to4 ≠ none := by
    cases executes_acquireSubnetLease hne h with
    | existing hip => exact hip
    | searched hip => exact hip
  obtain ⟨r, hr, rfl⟩ := hrow
  exact (executes_acquireSubnetLease hne h').of_member hip hr hu hmem

end LeaseController

theorem empty_not_mem_poolOf_of_new {subnetRange : String} {subnetMask : ℤ} {pool : CIDRPool}
    (h : newCIDRPool subnetRange subnetMask = .value pool) (single : Bool) :
    "" ∉ (pool.poolOf single).keys := by
  cases single with
  | false => exact (empty_not_mem_newCIDRPool h).1
  | true => exact (empty_not_mem_newCIDRPool h).2

/-- Every lease an acquire can return is a member of the current pools, and is
returned again with the table unchanged, exactly when the call does not search
or its search cannot reclaim a row outside the pools. -/
theorem acquire_member_iff {subnetRange : String} {subnetMask : ℤ} {c : LeaseController}
    (hpool : newCIDRPool subnetRange subnetMask = .value c.cidrPool) (u : String) (single : Bool)
    (db : Database) :
    (∀ draws l db', Executes (c.acquireSubnetLease draws u single) db (.ok (some l)) db' →
      c.cidrPool.isMember l.overlaySubnet = true ∧
        ∀ draws' res db'', Executes (c.acquireSubnetLease draws' u single) db' res db'' →
          res = .ok (some l) ∧ db'' = db') ↔
    (parseIP u).bind to4 = none ∨
      (∃ r ∈ db.table.rows, r.underlayIP = u ∧ c.cidrPool.isMember r.overlaySubnet = true) ∨
      ¬ c.ReclaimsOutside u single c.acquireSubnetLeaseAttempts.toNat
        ⟨db.table.delete u, db.now⟩ := by
  have hne := empty_not_mem_poolOf_of_new hpool single
  constructor
  · intro h
    by_cases hip : (parseIP u).bind to4 = none
    · exact Or.inl hip
    by_cases hmem : ∃ r ∈ db.table.rows, r.underlayIP = u ∧
        c.cidrPool.isMember r.overlaySubnet = true
    · exact Or.inr (Or.inl hmem)
    refine Or.inr (Or.inr fun hreclaim => ?_)
    obtain ⟨l, db', hatt, hout⟩ := hreclaim.attempts (.ok none)
    have hacq : c.Acquired u single db (.ok (some l)) db' :=
      .searched hip (fun r hr hru => Bool.not_eq_true _ ▸ fun hin => hmem ⟨r, hr, hru, hin⟩) hatt
    obtain ⟨draws, res, hrun, hsame⟩ := hacq.executes hne
    rw [(hsame l).mpr rfl] at hrun
    rw [(h draws l db' hrun).1] at hout
    cases hout
  · intro h draws l db' hrun
    have hmem : c.cidrPool.isMember l.overlaySubnet = true := by
      cases LeaseController.executes_acquireSubnetLease hne hrun with
      | existing _ _ _ hmem => exact hmem
      | searched hip hno hatt =>
        rcases h with hbad | ⟨r, hr, hru, hin⟩ | hreclaim
        · exact absurd hbad hip
        · rw [hno r hr hru] at hin
          cases hin
        · exact (hatt.isMember rfl (by simp)).resolve_right hreclaim
    exact ⟨hmem, fun draws' res db'' h' => LeaseController.executes_again hne hrun hmem h'⟩

def blockExpiredFirst : Database :=
  ⟨⟨[⟨⟨"10.0.0.2", "10.255.0.4/30", "ee:ee:0a:ff:00:04"⟩, 0⟩,
    ⟨⟨"10.0.0.9", "10.254.0.4/30", "ee:ee:0a:fe:00:04"⟩, 3⟩], by decide, by decide⟩, 11⟩

theorem not_reclaimsOutside_blockExpiredFirst (n : ℕ) :
    ¬ (Overlay.small.controller 2 5).ReclaimsOutside "10.0.0.1" false n
      ⟨blockExpiredFirst.table.delete "10.0.0.1", 11⟩ := by
  have hblock : ∀ r, (Overlay.small.controller 2 5).Oldest
      ⟨blockExpiredFirst.table.delete "10.0.0.1", 11⟩ false r →
      r = ⟨⟨"10.0.0.2", "10.255.0.4/30", "ee:ee:0a:ff:00:04"⟩, 0⟩ := by
    intro r hr
    have hmem : r ∈ [⟨⟨"10.0.0.2", "10.255.0.4/30", "ee:ee:0a:ff:00:04"⟩, 0⟩,
      ⟨⟨"10.0.0.9", "10.254.0.4/30", "ee:ee:0a:fe:00:04"⟩, 3⟩] := hr.mem
    rcases List.mem_cons.mp hmem with h | h
    · exact h
    · have hle := hr.min ⟨⟨"10.0.0.2", "10.255.0.4/30", "ee:ee:0a:ff:00:04"⟩, 0⟩ (by decide)
        (by decide) (show (0 : ℤ) + 5 ≤ 11 by decide)
      rw [List.mem_singleton.mp h] at hle
      exact absurd hle (by decide)
  intro h
  cases h with
  | outside _ hold _ _ hout =>
    rw [hblock _ hold] at hout
    exact absurd hout (by decide)
  | refused _ hold hno _ =>
    rw [hblock _ hold] at hno
    exact hno ⟨"10.0.0.1", "10.255.0.4/30", "ee:ee:0a:ff:00:04"⟩ rfl (by decide)

theorem acquire_member_iff_reclaims :
    ∃ db', Executes ((Overlay.small.controller 2 5).acquireSubnetLease (fun _ => .first) "10.0.0.1"
        false) blockExpiredFirst (.ok (some ⟨"10.0.0.1", "10.255.0.4/30", "ee:ee:0a:ff:00:04"⟩))
        db' ∧
      ∀ draws res db'', Executes ((Overlay.small.controller 2 5).acquireSubnetLease draws "10.0.0.1"
          false) db' res db'' →
        res = .ok (some ⟨"10.0.0.1", "10.255.0.4/30", "ee:ee:0a:ff:00:04"⟩) ∧ db'' = db' :=
  ⟨_, executes_runWith _ _, ((acquire_member_iff (c := Overlay.small.controller 2 5)
    Overlay.small.newCIDRPool_eq "10.0.0.1" false blockExpiredFirst).mpr
      (Or.inr (Or.inr (not_reclaimsOutside_blockExpiredFirst _)))
    (fun _ => .first) _ _ (executes_runWith _ _)).2⟩

def otherNetworkExpired : Database :=
  ⟨⟨[⟨⟨"10.0.0.1", "10.255.0.4/30", "ee:ee:0a:ff:00:04"⟩, 10⟩,
    ⟨⟨"10.0.0.9", "10.254.0.4/30", "ee:ee:0a:fe:00:04"⟩, 0⟩], by decide, by decide⟩, 11⟩

/-- The lease of the other network is handed out, and the next call does not
return it again. -/
theorem acquire_returns_outside :
    newCIDRPool "10.255.0.0/29" 30 = .value (Overlay.small.controller 2 5).cidrPool ∧
      ∃ db', Executes ((Overlay.small.controller 2 5).acquireSubnetLease (fun _ => .first)
          "10.0.0.2" false) otherNetworkExpired
          (.ok (some ⟨"10.0.0.2", "10.254.0.4/30", "ee:ee:0a:fe:00:04"⟩)) db' ∧
        (Overlay.small.controller 2 5).cidrPool.isMember "10.254.0.4/30" = false ∧
        ∃ db'', Executes ((Overlay.small.controller 2 5).acquireSubnetLease (fun _ => .first)
          "10.0.0.2" false) db' (.ok none) db'' :=
  ⟨Overlay.small.newCIDRPool_eq, _, executes_runWith _ _, by decide, _, executes_runWith _ _⟩

end Silk.Leaser
