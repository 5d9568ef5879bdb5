import Silk.LeaserExclusivity
import Silk.LeaserEviction

/-!
# How fresh an acquired lease is

An acquire that finds the host's own row in a pool returns it as it is, without
renewing it. The lease is then routable, and protected from other hosts, only
until the expiration time has passed since the row was last written, not since
the acquire. A lease that the acquire inserted is protected from the acquire on.
-/

namespace Silk.Leaser

open GoNet Controller Resumption

/-- The lease is held, or its subnet is outside the pools and no row on it is
older than `t`; then no acquire of another host can be granted it. -/
def Reserved (c : LeaseController) (l : Lease) (t : ℤ) (db : Database) : Prop :=
  Held l t db ∨ c.cidrPool.isMember l.overlaySubnet = false ∧
    ∀ r ∈ db.table.rows, r.overlaySubnet = l.overlaySubnet → t ≤ r.lastRenewedAt

section Reserved

variable {c : LeaseController} {allowed : Choice → Prop} {l k : Lease} {t : ℤ} {db : Database}

theorem Reserved.le_lastRenewedAt (h : Reserved c l t db) {r : Row} (hr : r ∈ db.table.rows)
    (hs : r.overlaySubnet = l.overlaySubnet) : t ≤ r.lastRenewedAt := by
  rcases h with h | h
  · exact (h.eq_of_overlaySubnet hr hs).2
  · exact h.2 r hr hs

theorem Reserved.delete (h : Reserved c l t db) {v : String}
    (hv : v ≠ l.underlayIP ∨ c.cidrPool.isMember l.overlaySubnet = false) :
    Reserved c l t ⟨db.table.delete v, db.now⟩ := by
  by_cases hne : v = l.underlayIP
  · have hout := hv.resolve_left (not_not.mpr hne)
    refine Or.inr ⟨hout, fun r hr hs => ?_⟩
    exact h.le_lastRenewedAt (Table.mem_delete.mp hr).1 hs
  · rcases h with h | h
    · exact Or.inl (h.delete hne)
    · exact Or.inr ⟨h.1, fun r hr => h.2 r (Table.mem_delete.mp hr).1⟩

theorem Reserved.insert (h : Reserved c l t db) (hnow : t ≤ db.now) (hadm : db.table.Admits k) :
    Reserved c l t ⟨db.table.insert k db.now hadm, db.now⟩ := by
  rcases h with h | h
  · exact Or.inl (h.insert hadm)
  · refine Or.inr ⟨h.1, fun r hr hs => ?_⟩
    rcases (Table.mem_insert hadm).mp hr with hr | rfl
    · exact h.2 r hr hs
    · exact hnow

theorem Reserved.renew (h : Reserved c l t db) (hnow : t ≤ db.now) (v : String) :
    Reserved c l t ⟨db.table.renew v db.now, db.now⟩ := by
  rcases h with h | h
  · exact Or.inl (h.renew hnow v)
  · refine Or.inr ⟨h.1, fun r hr hs => ?_⟩
    obtain ⟨s, hs', rfl⟩ := Table.mem_renew.mp hr
    rw [Table.touch_overlaySubnet] at hs
    rw [Table.touch]
    split_ifs
    · exact hnow
    · exact h.2 s hs' hs

theorem Reserved.outside (h : Reserved c l t db) {r : Row} (hr : r ∈ db.table.rows)
    (hu : r.underlayIP = l.underlayIP) (hout : c.cidrPool.isMember r.overlaySubnet = false) :
    c.cidrPool.isMember l.overlaySubnet = false := by
  rcases h with ⟨s, hs, rfl, -⟩ | h
  · rw [← Table.eq_of_underlayIP hr hs hu]
    exact hout
  · exact h.1

theorem acquireKeeps_reserved {now : ℤ} (hnow : t ≤ now)
    (hlive : now < t + c.leaseExpirationSeconds) (v : String) (single : Bool) :
    c.AcquireKeeps (fun db => db.now = now ∧ Reserved c l t db) v single fun res =>
      v ≠ l.underlayIP → ∀ k, res = .ok (some k) → k.overlaySubnet ≠ l.overlaySubnet where
  lookup db hI r hr hrv hmem hv k hk := by
    cases hk
    intro hs
    rcases hI.2 with h | h
    · have hl := (h.eq_of_overlaySubnet hr hs).1
      rw [← hl] at hv
      exact hv hrv.symm
    · rw [hs, h.1] at hmem
      cases hmem
  discard db hI r hr hrv hout db' hI' := by
    refine ⟨hI'.1, hI'.2.delete ?_⟩
    by_cases hv : v = l.underlayIP
    · exact Or.inr (hI.2.outside hr (hrv.trans hv) hout)
    · exact Or.inl hv
  reclaim db hI r hr hexp db' hI' := by
    refine ⟨hI'.1, hI'.2.delete ?_⟩
    rcases hI.2 with h | h
    · exact Or.inl (h.not_expired (hI.1 ▸ hlive) hr hexp)
    · exact Or.inr h.1
  insert subnet hoff k hk db hI hadm := by
    refine ⟨⟨hI.1, hI.2.insert (hI.1 ▸ hnow) hadm⟩, fun _ k' hk' hs => ?_⟩
    cases hk'
    rcases hI.2 with h | h
    · exact h.not_admits hs hadm
    · rw [(LeaseController.vtepLease_ok hk).2] at hs
      rcases hoff with hpool | ⟨db', hI', r, hr, hexp, -, hrs⟩
      · rw [← hs, CIDRPool.isMember_of_poolOf hpool] at h
        cases h.1
      · have hle := hI'.2.le_lastRenewedAt hr (hrs.trans hs)
        have hnow' := hI'.1
        rw [LeaseController.Expired] at hexp
        omega
  failed err _ k hk := by cases hk
  exhausted _ k hk := by cases hk

theorem renewKeeps_reserved {now : ℤ} (hnow : t ≤ now) (k : Lease) :
    LeaseController.RenewKeeps (fun db => db.now = now ∧ Reserved c l t db) k fun _ => True where
  insert _ _ hI hadm := ⟨hI.1, hI.2.insert (hI.1 ▸ hnow) hadm⟩
  touch _ hI := ⟨hI.1, hI.2.renew (hI.1 ▸ hnow) _⟩
  succeeded _ _ _ _ := trivial
  failed _ := trivial

theorem serve_reserved {now : ℤ} (hnow : t ≤ now) (hlive : now < t + c.leaseExpirationSeconds)
    {req : Request} (hreq : req ≠ .release l.underlayIP) :
    (serve c req).Safe exec allowed (fun db => db.now = now ∧ Reserved c l t db) fun res =>
      req.underlayIP ≠ l.underlayIP → ∀ k, res = .acquired (.ok (some k)) →
        k.overlaySubnet ≠ l.overlaySubnet := by
  cases req with
  | acquire draws v single =>
    refine serve_acquire_safe draws (acquireKeeps_reserved hnow hlive v single) ?_
    intro res hres hv k hk
    cases hk
    exact hres hv k rfl
  | release v =>
    have hv : v ≠ l.underlayIP := fun h => hreq (h ▸ rfl)
    apply serve_release_safe
    · exact fun db hI => ⟨hI.1, hI.2.delete (Or.inl hv)⟩
    · intro res _ k hk
      cases hk
  | renew k =>
    refine serve_renew_safe (renewKeeps_reserved hnow k) ?_
    intro res _ _ k' hk'
    cases hk'

theorem trace_reserved {es : List (Event Response Request Database)} {db₁ db₂ : Database}
    (ht : Trace (controllers c allowed timePasses fun _ _ => True)
      (Keeping l.underlayIP) db₁ es db₂)
    (hstart : t ≤ db₁.now) (hres : Reserved c l t db₁)
    (hlive : db₂.now < t + c.leaseExpirationSeconds) : t ≤ db₂.now ∧ Reserved c l t db₂ := by
  have hinv : t ≤ db₂.now ∧ (db₂.now < t + c.leaseExpirationSeconds → Reserved c l t db₂) := by
    refine ht.invariant
      (P := fun db => t ≤ db.now ∧ (db.now < t + c.leaseExpirationSeconds → Reserved c l t db))
      ?_ ?_ ⟨hstart, fun _ => hres⟩
    · intro _ db db' _ hP hdrift
      obtain ⟨htable, hnow⟩ := hdrift
      refine ⟨hP.1.trans hnow, fun hlive => ?_⟩
      have hres := hP.2 (hnow.trans_lt hlive)
      rw [Reserved, Held] at hres ⊢
      rw [htable]
      exact hres
    · intro _ req res db db' hcond hP hrun
      have hnow := runs_now hrun
      rw [hnow]
      refine ⟨hP.1, fun hlive => ?_⟩
      have hsafe := @serve_reserved c allowed l t db.now hP.1 hlive req (hcond req res rfl)
      exact (hsafe.runs ⟨rfl, hP.2 hlive⟩ hrun).1.2
  exact ⟨hinv.1, hinv.2 hlive⟩

end Reserved

/-- A returned lease is routable unless the host's own member row has expired,
and from any time at or after which that row was written until the expiration
time later no other host is granted its subnet, unless its host releases it. A
member row written earlier than the call can be lost before that. -/
theorem acquired_lease_live (c : LeaseController) (hE : 1 ≤ c.leaseExpirationSeconds)
    {allowed : Choice → Prop} {l : Lease} {draws : ℕ → Draw} {single : Bool} {db db₁ : Database}
    (hacq : (serve c (.acquire draws l.underlayIP single)).Runs exec allowed db
      (.acquired (.ok (some l))) db₁) :
    (∀ res db₂, Executes c.routableLeases db₁ res db₂ → ∃ leases, res = .ok leases ∧
      (l ∈ leases ↔ ∀ r ∈ db.table.rows, r.underlayIP = l.underlayIP →
        c.cidrPool.isMember r.overlaySubnet = true →
        db.now < r.lastRenewedAt + c.leaseExpirationSeconds)) ∧
      (∀ t ≤ db.now, (∀ r ∈ db.table.rows, r.underlayIP = l.underlayIP →
        c.cidrPool.isMember r.overlaySubnet = true → t ≤ r.lastRenewedAt) →
      ∀ es db₂, Trace (controllers c allowed timePasses fun _ _ => True) (Keeping l.underlayIP)
        db₁ es db₂ → db₂.now < t + c.leaseExpirationSeconds →
      ∀ draws' v single' k db₃, v ≠ l.underlayIP →
        (serve c (.acquire draws' v single')).Runs exec allowed db₂ (.acquired (.ok (some k))) db₃ →
        k.overlaySubnet ≠ l.overlaySubnet) ∧
      ∀ o : Overlay, c.cidrPool = o.pool → 1 ≤ c.acquireSubnetLeaseAttempts →
      (∀ ch, faultless ch → allowed ch) → ∀ r ∈ db.table.rows, r.underlayIP = l.underlayIP →
      c.cidrPool.isMember r.overlaySubnet = true → r.lastRenewedAt < db.now →
      ∃ es db₂, Trace (controllers c allowed timePasses fun _ _ => True) (Keeping l.underlayIP)
        db₁ es db₂ ∧ db₂.now < db.now + c.leaseExpirationSeconds ∧
        ∃ draws' v single' k db₃, v ≠ l.underlayIP ∧
          (serve c (.acquire draws' v single')).Runs exec allowed db₂
            (.acquired (.ok (some k))) db₃ ∧
          k.overlaySubnet = l.overlaySubnet := by
  have hnow := runs_now hacq
  obtain ⟨-, hcase⟩ := LeaseController.runs_acquireSubnetLease_some (runs_serve_acquire.mp hacq)
  refine ⟨?_, ?_, ?_⟩
  · intro res db₂ hrun
    obtain ⟨leases, hres, hmem⟩ := executes_routableLeases hrun
    refine ⟨leases, hres, (hmem l).trans ?_⟩
    rcases hcase with ⟨hmember, rfl, r, hr, rfl⟩ | ⟨hout, hrow⟩
    · constructor
      · intro h s hs hsu _
        obtain ⟨r', hr', hlive, hl⟩ := h
        have hsame : r'.underlayIP = s.underlayIP := by rw [hl, hsu]
        rw [← Table.eq_of_underlayIP hr' hs hsame]
        exact hlive
      · exact fun h => ⟨r, hr, h r hr rfl hmember, rfl⟩
    · constructor
      · intro _ s hs hsu hs'
        rw [hout s hs hsu] at hs'
        cases hs'
      · exact fun _ => ⟨_, hrow, by rw [hnow]; dsimp only; omega, rfl⟩
  · intro t ht hfresh es db₂ htrace hlive draws' v single' k db₃ hv hrun
    have hheld : Held l t db₁ := by
      rcases hcase with ⟨hmember, rfl, r, hr, rfl⟩ | ⟨-, hrow⟩
      · exact ⟨r, hr, rfl, hfresh r hr rfl hmember⟩
      · exact ⟨_, hrow, rfl, ht⟩
    obtain ⟨hstart, hres⟩ := trace_reserved htrace (hnow.symm ▸ ht) (Or.inl hheld) hlive
    have hsafe := @serve_reserved c allowed l t db₂.now hstart hlive
      (.acquire draws' v single') (by simp)
    exact (hsafe.runs ⟨rfl, hres⟩ hrun).2 hv k rfl
  · intro o hpool hA hallowed r hr hu hmem hstale
    rcases hcase with ⟨-, rfl, q, hq, rfl⟩ | ⟨hout, -⟩
    · obtain rfl := Table.eq_of_underlayIP hr hq hu
      obtain ⟨A, pool, E⟩ := c
      cases hpool
      obtain ⟨db₂, ⟨es, htrace⟩, hlive, draws', v, single', k, db₃, hv, hrun, hk⟩ :=
        exists_evicted o hA hE hr hmem hstale
      exact ⟨es, db₂, htrace.allowing hallowed, hlive, draws', v, single', k, db₃, hv,
        hrun.mono hallowed, hk⟩
    · rw [hout r hr hu] at hmem
      cases hmem

theorem acquired_lease_live_small :
    Executes (serve (Overlay.small.controller 2 5) (.acquire (fun _ => .first) "10.0.0.1" false))
      ⟨Table.empty, 0⟩
      (.acquired (.ok (some ⟨"10.0.0.1", "10.255.0.4/30", "ee:ee:0a:ff:00:04"⟩))) (blockHeld 0) ∧
    ∀ draws single k db₃,
      Executes (serve (Overlay.small.controller 2 5) (.acquire draws "10.0.0.2" single))
        (blockHeld 4) (.acquired (.ok (some k))) db₃ → k.overlaySubnet ≠ "10.255.0.4/30" := by
  have hacq : Executes (serve (Overlay.small.controller 2 5)
      (.acquire (fun _ => .first) "10.0.0.1" false)) ⟨Table.empty, 0⟩
      (.acquired (.ok (some ⟨"10.0.0.1", "10.255.0.4/30", "ee:ee:0a:ff:00:04"⟩))) (blockHeld 0) :=
    executes_runWith _ _
  obtain ⟨es, ht⟩ : ∃ es, Trace (controllers (Overlay.small.controller 2 5) faultless timePasses
      fun _ _ => True) (Keeping "10.0.0.1") (blockHeld 0) es (blockHeld 4) :=
    ⟨_, .drift (.nil _) ⟨rfl, by decide⟩ fun req res h => by cases h⟩
  refine ⟨hacq, fun draws single k db₃ => ?_⟩
  exact (acquired_lease_live (Overlay.small.controller 2 5) (by decide)
    (l := ⟨"10.0.0.1", "10.255.0.4/30", "ee:ee:0a:ff:00:04"⟩) hacq).2.1 0 le_rfl
    (fun r hr => absurd hr List.not_mem_nil) es _ ht (by decide) draws "10.0.0.2" single k db₃
    (by decide)

/-- Seven seconds after its only renewal a host acquires again and is given its
lease, which is not routable and which the next acquire of another host takes. -/
theorem acquired_lease_expired :
    (∃ es, Trace (controllers (Overlay.small.controller 2 5) faultless timePasses fun _ _ => True)
      Issued ⟨Table.empty, 0⟩ es (blockHeld 7)) ∧
    Executes (serve (Overlay.small.controller 2 5) (.acquire (fun _ => .first) "10.0.0.1" false))
      (blockHeld 7) (.acquired (.ok (some ⟨"10.0.0.1", "10.255.0.4/30", "ee:ee:0a:ff:00:04"⟩)))
      (blockHeld 7) ∧
    Executes (Overlay.small.controller 2 5).routableLeases (blockHeld 7) (.ok []) (blockHeld 7) ∧
    ∃ db', Executes (serve (Overlay.small.controller 2 5)
      (.acquire (fun _ => .first) "10.0.0.2" false)) (blockHeld 7)
      (.acquired (.ok (some ⟨"10.0.0.2", "10.255.0.4/30", "ee:ee:0a:ff:00:04"⟩))) db' :=
  ⟨trace_blockHeld (by decide), executes_runWith _ _, executes_runWith _ _, _, executes_runWith _ _⟩

end Silk.Leaser
