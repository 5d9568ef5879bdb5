import Silk.LeaserAllocation

/-!
# The exclusivity window of a lease

A lease whose row was written at some time is held until the expiration time
has passed: no other host's operation can remove the row, be granted its subnet
or renew a lease on it. The statements hold for uninterrupted operations with
arbitrary arguments on an arbitrary table, and for any failing statement.
-/

namespace Silk.Leaser

open GoNet Controller Resumption

section Results

variable {allowed : Choice → Prop} {db db' : Database}

theorem runs_now {α : Type} {p : Prog α} {res : α} (h : p.Runs exec allowed db res db') :
    db'.now = db.now := by
  induction p generalizing db with
  | done a =>
    obtain ⟨-, rfl⟩ := h
    rfl
  | call q next ih =>
    obtain ⟨ch, -, h⟩ := h
    rw [ih _ h, (exec_effect ch db q).now_eq]

theorem runs_call_ok {q : Statement} {a : Answer q}
    (h : (Program.call q Program.done : Prog (Reply q)).Runs exec allowed db (.ok a) db') :
    ∃ ch, respond ch db q = (.ok a, db') := by
  obtain ⟨ch, -, hres, hdb⟩ := h
  have hok := exec_ok hres.symm
  exact ⟨ch, by rw [← hok, hres, hdb]⟩

theorem runs_effect {q : Statement} {res : Reply q}
    (h : (Program.call q Program.done : Prog (Reply q)).Runs exec allowed db res db') :
    Effect db q db' := by
  obtain ⟨ch, -, -, rfl⟩ := h
  exact exec_effect ch db q

theorem runs_addEntry_ok {l : Lease}
    (h : (DatabaseHandler.addEntry l).Runs exec allowed db (.ok ()) db') :
    ∃ hadm : db.table.Admits l, db' = ⟨db.table.insert l db.now hadm, db.now⟩ := by
  obtain ⟨ch, heq⟩ := runs_call_ok (q := .addEntry l) h
  simp only [respond, addEntry] at heq
  split_ifs at heq with hadm
  · exact ⟨hadm, (Prod.mk.inj heq).2.symm⟩
  · cases (Prod.mk.inj heq).1

theorem runs_leaseForUnderlayIP_ok {u : String} {found : Option Lease}
    (h : (DatabaseHandler.leaseForUnderlayIP u).Runs exec allowed db (.ok found) db') :
    leaseForUnderlayIP db u = found ∧ db' = db := by
  obtain ⟨ch, heq⟩ := runs_call_ok (q := .leaseForUnderlayIP u) h
  exact ⟨Except.ok.inj (Prod.mk.inj heq).1, (Prod.mk.inj heq).2.symm⟩

theorem runs_deleteEntry_ok {u : String}
    (h : (DatabaseHandler.deleteEntry u).Runs exec allowed db (.ok ()) db') :
    db' = ⟨db.table.delete u, db.now⟩ := by
  obtain ⟨ch, heq⟩ := runs_call_ok (q := .deleteEntry u) h
  simp only [respond, deleteEntry] at heq
  split_ifs at heq with hrow
  · exact (Prod.mk.inj heq).2.symm
  · cases (Prod.mk.inj heq).1

end Results

namespace LeaseController

variable {c : LeaseController} {allowed : Choice → Prop} {db db' : Database} {u : String}
  {single : Bool} {l : Lease}

theorem vtepLease_ok {subnet : String} (h : vtepLease u subnet = .ok l) :
    l.underlayIP = u ∧ l.overlaySubnet = subnet := by
  rw [vtepLease] at h
  split at h
  · cases h
  · split at h
    · cases h
    · cases h
      exact ⟨rfl, rfl⟩

theorem runs_addLease_some {subnet : String}
    (h : (addLease u subnet).Runs exec allowed db (.ok (some l)) db') :
    l.underlayIP = u ∧ ⟨l, db.now⟩ ∈ db'.table.rows := by
  rw [addLease] at h
  cases hl : vtepLease u subnet with
  | error err =>
    rw [hl] at h
    cases h.1
  | ok lease =>
    rw [hl] at h
    obtain ⟨res, db₁, hadd, hrest⟩ := Program.runs_bind.mp h
    rcases res with err | _
    · cases hrest.1
    · obtain ⟨hadm, rfl⟩ := runs_addEntry_ok hadd
      obtain ⟨hres, rfl⟩ := hrest
      cases hres
      exact ⟨(vtepLease_ok hl).1, Table.mem_insert_self hadm⟩

theorem runs_tryAcquireLease_some {draw : Draw}
    (h : (c.tryAcquireLease draw u single).Runs exec allowed db (.ok (some l)) db') :
    l.underlayIP = u ∧ ⟨l, db.now⟩ ∈ db'.table.rows := by
  rw [tryAcquireLease_eq] at h
  obtain ⟨chosen, db₁, hsub, hadd⟩ := Program.runs_bind.mp h
  rw [← runs_now hsub]
  rcases chosen with err | subnet
  · cases hadd.1
  · dsimp only at hadd
    by_cases hempty : subnet = ""
    · rw [if_pos hempty] at hadd
      cases hadd.1
    · rw [if_neg hempty] at hadd
      exact runs_addLease_some hadd

theorem runs_attempts_some {n : ℕ} {draws : ℕ → Draw} {result : Except Err (Option Lease)}
    (hresult : result ≠ .ok (some l))
    (h : (c.attempts u single n draws result).Runs exec allowed db (.ok (some l)) db') :
    l.underlayIP = u ∧ ⟨l, db.now⟩ ∈ db'.table.rows := by
  induction n generalizing draws result db with
  | zero => exact absurd h.1.symm hresult
  | succ n ih =>
    rw [attempts] at h
    obtain ⟨res, db₁, htry, hrest⟩ := Program.runs_bind.mp h
    rcases res with err | _ | lease
    · rw [← runs_now htry]
      exact ih (by simp) hrest
    · rw [← runs_now htry]
      exact ih (by simp) hrest
    · obtain ⟨hres, rfl⟩ := hrest
      cases hres
      exact runs_tryAcquireLease_some htry

theorem runs_acquireSubnetLease_cases {draws : ℕ → Draw}
    (h : (c.acquireSubnetLease draws u single).Runs exec allowed db (.ok (some l)) db') :
    (db' = db ∧ ∃ r ∈ db.table.rows, r.underlayIP = u ∧ r.toLease = l ∧
        c.cidrPool.isMember r.overlaySubnet = true) ∨
      (parseIP u).bind to4 ≠ none ∧
        (∀ r ∈ db.table.rows, r.underlayIP = u → c.cidrPool.isMember r.overlaySubnet = false) ∧
        (c.attempts u single c.acquireSubnetLeaseAttempts.toNat draws (.ok none)).Runs exec allowed
          ⟨db.table.delete u, db.now⟩ (.ok (some l)) db' := by
  rw [acquireSubnetLease] at h
  by_cases hip : (parseIP u).bind to4 = none
  · rw [if_pos hip] at h
    cases h.1
  rw [if_neg hip] at h
  obtain ⟨found, db₁, hfound, hrest⟩ := Program.runs_bind.mp h
  rcases found with err | _ | lease
  · cases hrest.1
  · obtain ⟨hnone, rfl⟩ := runs_leaseForUnderlayIP_ok hfound
    have hno := leaseForUnderlayIP_none.mp hnone
    refine Or.inr ⟨hip, fun r hr hru => absurd hru (hno r hr), ?_⟩
    rw [Table.delete_eq_self hno]
    exact hrest
  · obtain ⟨hlease, rfl⟩ := runs_leaseForUnderlayIP_ok hfound
    obtain ⟨r, hr, hru, rfl⟩ := leaseForUnderlayIP_some.mp hlease
    dsimp only at hrest
    by_cases hmem : c.cidrPool.isMember r.overlaySubnet = true
    · rw [if_pos hmem] at hrest
      obtain ⟨hres, rfl⟩ := hrest
      cases hres
      exact Or.inl ⟨rfl, r, hr, hru, rfl, hmem⟩
    · rw [if_neg hmem] at hrest
      obtain ⟨del, db₂, hdel, hrest⟩ := Program.runs_bind.mp hrest
      rcases del with err | _
      · cases hrest.1
      · rw [runs_deleteEntry_ok hdel] at hrest
        refine Or.inr ⟨hip, fun s hs hsu => ?_, hrest⟩
        rw [Table.eq_of_underlayIP hs hr (hsu.trans hru.symm)]
        exact Bool.not_eq_true _ ▸ hmem

theorem runs_acquireSubnetLease_some {draws : ℕ → Draw}
    (h : (c.acquireSubnetLease draws u single).Runs exec allowed db (.ok (some l)) db') :
    l.underlayIP = u ∧
      ((c.cidrPool.isMember l.overlaySubnet = true ∧ db' = db ∧
        ∃ r ∈ db.table.rows, r.toLease = l) ∨
        (∀ r ∈ db.table.rows, r.underlayIP = u → c.cidrPool.isMember r.overlaySubnet = false) ∧
          ⟨l, db.now⟩ ∈ db'.table.rows) := by
  rcases runs_acquireSubnetLease_cases h with ⟨rfl, r, hr, hru, rfl, hmem⟩ | ⟨-, hno, hatt⟩
  · exact ⟨hru, Or.inl ⟨hmem, rfl, r, hr, rfl⟩⟩
  · obtain ⟨hu, hrow⟩ := runs_attempts_some (by simp) hatt
    exact ⟨hu, Or.inr ⟨hno, hrow⟩⟩

theorem runs_confirmRenewal_ok (hl : ∃ r ∈ db.table.rows, r.toLease = l)
    (h : (confirmRenewal l).Runs exec allowed db (.ok ()) db') :
    ⟨l, db.now⟩ ∈ db'.table.rows := by
  obtain ⟨r, hr, rfl⟩ := hl
  rw [confirmRenewal] at h
  obtain ⟨res, db₁, hrenew, hrest⟩ := Program.runs_bind.mp h
  rcases res with err | _
  · cases hrest.1
  obtain ⟨ch, heq⟩ := runs_call_ok (q := .renewLeaseForUnderlayIP r.underlayIP) hrenew
  obtain ⟨last, db₂, hlast, hrest⟩ := Program.runs_bind.mp hrest
  rcases last with err | time
  · cases hrest.1
  obtain ⟨ch', heq'⟩ := runs_call_ok (q := .lastRenewedAtForUnderlayIP r.underlayIP) hlast
  obtain ⟨-, rfl⟩ := hrest
  have hdb : db₁ = renewLeaseForUnderlayIP db r.underlayIP := (Prod.mk.inj heq).2.symm
  have hdb' : db' = db₁ := (Prod.mk.inj heq').2.symm
  rw [hdb', hdb]
  refine Table.mem_renew.mpr ⟨r, hr, ?_⟩
  rw [Table.touch, if_pos rfl]

theorem runs_renewSubnetLease_ok (h : (renewSubnetLease l).Runs exec allowed db (.ok ()) db') :
    ⟨l, db.now⟩ ∈ db'.table.rows := by
  rw [renewSubnetLease] at h
  cases hval : validate l with
  | error err =>
    rw [hval] at h
    cases h.1
  | ok =>
    rw [hval] at h
    obtain ⟨found, db₁, hfound, hrest⟩ := Program.runs_bind.mp h
    rcases found with err | _ | existing
    · cases hrest.1
    · obtain ⟨-, rfl⟩ := runs_leaseForUnderlayIP_ok hfound
      obtain ⟨res, db₂, hadd, hrest⟩ := Program.runs_bind.mp hrest
      rcases res with err | _
      · cases hrest.1
      · rw [← runs_now hadd]
        obtain ⟨hadm, rfl⟩ := runs_addEntry_ok hadd
        exact runs_confirmRenewal_ok ⟨_, Table.mem_insert_self hadm, rfl⟩ hrest
    · obtain ⟨hlease, rfl⟩ := runs_leaseForUnderlayIP_ok hfound
      dsimp only at hrest
      by_cases hne : l ≠ existing
      · rw [if_pos hne] at hrest
        cases hrest.1
      · rw [if_neg hne] at hrest
        obtain ⟨r, hr, -, hrl⟩ := leaseForUnderlayIP_some.mp hlease
        exact runs_confirmRenewal_ok ⟨r, hr, hrl.trans (not_ne_iff.mp hne).symm⟩ hrest

end LeaseController

def Held (l : Lease) (t : ℤ) (db : Database) : Prop :=
  ∃ r ∈ db.table.rows, r.toLease = l ∧ t ≤ r.lastRenewedAt

section Held

variable {c : LeaseController} {allowed : Choice → Prop} {l k : Lease} {t : ℤ} {db : Database}

theorem Held.delete (h : Held l t db) {v : String} (hv : v ≠ l.underlayIP) :
    Held l t ⟨db.table.delete v, db.now⟩ := by
  obtain ⟨r, hr, rfl, ht⟩ := h
  exact ⟨r, Table.mem_delete.mpr ⟨hr, hv.symm⟩, rfl, ht⟩

theorem Held.insert (h : Held l t db) (hadm : db.table.Admits k) :
    Held l t ⟨db.table.insert k db.now hadm, db.now⟩ := by
  obtain ⟨r, hr, hl, ht⟩ := h
  exact ⟨r, (Table.mem_insert hadm).mpr (Or.inl hr), hl, ht⟩

theorem Held.renew (h : Held l t db) (hnow : t ≤ db.now) (v : String) :
    Held l t ⟨db.table.renew v db.now, db.now⟩ := by
  obtain ⟨r, hr, hl, ht⟩ := h
  refine ⟨_, Table.mem_renew.mpr ⟨r, hr, rfl⟩, by rw [Table.touch_toLease, hl], ?_⟩
  rw [Table.touch]
  split_ifs
  · exact hnow
  · exact ht

theorem Held.eq_of_overlaySubnet (h : Held l t db) {r : Row} (hr : r ∈ db.table.rows)
    (hs : r.overlaySubnet = l.overlaySubnet) : r.toLease = l ∧ t ≤ r.lastRenewedAt := by
  obtain ⟨s, hs', rfl, ht⟩ := h
  rw [Table.eq_of_overlaySubnet hr hs' hs]
  exact ⟨rfl, ht⟩

theorem Held.not_admits (h : Held l t db) (hs : k.overlaySubnet = l.overlaySubnet) :
    ¬ db.table.Admits k := by
  obtain ⟨r, hr, rfl, -⟩ := h
  exact fun hadm => (hadm.2 r hr).2.1 hs.symm

theorem Held.not_expired (h : Held l t db) (hnow : db.now < t + c.leaseExpirationSeconds)
    {r : Row} (hr : r ∈ db.table.rows) (hexp : c.Expired db r) : r.underlayIP ≠ l.underlayIP := by
  obtain ⟨s, hs, rfl, ht⟩ := h
  intro hu
  rw [Table.eq_of_underlayIP hr hs hu] at hexp
  rw [LeaseController.Expired] at hexp
  omega

def Excludes (l : Lease) (req : Request) (res : Response) : Prop :=
  (∀ k, res = .acquired (.ok (some k)) → k.overlaySubnet ≠ l.overlaySubnet) ∧
    ∀ k, req = .renew k → k.underlayIP ≠ l.underlayIP → k.overlaySubnet = l.overlaySubnet →
      res ≠ .renewed (.ok ())

def Spares (u : String) (req : Request) : Prop :=
  (∀ draws single, req ≠ .acquire draws u single) ∧ req ≠ .release u

theorem Spares.acquire {u v : String} (hv : v ≠ u) (draws : ℕ → Draw) (single : Bool) :
    Spares u (.acquire draws v single) := by
  constructor
  · intro draws' single' h
    cases h
    exact hv rfl
  · intro h
    cases h

theorem Spares.renew (u : String) (k : Lease) : Spares u (.renew k) := by
  constructor
  · intro draws single h
    cases h
  · intro h
    cases h

theorem acquireKeeps_held {now : ℤ} (hlive : now < t + c.leaseExpirationSeconds) {v : String}
    (hv : v ≠ l.underlayIP) (single : Bool) :
    c.AcquireKeeps (fun db => db.now = now ∧ Held l t db) v single
      fun res => ∀ k, res = .ok (some k) → k.overlaySubnet ≠ l.overlaySubnet where
  lookup db hI r hr hrv _ k hk := by
    cases hk
    intro hs
    have hl := (hI.2.eq_of_overlaySubnet hr hs).1
    rw [← hl] at hv
    exact hv hrv.symm
  discard _ _ _ _ _ _ db' hI' := ⟨hI'.1, hI'.2.delete hv⟩
  reclaim db hI r hr hexp db' hI' :=
    ⟨hI'.1, hI'.2.delete (hI.2.not_expired (hI.1 ▸ hlive) hr hexp)⟩
  insert subnet _ k _ db hI hadm := by
    refine ⟨⟨hI.1, hI.2.insert hadm⟩, fun k' hk' hs => ?_⟩
    cases hk'
    exact hI.2.not_admits hs hadm
  failed err k hk := by cases hk
  exhausted k hk := by cases hk

theorem renewKeeps_held {now : ℤ} (hnow : t ≤ now) (k : Lease) :
    LeaseController.RenewKeeps (fun db => db.now = now ∧ Held l t db) k fun res =>
      k.underlayIP ≠ l.underlayIP → k.overlaySubnet = l.overlaySubnet → res ≠ .ok () where
  insert _ db hI hadm := ⟨hI.1, hI.2.insert hadm⟩
  touch db hI := ⟨hI.1, hI.2.renew (hI.1 ▸ hnow) _⟩
  succeeded _ db hI hk hu hs := by
    rcases hk with hadm | ⟨r, hr, rfl⟩
    · exact absurd hadm (hI.2.not_admits hs)
    · have hl := (hI.2.eq_of_overlaySubnet hr hs).1
      rw [hl] at hu
      exact absurd rfl hu
  failed err _ _ h := by cases h

theorem serve_held {now : ℤ} (hnow : t ≤ now) (hlive : now < t + c.leaseExpirationSeconds)
    {req : Request} (hreq : Spares l.underlayIP req) :
    (serve c req).Safe exec allowed (fun db => db.now = now ∧ Held l t db) (Excludes l req) := by
  cases req with
  | acquire draws v single =>
    have hv : v ≠ l.underlayIP := fun h => hreq.1 draws single (h ▸ rfl)
    refine serve_acquire_safe draws (acquireKeeps_held hlive hv single) fun res hres => ⟨?_, ?_⟩
    · intro k hk
      cases hk
      exact hres k rfl
    · intro k hk
      cases hk
  | release v =>
    have hv : v ≠ l.underlayIP := fun h => hreq.2 (h ▸ rfl)
    apply serve_release_safe
    · exact fun db hI => ⟨hI.1, hI.2.delete hv⟩
    · intro res
      constructor
      · intro k hk
        cases hk
      · intro k hk
        cases hk
  | renew k =>
    refine serve_renew_safe (renewKeeps_held hnow k) fun res hres => ⟨?_, ?_⟩
    · intro k' hk'
      cases hk'
    · intro k' hk' hu hs hok
      cases hk'
      cases hok
      exact hres hu hs rfl

def Sparing (u : String) (_ : List (Event Response Request Database))
    (e : Event Response Request Database) : Prop :=
  ∀ req res, e = .served req res → Spares u req

theorem trace_held {es : List (Event Response Request Database)} {db₁ db₂ : Database}
    (ht : Trace (controllers c allowed timePasses fun _ _ => True)
      (Sparing l.underlayIP) db₁ es db₂)
    (hstart : t ≤ db₁.now) (hheld : Held l t db₁)
    (hlive : db₂.now < t + c.leaseExpirationSeconds) : t ≤ db₂.now ∧ Held l t db₂ := by
  have hinv : t ≤ db₂.now ∧ (db₂.now < t + c.leaseExpirationSeconds → Held l t db₂) := by
    refine ht.invariant
      (P := fun db => t ≤ db.now ∧ (db.now < t + c.leaseExpirationSeconds → Held l t db))
      ?_ ?_ ⟨hstart, fun _ => hheld⟩
    · intro _ db db' _ hP hdrift
      obtain ⟨htable, hnow⟩ := hdrift
      refine ⟨hP.1.trans hnow, fun hlive => ?_⟩
      obtain ⟨r, hr, hl⟩ := hP.2 (hnow.trans_lt hlive)
      exact ⟨r, htable ▸ hr, hl⟩
    · intro _ req res db db' hcond hP hrun
      have hnow := runs_now hrun
      rw [hnow]
      refine ⟨hP.1, fun hlive => ?_⟩
      have hsafe := @serve_held c allowed l t db.now hP.1 hlive req (hcond req res rfl)
      exact (hsafe.runs ⟨rfl, hP.2 hlive⟩ hrun).1.2
  exact ⟨hinv.1, hinv.2 hlive⟩

end Held

theorem executes_routableLeases {c : LeaseController} {db db' : Database}
    {res : Except Err (List Lease)} (h : Executes c.routableLeases db res db') :
    ∃ leases, res = .ok leases ∧ ∀ l, l ∈ leases ↔
      ∃ r ∈ db.table.rows, db.now < r.lastRenewedAt + c.leaseExpirationSeconds ∧ r.toLease = l := by
  rw [LeaseController.routableLeases] at h
  obtain ⟨active, db₁, hactive, hrest⟩ := Program.runs_bind.mp h
  obtain ⟨-, ch, -, rfl⟩ :=
    (executes_reading (q := .allActive c.leaseExpirationSeconds) fun _ => rfl).mp hactive
  obtain ⟨rfl, -⟩ := executes_done.mp hrest
  refine ⟨_, rfl, fun l => ?_⟩
  simp only [allActive, mem_leasesWhere, decide_eq_true_eq, gt_iff_lt]

/-- The lease was renewed, or acquired by inserting its row. -/
inductive Secures (c : LeaseController) (allowed : Choice → Prop) (l : Lease)
    (db db' : Database) : Prop where
  | renewed : (serve c (.renew l)).Runs exec allowed db (.renewed (.ok ())) db' →
      Secures c allowed l db db'
  | inserted (draws : ℕ → Draw) (single : Bool) :
      (serve c (.acquire draws l.underlayIP single)).Runs exec allowed db
        (.acquired (.ok (some l))) db' →
      (∀ r ∈ db.table.rows, r.toLease ≠ l) → Secures c allowed l db db'

theorem Secures.held {c : LeaseController} {allowed : Choice → Prop} {l : Lease}
    {db db' : Database} (h : Secures c allowed l db db') :
    db'.now = db.now ∧ Held l db.now db' := by
  cases h with
  | renewed hrun =>
    have hrow := LeaseController.runs_renewSubnetLease_ok (runs_serve_renew.mp hrun)
    exact ⟨runs_now hrun, _, hrow, rfl, le_rfl⟩
  | inserted draws single hrun hnew =>
    have hsome := LeaseController.runs_acquireSubnetLease_some (runs_serve_acquire.mp hrun)
    rcases hsome.2 with ⟨-, -, r, hr, hl⟩ | ⟨-, hrow⟩
    · exact absurd hl (hnew r hr)
    · exact ⟨runs_now hrun, _, hrow, rfl, le_rfl⟩

/-- Until the expiration time has passed since a lease was secured, and while its
host neither acquires nor releases, its row stays, it is routable, and no other
host is granted or renews its subnet. -/
theorem lease_exclusive (c : LeaseController) {allowed : Choice → Prop} {l : Lease}
    {db db₁ db₂ : Database} {es : List (Event Response Request Database)}
    (hsec : Secures c allowed l db db₁)
    (ht : Trace (controllers c allowed timePasses fun _ _ => True)
      (Sparing l.underlayIP) db₁ es db₂)
    (hlive : db₂.now < db.now + c.leaseExpirationSeconds) :
    (∃ r ∈ db₂.table.rows, r.toLease = l) ∧
      (∀ res db₃, Executes c.routableLeases db₂ res db₃ → ∃ leases, res = .ok leases ∧ l ∈ leases) ∧
      (∀ draws v single k db₃, v ≠ l.underlayIP →
        (serve c (.acquire draws v single)).Runs exec allowed db₂ (.acquired (.ok (some k))) db₃ →
        k.overlaySubnet ≠ l.overlaySubnet) ∧
      ∀ k db₃, k.underlayIP ≠ l.underlayIP → k.overlaySubnet = l.overlaySubnet →
        ¬ (serve c (.renew k)).Runs exec allowed db₂ (.renewed (.ok ())) db₃ := by
  obtain ⟨hnow, hheld⟩ := hsec.held
  obtain ⟨hstart, hheld⟩ := trace_held ht hnow.ge hheld hlive
  refine ⟨?_, ?_, ?_, ?_⟩
  · obtain ⟨r, hr, hl, -⟩ := hheld
    exact ⟨r, hr, hl⟩
  · intro res db₃ hrun
    obtain ⟨leases, hres, hmem⟩ := executes_routableLeases hrun
    obtain ⟨r, hr, hl, hr'⟩ := hheld
    exact ⟨leases, hres, (hmem l).mpr ⟨r, hr, by omega, hl⟩⟩
  · intro draws v single k db₃ hv hrun
    have hsafe := @serve_held c allowed l _ _ hstart hlive _ (.acquire hv draws single)
    exact (hsafe.runs ⟨rfl, hheld⟩ hrun).2.1 k rfl
  · intro k db₃ hu hs hrun
    have hsafe := @serve_held c allowed l _ _ hstart hlive _ (.renew l.underlayIP k)
    exact (hsafe.runs ⟨rfl, hheld⟩ hrun).2.2 k rfl hu hs rfl

theorem lease_exclusive_small :
    (∃ r ∈ (blockHeld 3).table.rows,
      r.toLease = ⟨"10.0.0.1", "10.255.0.4/30", "ee:ee:0a:ff:00:04"⟩) ∧
    ∀ draws single k db₃,
      Executes (serve (Overlay.small.controller 2 5) (.acquire draws "10.0.0.2" single))
        (blockHeld 3) (.acquired (.ok (some k))) db₃ → k.overlaySubnet ≠ "10.255.0.4/30" := by
  have hsec : Secures (Overlay.small.controller 2 5) faultless
      ⟨"10.0.0.1", "10.255.0.4/30", "ee:ee:0a:ff:00:04"⟩ ⟨Table.empty, 0⟩ (blockHeld 0) :=
    .inserted (fun _ => .first) false (executes_runWith _ _) fun r hr => absurd hr List.not_mem_nil
  obtain ⟨es, ht⟩ : ∃ es, Trace (controllers (Overlay.small.controller 2 5) faultless timePasses
      fun _ _ => True) (Sparing "10.0.0.1") (blockHeld 0) es (blockHeld 3) :=
    ⟨_, .drift (.nil _) ⟨rfl, by decide⟩ fun req res h => by cases h⟩
  obtain ⟨hrow, -, hother, -⟩ := lease_exclusive _ hsec ht (by decide)
  refine ⟨hrow, fun draws single k db₃ => ?_⟩
  exact hother draws "10.0.0.2" single k db₃ (by decide)

end Silk.Leaser
