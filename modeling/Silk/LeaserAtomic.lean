import Silk.LeaserRules

/-!
# Uninterrupted execution without faults

Each statement and each operation has one lemma that says exactly which results
and databases an uninterrupted, faultless execution can end in. The retry loop
of `AcquireSubnetLease` is an inductive relation over attempts, and an attempt
takes a free subnet, reclaims the oldest expired row, or finds neither.
-/

namespace Silk.Leaser

open GoNet Controller Resumption

def faultless (ch : Choice) : Prop := ch.fault = none

abbrev Executes {α : Type} (p : Prog α) (db : Database) (res : α) (db' : Database) : Prop :=
  p.Runs exec faultless db res db'

theorem executes_done {α : Type} {a res : α} {db db' : Database} :
    Executes (.done a) db res db' ↔ res = a ∧ db' = db := Iff.rfl

theorem executes_runWith {α : Type} (p : Prog α) (db : Database) :
    Executes p db (p.runWith exec .quiet db).1 (p.runWith exec .quiet db).2 :=
  Program.runs_runWith (show faultless .quiet from rfl) p db

theorem executes_call {q : Statement} {db db' : Database} {res : Reply q} :
    Executes (.call q .done) db res db' ↔
      ∃ ch, faultless ch ∧ (res, db') = respond ch db q := by
  constructor
  · intro h
    obtain ⟨ch, hch, hres, hdb⟩ := h
    rw [exec_of_fault_none hch] at hres hdb
    exact ⟨ch, hch, by rw [hres, hdb]⟩
  · intro h
    obtain ⟨ch, hch, heq⟩ := h
    refine ⟨ch, hch, ?_⟩
    rw [exec_of_fault_none hch, ← heq]
    exact ⟨rfl, rfl⟩

theorem executes_reading {q : Statement} {db db' : Database} {res : Reply q}
    {answer : Choice → Answer q} (h : ∀ ch, respond ch db q = (.ok (answer ch), db)) :
    Executes (.call q .done) db res db' ↔
      db' = db ∧ ∃ ch, faultless ch ∧ res = .ok (answer ch) := by
  rw [executes_call]
  constructor
  · intro hex
    obtain ⟨ch, hch, heq⟩ := hex
    rw [h ch] at heq
    exact ⟨(Prod.mk.inj heq).2, ch, hch, (Prod.mk.inj heq).1⟩
  · intro hex
    obtain ⟨hdb, ch, hch, hres⟩ := hex
    exact ⟨ch, hch, by rw [h ch, hdb, hres]⟩

section Serve

variable {c : LeaseController} {allowed : Choice → Prop} {db db' : Database} {u : String}
  {l : Lease}

theorem runs_serve_acquire {draws : ℕ → Draw} {single : Bool} {res : Except Err (Option Lease)} :
    (serve c (.acquire draws u single)).Runs exec allowed db (.acquired res) db' ↔
      (c.acquireSubnetLease draws u single).Runs exec allowed db res db' :=
  Program.runs_map (f := Response.acquired) fun _ _ => Response.acquired.inj

theorem runs_serve_release {res : Except Err Unit} :
    (serve c (.release u)).Runs exec allowed db (.released res) db' ↔
      (LeaseController.releaseSubnetLease u).Runs exec allowed db res db' :=
  Program.runs_map (f := Response.released) fun _ _ => Response.released.inj

theorem runs_serve_renew {res : Except LeaseError Unit} :
    (serve c (.renew l)).Runs exec allowed db (.renewed res) db' ↔
      (LeaseController.renewSubnetLease l).Runs exec allowed db res db' :=
  Program.runs_map (f := Response.renewed) fun _ _ => Response.renewed.inj

end Serve

section Statements

variable {db db' : Database} {u : String} {l : Lease}

theorem executes_leaseForUnderlayIP {res : Except Err (Option Lease)} :
    Executes (DatabaseHandler.leaseForUnderlayIP u) db res db' ↔
      db' = db ∧ res = .ok (leaseForUnderlayIP db u) := by
  refine (executes_reading (q := .leaseForUnderlayIP u) fun _ => rfl).trans ?_
  constructor
  · intro h
    obtain ⟨hdb, ch, -, hres⟩ := h
    exact ⟨hdb, hres⟩
  · exact fun h => ⟨h.1, .quiet, rfl, h.2⟩

theorem executes_deleteEntry {res : Except Err Unit} :
    Executes (DatabaseHandler.deleteEntry u) db res db' ↔ (res, db') = deleteEntry db u := by
  refine (executes_call (q := .deleteEntry u)).trans ?_
  constructor
  · intro h
    obtain ⟨ch, -, heq⟩ := h
    exact heq
  · exact fun h => ⟨.quiet, rfl, h⟩

theorem executes_deleteEntry_of_mem {r : Row} (hr : r ∈ db.table.rows) {res : Except Err Unit} :
    Executes (DatabaseHandler.deleteEntry r.underlayIP) db res db' ↔
      res = .ok () ∧ db' = ⟨db.table.delete r.underlayIP, db.now⟩ := by
  rw [executes_deleteEntry, deleteEntry, if_pos ⟨r, hr, rfl⟩, Prod.mk.injEq]

theorem executes_addEntry {res : Except Err Unit} :
    Executes (DatabaseHandler.addEntry l) db res db' ↔
      (∃ h : db.table.Admits l, res = .ok () ∧ db' = ⟨db.table.insert l db.now h, db.now⟩) ∨
      (¬ db.table.Admits l ∧ db' = db ∧
        ∃ text, res = .error (errorf "adding entry" (.message text))) := by
  refine (executes_call (q := .addEntry l)).trans ?_
  by_cases hadm : db.table.Admits l
  · simp only [respond, addEntry, dif_pos hadm]
    constructor
    · intro h
      obtain ⟨ch, -, heq⟩ := h
      exact Or.inl ⟨hadm, Prod.mk.inj heq⟩
    · intro h
      rcases h with ⟨_, hres, hdb⟩ | ⟨hno, -⟩
      · exact ⟨.quiet, rfl, Prod.ext hres hdb⟩
      · exact absurd hadm hno
  · simp only [respond, addEntry, dif_neg hadm]
    constructor
    · intro h
      obtain ⟨ch, -, heq⟩ := h
      obtain ⟨hres, hdb⟩ := Prod.mk.inj heq
      exact Or.inr ⟨hadm, hdb, _, hres⟩
    · intro h
      rcases h with ⟨hyes, -⟩ | ⟨-, hdb, text, hres⟩
      · exact absurd hyes hadm
      · exact ⟨⟨none, .physical, text⟩, rfl, Prod.ext hres hdb⟩

def Taken (db : Database) (single : Bool) (subnet : String) : Prop :=
  ∃ r ∈ db.table.rows, likeSingleIP r.overlaySubnet = single ∧ r.overlaySubnet = subnet

theorem mem_map_leasesWhere {ch : Choice} {cond : Row → Bool} {s : String} :
    s ∈ (leasesWhere ch db cond).map (·.overlaySubnet) ↔
      ∃ r ∈ db.table.rows, cond r = true ∧ r.overlaySubnet = s := by
  simp only [List.mem_map, mem_leasesWhere]
  constructor
  · intro h
    obtain ⟨l, ⟨r, hr, hc, rfl⟩, hs⟩ := h
    exact ⟨r, hr, hc, hs⟩
  · intro h
    obtain ⟨r, hr, hc, hs⟩ := h
    exact ⟨r.toLease, ⟨r, hr, hc, rfl⟩, hs⟩

theorem executes_allSubnets {single : Bool} {res : Except Err (List Lease)}
    (h : Executes (DatabaseHandler.allSubnets single) db res db') :
    db' = db ∧ ∃ leases, res = .ok leases ∧
      ∀ s, s ∈ leases.map (·.overlaySubnet) ↔ Taken db single s := by
  cases single with
  | false =>
    obtain ⟨hdb, ch, -, hres⟩ := (executes_reading (q := .allBlockSubnets) fun _ => rfl).mp h
    refine ⟨hdb, _, hres, fun s => ?_⟩
    simp only [allBlockSubnets, mem_map_leasesWhere, Taken, Bool.not_eq_true']
  | true =>
    obtain ⟨hdb, ch, -, hres⟩ := (executes_reading (q := .allSingleIPSubnets) fun _ => rfl).mp h
    refine ⟨hdb, _, hres, fun s => ?_⟩
    simp only [allSingleIPSubnets, mem_map_leasesWhere, Taken]

/-- A row the reclaim path may delete: expired, of the requested kind, and none older. -/
structure LeaseController.Oldest (c : LeaseController) (db : Database) (single : Bool) (r : Row) :
    Prop where
  mem : r ∈ db.table.rows
  kind : likeSingleIP r.overlaySubnet = single
  expired : c.Expired db r
  min : ∀ s ∈ db.table.rows, likeSingleIP s.overlaySubnet = single → c.Expired db s →
    r.lastRenewedAt ≤ s.lastRenewedAt

def oldestCond (c : LeaseController) (db : Database) (single : Bool) (r : Row) : Bool :=
  (if single then likeSingleIP r.overlaySubnet else !likeSingleIP r.overlaySubnet) &&
    decide (r.lastRenewedAt + c.leaseExpirationSeconds ≤ db.now)

theorem oldestCond_iff {c : LeaseController} {single : Bool} {r : Row} :
    oldestCond c db single r = true ↔
      likeSingleIP r.overlaySubnet = single ∧ c.Expired db r := by
  cases single with
  | false =>
    rw [oldestCond, Bool.and_eq_true, decide_eq_true_eq, if_neg (by simp), Bool.not_eq_true']
    rfl
  | true =>
    rw [oldestCond, Bool.and_eq_true, decide_eq_true_eq, if_pos rfl]
    rfl

theorem executes_oldestExpired_iff {c : LeaseController} {single : Bool}
    {res : Except Err (Option Lease)} :
    Executes (DatabaseHandler.oldestExpired single c.leaseExpirationSeconds) db res db' ↔
      db' = db ∧ ∃ ch, faultless ch ∧ res = .ok (oldestWhere ch db (oldestCond c db single)) := by
  cases single with
  | false =>
    exact executes_reading (q := .oldestExpiredBlockSubnet c.leaseExpirationSeconds) fun _ => rfl
  | true =>
    exact executes_reading (q := .oldestExpiredSingleIP c.leaseExpirationSeconds) fun _ => rfl

theorem executes_oldestExpired {c : LeaseController} {single : Bool}
    {res : Except Err (Option Lease)}
    (h : Executes (DatabaseHandler.oldestExpired single c.leaseExpirationSeconds) db res db') :
    db' = db ∧
      ((res = .ok none ∧
          ∀ r ∈ db.table.rows, likeSingleIP r.overlaySubnet = single → ¬ c.Expired db r) ∨
        ∃ r, c.Oldest db single r ∧ res = .ok (some r.toLease)) := by
  obtain ⟨hdb, ch, -, hres⟩ := executes_oldestExpired_iff.mp h
  refine ⟨hdb, ?_⟩
  rw [hres]
  cases hold : oldestWhere ch db (oldestCond c db single) with
  | none =>
    refine Or.inl ⟨rfl, fun r hr hkind hexp => ?_⟩
    have hno := oldestWhere_none.mp hold r hr
    rw [oldestCond_iff.mpr ⟨hkind, hexp⟩] at hno
    cases hno
  | some l =>
    obtain ⟨r, hr, hl, hcond, hmin⟩ := oldestWhere_some hold
    obtain ⟨hkind, hexp⟩ := oldestCond_iff.mp hcond
    refine Or.inr ⟨r, ⟨hr, hkind, hexp, fun s hs hkind' hexp' => ?_⟩, by rw [hl]⟩
    exact hmin s hs (oldestCond_iff.mpr ⟨hkind', hexp'⟩)

theorem executes_oldestExpired_of_oldest {c : LeaseController} {single : Bool} {r : Row}
    (h : c.Oldest db single r) :
    Executes (DatabaseHandler.oldestExpired single c.leaseExpirationSeconds) db
      (.ok (some r.toLease)) db := by
  obtain ⟨ch, hch, hold⟩ := oldestWhere_of_oldest h.mem (oldestCond_iff.mpr ⟨h.kind, h.expired⟩)
    fun s hs hcond => h.min s hs (oldestCond_iff.mp hcond).1 (oldestCond_iff.mp hcond).2
  exact executes_oldestExpired_iff.mpr ⟨rfl, ch, hch, by rw [hold]⟩

end Statements

/-! The results of the parts of `AcquireSubnetLease`, free of draws and row orders. -/

namespace LeaseController

inductive Added (u subnet : String) (db : Database) :
    Except Err (Option Lease) → Database → Prop where
  | stored {l : Lease} : vtepLease u subnet = .ok l → (h : db.table.Admits l) →
      Added u subnet db (.ok (some l)) ⟨db.table.insert l db.now h, db.now⟩
  | refused (err : Err) : (∀ l, vtepLease u subnet = .ok l → ¬ db.table.Admits l) →
      Added u subnet db (.error err) db

inductive Attempt (c : LeaseController) (u : String) (single : Bool) (db : Database) :
    Except Err (Option Lease) → Database → Prop where
  | free {subnet : String} {res : Except Err (Option Lease)} {db' : Database} :
      subnet ∈ (c.cidrPool.poolOf single).keys → ¬ Taken db single subnet →
      Added u subnet db res db' → Attempt c u single db res db'
  | exhausted : (∀ s ∈ (c.cidrPool.poolOf single).keys, Taken db single s) →
      (∀ r ∈ db.table.rows, likeSingleIP r.overlaySubnet = single → ¬ c.Expired db r) →
      Attempt c u single db (.ok none) db
  | reclaimed {r : Row} {res : Except Err (Option Lease)} {db' : Database} :
      (∀ s ∈ (c.cidrPool.poolOf single).keys, Taken db single s) → c.Oldest db single r →
      r.overlaySubnet ≠ "" →
      Added u r.overlaySubnet ⟨db.table.delete r.underlayIP, db.now⟩ res db' →
      Attempt c u single db res db'
  | lost {r : Row} : (∀ s ∈ (c.cidrPool.poolOf single).keys, Taken db single s) →
      c.Oldest db single r → r.overlaySubnet = "" →
      Attempt c u single db (.ok none) ⟨db.table.delete r.underlayIP, db.now⟩

inductive Attempts (c : LeaseController) (u : String) (single : Bool) :
    ℕ → Except Err (Option Lease) → Database → Except Err (Option Lease) → Database → Prop where
  | spent {result : Except Err (Option Lease)} {db : Database} :
      Attempts c u single 0 result db result db
  | granted {n : ℕ} {result : Except Err (Option Lease)} {db db' : Database} {l : Lease} :
      Attempt c u single db (.ok (some l)) db' →
      Attempts c u single (n + 1) result db (.ok (some l)) db'
  | retried {n : ℕ} {result res res' : Except Err (Option Lease)} {db db₁ db' : Database} :
      Attempt c u single db res db₁ → (∀ l, res ≠ .ok (some l)) →
      Attempts c u single n res db₁ res' db' → Attempts c u single (n + 1) result db res' db'

inductive Acquired (c : LeaseController) (u : String) (single : Bool) (db : Database) :
    Except Err (Option Lease) → Database → Prop where
  | invalid : (parseIP u).bind to4 = none →
      Acquired c u single db (.error (.message ("invalid ipv4 address: " ++ u))) db
  | existing {r : Row} : (parseIP u).bind to4 ≠ none → r ∈ db.table.rows → r.underlayIP = u →
      c.cidrPool.isMember r.overlaySubnet = true → Acquired c u single db (.ok (some r.toLease)) db
  | searched {res : Except Err (Option Lease)} {db' : Database} : (parseIP u).bind to4 ≠ none →
      (∀ r ∈ db.table.rows, r.underlayIP = u → c.cidrPool.isMember r.overlaySubnet = false) →
      Attempts c u single c.acquireSubnetLeaseAttempts.toNat (.ok none)
        ⟨db.table.delete u, db.now⟩ res db' →
      Acquired c u single db res db'

section Forward

variable {c : LeaseController} {u : String} {single : Bool} {db db' : Database}
  {res : Except Err (Option Lease)}

theorem executes_addLease {subnet : String} (h : Executes (addLease u subnet) db res db') :
    Added u subnet db res db' := by
  rw [addLease] at h
  cases hl : vtepLease u subnet with
  | error err =>
    rw [hl] at h
    obtain ⟨rfl, rfl⟩ := executes_done.mp h
    refine .refused err fun l hl' => ?_
    rw [hl] at hl'
    cases hl'
  | ok lease =>
    rw [hl] at h
    obtain ⟨res₁, db₁, hadd, hrest⟩ := Program.runs_bind.mp h
    rcases executes_addEntry.mp hadd with ⟨hadm, rfl, rfl⟩ | ⟨hno, rfl, text, rfl⟩
    · obtain ⟨rfl, rfl⟩ := executes_done.mp hrest
      exact .stored hl hadm
    · obtain ⟨rfl, rfl⟩ := executes_done.mp hrest
      refine .refused _ fun l hl' => ?_
      rw [hl] at hl'
      cases hl'
      exact hno

theorem executes_tryAcquireLease {draw : Draw} (hne : "" ∉ (c.cidrPool.poolOf single).keys)
    (h : Executes (c.tryAcquireLease draw u single) db res db') :
    c.Attempt u single db res db' := by
  rw [tryAcquireLease_eq] at h
  obtain ⟨chosen, db₁, hsub, hadd⟩ := Program.runs_bind.mp h
  rw [tryAcquireSubnet, tryAcquireAvailable] at hsub
  obtain ⟨all, db₂, hall, hsub⟩ := Program.runs_bind.mp hsub
  obtain ⟨rfl, leases, rfl, htaken⟩ := executes_allSubnets hall
  have havail := getAvailable_spec draw (leases.map (·.overlaySubnet)) (c.cidrPool.poolOf single)
  dsimp only at hsub
  generalize getAvailable draw _ _ = free at havail hsub
  rcases havail with ⟨hfull, rfl⟩ | ⟨hmem, hfree⟩
  · have hfull' : ∀ s ∈ (c.cidrPool.poolOf single).keys, Taken db₂ single s :=
      fun s hs => (htaken s).mp (hfull s hs)
    rw [if_neg (by simp)] at hsub
    obtain ⟨old, db₃, hold, hsub⟩ := Program.runs_bind.mp hsub
    obtain ⟨rfl, ⟨rfl, hnone⟩ | ⟨r, hr, rfl⟩⟩ := executes_oldestExpired hold
    · obtain ⟨rfl, rfl⟩ := executes_done.mp hsub
      obtain ⟨rfl, rfl⟩ := executes_done.mp hadd
      exact .exhausted hfull' hnone
    · obtain ⟨del, db₄, hdel, hsub⟩ := Program.runs_bind.mp hsub
      obtain ⟨rfl, rfl⟩ := (executes_deleteEntry_of_mem hr.mem).mp hdel
      obtain ⟨rfl, rfl⟩ := executes_done.mp hsub
      dsimp only at hadd
      by_cases hempty : r.overlaySubnet = ""
      · rw [if_pos hempty] at hadd
        obtain ⟨rfl, rfl⟩ := executes_done.mp hadd
        exact .lost hfull' hr hempty
      · rw [if_neg hempty] at hadd
        exact .reclaimed hfull' hr hempty (executes_addLease hadd)
  · have hnonempty : free ≠ "" := fun h => hne (h ▸ hmem)
    rw [if_pos hnonempty] at hsub
    obtain ⟨rfl, rfl⟩ := executes_done.mp hsub
    dsimp only at hadd
    rw [if_neg hnonempty] at hadd
    exact .free hmem (fun h => hfree ((htaken _).mpr h)) (executes_addLease hadd)

theorem executes_attempts {n : ℕ} {draws : ℕ → Draw} {result : Except Err (Option Lease)}
    (hne : "" ∉ (c.cidrPool.poolOf single).keys)
    (h : Executes (c.attempts u single n draws result) db res db') :
    c.Attempts u single n result db res db' := by
  induction n generalizing draws result db with
  | zero =>
    obtain ⟨rfl, rfl⟩ := executes_done.mp h
    exact .spent
  | succ n ih =>
    rw [attempts] at h
    obtain ⟨res₁, db₁, htry, hrest⟩ := Program.runs_bind.mp h
    have hatt := executes_tryAcquireLease hne htry
    rcases res₁ with err | _ | lease
    · exact .retried hatt (fun l hl => by cases hl) (ih hrest)
    · exact .retried hatt (fun l hl => by cases hl) (ih hrest)
    · obtain ⟨rfl, rfl⟩ := executes_done.mp hrest
      exact .granted hatt

theorem executes_acquireSubnetLease {draws : ℕ → Draw}
    (hne : "" ∉ (c.cidrPool.poolOf single).keys)
    (h : Executes (c.acquireSubnetLease draws u single) db res db') :
    c.Acquired u single db res db' := by
  rw [acquireSubnetLease] at h
  by_cases hip : (parseIP u).bind to4 = none
  · rw [if_pos hip] at h
    obtain ⟨rfl, rfl⟩ := executes_done.mp h
    exact .invalid hip
  rw [if_neg hip] at h
  obtain ⟨found, db₁, hfound, hrest⟩ := Program.runs_bind.mp h
  obtain ⟨rfl, rfl⟩ := executes_leaseForUnderlayIP.mp hfound
  cases hlease : leaseForUnderlayIP db₁ u with
  | none =>
    rw [hlease] at hrest
    have hno := leaseForUnderlayIP_none.mp hlease
    refine .searched hip (fun r hr hu => absurd hu (hno r hr)) ?_
    rw [Table.delete_eq_self hno]
    exact executes_attempts hne hrest
  | some lease =>
    rw [hlease] at hrest
    obtain ⟨r, hr, hu, rfl⟩ := leaseForUnderlayIP_some.mp hlease
    dsimp only at hrest
    by_cases hmem : c.cidrPool.isMember r.overlaySubnet = true
    · rw [if_pos hmem] at hrest
      obtain ⟨rfl, rfl⟩ := executes_done.mp hrest
      exact .existing hip hr hu hmem
    · rw [if_neg hmem] at hrest
      obtain ⟨del, db₂, hdel, hrest⟩ := Program.runs_bind.mp hrest
      rw [← hu] at hdel
      obtain ⟨rfl, rfl⟩ := (executes_deleteEntry_of_mem hr).mp hdel
      rw [hu] at hrest
      refine .searched hip (fun s hs hsu => ?_) (executes_attempts hne hrest)
      rw [Table.eq_of_underlayIP hs hr (hsu.trans hu.symm)]
      exact Bool.not_eq_true _ ▸ hmem

end Forward

/-! Every result is reached by some draws and row orders, up to the error texts. -/

section Backward

variable {c : LeaseController} {u : String} {single : Bool} {db db' : Database}
  {res : Except Err (Option Lease)}

def SameLease (res res' : Except Err (Option Lease)) : Prop :=
  ∀ l, res' = .ok (some l) ↔ res = .ok (some l)

theorem Added.executes {subnet : String} (h : Added u subnet db res db') :
    ∃ res', Executes (addLease u subnet) db res' db' ∧ SameLease res res' := by
  rw [addLease]
  cases h with
  | stored hl hadm =>
    rw [hl]
    refine ⟨_, Program.runs_bind.mpr ⟨_, _, executes_addEntry.mpr (Or.inl ⟨hadm, rfl, rfl⟩), ?_⟩,
      fun l => Iff.rfl⟩
    exact executes_done.mpr ⟨rfl, rfl⟩
  | refused err hno =>
    cases hl : vtepLease u subnet with
    | error err' => exact ⟨_, executes_done.mpr ⟨rfl, rfl⟩, fun l => by simp⟩
    | ok lease =>
      refine ⟨_, Program.runs_bind.mpr ⟨_, _, executes_addEntry.mpr
        (Or.inr ⟨hno lease hl, rfl, "", rfl⟩), executes_done.mpr ⟨rfl, rfl⟩⟩, fun l => by simp⟩

theorem executes_allSubnets_self (db : Database) (single : Bool) :
    ∃ leases, Executes (DatabaseHandler.allSubnets single) db (.ok leases) db ∧
      ∀ s, s ∈ leases.map (·.overlaySubnet) ↔ Taken db single s := by
  have hall := executes_runWith (DatabaseHandler.allSubnets single) db
  obtain ⟨hdb, leases, hres, htaken⟩ := executes_allSubnets hall
  rw [hres, hdb] at hall
  exact ⟨leases, hall, htaken⟩

theorem getAvailable_full {draw : Draw} {leases : List Lease}
    (htaken : ∀ s, s ∈ leases.map (·.overlaySubnet) ↔ Taken db single s)
    (hfull : ∀ s ∈ (c.cidrPool.poolOf single).keys, Taken db single s) :
    getAvailable draw (leases.map (·.overlaySubnet)) (c.cidrPool.poolOf single) = "" := by
  rcases getAvailable_spec draw (leases.map (·.overlaySubnet)) (c.cidrPool.poolOf single) with
    ⟨-, hempty⟩ | ⟨hmem, hfree⟩
  · exact hempty
  · exact absurd ((htaken _).mpr (hfull _ hmem)) hfree

theorem executes_tryAcquireSubnet_free {subnet : String} (hempty : subnet ≠ "")
    (hs : subnet ∈ (c.cidrPool.poolOf single).keys) (hfree : ¬ Taken db single subnet) :
    ∃ draw, Executes (c.tryAcquireSubnet draw single) db (.ok subnet) db := by
  obtain ⟨leases, hall, htaken⟩ := executes_allSubnets_self db single
  obtain ⟨draw, hdraw⟩ := getAvailable_surjective hs fun h => hfree ((htaken subnet).mp h)
  refine ⟨draw, Program.runs_bind.mpr ⟨_, _, hall, ?_⟩⟩
  dsimp only
  rw [hdraw, if_pos hempty]
  exact executes_done.mpr ⟨rfl, rfl⟩

theorem executes_tryAcquireSubnet_exhausted (draw : Draw)
    (hfull : ∀ s ∈ (c.cidrPool.poolOf single).keys, Taken db single s)
    (hnone : ∀ r ∈ db.table.rows, likeSingleIP r.overlaySubnet = single → ¬ c.Expired db r) :
    Executes (c.tryAcquireSubnet draw single) db (.ok "") db := by
  obtain ⟨leases, hall, htaken⟩ := executes_allSubnets_self db single
  have hold := executes_runWith
    (DatabaseHandler.oldestExpired single c.leaseExpirationSeconds) db
  obtain ⟨hdb, ⟨hres, -⟩ | ⟨r, hr, -⟩⟩ := executes_oldestExpired hold
  · rw [hres, hdb] at hold
    refine Program.runs_bind.mpr ⟨_, _, hall, ?_⟩
    dsimp only
    rw [getAvailable_full htaken hfull, if_neg (by simp)]
    exact Program.runs_bind.mpr ⟨_, _, hold, executes_done.mpr ⟨rfl, rfl⟩⟩
  · exact absurd hr.expired (hnone r hr.mem hr.kind)

theorem executes_tryAcquireSubnet_oldest (draw : Draw) {r : Row}
    (hfull : ∀ s ∈ (c.cidrPool.poolOf single).keys, Taken db single s)
    (hr : c.Oldest db single r) :
    Executes (c.tryAcquireSubnet draw single) db (.ok r.overlaySubnet)
      ⟨db.table.delete r.underlayIP, db.now⟩ := by
  obtain ⟨leases, hall, htaken⟩ := executes_allSubnets_self db single
  refine Program.runs_bind.mpr ⟨_, _, hall, ?_⟩
  dsimp only
  rw [getAvailable_full htaken hfull, if_neg (by simp)]
  refine Program.runs_bind.mpr ⟨_, _, executes_oldestExpired_of_oldest hr, ?_⟩
  exact Program.runs_bind.mpr ⟨_, _, (executes_deleteEntry_of_mem hr.mem).mpr ⟨rfl, rfl⟩,
    executes_done.mpr ⟨rfl, rfl⟩⟩

theorem Attempt.executes (hne : "" ∉ (c.cidrPool.poolOf single).keys)
    (h : c.Attempt u single db res db') :
    ∃ draw res', Executes (c.tryAcquireLease draw u single) db res' db' ∧ SameLease res res' := by
  simp only [tryAcquireLease_eq]
  cases h with
  | @free subnet _ _ hs hfree hadd =>
    have hempty : subnet ≠ "" := fun h => hne (h ▸ hs)
    obtain ⟨draw, hsub⟩ := executes_tryAcquireSubnet_free hempty hs hfree
    obtain ⟨res', hrun, hsame⟩ := hadd.executes
    refine ⟨draw, res', Program.runs_bind.mpr ⟨_, _, hsub, ?_⟩, hsame⟩
    dsimp only
    rw [if_neg hempty]
    exact hrun
  | exhausted hfull hnone =>
    exact ⟨.first, _, Program.runs_bind.mpr ⟨_, _,
      executes_tryAcquireSubnet_exhausted .first hfull hnone, executes_done.mpr ⟨rfl, rfl⟩⟩,
      fun l => Iff.rfl⟩
  | reclaimed hfull hr hempty hadd =>
    obtain ⟨res', hrun, hsame⟩ := hadd.executes
    refine ⟨.first, res', Program.runs_bind.mpr ⟨_, _,
      executes_tryAcquireSubnet_oldest .first hfull hr, ?_⟩, hsame⟩
    dsimp only
    rw [if_neg hempty]
    exact hrun
  | lost hfull hr hempty =>
    refine ⟨.first, .ok none, Program.runs_bind.mpr ⟨_, _,
      executes_tryAcquireSubnet_oldest .first hfull hr, ?_⟩, fun l => Iff.rfl⟩
    dsimp only
    rw [if_pos hempty]
    exact executes_done.mpr ⟨rfl, rfl⟩

theorem Attempts.executes {n : ℕ} {result result' : Except Err (Option Lease)}
    (hne : "" ∉ (c.cidrPool.poolOf single).keys) (hsame : SameLease result result')
    (h : c.Attempts u single n result db res db') :
    ∃ draws res', Executes (c.attempts u single n draws result') db res' db' ∧
      SameLease res res' := by
  induction h generalizing result' with
  | spent => exact ⟨fun _ => .first, result', executes_done.mpr ⟨rfl, rfl⟩, hsame⟩
  | granted hatt =>
    obtain ⟨draw, res₁, hrun, hsame₁⟩ := hatt.executes hne
    rw [(hsame₁ _).mpr rfl] at hrun
    refine ⟨fun _ => draw, _, ?_, fun l => Iff.rfl⟩
    rw [attempts]
    exact Program.runs_bind.mpr ⟨_, _, hrun, executes_done.mpr ⟨rfl, rfl⟩⟩
  | retried hatt hnil hrest ih =>
    obtain ⟨draw, res₁, hrun, hsame₁⟩ := hatt.executes hne
    obtain ⟨draws, res', hruns, hsame'⟩ := ih hsame₁
    refine ⟨fun i => i.casesOn draw draws, res', ?_, hsame'⟩
    rw [attempts]
    refine Program.runs_bind.mpr ⟨_, _, hrun, ?_⟩
    rcases res₁ with err | _ | lease
    · exact hruns
    · exact hruns
    · exact absurd ((hsame₁ lease).mp rfl) (hnil lease)

theorem Acquired.executes (hne : "" ∉ (c.cidrPool.poolOf single).keys)
    (h : c.Acquired u single db res db') :
    ∃ draws res', Executes (c.acquireSubnetLease draws u single) db res' db' ∧
      SameLease res res' := by
  simp only [acquireSubnetLease]
  cases h with
  | invalid hip =>
    simp only [if_pos hip]
    exact ⟨fun _ => .first, _, executes_done.mpr ⟨rfl, rfl⟩, fun l => Iff.rfl⟩
  | existing hip hr hu hmem =>
    simp only [if_neg hip]
    refine ⟨fun _ => .first, _, Program.runs_bind.mpr ⟨_, _,
      executes_leaseForUnderlayIP.mpr ⟨rfl, rfl⟩, ?_⟩, fun l => Iff.rfl⟩
    rw [leaseForUnderlayIP_some.mpr ⟨_, hr, hu, rfl⟩]
    dsimp only
    rw [if_pos hmem]
    exact executes_done.mpr ⟨rfl, rfl⟩
  | searched hip hno hatt =>
    simp only [if_neg hip]
    obtain ⟨draws, res', hruns, hsame⟩ := hatt.executes hne fun l => Iff.rfl
    refine ⟨draws, res', Program.runs_bind.mpr ⟨_, _,
      executes_leaseForUnderlayIP.mpr ⟨rfl, rfl⟩, ?_⟩, hsame⟩
    cases hlease : leaseForUnderlayIP db u with
    | none =>
      rw [Table.delete_eq_self (leaseForUnderlayIP_none.mp hlease)] at hruns
      exact hruns
    | some lease =>
      obtain ⟨r, hr, hu, rfl⟩ := leaseForUnderlayIP_some.mp hlease
      dsimp only
      rw [if_neg (by simp [hno r hr hu]), ← hu]
      refine Program.runs_bind.mpr ⟨_, _, (executes_deleteEntry_of_mem hr).mpr ⟨rfl, rfl⟩, ?_⟩
      rw [hu]
      exact hruns

theorem executes_releaseSubnetLease (u : String) (db : Database) :
    Executes (releaseSubnetLease u) db (.ok ()) ⟨db.table.delete u, db.now⟩ := by
  by_cases hrow : ∃ r ∈ db.table.rows, r.underlayIP = u
  · obtain ⟨r, hr, rfl⟩ := hrow
    exact Program.runs_bind.mpr ⟨_, _, (executes_deleteEntry_of_mem hr).mpr ⟨rfl, rfl⟩,
      executes_done.mpr ⟨rfl, rfl⟩⟩
  · have hno : ∀ r ∈ db.table.rows, r.underlayIP ≠ u := fun r hr hu => hrow ⟨r, hr, hu⟩
    rw [Table.delete_eq_self hno]
    refine Program.runs_bind.mpr ⟨.error .recordNotAffected, db, executes_deleteEntry.mpr ?_,
      executes_done.mpr ⟨rfl, rfl⟩⟩
    rw [deleteEntry, if_neg hrow]

theorem executes_renewSubnetLease_insert {l : Lease} (hval : validate l = .ok ())
    (hadm : db.table.Admits l) :
    Executes (renewSubnetLease l) db (.ok ()) ⟨db.table.insert l db.now hadm, db.now⟩ := by
  have hnone : leaseForUnderlayIP db l.underlayIP = none :=
    leaseForUnderlayIP_none.mpr fun r hr => (hadm.2 r hr).1
  have hrow : rowForUnderlayIP ⟨db.table.insert l db.now hadm, db.now⟩ l.underlayIP =
      some ⟨l, db.now⟩ := rowForUnderlayIP_some.mpr ⟨Table.mem_insert_self hadm, rfl⟩
  rw [renewSubnetLease]
  rw [hval]
  refine Program.runs_bind.mpr ⟨_, _, executes_leaseForUnderlayIP.mpr ⟨rfl, rfl⟩, ?_⟩
  rw [hnone]
  refine Program.runs_bind.mpr ⟨_, _, executes_addEntry.mpr (Or.inl ⟨hadm, rfl, rfl⟩), ?_⟩
  refine Program.runs_bind.mpr ⟨.ok (), ⟨db.table.insert l db.now hadm, db.now⟩,
    (executes_call (q := .renewLeaseForUnderlayIP l.underlayIP)).mpr ⟨.quiet, rfl, ?_⟩, ?_⟩
  · simp only [respond, renewLeaseForUnderlayIP, Table.renew_insert_self]
    rfl
  · refine Program.runs_bind.mpr ⟨.ok db.now, _,
      (executes_call (q := .lastRenewedAtForUnderlayIP l.underlayIP)).mpr ⟨.quiet, rfl, ?_⟩,
      executes_done.mpr ⟨rfl, rfl⟩⟩
    simp only [respond, lastRenewedAtForUnderlayIP, hrow]

end Backward

end LeaseController

end Silk.Leaser
