import Silk.LeaserExclusivity

/-!
# Acquiring after a reconfiguration

Rows granted under an earlier network or subnet prefix length stay in the table,
and availability compares subnet texts. A search that starts at a table hands
out a subnet of the pool that the table constraints admit, or a subnet that a
row of that table had. The first kind may overlap an earlier row under another
text, so overlapping leases are excluded exactly when no such subnet is offered.
-/

namespace Silk.Leaser

open GoNet Controller Resumption

section Reads

variable {allowed : Choice → Prop} {db db' : Database}

theorem runs_reads {q : Statement} (hq : q.reads = true) {res : Reply q}
    (h : (Program.call q Program.done : Prog (Reply q)).Runs exec allowed db res db') :
    db' = db := by
  obtain ⟨ch, -, -, rfl⟩ := h
  exact exec_reads ch db hq

theorem runs_allSubnets {single : Bool} {res : Except Err (List Lease)}
    (h : (DatabaseHandler.allSubnets single).Runs exec allowed db res db') :
    db' = db ∧ ∀ leases, res = .ok leases →
      ∀ s, s ∈ leases.map (·.overlaySubnet) ↔ Taken db single s := by
  cases single with
  | false =>
    refine ⟨runs_reads (q := .allBlockSubnets) rfl h, fun leases hres s => ?_⟩
    rw [hres] at h
    obtain ⟨ch, heq⟩ := runs_call_ok (q := .allBlockSubnets) h
    rw [← Except.ok.inj (Prod.mk.inj heq).1]
    simp only [allBlockSubnets, mem_map_leasesWhere, Taken, Bool.not_eq_true']
  | true =>
    refine ⟨runs_reads (q := .allSingleIPSubnets) rfl h, fun leases hres s => ?_⟩
    rw [hres] at h
    obtain ⟨ch, heq⟩ := runs_call_ok (q := .allSingleIPSubnets) h
    rw [← Except.ok.inj (Prod.mk.inj heq).1]
    simp only [allSingleIPSubnets, mem_map_leasesWhere, Taken]

theorem runs_oldestExpired {single : Bool} {E : ℤ} {res : Except Err (Option Lease)}
    (h : (DatabaseHandler.oldestExpired single E).Runs exec allowed db res db') :
    db' = db ∧ ∀ l, res = .ok (some l) → ∃ r ∈ db.table.rows, r.toLease = l := by
  cases single with
  | false =>
    refine ⟨runs_reads (q := .oldestExpiredBlockSubnet E) rfl h, fun l hres => ?_⟩
    rw [hres] at h
    obtain ⟨ch, heq⟩ := runs_call_ok (q := .oldestExpiredBlockSubnet E) h
    obtain ⟨r, hr, hl, -⟩ := oldestWhere_some (Except.ok.inj (Prod.mk.inj heq).1)
    exact ⟨r, hr, hl⟩
  | true =>
    refine ⟨runs_reads (q := .oldestExpiredSingleIP E) rfl h, fun l hres => ?_⟩
    rw [hres] at h
    obtain ⟨ch, heq⟩ := runs_call_ok (q := .oldestExpiredSingleIP E) h
    obtain ⟨r, hr, hl, -⟩ := oldestWhere_some (Except.ok.inj (Prod.mk.inj heq).1)
    exact ⟨r, hr, hl⟩

end Reads

def DisjointRows (t : Table) : Prop :=
  ∀ r ∈ t.rows, ∀ s ∈ t.rows, r ≠ s → rangesDisjoint r.overlaySubnet s.overlaySubnet

def Apart (t : Table) (subnet : String) : Prop :=
  ∀ r ∈ t.rows, r.overlaySubnet ≠ subnet → rangesDisjoint subnet r.overlaySubnet

theorem DisjointRows.apart {t : Table} (h : DisjointRows t) {r : Row} (hr : r ∈ t.rows) :
    Apart t r.overlaySubnet :=
  fun s hs hne => h r hr s hs fun heq => hne (by rw [heq])

theorem DisjointRows.delete {t : Table} (h : DisjointRows t) (u : String) :
    DisjointRows (t.delete u) :=
  fun r hr s hs => h r (Table.mem_delete.mp hr).1 s (Table.mem_delete.mp hs).1

/-- The states of a search for the host `u` that started at table `t`. -/
structure Searching (t : Table) (pool : StringSet) (u : String) (db : Database) : Prop where
  rows : ∀ r ∈ db.table.rows, r ∈ t.rows ∨ r.underlayIP = u ∧ Apart t r.overlaySubnet
  offers : ∀ s ∈ pool.keys, ∀ l, LeaseController.vtepLease u s = .ok l → db.table.Admits l →
    Apart t s

section Searching

variable {t : Table} {pool : StringSet} {u : String} {db db' : Database}

theorem Searching.apart (ht : DisjointRows t) (h : Searching t pool u db) {r : Row}
    (hr : r ∈ db.table.rows) : Apart t r.overlaySubnet := by
  rcases h.rows r hr with hrow | ⟨-, hapart⟩
  · exact ht.apart hrow
  · exact hapart

theorem Searching.delete (ht : DisjointRows t) (h : Searching t pool u db)
    (hfull : ∀ s ∈ pool.keys, ∃ r ∈ db.table.rows, r.overlaySubnet = s) (v : String) :
    Searching t pool u ⟨db.table.delete v, db.now⟩ where
  rows r hr := h.rows r (Table.mem_delete.mp hr).1
  offers s hs l hl hadm := by
    obtain ⟨r, hr, rfl⟩ := hfull s hs
    exact h.apart ht hr

theorem Searching.insert (h : Searching t pool u db) {l : Lease} (hu : l.underlayIP = u)
    (hl : Apart t l.overlaySubnet) (hadm : db.table.Admits l) :
    Searching t pool u ⟨db.table.insert l db.now hadm, db.now⟩ where
  rows r hr := by
    rcases (Table.mem_insert hadm).mp hr with hr | rfl
    · exact h.rows r hr
    · exact Or.inr ⟨hu, hl⟩
  offers s hs k hk hadm' := by
    have hdist := hadm'.2 _ (Table.mem_insert_self hadm)
    exact absurd (hu.trans (LeaseController.vtepLease_ok hk).1.symm) hdist.1

namespace LeaseController

variable {c : LeaseController} {allowed : Choice → Prop} {single : Bool}

theorem runs_addLease_searching {subnet : String} {res : Except Err (Option Lease)}
    (hS : Searching t pool u db)
    (hsub : ∀ l, vtepLease u subnet = .ok l → db.table.Admits l → Apart t subnet)
    (h : (addLease u subnet).Runs exec allowed db res db') :
    Searching t pool u db' ∧ ∀ l, res = .ok (some l) → Apart t l.overlaySubnet := by
  rw [addLease] at h
  cases hl : vtepLease u subnet with
  | error err =>
    rw [hl] at h
    obtain ⟨rfl, rfl⟩ := h
    exact ⟨hS, fun l hres => by cases hres⟩
  | ok lease =>
    rw [hl] at h
    obtain ⟨hu, hs⟩ := vtepLease_ok hl
    obtain ⟨added, db₁, hadd, hrest⟩ := Program.runs_bind.mp h
    have hS₁ : Searching t pool u db₁ := by
      cases runs_effect (q := .addEntry lease) hadd with
      | unchanged => exact hS
      | inserted hadm =>
        refine hS.insert hu ?_ hadm
        rw [hs]
        exact hsub lease hl hadm
    rcases added with err | _
    · obtain ⟨rfl, rfl⟩ := hrest
      exact ⟨hS₁, fun l hres => by cases hres⟩
    · obtain ⟨hadm, -⟩ := runs_addEntry_ok hadd
      obtain ⟨rfl, rfl⟩ := hrest
      refine ⟨hS₁, fun l hres => ?_⟩
      cases hres
      rw [hs]
      exact hsub lease hl hadm

theorem runs_tryAcquireSubnet_searching {draw : Draw} {res : Except Err String}
    (hne : "" ∉ (c.cidrPool.poolOf single).keys) (ht : DisjointRows t)
    (hS : Searching t (c.cidrPool.poolOf single) u db)
    (h : (c.tryAcquireSubnet draw single).Runs exec allowed db res db') :
    Searching t (c.cidrPool.poolOf single) u db' ∧ ∀ subnet, res = .ok subnet → subnet ≠ "" →
      ∀ l, vtepLease u subnet = .ok l → db'.table.Admits l → Apart t subnet := by
  rw [tryAcquireSubnet, tryAcquireAvailable] at h
  obtain ⟨listed, db₁, hall, hrest⟩ := Program.runs_bind.mp h
  obtain ⟨rfl, htaken⟩ := runs_allSubnets hall
  rcases listed with err | leases
  · obtain ⟨rfl, rfl⟩ := hrest
    exact ⟨hS, fun subnet hres => by cases hres⟩
  have havail := getAvailable_spec draw (leases.map (·.overlaySubnet)) (c.cidrPool.poolOf single)
  dsimp only at hrest
  generalize getAvailable draw _ _ = free at havail hrest
  rcases havail with ⟨hfull, rfl⟩ | ⟨hmem, -⟩
  · rw [if_neg (by simp)] at hrest
    have hrows : ∀ s ∈ (c.cidrPool.poolOf single).keys,
        ∃ r ∈ db₁.table.rows, r.overlaySubnet = s := by
      intro s hs
      obtain ⟨r, hr, -, hrs⟩ := (htaken leases rfl s).mp (hfull s hs)
      exact ⟨r, hr, hrs⟩
    obtain ⟨old, db₂, hold, hrest⟩ := Program.runs_bind.mp hrest
    obtain ⟨rfl, hrow⟩ := runs_oldestExpired hold
    rcases old with err | _ | lease
    · obtain ⟨rfl, rfl⟩ := hrest
      exact ⟨hS, fun subnet hres => by cases hres⟩
    · obtain ⟨rfl, rfl⟩ := hrest
      refine ⟨hS, fun subnet hres hsub => ?_⟩
      cases hres
      exact absurd rfl hsub
    · obtain ⟨r, hr, rfl⟩ := hrow lease rfl
      obtain ⟨del, db₃, hdel, hrest⟩ := Program.runs_bind.mp hrest
      have hS₃ : Searching t (c.cidrPool.poolOf single) u db₃ := by
        cases runs_effect (q := .deleteEntry r.underlayIP) hdel with
        | unchanged => exact hS
        | deleted => exact hS.delete ht hrows r.underlayIP
      rcases del with err | _
      · obtain ⟨rfl, rfl⟩ := hrest
        exact ⟨hS₃, fun subnet hres => by cases hres⟩
      · obtain ⟨rfl, rfl⟩ := hrest
        refine ⟨hS₃, fun subnet hres _ l _ _ => ?_⟩
        cases hres
        exact hS.apart ht hr
  · have hfree : free ≠ "" := fun h => hne (h ▸ hmem)
    rw [if_pos hfree] at hrest
    obtain ⟨rfl, rfl⟩ := hrest
    refine ⟨hS, fun subnet hres _ l hl hadm => ?_⟩
    cases hres
    exact hS.offers free hmem l hl hadm

theorem runs_tryAcquireLease_searching {draw : Draw} {res : Except Err (Option Lease)}
    (hne : "" ∉ (c.cidrPool.poolOf single).keys) (ht : DisjointRows t)
    (hS : Searching t (c.cidrPool.poolOf single) u db)
    (h : (c.tryAcquireLease draw u single).Runs exec allowed db res db') :
    Searching t (c.cidrPool.poolOf single) u db' ∧
      ∀ l, res = .ok (some l) → Apart t l.overlaySubnet := by
  rw [tryAcquireLease_eq] at h
  obtain ⟨chosen, db₁, hsub, hadd⟩ := Program.runs_bind.mp h
  obtain ⟨hS₁, hoffer⟩ := runs_tryAcquireSubnet_searching hne ht hS hsub
  rcases chosen with err | subnet
  · obtain ⟨rfl, rfl⟩ := hadd
    exact ⟨hS₁, fun l hres => by cases hres⟩
  · dsimp only at hadd
    by_cases hempty : subnet = ""
    · rw [if_pos hempty] at hadd
      obtain ⟨rfl, rfl⟩ := hadd
      exact ⟨hS₁, fun l hres => by cases hres⟩
    · rw [if_neg hempty] at hadd
      exact runs_addLease_searching hS₁ (hoffer subnet rfl hempty) hadd

theorem runs_attempts_searching {n : ℕ} {draws : ℕ → Draw} {result : Except Err (Option Lease)}
    {l : Lease} (hne : "" ∉ (c.cidrPool.poolOf single).keys) (ht : DisjointRows t)
    (hS : Searching t (c.cidrPool.poolOf single) u db) (hresult : result ≠ .ok (some l))
    (h : (c.attempts u single n draws result).Runs exec allowed db (.ok (some l)) db') :
    Searching t (c.cidrPool.poolOf single) u db' ∧ Apart t l.overlaySubnet := by
  induction n generalizing draws result db with
  | zero => exact absurd h.1.symm hresult
  | succ n ih =>
    rw [attempts] at h
    obtain ⟨res, db₁, htry, hrest⟩ := Program.runs_bind.mp h
    obtain ⟨hS₁, hapart⟩ := runs_tryAcquireLease_searching hne ht hS htry
    rcases res with err | _ | lease
    · exact ih hS₁ (by simp) hrest
    · exact ih hS₁ (by simp) hrest
    · obtain ⟨hres, rfl⟩ := hrest
      cases hres
      exact ⟨hS₁, hapart l rfl⟩

theorem exists_executes_free {l : Lease} {s : String}
    (hne : "" ∉ (c.cidrPool.poolOf single).keys) (hA : 0 < c.acquireSubnetLeaseAttempts)
    (hip : (parseIP u).bind to4 ≠ none)
    (hno : ∀ r ∈ db.table.rows, r.underlayIP = u → c.cidrPool.isMember r.overlaySubnet = false)
    (hs : s ∈ (c.cidrPool.poolOf single).keys) (hl : vtepLease u s = .ok l)
    (hadm : (db.table.delete u).Admits l) :
    ∃ draws, Executes (c.acquireSubnetLease draws u single) db (.ok (some l))
      ⟨(db.table.delete u).insert l db.now hadm, db.now⟩ := by
  have hfree : ¬ Taken ⟨db.table.delete u, db.now⟩ single s := by
    intro htaken
    obtain ⟨r, hr, -, hrs⟩ := htaken
    exact (hadm.2 r hr).2.1 (hrs.trans (vtepLease_ok hl).2.symm)
  obtain ⟨n, hn⟩ : ∃ n, c.acquireSubnetLeaseAttempts.toNat = n + 1 :=
    ⟨c.acquireSubnetLeaseAttempts.toNat - 1, by omega⟩
  have hacq : c.Acquired u single db (.ok (some l))
      ⟨(db.table.delete u).insert l db.now hadm, db.now⟩ := by
    refine .searched hip hno ?_
    rw [hn]
    exact .granted (.free hs hfree (.stored hl hadm))
  obtain ⟨draws, res, hrun, hsame⟩ := hacq.executes hne
  rw [(hsame l).mpr rfl] at hrun
  exact ⟨draws, hrun⟩

end LeaseController

end Searching

/-- On a table with disjoint rows, an acquire never returns a lease that overlaps
another row it leaves exactly when it does not search, or when every lease the
table admits on a subnet of the pool is disjoint from all remaining rows. -/
theorem acquire_disjoint_iff (o : Overlay) (A E : ℤ) (u : String) (single : Bool) (db : Database)
    (hdb : DisjointRows db.table) :
    (∀ draws l db', ((o.controller A E).acquireSubnetLease draws u single).Runs exec
        (fun _ => True) db (.ok (some l)) db' →
      ∀ r ∈ db'.table.rows, r.toLease ≠ l → rangesDisjoint l.overlaySubnet r.overlaySubnet) ↔
    A ≤ 0 ∨ (parseIP u).bind to4 = none ∨
      (∃ r ∈ db.table.rows, r.underlayIP = u ∧ o.pool.isMember r.overlaySubnet = true) ∨
      ∀ s ∈ (o.pool.poolOf single).keys, ∀ l, LeaseController.vtepLease u s = .ok l →
        (db.table.delete u).Admits l →
        ∀ r ∈ (db.table.delete u).rows, rangesDisjoint s r.overlaySubnet := by
  constructor
  · intro h
    by_cases hA : A ≤ 0
    · exact Or.inl hA
    by_cases hip : (parseIP u).bind to4 = none
    · exact Or.inr (Or.inl hip)
    by_cases hmem : ∃ r ∈ db.table.rows, r.underlayIP = u ∧ o.pool.isMember r.overlaySubnet = true
    · exact Or.inr (Or.inr (Or.inl hmem))
    refine Or.inr (Or.inr (Or.inr fun s hs l hl hadm r hr => ?_))
    have hno : ∀ r ∈ db.table.rows, r.underlayIP = u → o.pool.isMember r.overlaySubnet = false :=
      fun r hr hru => Bool.not_eq_true _ ▸ fun hin => hmem ⟨r, hr, hru, hin⟩
    obtain ⟨draws, hrun⟩ := LeaseController.exists_executes_free (c := o.controller A E)
      (o.empty_not_mem_poolOf single) (not_le.mp hA) hip hno hs hl hadm
    have hdisj := h draws l _ (hrun.mono fun _ _ => trivial) r
      ((Table.mem_insert hadm).mpr (Or.inl hr)) fun heq => (hadm.2 r hr).1 (by rw [heq])
    rw [(LeaseController.vtepLease_ok hl).2] at hdisj
    exact hdisj
  · intro h draws l db' hrun r hr hne
    rcases LeaseController.runs_acquireSubnetLease_cases hrun with
      ⟨rfl, q, hq, -, rfl, -⟩ | ⟨hip, hno, hatt⟩
    · exact hdb q hq r hr fun heq => hne (by rw [heq])
    rcases h with hA | hbad | ⟨q, hq, hqu, hmem⟩ | hoffer
    · have hzero : A.toNat = 0 := by omega
      change ((o.controller A E).attempts u single A.toNat draws (.ok none)).Runs
        exec _ _ _ _ at hatt
      rw [hzero] at hatt
      cases hatt.1
    · exact absurd hbad hip
    · have hout : o.pool.isMember q.overlaySubnet = false := hno q hq hqu
      rw [hmem] at hout
      cases hout
    · have hstart : Searching (db.table.delete u) (o.pool.poolOf single) u
          ⟨db.table.delete u, db.now⟩ :=
        ⟨fun r hr => Or.inl hr, fun s hs k hk hadm q hq _ => hoffer s hs k hk hadm q hq⟩
      obtain ⟨hS, hapart⟩ := LeaseController.runs_attempts_searching
        (o.empty_not_mem_poolOf single) (hdb.delete u) hstart (by simp) hatt
      obtain ⟨hu, hrow⟩ := LeaseController.runs_attempts_some (by simp) hatt
      have hother : r ≠ ⟨l, db.now⟩ := fun heq => hne (by rw [heq])
      rcases hS.rows r hr with ht | ⟨hru, -⟩
      · exact hapart r ht (Table.distinct_of_mem hr hrow hother).2.1
      · exact absurd (Table.eq_of_underlayIP hr hrow (hru.trans hu.symm)) hother

def blockAndSingleHeld (now : ℤ) : Database :=
  ⟨⟨[⟨⟨"10.0.0.1", "10.255.0.4/30", "ee:ee:0a:ff:00:04"⟩, 0⟩,
    ⟨⟨"10.0.0.3", "10.255.0.1/32", "ee:ee:0a:ff:00:01"⟩, 0⟩], by decide, by decide⟩, now⟩

theorem disjointRows_blockAndSingleHeld (now : ℤ) :
    DisjointRows (blockAndSingleHeld now).table := by
  have hgrants : AllRows Overlay.small.Grants (blockAndSingleHeld now) := by
    intro r hr
    rcases List.mem_pair.mp hr with rfl | rfl
    · exact Overlay.Grants.of_vtepLease (u := "10.0.0.1") (s := "10.255.0.4/30") (by decide) rfl
    · exact Overlay.Grants.of_vtepLease (u := "10.0.0.3") (s := "10.255.0.1/32") (by decide) rfl
  intro r hr s hs hne
  exact (hgrants r hr).rangesDisjoint (hgrants s hs) (Table.distinct_of_mem hr hs hne).2.1

theorem acquire_disjoint_iff_reclaims : ∃ db',
    Executes ((Overlay.small.controller 2 5).acquireSubnetLease (fun _ => .first) "10.0.0.2" false)
      (blockAndSingleHeld 7)
      (.ok (some ⟨"10.0.0.2", "10.255.0.4/30", "ee:ee:0a:ff:00:04"⟩)) db' ∧
    db'.table.rows.length = 2 ∧
    ∀ r ∈ db'.table.rows, r.toLease ≠ ⟨"10.0.0.2", "10.255.0.4/30", "ee:ee:0a:ff:00:04"⟩ →
      rangesDisjoint "10.255.0.4/30" r.overlaySubnet := by
  have hoffer : ∀ s ∈ (Overlay.small.pool.poolOf false).keys, ∀ l,
      LeaseController.vtepLease "10.0.0.2" s = .ok l →
      ((blockAndSingleHeld 7).table.delete "10.0.0.2").Admits l →
      ∀ r ∈ ((blockAndSingleHeld 7).table.delete "10.0.0.2").rows,
        rangesDisjoint s r.overlaySubnet := by
    intro s hs l hl hadm
    obtain rfl : s = "10.255.0.4/30" := List.mem_singleton.mp hs
    cases hl
    exact absurd hadm (by decide)
  refine ⟨_, executes_runWith _ _, by decide, ?_⟩
  exact (acquire_disjoint_iff Overlay.small 2 5 "10.0.0.2" false (blockAndSingleHeld 7)
    (disjointRows_blockAndSingleHeld 7)).mpr (Or.inr (Or.inr (Or.inr hoffer))) (fun _ => .first)
    ⟨"10.0.0.2", "10.255.0.4/30", "ee:ee:0a:ff:00:04"⟩ _
    ((executes_runWith _ _).mono fun _ _ => trivial)

def Overlay.finer : Overlay :=
  { Overlay.small with subnetMask := 31, prefix_le := by decide, mask_le := by decide }

def finerBlockHeld : Database :=
  ⟨⟨[⟨⟨"10.0.0.1", "10.255.0.6/31", "ee:ee:0a:ff:00:06"⟩, 0⟩], by decide, by decide⟩, 1⟩

/-- After the subnet prefix length changes from 31 to 30, the next host is granted
the block around the row of the first. -/
theorem acquire_overlaps_earlier_row :
    AllRows Overlay.finer.Grants finerBlockHeld ∧ DisjointRows finerBlockHeld.table ∧
      ∃ draws l db', Executes ((Overlay.small.controller 2 5).acquireSubnetLease draws "10.0.0.2"
          false) finerBlockHeld (.ok (some l)) db' ∧
        ∃ r ∈ db'.table.rows, r.toLease ≠ l ∧ ¬ rangesDisjoint l.overlaySubnet r.overlaySubnet := by
  refine ⟨?_, ?_, fun _ => .first, ⟨"10.0.0.2", "10.255.0.4/30", "ee:ee:0a:ff:00:04"⟩, _,
    executes_runWith _ _, ⟨⟨"10.0.0.1", "10.255.0.6/31", "ee:ee:0a:ff:00:06"⟩, 0⟩, by decide,
    by decide, ?_⟩
  · intro r hr
    obtain rfl := List.mem_singleton.mp hr
    exact Overlay.Grants.of_vtepLease (u := "10.0.0.1") (s := "10.255.0.6/31") (by decide) rfl
  · intro r hr s hs hne
    exact absurd ((List.mem_singleton.mp hr).trans (List.mem_singleton.mp hs).symm) hne
  · intro h
    exact h [10, 255, 0, 6] ⟨⟨_, _, rfl, rfl⟩, ⟨_, _, rfl, rfl⟩⟩

end Silk.Leaser
