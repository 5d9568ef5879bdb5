import Silk.LeaserMembership

/-!
# What a failed operation leaves behind

The statements of an operation are not one transaction. A renewal or a release
that fails has written nothing, but an acquire deletes before it inserts: its
own row when the subnet of that row has left the pools, and in each attempt an
expired row once the pool of the requested kind is exhausted. When the search
then ends without a lease, these rows are gone, and no other row is.
-/

namespace Silk.Leaser

open GoNet Controller Resumption

def Response.Failed : Response → Prop
  | .acquired res => ∀ lease, res ≠ .ok (some lease)
  | .released res => res ≠ .ok ()
  | .renewed res => res ≠ .ok ()

theorem rows_delete_of_mem {t : Table} {r : Row} (hr : r ∈ t.rows) :
    (t.delete r.underlayIP).rows = t.rows.filter (· ≠ r) := by
  rw [Table.delete]
  apply List.filter_congr
  intro s hs
  have hiff : s.underlayIP ≠ r.underlayIP ↔ s ≠ r := by
    constructor
    · exact fun hne heq => hne (by rw [heq])
    · exact fun hne heq => hne (Table.eq_of_underlayIP hs hr heq)
  exact decide_eq_decide.mpr hiff

theorem executes_releaseSubnetLease_ok {u : String} {res : Except Err Unit} {db db' : Database}
    (h : Executes (LeaseController.releaseSubnetLease u) db res db') : res = .ok () := by
  rw [LeaseController.releaseSubnetLease] at h
  obtain ⟨del, db₁, hdel, hrest⟩ := Program.runs_bind.mp h
  have hres := executes_deleteEntry.mp hdel
  rw [deleteEntry] at hres
  split_ifs at hres
  · obtain ⟨rfl, rfl⟩ := Prod.mk.inj hres
    exact hrest.1
  · obtain ⟨rfl, rfl⟩ := Prod.mk.inj hres
    exact hrest.1

theorem executes_confirmRenewal {l : Lease} {res : Except LeaseError Unit} {db db' : Database}
    (h : Executes (LeaseController.confirmRenewal l) db res db')
    (hrow : ∃ r ∈ db.table.rows, r.underlayIP = l.underlayIP) :
    res = .ok () ∧ db' = renewLeaseForUnderlayIP db l.underlayIP := by
  rw [LeaseController.confirmRenewal] at h
  obtain ⟨renewed, db₁, hrenew, hrest⟩ := Program.runs_bind.mp h
  obtain ⟨ch, -, heq⟩ := (executes_call (q := .renewLeaseForUnderlayIP l.underlayIP)).mp hrenew
  obtain ⟨rfl, rfl⟩ := Prod.mk.inj heq
  obtain ⟨last, db₂, hlast, hrest⟩ := Program.runs_bind.mp hrest
  obtain ⟨ch', -, heq'⟩ := (executes_call (q := .lastRenewedAtForUnderlayIP l.underlayIP)).mp hlast
  obtain ⟨r, hr, hu⟩ := hrow
  have hfound : rowForUnderlayIP (renewLeaseForUnderlayIP db l.underlayIP) l.underlayIP =
      some (Table.touch l.underlayIP db.now r) := by
    refine rowForUnderlayIP_some.mpr ⟨Table.mem_renew.mpr ⟨r, hr, rfl⟩, ?_⟩
    rw [Table.touch_underlayIP]
    exact hu
  have hok : last = .ok (Table.touch l.underlayIP db.now r).lastRenewedAt := by
    rw [(Prod.mk.inj heq').1]
    simp only [lastRenewedAtForUnderlayIP, hfound]
  rw [hok] at hrest
  exact ⟨hrest.1, hrest.2.trans (Prod.mk.inj heq').2⟩

theorem executes_renewSubnetLease_error {l : Lease} {err : LeaseError} {db db' : Database}
    (h : Executes (LeaseController.renewSubnetLease l) db (.error err) db') : db' = db := by
  rw [LeaseController.renewSubnetLease] at h
  cases hval : validate l with
  | error text =>
    rw [hval] at h
    exact h.2
  | ok =>
    rw [hval] at h
    obtain ⟨found, db₁, hfound, hrest⟩ := Program.runs_bind.mp h
    obtain ⟨rfl, rfl⟩ := executes_leaseForUnderlayIP.mp hfound
    cases hlease : leaseForUnderlayIP db₁ l.underlayIP with
    | none =>
      rw [hlease] at hrest
      obtain ⟨added, db₂, hadd, hrest⟩ := Program.runs_bind.mp hrest
      rcases executes_addEntry.mp hadd with ⟨hadm, rfl, rfl⟩ | ⟨-, rfl, text, rfl⟩
      · cases (executes_confirmRenewal hrest ⟨_, Table.mem_insert_self hadm, rfl⟩).1
      · exact hrest.2
    | some existing =>
      rw [hlease] at hrest
      dsimp only at hrest
      split_ifs at hrest with hne
      · exact hrest.2
      · obtain ⟨r, hr, hu, -⟩ := leaseForUnderlayIP_some.mp hlease
        cases (executes_confirmRenewal hrest ⟨r, hr, hu⟩).1

namespace LeaseController

/-- The table after is the one before without some rows that an attempt may
reclaim, at most one for each of `n` attempts. -/
def Forfeits (c : LeaseController) (single : Bool) (n : ℕ) (db db' : Database) : Prop :=
  ∃ gone : List Row, gone.length ≤ n ∧ db'.table.rows = db.table.rows.filter (· ∉ gone) ∧
    db'.now = db.now ∧ ∀ r ∈ gone, r ∈ db.table.rows ∧ likeSingleIP r.overlaySubnet = single ∧
      c.Expired db r ∧ ∀ s ∈ (c.cidrPool.poolOf single).keys, Taken db single s

section Forfeits

variable {c : LeaseController} {u : String} {single : Bool} {n : ℕ} {db db' : Database}
  {res : Except Err (Option Lease)}

theorem Forfeits.none (c : LeaseController) (single : Bool) (n : ℕ) (db : Database) :
    c.Forfeits single n db db :=
  ⟨[], Nat.zero_le n, by simp, rfl, fun r hr => absurd hr List.not_mem_nil⟩

theorem Forfeits.oldest {r : Row} (hold : c.Oldest db single r)
    (hfull : ∀ s ∈ (c.cidrPool.poolOf single).keys, Taken db single s) :
    c.Forfeits single 1 db ⟨db.table.delete r.underlayIP, db.now⟩ := by
  refine ⟨[r], le_rfl, ?_, rfl, fun s hs => ?_⟩
  · rw [rows_delete_of_mem hold.mem]
    simp
  · rw [List.mem_singleton.mp hs]
    exact ⟨hold.mem, hold.kind, hold.expired, hfull⟩

theorem Forfeits.trans {m : ℕ} {db₁ : Database} (h : c.Forfeits single m db db₁)
    (h' : c.Forfeits single n db₁ db') : c.Forfeits single (m + n) db db' := by
  obtain ⟨gone, hlen, hrows, hnow, hgone⟩ := h
  obtain ⟨gone', hlen', hrows', hnow', hgone'⟩ := h'
  have hsub : ∀ r ∈ db₁.table.rows, r ∈ db.table.rows := by
    rw [hrows]
    exact fun r hr => (List.mem_filter.mp hr).1
  refine ⟨gone ++ gone', ?_, ?_, hnow'.trans hnow, fun r hr => ?_⟩
  · rw [List.length_append]
    omega
  · rw [hrows', hrows, List.filter_filter]
    apply List.filter_congr
    intro r _
    simp [Bool.and_comm]
  · rcases List.mem_append.mp hr with hr | hr
    · exact hgone r hr
    · obtain ⟨hmem, hkind, hexp, hfull⟩ := hgone' r hr
      refine ⟨hsub r hmem, hkind, ?_, fun s hs => ?_⟩
      · rw [Expired, ← hnow]
        exact hexp
      · obtain ⟨q, hq, hq'⟩ := hfull s hs
        exact ⟨q, hsub q hq, hq'⟩

theorem Added.failed {subnet : String} (h : Added u subnet db res db')
    (hres : ∀ l, res ≠ .ok (some l)) : db' = db := by
  cases h with
  | stored hl hadm => exact absurd rfl (hres _)
  | refused err hno => rfl

theorem Attempt.forfeits (h : c.Attempt u single db res db') (hres : ∀ l, res ≠ .ok (some l)) :
    c.Forfeits single 1 db db' := by
  cases h with
  | free hmem hfree hadd =>
    rw [hadd.failed hres]
    exact .none c single 1 db
  | exhausted hfull hnone => exact .none c single 1 db
  | reclaimed hfull hold hempty hadd =>
    rw [hadd.failed hres]
    exact .oldest hold hfull
  | lost hfull hold hempty => exact .oldest hold hfull

theorem Attempts.forfeits {result : Except Err (Option Lease)}
    (h : c.Attempts u single n result db res db') (hres : ∀ l, res ≠ .ok (some l)) :
    c.Forfeits single n db db' := by
  induction h with
  | spent => exact .none c single 0 _
  | granted hatt => exact absurd rfl (hres _)
  | @retried n result res₁ res' db db₁ db' hatt hfail hrest ih =>
    rw [Nat.add_comm]
    exact (hatt.forfeits hfail).trans (ih hres)

theorem Acquired.forfeits (h : c.Acquired u single db res db') (hres : ∀ l, res ≠ .ok (some l)) :
    db'.now = db.now ∧
      ∃ gone : List Row, db'.table.rows = db.table.rows.filter (· ∉ gone) ∧
        (gone.filter (·.underlayIP ≠ u)).length ≤ c.acquireSubnetLeaseAttempts.toNat ∧
        ∀ r ∈ gone, r ∈ db.table.rows ∧
          ((r.underlayIP = u ∧ c.cidrPool.isMember r.overlaySubnet = false) ∨
            r.underlayIP ≠ u ∧ likeSingleIP r.overlaySubnet = single ∧ c.Expired db r ∧
              ∀ s ∈ (c.cidrPool.poolOf single).keys, Taken db single s) := by
  cases h with
  | invalid hip => exact ⟨rfl, [], by simp, by simp, fun r hr => absurd hr List.not_mem_nil⟩
  | existing hip hr hu hmem => exact absurd rfl (hres _)
  | searched hip hno hatt =>
    obtain ⟨gone, hlen, hrows, hnow, hgone⟩ := hatt.forfeits hres
    -- the row of the host itself, if any, is gone before the first attempt
    refine ⟨hnow, db.table.rows.filter (·.underlayIP = u) ++ gone, ?_, ?_, fun r hr => ?_⟩
    · rw [hrows, Table.delete, List.filter_filter]
      apply List.filter_congr
      intro r hr
      simp [hr, Bool.and_comm]
    · rw [List.filter_append, List.filter_filter]
      have hown : db.table.rows.filter (fun r => decide (r.underlayIP ≠ u) &&
          decide (r.underlayIP = u)) = [] := by simp
      rw [hown, List.nil_append]
      exact (List.length_filter_le _ _).trans hlen
    · rcases List.mem_append.mp hr with hr | hr
      · have hown := List.mem_filter.mp hr
        have hu : r.underlayIP = u := of_decide_eq_true hown.2
        exact ⟨hown.1, Or.inl ⟨hu, hno r hown.1 hu⟩⟩
      · obtain ⟨hmem, hkind, hexp, hfull⟩ := hgone r hr
        have hmem := Table.mem_delete.mp hmem
        refine ⟨hmem.1, Or.inr ⟨hmem.2, hkind, hexp, fun s hs => ?_⟩⟩
        obtain ⟨q, hq, hq'⟩ := hfull s hs
        exact ⟨q, (Table.mem_delete.mp hq).1, hq'⟩

end Forfeits
end LeaseController

/-- A failed renewal or release changes nothing. A failed acquire removes at most
the host's own row when its subnet is in no pool, and for each attempt an
expired row of the requested kind when that pool is exhausted; the other rows
stay as they are. -/
theorem failed_operation_forfeits {subnetRange : String} {subnetMask : ℤ} {c : LeaseController}
    (hpool : newCIDRPool subnetRange subnetMask = .value c.cidrPool) {req : Request}
    {res : Response} {db db' : Database} (h : Executes (serve c req) db res db')
    (hfail : res.Failed) :
    ((∀ draws u single, req ≠ .acquire draws u single) → db' = db) ∧
    ∀ draws u single, req = .acquire draws u single → db'.now = db.now ∧
      ∃ gone : List Row, db'.table.rows = db.table.rows.filter (· ∉ gone) ∧
        (gone.filter (·.underlayIP ≠ u)).length ≤ c.acquireSubnetLeaseAttempts.toNat ∧
        ∀ r ∈ gone, r ∈ db.table.rows ∧
          ((r.underlayIP = u ∧ c.cidrPool.isMember r.overlaySubnet = false) ∨
            r.underlayIP ≠ u ∧ likeSingleIP r.overlaySubnet = single ∧ c.Expired db r ∧
              ∀ s ∈ (c.cidrPool.poolOf single).keys, Taken db single s) := by
  cases req with
  | acquire draws u single =>
    refine ⟨fun hne => absurd rfl (hne draws u single), fun draws' u' single' heq => ?_⟩
    cases heq
    obtain ⟨result, db₁, hrun, rfl, rfl⟩ := Program.runs_bind.mp h
    have hacq := LeaseController.executes_acquireSubnetLease
      (empty_not_mem_poolOf_of_new hpool single) hrun
    exact hacq.forfeits hfail
  | release u =>
    refine ⟨fun _ => ?_, fun _ _ _ heq => by cases heq⟩
    obtain ⟨result, db₁, hrun, rfl, rfl⟩ := Program.runs_bind.mp h
    exact absurd (executes_releaseSubnetLease_ok hrun) hfail
  | renew lease =>
    refine ⟨fun _ => ?_, fun _ _ _ heq => by cases heq⟩
    obtain ⟨result, db₁, hrun, rfl, rfl⟩ := Program.runs_bind.mp h
    rcases result with err | _
    · exact executes_renewSubnetLease_error hrun
    · exact absurd rfl hfail

def ownRowOutside : Database :=
  ⟨⟨[⟨⟨"10.0.0.1", "10.254.0.4/30", "ee:ee:0a:fe:00:04"⟩, 10⟩,
    ⟨⟨"10.0.0.2", "10.255.0.4/30", "ee:ee:0a:ff:00:04"⟩, 10⟩], by decide, by decide⟩, 11⟩

def otherRowKept : Database :=
  ⟨⟨[⟨⟨"10.0.0.2", "10.255.0.4/30", "ee:ee:0a:ff:00:04"⟩, 10⟩], by decide, by decide⟩, 11⟩

theorem failed_operation_forfeits_own :
    ∃ gone : List Row, otherRowKept.table.rows = ownRowOutside.table.rows.filter (· ∉ gone) ∧
      ∀ r ∈ gone, r.underlayIP = "10.0.0.1" ∧
        (Overlay.small.controller 2 5).cidrPool.isMember r.overlaySubnet = false := by
  have hrun : Executes (serve (Overlay.small.controller 2 5)
      (.acquire (fun _ => .first) "10.0.0.1" false)) ownRowOutside (.acquired (.ok none))
      otherRowKept := executes_runWith _ _
  obtain ⟨-, hacquire⟩ := failed_operation_forfeits (c := Overlay.small.controller 2 5)
    Overlay.small.newCIDRPool_eq hrun (fun _ => by simp)
  obtain ⟨-, gone, hrows, -, hgone⟩ := hacquire (fun _ => .first) "10.0.0.1" false rfl
  refine ⟨gone, hrows, fun r hr => ?_⟩
  obtain ⟨hmem, hown | ⟨-, -, hexp, -⟩⟩ := hgone r hr
  · exact hown
  · have hlive : ∀ s ∈ ownRowOutside.table.rows, ¬ s.lastRenewedAt + 5 ≤ 11 := by decide
    exact absurd hexp (hlive r hmem)

/-- The acquire finds no lease, and the row of host 1 is gone. An acquire whose address does not fit
its column deletes the expired row of host 1, and fails to store its own. -/
theorem failed_acquire_deletes :
    (∃ db', Executes (serve (Overlay.small.controller 2 5)
        (.acquire (fun _ => .first) "10.0.0.1" false)) ownRowOutside (.acquired (.ok none)) db' ∧
      Response.Failed (.acquired (.ok none)) ∧ db'.table ≠ ownRowOutside.table) ∧
    ∃ err db', Executes (serve (Overlay.small.controller 2 5)
        (.acquire (fun _ => .first) "::ffff:10.0.0.11" false)) (blockHeld 7)
        (.acquired (.error err)) db' ∧
      Response.Failed (.acquired (.error err)) ∧ db'.table ≠ (blockHeld 7).table := by
  constructor
  · refine ⟨otherRowKept, executes_runWith _ _, fun _ => by simp, fun h => ?_⟩
    have hrows : otherRowKept.table.rows ≠ ownRowOutside.table.rows := by decide
    exact hrows (congrArg Table.rows h)
  · refine ⟨_, ⟨Table.empty, 7⟩, executes_runWith _ _, fun _ => by simp, fun h => ?_⟩
    cases congrArg Table.rows h

end Silk.Leaser
