import Silk.LeaserAllocation
import Silk.LeaserConstruction

/-!
# Blocks and single addresses, in the database and in the pool

The queries tell a single address from a block by the suffix `/32`, the pool by
the loop that made it. On rows drawn from the pools the two agree unless the
blocks themselves have prefix length 32. Where they agree, the list of taken
subnets that the controller builds is the part of the table that lies in the
requested pool.
-/

namespace Silk.Leaser

open GoNet Controller

/-- The queries and the choice of a free subnet for one kind of lease work on the rows of one
pool. -/
structure WorksOn (pool : StringSet) (all : Choice → Database → List Lease)
    (oldestExpired : Choice → Database → ℤ → Option Lease) (db : Database) : Prop where
  all_eq : ∀ ch, all ch db = leasesWhere ch db fun r => r.overlaySubnet ∈ pool.keys
  free : ∀ ch draw, ∀ r ∈ db.table.rows,
    r.overlaySubnet ≠ getAvailable draw ((all ch db).map (·.overlaySubnet)) pool
  exhausted : ∀ ch draw, getAvailable draw ((all ch db).map (·.overlaySubnet)) pool = "" ↔
    ∀ s ∈ pool.keys, ∃ r ∈ db.table.rows, r.overlaySubnet = s
  oldest_eq : ∀ ch expirationTime, oldestExpired ch db expirationTime = oldestWhere ch db fun r =>
    decide (r.overlaySubnet ∈ pool.keys) && decide (r.lastRenewedAt + expirationTime ≤ db.now)

section Queries

variable {ch : Choice} {db : Database}

theorem filter_scan_congr {cond cond' : Row → Bool} (h : ∀ r ∈ db.table.rows, cond r = cond' r) :
    (ch.order.scan db.table.rows).filter cond = (ch.order.scan db.table.rows).filter cond' := by
  apply List.filter_congr
  intro r hr
  exact h r ((ch.order.perm _).mem_iff.mp hr)

theorem mem_taken {pool : StringSet} {s : String} :
    s ∈ (leasesWhere ch db fun r => r.overlaySubnet ∈ pool.keys).map (·.overlaySubnet) ↔
      s ∈ pool.keys ∧ ∃ r ∈ db.table.rows, r.overlaySubnet = s := by
  simp only [List.mem_map, mem_leasesWhere, decide_eq_true_eq]
  constructor
  · rintro ⟨l, ⟨r, hr, hpool, rfl⟩, rfl⟩
    exact ⟨hpool, r, hr, rfl⟩
  · rintro ⟨hpool, r, hr, rfl⟩
    exact ⟨_, ⟨r, hr, hpool, rfl⟩, rfl⟩

end Queries

theorem WorksOn.of_kind {pool : StringSet} {all : Choice → Database → List Lease}
    {oldestExpired : Choice → Database → ℤ → Option Lease} {db : Database} (kind : String → Bool)
    (hall : ∀ ch, all ch db = leasesWhere ch db fun r => kind r.overlaySubnet)
    (hold : ∀ ch expirationTime, oldestExpired ch db expirationTime = oldestWhere ch db fun r =>
      kind r.overlaySubnet && decide (r.lastRenewedAt + expirationTime ≤ db.now))
    (hempty : "" ∉ pool.keys) (hrows : ∀ r ∈ db.table.rows, r.overlaySubnet ≠ "")
    (hkind : ∀ r ∈ db.table.rows, kind r.overlaySubnet = decide (r.overlaySubnet ∈ pool.keys)) :
    WorksOn pool all oldestExpired db := by
  have heq : ∀ ch, all ch db = leasesWhere ch db fun r => r.overlaySubnet ∈ pool.keys := by
    intro ch
    rw [hall, leasesWhere, leasesWhere, filter_scan_congr hkind]
  have hspec := fun ch draw => getAvailable_spec draw
    ((leasesWhere ch db fun r => r.overlaySubnet ∈ pool.keys).map (·.overlaySubnet)) pool
  refine ⟨heq, fun ch draw r hr => ?_, fun ch draw => ?_, fun ch expirationTime => ?_⟩
  · rw [heq]
    rcases hspec ch draw with ⟨-, hnone⟩ | ⟨hmem, hfree⟩
    · rw [hnone]
      exact hrows r hr
    · exact fun hsame => hfree (mem_taken.mpr ⟨hmem, r, hr, hsame⟩)
  · rw [heq]
    rcases hspec ch draw with ⟨hfull, hnone⟩ | ⟨hmem, hfree⟩
    · simp only [hnone, true_iff]
      exact fun s hs => (mem_taken.mp (hfull s hs)).2
    · constructor
      · intro hnone
        rw [hnone] at hmem
        exact absurd hmem hempty
      · intro hfull
        exact absurd (mem_taken.mpr ⟨hmem, hfull _ hmem⟩) hfree
  · rw [hold, oldestWhere, oldestWhere, filter_scan_congr fun r hr => by rw [hkind r hr]]

namespace Overlay

variable {o : Overlay}

theorem likeSingleIP_of_single {s : String} (hs : s ∈ o.pool.singlePool.keys) :
    likeSingleIP s = true := by
  obtain ⟨a, -, -, rfl⟩ := o.singlePool_slot hs
  exact (likeSingleIP_cidrText _ le_rfl).mpr rfl

theorem likeSingleIP_of_block {s : String} (hs : s ∈ o.pool.blockPool.keys) :
    likeSingleIP s = true ↔ o.subnetMask = 32 := by
  obtain ⟨a, -, -, rfl⟩ := o.blockPool_slot hs
  exact likeSingleIP_cidrText _ o.mask_le

theorem kinds_agree (hm : o.subnetMask < 32) {s : String} (hs : o.pool.isMember s = true) :
    likeSingleIP s = decide (s ∈ o.pool.singlePool.keys) ∧
      (!likeSingleIP s) = decide (s ∈ o.pool.blockPool.keys) := by
  have hone : s ∈ o.pool.blockPool.keys → s ∉ o.pool.singlePool.keys := fun hb hs =>
    absurd ((likeSingleIP_of_block hb).mp (likeSingleIP_of_single hs)) (by omega)
  rcases Bool.or_eq_true_iff.mp hs with hb | hs
  · have hb := of_decide_eq_true hb
    have hlike : likeSingleIP s = false := by
      rw [← Bool.not_eq_true, likeSingleIP_of_block hb]
      omega
    simp [hlike, hb, hone hb]
  · have hs := of_decide_eq_true hs
    have hnb : s ∉ o.pool.blockPool.keys := fun hb => hone hb hs
    simp [likeSingleIP_of_single hs, hs, hnb]

theorem block_of_isMember (hm : o.subnetMask = 32) {s : String} (hs : o.pool.isMember s = true) :
    s ∈ o.pool.blockPool.keys := by
  rcases Bool.or_eq_true_iff.mp hs with hb | hs
  · exact of_decide_eq_true hb
  · obtain ⟨i, h0, hi, -⟩ := o.mem_singlePool.mp (of_decide_eq_true hs)
    rw [Overlay.blockSize, hm] at hi
    omega

theorem isMember_ne_empty {s : String} (hs : o.pool.isMember s = true) : s ≠ "" := by
  rintro rfl
  obtain ⟨hb, hsingle⟩ := empty_not_mem_newCIDRPool o.newCIDRPool_eq
  simp [CIDRPool.isMember, hb, hsingle] at hs

theorem not_worksOn_blocks (hm : o.subnetMask = 32) {db : Database} {r : Row}
    (hr : r ∈ db.table.rows) (hmem : r.overlaySubnet ∈ o.pool.blockPool.keys) :
    ¬ WorksOn o.pool.blockPool allBlockSubnets oldestExpiredBlockSubnet db := by
  intro hblock
  have hlike := (likeSingleIP_of_block hmem).mpr hm
  have hlisted : r.toLease ∈ allBlockSubnets .quiet db := by
    rw [hblock.all_eq]
    exact mem_leasesWhere.mpr ⟨r, hr, by simpa using hmem, rfl⟩
  obtain ⟨s, -, hs, hlease⟩ := mem_leasesWhere.mp hlisted
  rw [show s.overlaySubnet = r.overlaySubnet from congrArg Lease.overlaySubnet hlease] at hs
  rw [hlike] at hs
  cases hs

end Overlay

/-- Over rows drawn from the pools, the queries for a kind work on the pool of that kind exactly
when blocks are not single addresses, or there is no row. -/
theorem kinds_agree_iff (o : Overlay) {db : Database}
    (hrows : ∀ r ∈ db.table.rows, o.pool.isMember r.overlaySubnet = true) :
    WorksOn o.pool.blockPool allBlockSubnets oldestExpiredBlockSubnet db ∧
      WorksOn o.pool.singlePool allSingleIPSubnets oldestExpiredSingleIP db ↔
    o.subnetMask < 32 ∨ db.table.rows = [] := by
  constructor
  · rintro ⟨hblock, -⟩
    by_contra hcond
    rw [not_or] at hcond
    obtain ⟨r, hr⟩ := List.exists_mem_of_ne_nil _ hcond.2
    have hm : o.subnetMask = 32 := by
      have hle := o.mask_le
      omega
    exact Overlay.not_worksOn_blocks hm hr (Overlay.block_of_isMember hm (hrows r hr)) hblock
  · intro hcond
    obtain ⟨hb, hs⟩ := empty_not_mem_newCIDRPool o.newCIDRPool_eq
    have hne : ∀ r ∈ db.table.rows, r.overlaySubnet ≠ "" := fun r hr =>
      Overlay.isMember_ne_empty (hrows r hr)
    have hkind : ∀ r ∈ db.table.rows,
        likeSingleIP r.overlaySubnet = decide (r.overlaySubnet ∈ o.pool.singlePool.keys) ∧
          (!likeSingleIP r.overlaySubnet) = decide (r.overlaySubnet ∈ o.pool.blockPool.keys) := by
      intro r hr
      rcases hcond with hm | hnil
      · exact Overlay.kinds_agree hm (hrows r hr)
      · rw [hnil] at hr
        exact absurd hr List.not_mem_nil
    exact ⟨.of_kind (fun s => !likeSingleIP s) (fun _ => rfl) (fun _ _ => rfl) hb hne
        fun r hr => (hkind r hr).2,
      .of_kind likeSingleIP (fun _ => rfl) (fun _ _ => rfl) hs hne
        fun r hr => (hkind r hr).1⟩

theorem kinds_agree_small :
    WorksOn Overlay.small.pool.blockPool allBlockSubnets oldestExpiredBlockSubnet (blockHeld 7) ∧
      WorksOn Overlay.small.pool.singlePool allSingleIPSubnets oldestExpiredSingleIP
        (blockHeld 7) := by
  have hrows : ∀ r ∈ (blockHeld 7).table.rows,
      Overlay.small.pool.isMember r.overlaySubnet = true := by decide
  exact (kinds_agree_iff Overlay.small hrows).mpr (Or.inl (by decide))

def Overlay.addresses : Overlay :=
  { Overlay.small with subnetMask := 32, prefix_le := by decide, mask_le := by decide }

def addressHeld : Database :=
  ⟨⟨[⟨⟨"10.0.0.1", "10.255.0.1/32", "ee:ee:0a:ff:00:01"⟩, 0⟩], by decide, by decide⟩, 7⟩

/-- A held block of prefix length 32 is not listed, is offered again, and is never reclaimed. -/
theorem address_block_unseen :
    (∀ r ∈ addressHeld.table.rows, r.overlaySubnet ∈ Overlay.addresses.pool.blockPool.keys) ∧
      (allBlockSubnets .quiet addressHeld).map (·.overlaySubnet) = [] ∧
      (∃ r ∈ addressHeld.table.rows,
        r.overlaySubnet = getAvailable .first [] Overlay.addresses.pool.blockPool) ∧
      oldestExpiredBlockSubnet .quiet addressHeld 5 = none := by
  decide

end Silk.Leaser
