import Silk.LeaserAtomic
import Silk.LeaserSharing
import Silk.ResumptionSequential

/-!
# What an acquire does, exactly

`Allocates` says what `AcquireSubnetLease` is for: keep the host's row, else
grant a free subnet of the requested pool, else reclaim the oldest expired row
of the requested kind, else refuse. On tables whose rows are grants of the
overlay the constraints of the table never fire, and the `LIKE` classification of
rows agrees with the two pools, so every uninterrupted execution allocates.
-/

namespace Silk.Leaser

open GoNet Controller Resumption

/-- The allocation policy, over the table alone. -/
inductive Allocates (pool : StringSet) (E : ℤ) (u : String) (db : Database) :
    Except Err (Option Lease) → Database → Prop where
  | existing {r : Row} : r ∈ db.table.rows → r.underlayIP = u →
      Allocates pool E u db (.ok (some r.toLease)) db
  | free {l : Lease} (h : db.table.Admits l) : (∀ r ∈ db.table.rows, r.underlayIP ≠ u) →
      l.underlayIP = u → l.overlaySubnet ∈ pool.keys →
      (∀ r ∈ db.table.rows, r.overlaySubnet ≠ l.overlaySubnet) →
      Allocates pool E u db (.ok (some l)) ⟨db.table.insert l db.now h, db.now⟩
  | reclaimed {r : Row} {l : Lease} (h : (db.table.delete r.underlayIP).Admits l) :
      (∀ r ∈ db.table.rows, r.underlayIP ≠ u) →
      (∀ s ∈ pool.keys, ∃ r ∈ db.table.rows, r.overlaySubnet = s) →
      r ∈ db.table.rows → r.overlaySubnet ∈ pool.keys → r.lastRenewedAt + E ≤ db.now →
      (∀ s ∈ db.table.rows, s.overlaySubnet ∈ pool.keys → r.lastRenewedAt ≤ s.lastRenewedAt) →
      l.underlayIP = u → l.overlaySubnet = r.overlaySubnet →
      Allocates pool E u db (.ok (some l))
        ⟨(db.table.delete r.underlayIP).insert l db.now h, db.now⟩
  | refused : (∀ r ∈ db.table.rows, r.underlayIP ≠ u) →
      (∀ s ∈ pool.keys, ∃ r ∈ db.table.rows, r.overlaySubnet = s) →
      (∀ r ∈ db.table.rows, r.overlaySubnet ∈ pool.keys → db.now < r.lastRenewedAt + E) →
      Allocates pool E u db (.ok none) db

namespace Overlay

variable {o : Overlay}

theorem likeSingleIP_of_mem_single {s : String} (hs : s ∈ (o.pool.poolOf true).keys) :
    likeSingleIP s = true := by
  obtain ⟨i, -, -, rfl⟩ := o.mem_singlePool.mp hs
  exact (likeSingleIP_cidrText _ le_rfl).mpr rfl

theorem likeSingleIP_of_mem (hm : o.subnetMask < 32) {single : Bool} {s : String}
    (hs : s ∈ (o.pool.poolOf single).keys) : likeSingleIP s = single := by
  cases single with
  | false =>
    obtain ⟨k, -, -, rfl⟩ := o.mem_blockPool.mp hs
    rw [← Bool.not_eq_true, likeSingleIP_cidrText _ o.mask_le]
    omega
  | true => exact likeSingleIP_of_mem_single hs

theorem Grants.mem_poolOf (hm : o.subnetMask < 32) {l : Lease} (h : o.Grants l) {single : Bool} :
    l.overlaySubnet ∈ (o.pool.poolOf single).keys ↔ likeSingleIP l.overlaySubnet = single := by
  constructor
  · exact likeSingleIP_of_mem hm
  · intro hkind
    rcases Bool.or_eq_true_iff.mp h.isMember with hb | hs
    · have hmem : l.overlaySubnet ∈ (o.pool.poolOf false).keys := of_decide_eq_true hb
      rw [← hkind, likeSingleIP_of_mem hm hmem]
      exact hmem
    · have hmem : l.overlaySubnet ∈ (o.pool.poolOf true).keys := of_decide_eq_true hs
      rw [← hkind, likeSingleIP_of_mem hm hmem]
      exact hmem

theorem Grants.fits {l : Lease} (h : o.Grants l) (hu : l.underlayIP.length ≤ 15) : l.Fits := by
  obtain ⟨a, w, hslot, hsub, hmac⟩ := h
  refine ⟨hu, ?_, ?_⟩
  · rw [hsub]
    exact cidrText_length_le _ _ _ _ hslot.le
  · rw [hmac, macText, macOf_length]

theorem Grants.hardwareAddr_ne {l k : Lease} (hl : o.Grants l) (hk : o.Grants k)
    (hne : l.overlaySubnet ≠ k.overlaySubnet) : l.overlayHardwareAddr ≠ k.overlayHardwareAddr := by
  obtain ⟨a, v, hslot, hsub, hmac⟩ := hl
  obtain ⟨b, w, hslot', hsub', hmac'⟩ := hk
  intro heq
  rw [hmac, hmac'] at heq
  obtain ⟨-, rfl⟩ := macOf_injective hslot.lt hslot'.lt heq
  rw [hsub, hsub', hslot.eq_of_addr hslot'] at hne
  exact hne rfl

theorem Grants.admits {t : Table} {l : Lease} (hrows : ∀ r ∈ t.rows, o.Grants r.toLease)
    (hl : o.Grants l) (hlen : l.underlayIP.length ≤ 15)
    (hu : ∀ r ∈ t.rows, r.underlayIP ≠ l.underlayIP)
    (hs : ∀ r ∈ t.rows, r.overlaySubnet ≠ l.overlaySubnet) : t.Admits l :=
  ⟨hl.fits hlen, fun r hr => ⟨hu r hr, hs r hr, (hrows r hr).hardwareAddr_ne hl (hs r hr)⟩⟩

theorem vtepLease_of_mem {u s : String} (hs : o.pool.isMember s = true) :
    ∃ l, LeaseController.vtepLease u s = .ok l ∧ l.underlayIP = u ∧ l.overlaySubnet = s := by
  obtain ⟨a, w, hslot, rfl⟩ := isMember_iff.mp hs
  exact ⟨_, vtepLease_slot hslot u, rfl, rfl⟩

theorem added_stored {u s : String} {db db' : Database} {res : Except Err (Option Lease)}
    (hrows : AllRows o.Grants db) (hlen : u.length ≤ 15)
    (hu : ∀ r ∈ db.table.rows, r.underlayIP ≠ u) (hs : o.pool.isMember s = true)
    (hfree : ∀ r ∈ db.table.rows, r.overlaySubnet ≠ s)
    (h : LeaseController.Added u s db res db') :
    ∃ l, ∃ hadm : db.table.Admits l, l.underlayIP = u ∧ l.overlaySubnet = s ∧
      res = .ok (some l) ∧ db' = ⟨db.table.insert l db.now hadm, db.now⟩ := by
  obtain ⟨l, hl, hlu, hls⟩ := vtepLease_of_mem hs (u := u)
  have hadm : db.table.Admits l := by
    apply Grants.admits hrows (.of_vtepLease hs hl)
    · rw [hlu]
      exact hlen
    · rw [hlu]
      exact hu
    · rw [hls]
      exact hfree
  cases h with
  | stored hl' hadm' =>
    rw [hl] at hl'
    cases hl'
    exact ⟨l, hadm, hlu, hls, rfl, rfl⟩
  | refused err hno => exact absurd hadm (hno l hl)

section Allocation

variable {A E : ℤ} {u : String} {single : Bool} {db : Database}

theorem not_taken_iff (hm : o.subnetMask < 32) {s : String}
    (hs : s ∈ (o.pool.poolOf single).keys) :
    ¬ Taken db single s ↔ ∀ r ∈ db.table.rows, r.overlaySubnet ≠ s := by
  constructor
  · intro h r hr hrs
    refine h ⟨r, hr, ?_, hrs⟩
    rw [hrs]
    exact likeSingleIP_of_mem hm hs
  · intro h htaken
    obtain ⟨r, hr, -, hrs⟩ := htaken
    exact h r hr hrs

theorem attempt_allocates (hm : o.subnetMask < 32) (hrows : AllRows o.Grants db)
    (hlen : u.length ≤ 15) (hu : ∀ r ∈ db.table.rows, r.underlayIP ≠ u)
    {res : Except Err (Option Lease)} {db' : Database}
    (h : (o.controller A E).Attempt u single db res db') :
    Allocates (o.pool.poolOf single) E u db res db' ∧
      ((∀ l, res ≠ .ok (some l)) → res = .ok none ∧ db' = db) := by
  cases h with
  | @free s _ _ hs hfree hadd =>
    have hnot := (not_taken_iff hm hs).mp hfree
    obtain ⟨l, hadm, hlu, hls, rfl, rfl⟩ :=
      added_stored hrows hlen hu (CIDRPool.isMember_of_poolOf hs) hnot hadd
    rw [← hls] at hs hnot
    exact ⟨.free hadm hu hlu hs hnot, fun h => absurd rfl (h l)⟩
  | exhausted hfull hexp =>
    refine ⟨.refused hu (fun s hs => ?_) (fun r hr hpool => ?_), fun _ => ⟨rfl, rfl⟩⟩
    · obtain ⟨r, hr, -, hrs⟩ := hfull s hs
      exact ⟨r, hr, hrs⟩
    · exact not_le.mp (hexp r hr (likeSingleIP_of_mem hm hpool))
  | @reclaimed r _ _ hfull hold hne hadd =>
    have hgrant := hrows r hold.mem
    have hpool := (hgrant.mem_poolOf hm).mpr hold.kind
    obtain ⟨l, hadm, hlu, hls, rfl, rfl⟩ := added_stored (hrows.delete r.underlayIP) hlen
      (fun s hs => hu s (Table.mem_delete.mp hs).1) hgrant.isMember
      (fun s hs hsub => (Table.mem_delete.mp hs).2
        (by rw [Table.eq_of_overlaySubnet (Table.mem_delete.mp hs).1 hold.mem hsub])) hadd
    refine ⟨.reclaimed hadm hu (fun s hs => ?_) hold.mem hpool hold.expired (fun s hs hs' => ?_)
      hlu hls, fun h => absurd rfl (h l)⟩
    · obtain ⟨r, hr, -, hrs⟩ := hfull s hs
      exact ⟨r, hr, hrs⟩
    · have hexp : r.lastRenewedAt + E ≤ db.now := hold.expired
      by_cases hs'' : (o.controller A E).Expired db s
      · exact hold.min s hs (likeSingleIP_of_mem hm hs') hs''
      · have hlive : db.now < s.lastRenewedAt + E := not_le.mp hs''
        omega
  | @lost r hfull hold hempty =>
    obtain ⟨a, w, hslot, hsub, -⟩ := hrows r hold.mem
    rw [hsub] at hempty
    have hnil := congrArg String.toList hempty
    rw [cidrText_toList] at hnil
    simp at hnil

theorem attempts_allocates (hm : o.subnetMask < 32) (hrows : AllRows o.Grants db)
    (hlen : u.length ≤ 15) (hu : ∀ r ∈ db.table.rows, r.underlayIP ≠ u) {n : ℕ}
    {result res : Except Err (Option Lease)} {db' : Database}
    (h : (o.controller A E).Attempts u single n result db res db')
    (hn : 0 < n ∨ result = .ok none ∧ Allocates (o.pool.poolOf single) E u db (.ok none) db) :
    Allocates (o.pool.poolOf single) E u db res db' := by
  induction h with
  | spent =>
    rcases hn with hn | ⟨rfl, hall⟩
    · exact absurd hn (lt_irrefl 0)
    · exact hall
  | granted hatt => exact (attempt_allocates hm hrows hlen hu hatt).1
  | retried hatt hnil _ ih =>
    obtain ⟨hall, hsame⟩ := attempt_allocates hm hrows hlen hu hatt
    obtain ⟨rfl, rfl⟩ := hsame hnil
    exact ih hrows hu (Or.inr ⟨rfl, hall⟩)

theorem acquired_allocates (hm : o.subnetMask < 32) (hA : 1 ≤ A) (hrows : AllRows o.Grants db)
    (hip : (parseIP u).bind to4 ≠ none) (hlen : u.length ≤ 15)
    {res : Except Err (Option Lease)} {db' : Database}
    (h : (o.controller A E).Acquired u single db res db') :
    Allocates (o.pool.poolOf single) E u db res db' := by
  cases h with
  | invalid hbad => exact absurd hbad hip
  | existing _ hr hru _ => exact .existing hr hru
  | searched _ hout hatt =>
    have hu : ∀ r ∈ db.table.rows, r.underlayIP ≠ u := by
      intro r hr hru
      have hmem : o.pool.isMember r.overlaySubnet = false := hout r hr hru
      rw [(hrows r hr).isMember] at hmem
      cases hmem
    rw [Table.delete_eq_self hu] at hatt
    apply attempts_allocates hm hrows hlen hu hatt
    left
    change 0 < A.toNat
    omega

end Allocation

theorem empty_not_mem_poolOf (o : Overlay) (single : Bool) :
    "" ∉ (o.pool.poolOf single).keys := by
  intro hs
  obtain ⟨a, w, -, htext⟩ := isMember_iff.mp (CIDRPool.isMember_of_poolOf hs)
  have hnil := congrArg String.toList htext
  rw [cidrText_toList] at hnil
  simp at hnil

end Overlay

/-- Requests name hosts in dotted form, and a renewal carries a lease that an
earlier acquire returned. -/
def Issued (es : List (Event Response Request Database)) (e : Event Response Request Database) :
    Prop :=
  ∀ req res, e = .served req res → IsDotted req.underlayIP ∧
    ∀ lease, req = .renew lease → ∃ draws u single,
      .served (.acquire draws u single) (.acquired (.ok (some lease))) ∈ es

theorem Overlay.trace_grants {o : Overlay} {A E start : ℤ} {allowed : Choice → Prop}
    {es : List (Event Response Request Database)} {db : Database}
    (ht : Trace (controllers (o.controller A E) allowed timePasses fun _ _ => True) Issued
      ⟨Table.empty, start⟩ es db) : AllRows o.Grants db := by
  refine (Trace.safe (I := AllRows o.Grants)
    (Q := fun _ res => ∀ l, res = .acquired (.ok (some l)) → o.Grants l) ?_ ?_ ht ?_).1
  · intro _ s t _ hs hdrift r hr
    rw [hdrift.1] at hr
    exact hs r hr
  · intro es req result hcond hQ
    apply serve_grants
    intro lease hreq
    obtain ⟨draws, u, single, hmem⟩ := (hcond req result rfl).2 lease hreq
    exact hQ _ _ hmem lease rfl
  · intro r hr
    exact absurd hr List.not_mem_nil

/-- After any uninterrupted operations on an initially empty table, every
execution of an acquire ends, and ends as the allocation policy says. -/
theorem acquire_allocates (o : Overlay) (hm : o.subnetMask < 32) {A E start : ℤ} (hA : 1 ≤ A)
    {es : List (Event Response Request Database)} {db : Database}
    (ht : Trace (controllers (o.controller A E) faultless timePasses fun _ _ => True) Issued
      ⟨Table.empty, start⟩ es db)
    {u : String} (hu : IsDotted u) (draws : ℕ → Draw) (single : Bool) :
    (∃ res db', Executes ((o.controller A E).acquireSubnetLease draws u single) db res db') ∧
      ∀ res db', Executes ((o.controller A E).acquireSubnetLease draws u single) db res db' →
        Allocates (o.pool.poolOf single) E u db res db' := by
  constructor
  · exact ⟨_, _, executes_runWith _ db⟩
  · intro res db' h
    have hacq := LeaseController.executes_acquireSubnetLease (o.empty_not_mem_poolOf single) h
    exact Overlay.acquired_allocates hm hA (Overlay.trace_grants ht) hu.to4_ne_none
      hu.length_le hacq

theorem trace_perform {c : LeaseController}
    {cond : List (Event Response Request Database) → Event Response Request Database → Prop}
    {es : List (Event Response Request Database)} {a b : Database}
    (ht : Trace (controllers c faultless timePasses fun _ _ => True) cond a es b) (req : Request)
    (hc : cond es (.served req ((serve c req).runWith exec .quiet b).1)) :
    Trace (controllers c faultless timePasses fun _ _ => True) cond a
      (es ++ [.served req ((serve c req).runWith exec .quiet b).1])
      ((serve c req).runWith exec .quiet b).2 :=
  .served ht (executes_runWith _ b) hc

def blockHeld (now : ℤ) : Database :=
  ⟨⟨[⟨⟨"10.0.0.1", "10.255.0.4/30", "ee:ee:0a:ff:00:04"⟩, 0⟩], by decide, by decide⟩, now⟩

theorem trace_blockHeld {now : ℤ} (h : 0 ≤ now) :
    ∃ es, Trace (controllers (Overlay.small.controller 2 5) faultless timePasses fun _ _ => True)
      Issued ⟨Table.empty, 0⟩ es (blockHeld now) := by
  refine ⟨_, .drift (trace_perform (.nil _) (.acquire (fun _ => .first) "10.0.0.1" false) ?_)
    ⟨rfl, h⟩ ?_⟩
  · intro req res h
    cases h
    exact ⟨⟨10, 0, 0, 1, by decide⟩, fun lease h => nomatch h⟩
  · intro req res h
    cases h

theorem acquire_allocates_reclaims :
    ∃ db', Allocates (Overlay.small.pool.poolOf false) 5 "10.0.0.2" (blockHeld 7)
      (.ok (some ⟨"10.0.0.2", "10.255.0.4/30", "ee:ee:0a:ff:00:04"⟩)) db' := by
  obtain ⟨es, htrace⟩ := trace_blockHeld (show (0 : ℤ) ≤ 7 by decide)
  exact ⟨_, (acquire_allocates Overlay.small (by decide) (by decide) htrace
    ⟨10, 0, 0, 2, by decide⟩ (fun _ => .first) false).2 _ _ (executes_runWith _ _)⟩

end Silk.Leaser
