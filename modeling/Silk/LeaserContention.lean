import Silk.LeaserAllocation
import Silk.ResumptionGuarantee
import Mathlib.Data.List.Perm.Subperm

/-!
# Concurrent acquires

Hosts without a row acquire at the same time, and the requested pool has a free
subnet for each of them. An attempt fails only if another host stored the chosen
subnet after the attempt read the taken ones, so the table has grown by one row
in between. A host without a row leaves room for at most one row less than there
are hosts, hence the attempts never run out.
-/

namespace Silk.Leaser

open GoNet Controller Resumption

section Contention

variable (o : Overlay) (us : List String) (single : Bool)

def Joins (r : Row) : Prop :=
  r.underlayIP ∈ us ∧ o.Grants r.toLease ∧ r.overlaySubnet ∈ (o.pool.poolOf single).keys

def Rely (u : String) (db db' : Database) : Prop :=
  ∃ extra, db'.table.rows = db.table.rows ++ extra ∧
    ∀ r ∈ extra, Joins o us single r ∧ r.underlayIP ≠ u

def Guarantee (u : String) (db db' : Database) : Prop :=
  ∃ extra, db'.table.rows = db.table.rows ++ extra ∧
    ∀ r ∈ extra, Joins o us single r ∧ r.underlayIP = u

variable {o us single} {u : String} {db db₁ db₂ db₃ : Database}

theorem Rely.refl : Rely o us single u db db :=
  ⟨[], (List.append_nil _).symm, fun _ h => absurd h List.not_mem_nil⟩

theorem Guarantee.refl : Guarantee o us single u db db :=
  ⟨[], (List.append_nil _).symm, fun _ h => absurd h List.not_mem_nil⟩

theorem Rely.trans (h : Rely o us single u db₁ db₂) (h' : Rely o us single u db₂ db₃) :
    Rely o us single u db₁ db₃ := by
  obtain ⟨extra, heq, hall⟩ := h
  obtain ⟨extra', heq', hall'⟩ := h'
  refine ⟨extra ++ extra', by rw [heq', heq, List.append_assoc], fun r hr => ?_⟩
  rcases List.mem_append.mp hr with hr | hr
  · exact hall r hr
  · exact hall' r hr

theorem Guarantee.rely {v : String} (h : Guarantee o us single v db db₁) (hv : v ≠ u) :
    Rely o us single u db db₁ := by
  obtain ⟨extra, heq, hall⟩ := h
  refine ⟨extra, heq, fun r hr => ⟨(hall r hr).1, ?_⟩⟩
  rw [(hall r hr).2]
  exact hv

theorem Rely.mem (h : Rely o us single u db db₁) {r : Row} (hr : r ∈ db.table.rows) :
    r ∈ db₁.table.rows := by
  obtain ⟨extra, heq, -⟩ := h
  rw [heq]
  exact List.mem_append_left _ hr

theorem Rely.length_le (h : Rely o us single u db db₁) :
    db.table.rows.length ≤ db₁.table.rows.length := by
  obtain ⟨extra, heq, -⟩ := h
  rw [heq, List.length_append]
  omega

theorem Rely.length_lt (h : Rely o us single u db db₁) {r : Row} (hr : r ∈ db₁.table.rows)
    (hnot : r ∉ db.table.rows) : db.table.rows.length < db₁.table.rows.length := by
  obtain ⟨extra, heq, -⟩ := h
  rw [heq] at hr ⊢
  rw [List.length_append]
  have hextra := (List.mem_append.mp hr).resolve_left hnot
  have hpos := List.length_pos_of_mem hextra
  omega

theorem Rely.grants (h : Rely o us single u db db₁) (hrows : AllRows o.Grants db) :
    AllRows o.Grants db₁ := by
  obtain ⟨extra, heq, hall⟩ := h
  intro r hr
  rw [heq] at hr
  rcases List.mem_append.mp hr with hr | hr
  · exact hrows r hr
  · exact (hall r hr).1.2.1

theorem Rely.absent (h : Rely o us single u db db₁)
    (hu : ∀ r ∈ db.table.rows, r.underlayIP ≠ u) : ∀ r ∈ db₁.table.rows, r.underlayIP ≠ u := by
  obtain ⟨extra, heq, hall⟩ := h
  intro r hr
  rw [heq] at hr
  rcases List.mem_append.mp hr with hr | hr
  · exact hu r hr
  · exact (hall r hr).2

theorem nodup_of_rows (t : Table) {extra kept : List Row} (h : t.rows = kept ++ extra) :
    (extra.map (·.underlayIP)).Nodup ∧ (extra.map (·.overlaySubnet)).Nodup := by
  have hunique := t.unique
  rw [h] at hunique
  have hextra := (List.pairwise_append.mp hunique).2.1
  constructor
  · exact List.pairwise_map.mpr (hextra.imp fun hd => hd.1)
  · exact List.pairwise_map.mpr (hextra.imp fun hd => hd.2.1)

theorem Rely.length_lt_add (h : Rely o us single u db db₁) (hu : u ∈ us) :
    db₁.table.rows.length < db.table.rows.length + us.length := by
  obtain ⟨extra, heq, hall⟩ := h
  have hnodup : (u :: extra.map (·.underlayIP)).Nodup := by
    refine List.nodup_cons.mpr ⟨?_, (nodup_of_rows _ heq).1⟩
    intro hmem
    obtain ⟨r, hr, hru⟩ := List.mem_map.mp hmem
    exact (hall r hr).2 hru
  have hsub : u :: extra.map (·.underlayIP) ⊆ us := by
    intro v hv
    rcases List.mem_cons.mp hv with rfl | hv
    · exact hu
    · obtain ⟨r, hr, rfl⟩ := List.mem_map.mp hv
      exact (hall r hr).1.1
  have hle := (hnodup.subperm hsub).length_le
  rw [List.length_cons, List.length_map] at hle
  rw [heq, List.length_append]
  omega

theorem Rely.exists_free (h : Rely o us single u db db₁) (hu : u ∈ us)
    (hfree : us.length ≤ ((o.pool.poolOf single).keys.filter fun s =>
      ∀ r ∈ db.table.rows, r.overlaySubnet ≠ s).length) :
    ∃ s ∈ (o.pool.poolOf single).keys, ∀ r ∈ db₁.table.rows, r.overlaySubnet ≠ s := by
  by_contra hnone
  have hlt := h.length_lt_add hu
  obtain ⟨extra, heq, hall⟩ := h
  rw [heq, List.length_append] at hlt
  have hsub : (o.pool.poolOf single).keys.filter (fun s => ∀ r ∈ db.table.rows,
      r.overlaySubnet ≠ s) ⊆ extra.map (·.overlaySubnet) := by
    intro s hs
    obtain ⟨hs, hnot⟩ := List.mem_filter.mp hs
    rw [decide_eq_true_eq] at hnot
    by_contra hmiss
    refine hnone ⟨s, hs, fun r hr hrs => ?_⟩
    rw [heq] at hr
    rcases List.mem_append.mp hr with hr | hr
    · exact hnot r hr hrs
    · exact hmiss (List.mem_map.mpr ⟨r, hr, hrs⟩)
  have hle := (((o.pool.poolOf single).nodup.filter _).subperm hsub).length_le
  rw [List.length_map] at hle
  omega

end Contention

/-- Hosts without a row, and a free subnet of the requested pool for each of them. -/
structure Contest (o : Overlay) (us : List String) (single : Bool) (db : Database) : Prop where
  mask : o.subnetMask < 32
  rows : AllRows o.Grants db
  dotted : ∀ u ∈ us, IsDotted u
  nodup : us.Nodup
  absent : ∀ u ∈ us, ∀ r ∈ db.table.rows, r.underlayIP ≠ u
  free : us.length ≤ ((o.pool.poolOf single).keys.filter fun s =>
    ∀ r ∈ db.table.rows, r.overlaySubnet ≠ s).length

section Attempts

variable {o : Overlay} {us : List String} {single : Bool} {u : String} {db₀ db : Database} {A E : ℤ}

def Succeeds (o : Overlay) (single : Bool) (u : String) (res : Except Err (Option Lease))
    (db : Database) : Prop :=
  ∃ l, res = .ok (some l) ∧ l.underlayIP = u ∧ l.overlaySubnet ∈ (o.pool.poolOf single).keys ∧
    ∃ r ∈ db.table.rows, r.toLease = l

theorem guarded_allSubnets :
    (DatabaseHandler.allSubnets single).Guarded exec faultless (Rely o us single u)
      (Guarantee o us single u) (fun res db' => ∃ db₁ leases, Rely o us single u db db₁ ∧
        Rely o us single u db₁ db' ∧ res = .ok leases ∧
        ∀ s, s ∈ leases.map (·.overlaySubnet) ↔ Taken db₁ single s) db := by
  cases single with
  | false =>
    intro db₁ ch hrely hch
    rw [exec_of_fault_none hch]
    refine ⟨.refl, fun db' hrely' => ⟨db₁, _, hrely, hrely', rfl, fun s => ?_⟩⟩
    simp only [allBlockSubnets, mem_map_leasesWhere, Taken, Bool.not_eq_true']
  | true =>
    intro db₁ ch hrely hch
    rw [exec_of_fault_none hch]
    refine ⟨.refl, fun db' hrely' => ⟨db₁, _, hrely, hrely', rfl, fun s => ?_⟩⟩
    simp only [allSingleIPSubnets, mem_map_leasesWhere, Taken]

theorem guarded_tryAcquireSubnet (h : Contest o us single db₀) (hu : u ∈ us)
    (hdb : Rely o us single u db₀ db) (draw : Draw) :
    ((o.controller A E).tryAcquireSubnet draw single).Guarded exec faultless (Rely o us single u)
      (Guarantee o us single u) (fun res db' => ∃ db₁ s, Rely o us single u db db₁ ∧
        Rely o us single u db₁ db' ∧ res = .ok s ∧ s ∈ (o.pool.poolOf single).keys ∧
        ∀ r ∈ db₁.table.rows, r.overlaySubnet ≠ s) db := by
  rw [LeaseController.tryAcquireSubnet, LeaseController.tryAcquireAvailable]
  refine guarded_allSubnets.bind (fun _ => .refl) fun taken db' htaken => ?_
  obtain ⟨db₁, leases, hrely, hrely', rfl, hmem⟩ := htaken
  dsimp only
  have havail := getAvailable_spec draw (leases.map (·.overlaySubnet))
    ((o.controller A E).cidrPool.poolOf single)
  generalize getAvailable draw _ _ = s at havail
  rcases havail with ⟨hfull, -⟩ | ⟨hs, hnot⟩
  · obtain ⟨x, hx, hxfree⟩ := (hdb.trans hrely).exists_free hu h.free
    obtain ⟨r, hr, -, hrx⟩ := (hmem x).mp (hfull x hx)
    exact absurd hrx (hxfree r hr)
  · have hne : s ≠ "" := fun hs' => o.empty_not_mem_poolOf single (hs' ▸ hs)
    rw [if_pos hne]
    intro db₂ hrely₂
    refine ⟨db₁, s, hrely, hrely'.trans hrely₂, rfl, hs, ?_⟩
    exact (Overlay.not_taken_iff h.mask hs).mp fun ht => hnot ((hmem s).mpr ht)

theorem guarded_addLease (h : Contest o us single db₀) (hu : u ∈ us) {db₁ : Database} {s : String}
    (hdb₁ : Rely o us single u db₀ db₁) (hdb : Rely o us single u db₁ db)
    (hs : s ∈ (o.pool.poolOf single).keys) (hfree : ∀ r ∈ db₁.table.rows, r.overlaySubnet ≠ s) :
    (LeaseController.addLease u s).Guarded exec faultless (Rely o us single u)
      (Guarantee o us single u) (fun res db' => Succeeds o single u res db' ∨
        (∃ err, res = .error err) ∧ Rely o us single u db₁ db' ∧
          db₁.table.rows.length < db'.table.rows.length) db := by
  obtain ⟨l, hl, hlu, hls⟩ :=
    Overlay.vtepLease_of_mem (u := u) (CIDRPool.isMember_of_poolOf hs)
  have hgrant : o.Grants l := .of_vtepLease (CIDRPool.isMember_of_poolOf hs) hl
  rw [LeaseController.addLease]
  rw [hl]
  intro db₂ ch hrely hch
  rw [exec_of_fault_none hch]
  have hdb₂ := hdb.trans hrely
  by_cases hadm : db₂.table.Admits l
  · simp only [respond, addEntry, dif_pos hadm]
    have hjoin : Joins o us single ⟨l, db₂.now⟩ := by
      refine ⟨?_, hgrant, ?_⟩
      · rw [hlu]
        exact hu
      · rw [hls]
        exact hs
    refine ⟨⟨[⟨l, db₂.now⟩], rfl, fun r hr => ?_⟩, fun db₃ hrely₃ => Or.inl ⟨l, rfl, hlu, ?_, ?_⟩⟩
    · rw [List.mem_singleton.mp hr]
      exact ⟨hjoin, hlu⟩
    · exact hjoin.2.2
    · exact ⟨_, hrely₃.mem (Table.mem_insert_self hadm), rfl⟩
  · simp only [respond, addEntry, dif_neg hadm]
    refine ⟨.refl, fun db₃ hrely₃ => Or.inr ⟨⟨_, rfl⟩, hdb₂.trans hrely₃, ?_⟩⟩
    have htaken : ∃ r ∈ db₂.table.rows, r.overlaySubnet = s := by
      by_contra hnone
      have hrely₀ := hdb₁.trans hdb₂
      apply hadm
      apply Overlay.Grants.admits (hrely₀.grants h.rows) hgrant
      · rw [hlu]
        exact (h.dotted u hu).length_le
      · rw [hlu]
        exact hrely₀.absent (h.absent u hu)
      · intro r hr hrs
        exact hnone ⟨r, hr, hrs.trans hls⟩
    obtain ⟨r, hr, hrs⟩ := htaken
    exact (hdb₂.length_lt hr fun hold => hfree r hold hrs).trans_le hrely₃.length_le

theorem guarded_tryAcquireLease (h : Contest o us single db₀) (hu : u ∈ us)
    (hdb : Rely o us single u db₀ db) (draw : Draw) :
    ((o.controller A E).tryAcquireLease draw u single).Guarded exec faultless (Rely o us single u)
      (Guarantee o us single u) (fun res db' => Succeeds o single u res db' ∨
        (∃ err, res = .error err) ∧ Rely o us single u db db' ∧
          db.table.rows.length < db'.table.rows.length) db := by
  rw [LeaseController.tryAcquireLease_eq]
  refine (guarded_tryAcquireSubnet h hu hdb draw).bind (fun _ => .refl) fun res db' hres => ?_
  obtain ⟨db₁, s, hrely, hrely', rfl, hs, hfree⟩ := hres
  have hne : s ≠ "" := fun hs' => o.empty_not_mem_poolOf single (hs' ▸ hs)
  dsimp only
  rw [if_neg hne]
  apply (guarded_addLease h hu (hdb.trans hrely) hrely' hs hfree).mono
  intro res db₂ hres
  rcases hres with hok | ⟨herr, hgrown, hlt⟩
  · exact Or.inl hok
  · exact Or.inr ⟨herr, hrely.trans hgrown, hrely.length_le.trans_lt hlt⟩

/-- The induction is on the attempts left; every failed one is paid for by a row
that another host added. -/
theorem guarded_attempts (h : Contest o us single db₀) (hu : u ∈ us) {n f : ℕ}
    (hn : us.length ≤ f + n) (hdb : Rely o us single u db₀ db)
    (hf : db₀.table.rows.length + f ≤ db.table.rows.length) (draws : ℕ → Draw)
    (result : Except Err (Option Lease)) :
    ((o.controller A E).attempts u single n draws result).Guarded exec faultless
      (Rely o us single u) (Guarantee o us single u) (Succeeds o single u) db := by
  induction n generalizing f draws result db with
  | zero =>
    have hlt := hdb.length_lt_add hu
    omega
  | succ n ih =>
    rw [LeaseController.attempts]
    refine (guarded_tryAcquireLease h hu hdb (draws 0)).bind (fun _ => .refl) fun res db' hres => ?_
    rcases hres with hok | ⟨⟨err, rfl⟩, hrely, hlt⟩
    · obtain ⟨l, rfl, hlu, hls, r, hr, hrl⟩ := hok
      exact fun db₂ hrely => ⟨l, rfl, hlu, hls, r, hrely.mem hr, hrl⟩
    · exact ih (f := f + 1) (by omega) (hdb.trans hrely) (by omega) _ _

theorem guarded_serve (h : Contest o us single db₀) (hu : u ∈ us) (hA : us.length ≤ A.toNat)
    (draws : ℕ → Draw) :
    (serve (o.controller A E) (.acquire draws u single)).Guarded exec faultless
      (Rely o us single u) (Guarantee o us single u)
      (fun res db' => ∃ res', res = .acquired res' ∧ Succeeds o single u res' db') db₀ := by
  have hacquire : ((o.controller A E).acquireSubnetLease draws u single).Guarded exec faultless
      (Rely o us single u) (Guarantee o us single u) (Succeeds o single u) db₀ := by
    rw [LeaseController.acquireSubnetLease]
    rw [if_neg (h.dotted u hu).to4_ne_none]
    intro db₁ ch hrely hch
    have hnone : leaseForUnderlayIP db₁ u = none :=
      leaseForUnderlayIP_none.mpr (hrely.absent (h.absent u hu))
    rw [exec_of_fault_none hch]
    simp only [respond, hnone]
    exact ⟨.refl, guarded_attempts (f := 0) h hu (by rw [Nat.zero_add]; exact hA) hrely
      hrely.length_le _ _⟩
  refine hacquire.bind (fun _ => .refl) fun res db' hres db₂ hrely => ⟨res, rfl, ?_⟩
  obtain ⟨l, rfl, hlu, hls, r, hr, hrl⟩ := hres
  exact ⟨l, rfl, hlu, hls, r, hrely.mem hr, hrl⟩

end Attempts

section Bounds

variable (c : LeaseController) (u : String) (single : Bool)

theorem tryAcquireSubnet_callsWithin (draw : Draw) :
    (c.tryAcquireSubnet draw single).CallsWithin 3 := by
  rw [LeaseController.tryAcquireSubnet, LeaseController.tryAcquireAvailable]
  refine Program.CallsWithin.bind (m := 1) (n := 2) ?_ fun taken => ?_
  · cases single <;> exact fun _ => trivial
  rcases taken with err | leases
  · trivial
  dsimp only
  generalize getAvailable draw _ _ = s
  by_cases hs : s ≠ ""
  · rw [if_pos hs]
    trivial
  rw [if_neg hs]
  refine Program.CallsWithin.bind (m := 1) (n := 1) ?_ fun oldest => ?_
  · cases single <;> exact fun _ => trivial
  rcases oldest with err | _ | lease
  · trivial
  · trivial
  · intro res
    rcases res with err | _ <;> trivial

theorem tryAcquireLease_callsWithin (draw : Draw) :
    (c.tryAcquireLease draw u single).CallsWithin 4 := by
  rw [LeaseController.tryAcquireLease_eq]
  refine (tryAcquireSubnet_callsWithin c single draw).bind (n := 1) fun res => ?_
  rcases res with err | subnet
  · trivial
  dsimp only
  split_ifs
  · trivial
  rw [LeaseController.addLease]
  cases LeaseController.vtepLease u subnet with
  | error err => trivial
  | ok lease =>
    intro res
    rcases res with err | _ <;> trivial

theorem attempts_callsWithin (n : ℕ) (draws : ℕ → Draw) (result : Except Err (Option Lease)) :
    (c.attempts u single n draws result).CallsWithin (4 * n) := by
  induction n generalizing draws result with
  | zero => trivial
  | succ n ih =>
    rw [LeaseController.attempts]
    rw [show 4 * (n + 1) = 4 + 4 * n by ring]
    refine (tryAcquireLease_callsWithin c u single (draws 0)).bind fun res => ?_
    rcases res with err | _ | lease
    · exact ih _ _
    · exact ih _ _
    · exact Program.CallsWithin.mono (m := 0) trivial (Nat.zero_le _)

theorem serve_acquire_callsWithin (draws : ℕ → Draw) :
    (serve c (.acquire draws u single)).CallsWithin
      (4 * c.acquireSubnetLeaseAttempts.toNat + 2) := by
  refine Program.CallsWithin.bind (n := 0) ?_ fun _ => trivial
  rw [LeaseController.acquireSubnetLease]
  split_ifs
  · trivial
  intro found
  rcases found with err | _ | lease
  · trivial
  · exact (attempts_callsWithin c u single _ draws _).mono (by omega)
  · change Program.CallsWithin _ (if _ then _ else _)
    split_ifs
    · trivial
    · intro res
      rcases res with err | _
      · exact Program.CallsWithin.mono (m := 0) trivial (Nat.zero_le _)
      · exact attempts_callsWithin c u single _ draws _

end Bounds

def contenders (c : LeaseController) (draws : String → ℕ → Draw) (us : List String)
    (single : Bool) : List Client :=
  us.map fun u => ⟨.acquire (draws u) u single, [], serve c (.acquire (draws u) u single)⟩

section Contenders

variable {o : Overlay} {us : List String} {single : Bool} {db : Database} {A E : ℤ}
  {draws : String → ℕ → Draw}

theorem getElem?_contenders {c : LeaseController} {i : ℕ} {th : Client}
    (h : (contenders c draws us single)[i]? = some th) :
    ∃ u, us[i]? = some u ∧
      th = ⟨.acquire (draws u) u single, [], serve c (.acquire (draws u) u single)⟩ := by
  rw [contenders, List.getElem?_map, Option.map_eq_some_iff] at h
  obtain ⟨u, hu, rfl⟩ := h
  exact ⟨u, hu, rfl⟩

theorem request_contenders {c : LeaseController} {ths : List Client}
    (hreq : ths.map (·.request) = (contenders c draws us single).map (·.request)) {i : ℕ}
    {th : Client} (hi : ths[i]? = some th) :
    ∃ u, us[i]? = some u ∧ th.request.underlayIP = u := by
  have hget : (ths.map (·.request))[i]? = some th.request := by rw [List.getElem?_map, hi]; rfl
  rw [hreq, List.getElem?_map, Option.map_eq_some_iff] at hget
  obtain ⟨th', hth', hr⟩ := hget
  obtain ⟨u, hu, rfl⟩ := getElem?_contenders hth'
  exact ⟨u, hu, by rw [← hr]; rfl⟩

theorem nodup_ne {i j : ℕ} {u v : String} (h : us.Nodup) (hij : i ≠ j) (hi : us[i]? = some u)
    (hj : us[j]? = some v) : u ≠ v := by
  intro huv
  rw [← huv, ← hi] at hj
  exact hij ((List.getElem?_inj (List.getElem?_eq_some_iff.mp hi).1 h).mp hj.symm)

theorem contenders_guarded (h : Contest o us single db) (hA : (us.length : ℤ) ≤ A)
    {sys : Controllers} {ls : List (Label Request Database Choice)}
    (hr : Run (controllers (o.controller A E) faultless anyTime fun _ _ => False) (fun _ _ => True)
      ⟨db, contenders (o.controller A E) draws us single⟩ ls sys) :
    AllGuarded (controllers (o.controller A E) faultless anyTime fun _ _ => False)
        (fun req => Rely o us single req.underlayIP)
        (fun req => Guarantee o us single req.underlayIP)
        (fun req res db' => ∃ res', res = .acquired res' ∧
          Succeeds o single req.underlayIP res' db') sys ∧
      ∀ r ∈ db.table.rows, r ∈ sys.shared.table.rows := by
  refine Run.guarded (R := fun req => Rely o us single req.underlayIP)
    (K := fun s => ∀ r ∈ db.table.rows, r ∈ s.table.rows) (fun _ _ => .refl)
    (fun _ _ _ _ => Rely.trans) (fun _ _ h => h) ?_ ?_ ?_ hr ?_ ?_ fun _ hr => hr
  · intro req s t hdrift
    exact ⟨[], by rw [hdrift, List.append_nil], fun _ h => absurd h List.not_mem_nil⟩
  · intro s t hK hdrift r hr
    rw [hdrift]
    exact hK r hr
  · intro req s t hK hG r hr
    obtain ⟨extra, heq, -⟩ := hG
    rw [heq]
    exact List.mem_append_left _ (hK r hr)
  · intro i j th th' hij hi hj s t hG
    obtain ⟨u, hu, rfl⟩ := getElem?_contenders hi
    obtain ⟨v, hv, rfl⟩ := getElem?_contenders hj
    exact Guarantee.rely hG (nodup_ne h.nodup hij hu hv)
  · intro i th hi
    obtain ⟨u, hu, rfl⟩ := getElem?_contenders hi
    exact guarded_serve h (List.mem_of_getElem? hu) (by omega) (draws u)

end Contenders

/-- In every interleaving of acquires by hosts without a row, as many as there
are attempts and free subnets at most, no row is removed, every call ends within
its statement bound, and those that have ended returned distinct subnets. -/
theorem contention_never_starves {o : Overlay} {us : List String} {single : Bool} {db : Database}
    {A E : ℤ} (h : Contest o us single db) (hA : (us.length : ℤ) ≤ A) (draws : String → ℕ → Draw)
    {sys : Controllers} {ls : List (Label Request Database Choice)}
    (hr : Run (controllers (o.controller A E) faultless anyTime fun _ _ => False) (fun _ _ => True)
      ⟨db, contenders (o.controller A E) draws us single⟩ ls sys) :
    (∀ r ∈ db.table.rows, r ∈ sys.shared.table.rows) ∧
      (∀ (i : ℕ) (th : Client), sys.threads[i]? = some th →
        th.history.length ≤ 4 * A.toNat + 2 ∧
        ((∃ sys', Step (controllers (o.controller A E) faultless anyTime fun _ _ => False) sys
            (.statement i .quiet) sys') ∨
          ∃ l, th.program = .done (.acquired (.ok (some l))) ∧
            l.overlaySubnet ∈ (o.pool.poolOf single).keys)) ∧
      ∀ (i j : ℕ) (th th' : Client) (l l' : Lease), i ≠ j → sys.threads[i]? = some th →
        sys.threads[j]? = some th' → th.program = .done (.acquired (.ok (some l))) →
        th'.program = .done (.acquired (.ok (some l'))) → l.overlaySubnet ≠ l'.overlaySubnet := by
  obtain ⟨hguard, hkept⟩ := contenders_guarded h hA hr
  have hdone : ∀ (i : ℕ) (th : Client) (res : Response), sys.threads[i]? = some th →
      th.program = .done res → ∃ l r, res = .acquired (.ok (some l)) ∧
        l.underlayIP = th.request.underlayIP ∧ l.overlaySubnet ∈ (o.pool.poolOf single).keys ∧
        r ∈ sys.shared.table.rows ∧ r.toLease = l := by
    intro i th res hi hp
    have hth := hguard i th hi
    rw [hp] at hth
    obtain ⟨res', rfl, l, rfl, hlu, hls, r, hr, hrl⟩ := hth sys.shared .refl
    exact ⟨l, r, rfl, hlu, hls, hr, hrl⟩
  refine ⟨hkept, fun i th hi => ⟨?_, ?_⟩, ?_⟩
  · refine hr.history_le (fun _ _ (hacc : False) => hacc.elim) ?_ th (List.mem_of_getElem? hi)
    intro th hth
    obtain ⟨u, -, rfl⟩ := List.mem_map.mp hth
    exact ⟨_, serve_acquire_callsWithin _ u single (draws u), by simp [Overlay.controller]⟩
  · cases hp : th.program with
    | done res =>
      obtain ⟨l, -, rfl, -, hls, -⟩ := hdone i th res hi hp
      exact Or.inr ⟨l, rfl, hls⟩
    | call q next => exact Or.inl ⟨_, .statement hi hp rfl⟩
  · intro i j th th' l l' hij hi hj hp hp'
    obtain ⟨_, r, hl, hlu, -, hr', hrl⟩ := hdone i th _ hi hp
    obtain ⟨_, r', hl', hlu', -, hr'', hrl'⟩ := hdone j th' _ hj hp'
    cases hl
    cases hl'
    have hne : r.underlayIP ≠ r'.underlayIP := by
      rw [hrl, hlu, hrl', hlu']
      have hreq := hr.requests_eq fun _ _ h => h
      obtain ⟨u, hu, hui⟩ := request_contenders hreq hi
      obtain ⟨v, hv, hvj⟩ := request_contenders hreq hj
      rw [hui, hvj]
      exact nodup_ne h.nodup hij hu hv
    rw [← hrl, ← hrl']
    exact (Table.distinct_of_mem hr' hr'' fun heq => hne (by rw [heq])).2.1

def bothChooseFirst : List (Label Request Database Choice) :=
  [.statement 0 .quiet, .statement 1 .quiet, .statement 0 .quiet, .statement 1 .quiet,
    .statement 0 .quiet, .statement 1 .quiet, .statement 1 .quiet, .statement 1 .quiet]

theorem contest_small : Contest Overlay.small ["10.0.0.1", "10.0.0.2"] true ⟨Table.empty, 0⟩ where
  mask := by decide
  rows r hr := absurd hr List.not_mem_nil
  dotted u hu := by
    rcases List.mem_cons.mp hu with rfl | hu
    · exact ⟨10, 0, 0, 1, by decide⟩
    · rw [List.mem_singleton.mp hu]
      exact ⟨10, 0, 0, 2, by decide⟩
  nodup := by decide
  absent u _ r hr := absurd hr List.not_mem_nil
  free := by decide

theorem contention_never_starves_small :
    ∃ sys : Controllers, sys.shared.table.rows =
        [⟨⟨"10.0.0.1", "10.255.0.1/32", "ee:ee:0a:ff:00:01"⟩, 0⟩,
          ⟨⟨"10.0.0.2", "10.255.0.2/32", "ee:ee:0a:ff:00:02"⟩, 0⟩] ∧
      ∀ (i : ℕ) (th : Client), sys.threads[i]? = some th → th.history.length ≤ 10 := by
  have hplay : (controllers (Overlay.small.controller 2 5) faultless anyTime
      fun _ _ => False).Playable (fun _ _ => True)
      ⟨⟨Table.empty, 0⟩, contenders (Overlay.small.controller 2 5) (fun _ _ => .first)
        ["10.0.0.1", "10.0.0.2"] true⟩ bothChooseFirst :=
    ⟨⟨⟨rfl, rfl⟩, trivial⟩, ⟨⟨rfl, rfl⟩, trivial⟩, ⟨⟨rfl, rfl⟩, trivial⟩, ⟨⟨rfl, rfl⟩, trivial⟩,
      ⟨⟨rfl, rfl⟩, trivial⟩, ⟨⟨rfl, rfl⟩, trivial⟩, ⟨⟨rfl, rfl⟩, trivial⟩, ⟨⟨rfl, rfl⟩, trivial⟩,
      trivial⟩
  have hall := contention_never_starves contest_small (by decide) _ (.of_playable hplay)
  exact ⟨_, by decide, fun i th hi => (hall.2.1 i th hi).1⟩

end Silk.Leaser
