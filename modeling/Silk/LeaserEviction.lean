import Silk.LeaserAllocation

/-!
# How a lease that is not renewed is lost

From any table, a host's member row that has expired can be handed to another
host: the other rows are released, the rest of the pool is filled by renewals,
and the next acquire finds only that row expired. The hosts and hardware
addresses of the filling rows are derived from the addresses of their subnets,
moved out of the way of the row in question.
-/

namespace Silk.Leaser

open GoNet Controller Resumption

def Keeping (u : String) (_ : List (Event Response Request Database))
    (e : Event Response Request Database) : Prop :=
  ∀ req res, e = .served req res → req ≠ .release u

def Reaches (c : LeaseController) (u : String) (db db' : Database) : Prop :=
  ∃ es, Trace (controllers c faultless timePasses fun _ _ => True) (Keeping u) db es db'

section Reaches

variable {c : LeaseController} {u : String} {db db₁ db₂ : Database}

theorem Reaches.refl (c : LeaseController) (u : String) (db : Database) : Reaches c u db db :=
  ⟨[], .nil db⟩

theorem Reaches.served {req : Request} {res : Response} (h : Reaches c u db db₁)
    (hrun : Executes (serve c req) db₁ res db₂) (hreq : req ≠ .release u) :
    Reaches c u db db₂ := by
  obtain ⟨es, ht⟩ := h
  refine ⟨_, .served ht hrun fun req' res' heq => ?_⟩
  cases heq
  exact hreq

theorem Reaches.wait (h : Reaches c u db db₁) {t : ℤ} (ht : db₁.now ≤ t) :
    Reaches c u db ⟨db₁.table, t⟩ := by
  obtain ⟨es, htrace⟩ := h
  exact ⟨_, .drift htrace ⟨rfl, ht⟩ fun req' res' heq => nomatch heq⟩

theorem Reaches.release (h : Reaches c u db db₁) {v : String} (hv : v ≠ u) :
    Reaches c u db ⟨db₁.table.delete v, db₁.now⟩ := by
  have hrun := (runs_serve_release (c := c)).mpr (LeaseController.executes_releaseSubnetLease v db₁)
  exact h.served hrun fun heq => hv (Request.release.inj heq)

theorem Reaches.insert (h : Reaches c u db db₁) {l : Lease} (hval : validate l = .ok ())
    (hadm : db₁.table.Admits l) : Reaches c u db ⟨db₁.table.insert l db₁.now hadm, db₁.now⟩ := by
  have hrun :=
    (runs_serve_renew (c := c)).mpr (LeaseController.executes_renewSubnetLease_insert hval hadm)
  exact h.served hrun fun heq => nomatch heq

theorem reaches_alone (c : LeaseController) (u : String) (db : Database) :
    ∃ t : Table, Reaches c u db ⟨t, db.now⟩ ∧
      ∀ r, r ∈ t.rows ↔ r ∈ db.table.rows ∧ r.underlayIP = u := by
  have hmany : ∀ vs : List String, u ∉ vs → ∃ t : Table, Reaches c u db ⟨t, db.now⟩ ∧
      ∀ r, r ∈ t.rows ↔ r ∈ db.table.rows ∧ r.underlayIP ∉ vs := by
    intro vs hvs
    induction vs with
    | nil => exact ⟨db.table, .refl c u db, fun r => by simp⟩
    | cons v vs ih =>
      rw [List.mem_cons, not_or] at hvs
      obtain ⟨t, hreach, hrows⟩ := ih hvs.2
      refine ⟨t.delete v, hreach.release (Ne.symm hvs.1), fun r => ?_⟩
      rw [Table.mem_delete, hrows, List.mem_cons, not_or, and_assoc, and_comm (a := _ ∉ vs)]
  obtain ⟨t, hreach, hrows⟩ := hmany ((db.table.rows.map (·.underlayIP)).filter (· ≠ u)) (by simp)
  refine ⟨t, hreach, fun r => ?_⟩
  rw [hrows]
  constructor
  · intro h
    refine ⟨h.1, ?_⟩
    by_contra hne
    exact h.2 (List.mem_filter.mpr ⟨List.mem_map_of_mem h.1, by simpa using hne⟩)
  · intro h
    refine ⟨h.1, fun hmem => ?_⟩
    simpa [h.2] using (List.mem_filter.mp hmem).2

end Reaches

def dottedText (a : ℕ) : String := String.ofList (dotted (addrBytes a))

theorem isDotted_dottedText (a : ℕ) : IsDotted (dottedText a) := ⟨_, _, _, _, rfl⟩

theorem dottedText_injective {a b : ℕ} (ha : a < 2 ^ 32) (hb : b < 2 ^ 32)
    (h : dottedText a = dottedText b) : a = b := by
  have hlist : dotted (addrBytes a) = dotted (addrBytes b) := String.ofList_injective h
  have hparse := congrArg parseAddr hlist
  rw [addrBytes, addrBytes] at hparse
  rw [parseAddr_dotted, parseAddr_dotted] at hparse
  rw [← addrVal_addrBytes ha, ← addrVal_addrBytes hb]
  exact congrArg addrVal (Option.some.inj hparse)

theorem exists_macOf (text : String) :
    ∃ x : UInt8, x ≠ 0xee ∧ ∀ a < 2 ^ 32, macOf x a ≠ text := by
  by_cases h : ∃ a < 2 ^ 32, macOf 0xdd a = text
  · obtain ⟨a, ha, rfl⟩ := h
    refine ⟨0xdc, by decide, fun b hb heq => ?_⟩
    exact absurd (macOf_injective hb ha heq).1 (by decide)
  · exact ⟨0xdd, by decide, fun a ha heq => h ⟨a, ha, heq⟩⟩

def fillerHost (u : String) (a₀ a : ℕ) : String :=
  if dottedText a = u then dottedText a₀ else dottedText a

theorem isDotted_fillerHost (u : String) (a₀ a : ℕ) : IsDotted (fillerHost u a₀ a) := by
  rw [fillerHost]
  split_ifs
  · exact isDotted_dottedText a₀
  · exact isDotted_dottedText a

section Filler

variable {u : String} {a₀ a b : ℕ} (h₀ : a₀ < 2 ^ 32) (ha : a < 2 ^ 32) (hne : a ≠ a₀)

include h₀ ha hne

theorem fillerHost_ne : fillerHost u a₀ a ≠ u := by
  rw [fillerHost]
  split_ifs with h
  · intro heq
    exact hne (dottedText_injective ha h₀ (h.trans heq.symm))
  · exact h

theorem fillerHost_injective (hb : b < 2 ^ 32) (hne' : b ≠ a₀)
    (h : fillerHost u a₀ a = fillerHost u a₀ b) : a = b := by
  rw [fillerHost, fillerHost] at h
  split_ifs at h with h₁ h₂ h₂
  · exact dottedText_injective ha hb (h₁.trans h₂.symm)
  · exact absurd (dottedText_injective h₀ hb h).symm hne'
  · exact absurd (dottedText_injective ha h₀ h) hne
  · exact dottedText_injective ha hb h

end Filler

def fillerLease (u : String) (x : UInt8) (a₀ a w : ℕ) : Lease :=
  ⟨fillerHost u a₀ a, cidrText (addrBytes a) w, macOf x a⟩

theorem validate_fillerLease (u : String) (x : UInt8) (a₀ a : ℕ) {w : ℕ} (hw : w ≤ 32) :
    validate (fillerLease u x a₀ a w) = .ok () := by
  obtain ⟨_, _, _, _, hip⟩ := (isDotted_fillerHost u a₀ a).parseIP_eq
  obtain ⟨net, hcidr⟩ := parseCIDR_slot hw (a := a)
  obtain ⟨hw, hmac⟩ := parseMAC_macOf x a
  simp [validate, fillerLease, hip, hcidr, hmac]

theorem fillerLease_fits (u : String) (x : UInt8) (a₀ a : ℕ) {w : ℕ} (hw : w ≤ 32) :
    (fillerLease u x a₀ a w).Fits :=
  ⟨(isDotted_fillerHost u a₀ a).length_le, cidrText_length_le _ _ _ _ hw, (macOf_length x a).le⟩

structure Filling (o : Overlay) (r : Row) (a₀ w₀ : ℕ) (x : UInt8) : Prop where
  slot : o.Slot a₀ w₀
  subnet : r.overlaySubnet = cidrText (addrBytes a₀) w₀
  own : x ≠ 0xee
  mac : ∀ a < 2 ^ 32, macOf x a ≠ r.overlayHardwareAddr

namespace Filling

variable {o : Overlay} {r : Row} {a₀ w₀ : ℕ} {x : UInt8} {a b v w : ℕ}

theorem subnet_ne (h : Filling o r a₀ w₀ x) (ha : o.Slot a w) (hne : a ≠ a₀) :
    r.overlaySubnet ≠ cidrText (addrBytes a) w := by
  rw [h.subnet]
  intro heq
  exact hne (cidrText_injective h.slot.lt ha.lt h.slot.le ha.le heq).1.symm

theorem distinct_row (h : Filling o r a₀ w₀ x) (ha : o.Slot a w) (hne : a ≠ a₀) :
    r.toLease.Distinct (fillerLease r.underlayIP x a₀ a w) :=
  ⟨(fillerHost_ne h.slot.lt ha.lt hne).symm, h.subnet_ne ha hne, (h.mac a ha.lt).symm⟩

theorem distinct (h : Filling o r a₀ w₀ x) (ha : o.Slot a v) (hb : o.Slot b w) (hne : a ≠ a₀)
    (hne' : b ≠ a₀) (hab : a ≠ b) :
    (fillerLease r.underlayIP x a₀ a v).Distinct (fillerLease r.underlayIP x a₀ b w) := by
  refine ⟨fun heq => ?_, fun heq => ?_, fun heq => ?_⟩
  · exact hab (fillerHost_injective h.slot.lt ha.lt hne hb.lt hne' heq)
  · exact hab (cidrText_injective ha.lt hb.lt ha.le hb.le heq).1
  · exact hab (macOf_injective ha.lt hb.lt heq).2

theorem fill (h : Filling o r a₀ w₀ x) {c : LeaseController} {db : Database} {t : Table} {now : ℤ}
    (hreach : Reaches c r.underlayIP db ⟨t, now⟩) (ht : ∀ q ∈ t.rows, q = r) {ks : List String}
    (hnodup : ks.Nodup) (hks : ∀ s ∈ ks, o.pool.isMember s = true ∧ s ≠ r.overlaySubnet) :
    ∃ t' : Table, Reaches c r.underlayIP db ⟨t', now⟩ ∧ (∀ q ∈ t.rows, q ∈ t'.rows) ∧
      (∀ s ∈ ks, ∃ q ∈ t'.rows, q.overlaySubnet = s) ∧
      ∀ q ∈ t'.rows, q = r ∨ q.overlaySubnet ∈ ks ∧ ∃ a w, o.Slot a w ∧ a ≠ a₀ ∧
        q = ⟨fillerLease r.underlayIP x a₀ a w, now⟩ := by
  induction ks with
  | nil => exact ⟨t, hreach, fun q hq => hq, by simp, fun q hq => Or.inl (ht q hq)⟩
  | cons s ks ih =>
    obtain ⟨hs, hnodup⟩ := List.nodup_cons.mp hnodup
    obtain ⟨t', hreach', hold, hfull, hrows⟩ :=
      ih hnodup fun s hs => hks s (List.mem_cons_of_mem _ hs)
    obtain ⟨hmem, hne⟩ := hks s List.mem_cons_self
    obtain ⟨a, w, hslot, rfl⟩ := Overlay.isMember_iff.mp hmem
    have ha : a ≠ a₀ := by
      intro heq
      rw [heq] at hslot hne
      rw [h.subnet, hslot.eq_of_addr h.slot] at hne
      exact hne rfl
    have hadm : t'.Admits (fillerLease r.underlayIP x a₀ a w) := by
      refine ⟨fillerLease_fits _ _ _ _ hslot.le, fun q hq => ?_⟩
      rcases hrows q hq with rfl | ⟨hin, b, v, hslot', hb, rfl⟩
      · exact h.distinct_row hslot ha
      · refine h.distinct hslot' hslot hb ha fun hab => ?_
        rw [hab] at hslot' hin
        rw [fillerLease, hslot'.eq_of_addr hslot] at hin
        exact hs hin
    refine ⟨_, hreach'.insert (validate_fillerLease _ _ _ _ hslot.le) hadm, ?_, ?_, ?_⟩
    · exact fun q hq => (Table.mem_insert hadm).mpr (Or.inl (hold q hq))
    · intro s hs
      rcases List.mem_cons.mp hs with rfl | hs
      · exact ⟨_, Table.mem_insert_self hadm, rfl⟩
      · obtain ⟨q, hq, hqs⟩ := hfull s hs
        exact ⟨q, (Table.mem_insert hadm).mpr (Or.inl hq), hqs⟩
    · intro q hq
      rcases (Table.mem_insert hadm).mp hq with hq | rfl
      · rcases hrows q hq with hqr | ⟨hin, hfiller⟩
        · exact Or.inl hqr
        · exact Or.inr ⟨List.mem_cons_of_mem _ hin, hfiller⟩
      · exact Or.inr ⟨List.mem_cons_self, a, w, hslot, ha, rfl⟩

theorem exists_of_isMember {r : Row} (h : o.pool.isMember r.overlaySubnet = true) :
    ∃ a₀ w₀ x, Filling o r a₀ w₀ x := by
  obtain ⟨a₀, w₀, hslot, hsub⟩ := Overlay.isMember_iff.mp h
  obtain ⟨x, hx, hmac⟩ := exists_macOf r.overlayHardwareAddr
  exact ⟨a₀, w₀, x, hslot, hsub, hx, hmac⟩

theorem likeSingleIP_of_mem (h : Filling o r a₀ w₀ x) {s : String}
    (hs : s ∈ (o.pool.poolOf (likeSingleIP r.overlaySubnet)).keys) :
    likeSingleIP s = likeSingleIP r.overlaySubnet := by
  cases hkind : likeSingleIP r.overlaySubnet with
  | true =>
    rw [hkind] at hs
    exact Overlay.likeSingleIP_of_mem_single hs
  | false =>
    rw [hkind] at hs
    have hw : w₀ ≠ 32 := by
      intro heq
      have hlike := (likeSingleIP_cidrText (addrBytes a₀) h.slot.le).mpr heq
      rw [← h.subnet, hkind] at hlike
      cases hlike
    have hm : o.subnetMask < 32 := by
      rcases h.slot with ⟨rfl, -⟩ | ⟨rfl, -⟩
      · have hle := o.mask_le
        omega
      · exact absurd rfl hw
    exact Overlay.likeSingleIP_of_mem hm hs

end Filling

theorem acquired_expired {o : Overlay} {A E : ℤ} (hA : 1 ≤ A) (hE : 1 ≤ E) {r : Row} {a₀ w₀ : ℕ}
    {x : UInt8} (h : Filling o r a₀ w₀ x) {db : Database} (hr : r ∈ db.table.rows)
    (hexp : r.lastRenewedAt + E ≤ db.now)
    (hfull : ∀ s ∈ (o.pool.poolOf (likeSingleIP r.overlaySubnet)).keys, s ≠ r.overlaySubnet →
      ∃ q ∈ db.table.rows, q.overlaySubnet = s)
    (hrows : ∀ q ∈ db.table.rows, q = r ∨ ∃ a w, o.Slot a w ∧ a ≠ a₀ ∧
      q = ⟨fillerLease r.underlayIP x a₀ a w, db.now⟩) :
    ∃ v k db', v ≠ r.underlayIP ∧ (o.controller A E).Acquired v (likeSingleIP r.overlaySubnet) db
      (.ok (some k)) db' ∧ k.overlaySubnet = r.overlaySubnet := by
  have hslot := h.slot
  have hvu := fillerHost_ne hslot.lt o.base_lt hslot.ne_base.symm (u := r.underlayIP)
  have hv : ∀ q ∈ db.table.rows, q.underlayIP ≠ fillerHost r.underlayIP a₀ o.base := by
    intro q hq
    rcases hrows q hq with rfl | ⟨a, w, ha, hne, rfl⟩
    · exact hvu.symm
    · intro heq
      exact ha.ne_base (fillerHost_injective hslot.lt ha.lt hne o.base_lt hslot.ne_base.symm heq)
  have htaken : ∀ s ∈ (o.pool.poolOf (likeSingleIP r.overlaySubnet)).keys,
      Taken db (likeSingleIP r.overlaySubnet) s := by
    intro s hs
    by_cases heq : s = r.overlaySubnet
    · exact ⟨r, hr, rfl, heq.symm⟩
    · obtain ⟨q, hq, rfl⟩ := hfull s hs heq
      exact ⟨q, hq, h.likeSingleIP_of_mem hs, rfl⟩
  have hold : (o.controller A E).Oldest db (likeSingleIP r.overlaySubnet) r := by
    refine ⟨hr, rfl, hexp, fun q hq _ hq' => ?_⟩
    rcases hrows q hq with rfl | ⟨a, w, -, -, rfl⟩
    · exact le_rfl
    · have hnow : db.now + E ≤ db.now := hq'
      omega
  have hl := Overlay.vtepLease_slot hslot (fillerHost r.underlayIP a₀ o.base)
  rw [← h.subnet] at hl
  have hadm : (db.table.delete r.underlayIP).Admits
      ⟨fillerHost r.underlayIP a₀ o.base, r.overlaySubnet, macText a₀⟩ := by
    refine ⟨⟨(isDotted_fillerHost _ _ _).length_le, (db.table.fits r hr).2.1,
      (macOf_length 0xee a₀).le⟩, fun q hq => ?_⟩
    obtain ⟨hq, hqu⟩ := Table.mem_delete.mp hq
    refine ⟨hv q hq, ?_, ?_⟩
    · exact fun heq => hqu (by rw [Table.eq_of_overlaySubnet hq hr heq])
    · rcases hrows q hq with rfl | ⟨a, w, ha, -, rfl⟩
      · exact absurd rfl hqu
      · exact fun heq => h.own (macOf_injective ha.lt hslot.lt heq).1
  have hne : r.overlaySubnet ≠ "" := by
    intro hempty
    rw [hempty] at hl
    cases hl
  obtain ⟨n, hn⟩ : ∃ n, A.toNat = n + 1 := ⟨A.toNat - 1, by omega⟩
  refine ⟨_, ⟨fillerHost r.underlayIP a₀ o.base, r.overlaySubnet, macText a₀⟩,
    ⟨(db.table.delete r.underlayIP).insert _ db.now hadm, db.now⟩, hvu,
    .searched (isDotted_fillerHost _ _ _).to4_ne_none
      (fun q hq hqu => absurd hqu (hv q hq)) ?_, rfl⟩
  rw [Table.delete_eq_self hv]
  change (o.controller A E).Attempts _ _ A.toNat _ _ _ _
  rw [hn]
  exact .granted (.reclaimed htaken hold hne (.stored hl hadm))

/-- A member row that was not written now can be taken by another host before the
expiration time has passed from now. -/
theorem exists_evicted (o : Overlay) {A E : ℤ} (hA : 1 ≤ A) (hE : 1 ≤ E) {db : Database} {r : Row}
    (hr : r ∈ db.table.rows) (hmem : o.pool.isMember r.overlaySubnet = true)
    (hold : r.lastRenewedAt < db.now) :
    ∃ db₂, Reaches (o.controller A E) r.underlayIP db db₂ ∧ db₂.now < db.now + E ∧
      ∃ draws v single k db₃, v ≠ r.underlayIP ∧
        Executes (serve (o.controller A E) (.acquire draws v single)) db₂
          (.acquired (.ok (some k))) db₃ ∧ k.overlaySubnet = r.overlaySubnet := by
  obtain ⟨a₀, w₀, x, hfill⟩ := Filling.exists_of_isMember hmem
  obtain ⟨t, halone, hrows⟩ := reaches_alone (o.controller A E) r.underlayIP db
  have ht : ∀ q ∈ t.rows, q = r := fun q hq =>
    Table.eq_of_underlayIP ((hrows q).mp hq).1 hr ((hrows q).mp hq).2
  have hnodup := (o.pool.poolOf (likeSingleIP r.overlaySubnet)).nodup.filter
    (· ≠ r.overlaySubnet)
  obtain ⟨t', hreach, hkept, hfull, hrows'⟩ :=
    hfill.fill (halone.wait (le_max_left db.now (r.lastRenewedAt + E))) ht hnodup fun s hs => by
      obtain ⟨hs, hne⟩ := List.mem_filter.mp hs
      exact ⟨CIDRPool.isMember_of_poolOf hs, by simpa using hne⟩
  have hmem' : r ∈ (Database.mk t' (max db.now (r.lastRenewedAt + E))).table.rows :=
    hkept r ((hrows r).mpr ⟨hr, rfl⟩)
  obtain ⟨v, k, db₃, hv, hacq, hk⟩ := acquired_expired hA hE hfill hmem' (le_max_right _ _)
    (fun s hs hne => hfull s (List.mem_filter.mpr ⟨hs, by simpa using hne⟩)) fun q hq => by
      rcases hrows' q hq with hqr | ⟨-, hfiller⟩
      · exact Or.inl hqr
      · exact Or.inr hfiller
  obtain ⟨draws, res, hrun, hsame⟩ := hacq.executes (o.empty_not_mem_poolOf _)
  rw [(hsame k).mpr rfl] at hrun
  exact ⟨_, hreach, max_lt (by omega) (by omega), draws, v, likeSingleIP r.overlaySubnet, k,
    db₃, hv, runs_serve_acquire.mpr hrun, hk⟩

end Silk.Leaser
