import Silk.LeaserExclusivity

/-!
# Renewing a lease that has no row

`RenewSubnetLease` inserts the lease it is given when the host has no row. The
validator only parses the three fields, and the table compares texts, so another
text for an overlapping network or for the same hardware address is accepted.
The insert is harmless exactly for leases that are separate from every row.
-/

namespace Silk.Leaser

open GoNet Controller Resumption

def hardwareAddrsDiffer (a b : String) : Prop := ∀ hw, ¬ (parseMAC a = .ok hw ∧ parseMAC b = .ok hw)

def Separate (l k : Lease) : Prop :=
  rangesDisjoint l.overlaySubnet k.overlaySubnet ∧
    hardwareAddrsDiffer l.overlayHardwareAddr k.overlayHardwareAddr

theorem Separate.symm {l k : Lease} (h : Separate l k) : Separate k l :=
  ⟨rangesDisjoint_symm h.1, fun hw hboth => h.2 hw ⟨hboth.2, hboth.1⟩⟩

def leases (t : Table) : List Lease := t.rows.map (·.toLease)

def SeparateRows (t : Table) : Prop := (leases t).Pairwise Separate

theorem admits_iff {t : Table} {l : Lease} :
    t.Admits l ↔ l.Fits ∧ ∀ k ∈ leases t, k.Distinct l := by
  simp only [Table.Admits, leases, List.forall_mem_map]

theorem leases_insert {t : Table} {l : Lease} {now : ℤ} (h : t.Admits l) :
    leases (t.insert l now h) = leases t ++ [l] := by
  simp [leases, Table.insert]

theorem leases_renew (t : Table) (u : String) (now : ℤ) : leases (t.renew u now) = leases t := by
  simp [leases, Table.renew, Function.comp_def]

section Renewal

variable {l : Lease} {db db' : Database}

theorem renewKeeps_leases {J : List Lease → Prop}
    (h : ∀ ls, J ls → validate l = .ok () → l.Fits → (∀ k ∈ ls, k.Distinct l) → J (ls ++ [l])) :
    LeaseController.RenewKeeps (fun db => J (leases db.table)) l fun _ => True where
  insert hval db hJ hadm := by
    rw [leases_insert]
    exact h _ hJ hval hadm.1 (admits_iff.mp hadm).2
  touch db hJ := by
    rw [leases_renew]
    exact hJ
  succeeded _ _ _ _ := trivial
  failed _ := trivial

theorem runs_renewSubnetLease_leases {allowed : Choice → Prop} {res : Except LeaseError Unit}
    (h : (LeaseController.renewSubnetLease l).Runs exec allowed db res db') :
    leases db'.table = leases db.table ∨
      validate l = .ok () ∧ db.table.Admits l ∧ leases db'.table = leases db.table ++ [l] := by
  have hkeeps := renewKeeps_leases (l := l) (J := fun ls => ls = leases db.table ∨
    validate l = .ok () ∧ db.table.Admits l ∧ ls = leases db.table ++ [l]) ?_
  · exact (hkeeps.safe.runs (Or.inl rfl) h).1
  · intro ls hls hval hfits hdist
    rcases hls with rfl | ⟨-, -, rfl⟩
    · exact Or.inr ⟨hval, admits_iff.mpr ⟨hfits, hdist⟩, rfl⟩
    · exact absurd rfl (hdist l (by simp)).1

end Renewal

/-- On a table with separate rows, an insert by a renewal always leaves separate
rows exactly when the lease is invalid, refused by the table, or separate from
every row. -/
theorem renew_insert_separate_iff (l : Lease) (db : Database) (hdb : SeparateRows db.table) :
    (∀ res db', (LeaseController.renewSubnetLease l).Runs exec (fun _ => True) db res db' →
      db.table.rows.length < db'.table.rows.length → SeparateRows db'.table) ↔
    (validate l = .ok () → db.table.Admits l → ∀ r ∈ db.table.rows, Separate l r.toLease) := by
  have hlength : ∀ t : Table, t.rows.length = (leases t).length := fun t => (List.length_map _).symm
  constructor
  · intro h hval hadm r hr
    have hrun := LeaseController.executes_renewSubnetLease_insert hval hadm
    have hsep := h _ _ (hrun.mono fun _ _ => trivial) (by simp [hlength, leases_insert])
    rw [SeparateRows, leases_insert, List.pairwise_append] at hsep
    exact (hsep.2.2 r.toLease (List.mem_map_of_mem hr) l (by simp)).symm
  · intro h res db' hrun hlt
    rcases runs_renewSubnetLease_leases hrun with hsame | ⟨hval, hadm, hleases⟩
    · rw [hlength, hlength, hsame] at hlt
      exact absurd hlt (lt_irrefl _)
    · rw [SeparateRows, hleases]
      refine List.pairwise_append.mpr ⟨hdb, List.pairwise_singleton _ _, ?_⟩
      intro k hk k' hk'
      obtain ⟨r, hr, rfl⟩ := List.mem_map.mp hk
      rw [List.mem_singleton.mp hk']
      exact (h hval hadm r hr).symm

theorem separateRows_blockHeld (now : ℤ) : SeparateRows (blockHeld now).table :=
  List.pairwise_singleton _ _

theorem renew_insert_separate_iff_single :
    ∃ db', Executes (LeaseController.renewSubnetLease
        ⟨"10.0.0.2", "10.255.0.1/32", "ee:ee:0a:ff:00:01"⟩) (blockHeld 7) (.ok ()) db' ∧
      SeparateRows db'.table := by
  have hsep : ∀ r ∈ (blockHeld 7).table.rows,
      Separate ⟨"10.0.0.2", "10.255.0.1/32", "ee:ee:0a:ff:00:01"⟩ r.toLease := by
    intro r hr
    obtain rfl := List.mem_singleton.mp hr
    constructor
    · have hblock : Overlay.small.Grants ⟨"10.0.0.1", "10.255.0.4/30", "ee:ee:0a:ff:00:04"⟩ :=
        .of_vtepLease (u := "10.0.0.1") (s := "10.255.0.4/30") (by decide) rfl
      have hsingle : Overlay.small.Grants ⟨"10.0.0.2", "10.255.0.1/32", "ee:ee:0a:ff:00:01"⟩ :=
        .of_vtepLease (u := "10.0.0.2") (s := "10.255.0.1/32") (by decide) rfl
      exact hsingle.rangesDisjoint hblock (by decide)
    · intro hw hboth
      exact absurd (hboth.1.trans hboth.2.symm) (by decide)
  exact ⟨_, executes_runWith _ _, (renew_insert_separate_iff _ (blockHeld 7)
    (separateRows_blockHeld 7)).mpr (fun _ _ => hsep) _ _
    ((executes_runWith _ _).mono fun _ _ => trivial) (by decide)⟩

def halfBlock : Lease := ⟨"10.0.0.2", "10.255.0.4/31", "EE-EE-0A-FF-00-04"⟩

theorem renew_inserts_overlapping :
    SeparateRows (blockHeld 7).table ∧
      ∃ db', Executes (LeaseController.renewSubnetLease halfBlock) (blockHeld 7) (.ok ()) db' ∧
        ∃ r ∈ db'.table.rows, ∃ s ∈ db'.table.rows, r ≠ s ∧
          ¬ rangesDisjoint r.overlaySubnet s.overlaySubnet ∧
          ¬ hardwareAddrsDiffer r.overlayHardwareAddr s.overlayHardwareAddr := by
  refine ⟨separateRows_blockHeld 7, _, executes_runWith _ _,
    ⟨⟨"10.0.0.1", "10.255.0.4/30", "ee:ee:0a:ff:00:04"⟩, 0⟩, by decide, ⟨halfBlock, 7⟩, by decide,
    by decide, ?_, ?_⟩
  · intro h
    exact h [10, 255, 0, 4] ⟨⟨_, _, rfl, rfl⟩, ⟨_, _, rfl, rfl⟩⟩
  · intro h
    exact h [0xee, 0xee, 0x0a, 0xff, 0x00, 0x04] ⟨rfl, rfl⟩

end Silk.Leaser
