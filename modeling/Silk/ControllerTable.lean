import Mathlib.Data.List.MinMax
import Mathlib.Data.List.Pairwise

/-!
# Leases and the `subnets` table

The table is a list of rows that carries the constraints of its schema: the
three UNIQUE columns compare exact strings, and every column value fits its
declared length. Inserting requires a proof that the constraints accept the row,
so no operation can produce a table that the database would refuse. The order
of the list is the physical order and no query result depends on it.
-/

namespace Silk.Controller

structure Lease where
  underlayIP : String
  overlaySubnet : String
  overlayHardwareAddr : String
deriving DecidableEq, Repr

structure Row extends Lease where
  lastRenewedAt : ℤ
deriving DecidableEq, Repr

/-- `underlay_ip varchar(15)`, `overlay_subnet varchar(18)`, `overlay_hwaddr varchar(17)`. -/
def Lease.Fits (l : Lease) : Prop :=
  l.underlayIP.length ≤ 15 ∧ l.overlaySubnet.length ≤ 18 ∧ l.overlayHardwareAddr.length ≤ 17

def Lease.Distinct (l k : Lease) : Prop :=
  l.underlayIP ≠ k.underlayIP ∧ l.overlaySubnet ≠ k.overlaySubnet ∧
    l.overlayHardwareAddr ≠ k.overlayHardwareAddr

instance (l : Lease) : Decidable l.Fits := inferInstanceAs (Decidable (_ ∧ _ ∧ _))
instance (l k : Lease) : Decidable (l.Distinct k) := inferInstanceAs (Decidable (_ ∧ _ ∧ _))

theorem Lease.Distinct.symm {l k : Lease} (h : l.Distinct k) : k.Distinct l :=
  ⟨h.1.symm, h.2.1.symm, h.2.2.symm⟩

structure Table where
  rows : List Row
  unique : rows.Pairwise fun r s => r.toLease.Distinct s.toLease
  fits : ∀ r ∈ rows, r.toLease.Fits

namespace Table

def empty : Table := ⟨[], .nil, by simp⟩

theorem ext {t u : Table} (h : t.rows = u.rows) : t = u := by
  cases t
  cases u
  simp_all

def Admits (t : Table) (l : Lease) : Prop := l.Fits ∧ ∀ r ∈ t.rows, r.toLease.Distinct l

instance (t : Table) (l : Lease) : Decidable (t.Admits l) := inferInstanceAs (Decidable (_ ∧ _))

def insert (t : Table) (l : Lease) (now : ℤ) (h : t.Admits l) : Table where
  rows := t.rows ++ [⟨l, now⟩]
  unique := by
    refine List.pairwise_append.mpr ⟨t.unique, List.pairwise_singleton _ _, ?_⟩
    intro r hr s hs
    rw [List.mem_singleton.mp hs]
    exact h.2 r hr
  fits := by
    intro r hr
    rcases List.mem_append.mp hr with hr | hr
    · exact t.fits r hr
    · rw [List.mem_singleton.mp hr]
      exact h.1

def delete (t : Table) (underlayIP : String) : Table where
  rows := t.rows.filter (·.underlayIP ≠ underlayIP)
  unique := t.unique.filter _
  fits := fun r hr => t.fits r (List.mem_filter.mp hr).1

def touch (underlayIP : String) (now : ℤ) (r : Row) : Row :=
  if r.underlayIP = underlayIP then { r with lastRenewedAt := now } else r

@[simp] theorem touch_toLease (u : String) (now : ℤ) (r : Row) :
    (touch u now r).toLease = r.toLease := by
  rw [touch]
  split_ifs <;> rfl

@[simp] theorem touch_underlayIP (u : String) (now : ℤ) (r : Row) :
    (touch u now r).underlayIP = r.underlayIP := by rw [touch_toLease]

@[simp] theorem touch_overlaySubnet (u : String) (now : ℤ) (r : Row) :
    (touch u now r).overlaySubnet = r.overlaySubnet := by rw [touch_toLease]

def renew (t : Table) (underlayIP : String) (now : ℤ) : Table where
  rows := t.rows.map (touch underlayIP now)
  unique := by
    rw [List.pairwise_map]
    simpa using t.unique
  fits := by
    intro r hr
    obtain ⟨s, hs, rfl⟩ := List.mem_map.mp hr
    simpa using t.fits s hs

theorem mem_insert {t : Table} {l : Lease} {now : ℤ} (h : t.Admits l) {r : Row} :
    r ∈ (t.insert l now h).rows ↔ r ∈ t.rows ∨ r = ⟨l, now⟩ := by
  simp [insert]

theorem mem_insert_self {t : Table} {l : Lease} {now : ℤ} (h : t.Admits l) :
    ⟨l, now⟩ ∈ (t.insert l now h).rows := (mem_insert h).mpr (Or.inr rfl)

theorem mem_delete {t : Table} {u : String} {r : Row} :
    r ∈ (t.delete u).rows ↔ r ∈ t.rows ∧ r.underlayIP ≠ u := by
  simp [delete]

theorem mem_renew {t : Table} {u : String} {now : ℤ} {r : Row} :
    r ∈ (t.renew u now).rows ↔ ∃ s ∈ t.rows, touch u now s = r := by
  simp [renew]

theorem renew_insert_self {t : Table} {l : Lease} {now : ℤ} (h : t.Admits l) :
    (t.insert l now h).renew l.underlayIP now = t.insert l now h := by
  apply Table.ext
  have hold : t.rows.map (touch l.underlayIP now) = t.rows := by
    conv_rhs => rw [← List.map_id t.rows]
    apply List.map_congr_left
    intro r hr
    rw [touch, if_neg (h.2 r hr).1, id]
  simp [renew, insert, hold, touch]

theorem lastRenewedAt_of_mem_renew {t : Table} {u : String} {now : ℤ} {r : Row}
    (hr : r ∈ (t.renew u now).rows) (hu : r.underlayIP = u) : r.lastRenewedAt = now := by
  obtain ⟨s, hs, rfl⟩ := mem_renew.mp hr
  rw [touch_underlayIP] at hu
  rw [touch, if_pos hu]

theorem delete_eq_self {t : Table} {u : String} (h : ∀ r ∈ t.rows, r.underlayIP ≠ u) :
    t.delete u = t := by
  apply Table.ext
  simpa [delete, List.filter_eq_self] using h

theorem distinct_of_mem {t : Table} {r s : Row} (hr : r ∈ t.rows) (hs : s ∈ t.rows)
    (hne : r ≠ s) : r.toLease.Distinct s.toLease := by
  have : Std.Symm fun r s : Row => r.toLease.Distinct s.toLease := ⟨fun _ _ h => h.symm⟩
  exact t.unique.forall hr hs hne

theorem eq_of_underlayIP {t : Table} {r s : Row} (hr : r ∈ t.rows) (hs : s ∈ t.rows)
    (h : r.underlayIP = s.underlayIP) : r = s := by
  by_contra hne
  exact (distinct_of_mem hr hs hne).1 h

theorem eq_of_overlaySubnet {t : Table} {r s : Row} (hr : r ∈ t.rows) (hs : s ∈ t.rows)
    (h : r.overlaySubnet = s.overlaySubnet) : r = s := by
  by_contra hne
  exact (distinct_of_mem hr hs hne).2.1 h

end Table
end Silk.Controller
