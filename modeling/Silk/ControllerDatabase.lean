import Silk.ControllerTable

/-!
# The database handler

Each method of `DatabaseHandler` is one SQL statement executed indivisibly on
the `subnets` table at the current database time. A choice value resolves what
the caller does not control: the order in which rows are visited, which also
decides between equally old rows, the wording of constraint errors, and an
infrastructure fault. A faulty statement reports an error and may or may not
have taken effect.
-/

namespace Silk.Controller

structure Database where
  table : Table
  now : ℤ

inductive Err where
  | recordNotAffected
  | message (text : String)
deriving DecidableEq, Repr

def Err.text : Err → String
  | .recordNotAffected => "record not affected"
  | .message text => text

def errorf (context : String) (err : Err) : Err := .message (context ++ ": " ++ err.text)

inductive Statement where
  | addEntry (lease : Lease)
  | deleteEntry (underlayIP : String)
  | leaseForUnderlayIP (underlayIP : String)
  | lastRenewedAtForUnderlayIP (underlayIP : String)
  | renewLeaseForUnderlayIP (underlayIP : String)
  | all
  | allBlockSubnets
  | allSingleIPSubnets
  | allActive (duration : ℤ)
  | oldestExpiredBlockSubnet (expirationTime : ℤ)
  | oldestExpiredSingleIP (expirationTime : ℤ)

def Answer : Statement → Type
  | .addEntry _ | .deleteEntry _ | .renewLeaseForUnderlayIP _ => Unit
  | .leaseForUnderlayIP _ | .oldestExpiredBlockSubnet _ | .oldestExpiredSingleIP _ => Option Lease
  | .lastRenewedAtForUnderlayIP _ => ℤ
  | .all | .allBlockSubnets | .allSingleIPSubnets | .allActive _ => List Lease

abbrev Reply (q : Statement) : Type := Except Err (Answer q)

structure RowOrder where
  scan : List Row → List Row
  perm : ∀ rows, (scan rows).Perm rows

def RowOrder.physical : RowOrder := ⟨id, fun _ => .refl _⟩

/-- `exec`: the driver reports a failure. `result`: the statement took effect and
reading its result fails. `next`: so does moving on to the next row of a result. -/
inductive Fault where
  | exec (applied : Bool) (text : String)
  | result (text : String)
  | next (text : String)

structure Choice where
  fault : Option Fault
  order : RowOrder
  constraintText : String

def Choice.quiet : Choice := ⟨none, .physical, "duplicate key value violates unique constraint"⟩

def likeSingleIP (subnet : String) : Bool := "/32".toList.isSuffixOf subnet.toList

def addEntry (ch : Choice) (db : Database) (lease : Lease) : Except Err Unit × Database :=
  if h : db.table.Admits lease then (.ok (), { db with table := db.table.insert lease db.now h })
  else (.error (errorf "adding entry" (.message ch.constraintText)), db)

def deleteEntry (db : Database) (underlayIP : String) : Except Err Unit × Database :=
  if ∃ r ∈ db.table.rows, r.underlayIP = underlayIP then
    (.ok (), { db with table := db.table.delete underlayIP })
  else (.error .recordNotAffected, db)

def rowForUnderlayIP (db : Database) (underlayIP : String) : Option Row :=
  db.table.rows.find? (·.underlayIP = underlayIP)

def leaseForUnderlayIP (db : Database) (underlayIP : String) : Option Lease :=
  (rowForUnderlayIP db underlayIP).map fun r =>
    ⟨underlayIP, r.overlaySubnet, r.overlayHardwareAddr⟩

def lastRenewedAtForUnderlayIP (db : Database) (underlayIP : String) : Except Err ℤ :=
  match rowForUnderlayIP db underlayIP with
  | some r => .ok r.lastRenewedAt
  | none => .error (.message "sql: no rows in result set")

def renewLeaseForUnderlayIP (db : Database) (underlayIP : String) : Database :=
  { db with table := db.table.renew underlayIP db.now }

def leasesWhere (ch : Choice) (db : Database) (cond : Row → Bool) : List Lease :=
  ((ch.order.scan db.table.rows).filter cond).map (·.toLease)

def all (ch : Choice) (db : Database) : List Lease := leasesWhere ch db fun _ => true

def allSingleIPSubnets (ch : Choice) (db : Database) : List Lease :=
  leasesWhere ch db fun r => likeSingleIP r.overlaySubnet

def allBlockSubnets (ch : Choice) (db : Database) : List Lease :=
  leasesWhere ch db fun r => !likeSingleIP r.overlaySubnet

def allActive (ch : Choice) (db : Database) (duration : ℤ) : List Lease :=
  leasesWhere ch db fun r => r.lastRenewedAt + duration > db.now

/-- The first of the rows with the smallest `last_renewed_at`, by the plain order of `ℤ`. -/
def oldest (rows : List Row) : Option Row :=
  @List.argmin Row ℤ Int.instLinearOrder.toPreorder Int.instLinearOrder.toDecidableLT
    (·.lastRenewedAt) rows

def oldestWhere (ch : Choice) (db : Database) (cond : Row → Bool) : Option Lease :=
  (oldest ((ch.order.scan db.table.rows).filter cond)).map (·.toLease)

def oldestExpiredBlockSubnet (ch : Choice) (db : Database) (expirationTime : ℤ) : Option Lease :=
  oldestWhere ch db fun r =>
    !likeSingleIP r.overlaySubnet && decide (r.lastRenewedAt + expirationTime ≤ db.now)

def oldestExpiredSingleIP (ch : Choice) (db : Database) (expirationTime : ℤ) : Option Lease :=
  oldestWhere ch db fun r =>
    likeSingleIP r.overlaySubnet && decide (r.lastRenewedAt + expirationTime ≤ db.now)

def respond (ch : Choice) (db : Database) : (q : Statement) → Reply q × Database
  | .addEntry lease => addEntry ch db lease
  | .deleteEntry u => deleteEntry db u
  | .leaseForUnderlayIP u => (.ok (leaseForUnderlayIP db u), db)
  | .lastRenewedAtForUnderlayIP u => (lastRenewedAtForUnderlayIP db u, db)
  | .renewLeaseForUnderlayIP u => (.ok (), renewLeaseForUnderlayIP db u)
  | .all => (.ok (all ch db), db)
  | .allBlockSubnets => (.ok (allBlockSubnets ch db), db)
  | .allSingleIPSubnets => (.ok (allSingleIPSubnets ch db), db)
  | .allActive d => (.ok (allActive ch db d), db)
  | .oldestExpiredBlockSubnet e => (.ok (oldestExpiredBlockSubnet ch db e), db)
  | .oldestExpiredSingleIP e => (.ok (oldestExpiredSingleIP ch db e), db)

def listError (context : String) : Fault → Err
  | .exec _ text => errorf context (.message text)
  | .result text => errorf context (errorf "parsing result" (.message text))
  | .next text => errorf context (errorf "getting next row" (.message text))

def Fault.text : Fault → String
  | .exec _ text => text
  | .result text | .next text => text

def faultError (f : Fault) : Statement → Err
  | .addEntry _ => errorf "adding entry" (.message f.text)
  | .deleteEntry _ =>
    match f with
    | .exec _ text => errorf "deleting entry" (.message text)
    | .result text | .next text => errorf "parse result" (.message text)
  | .leaseForUnderlayIP _ | .lastRenewedAtForUnderlayIP _ => .message f.text
  | .renewLeaseForUnderlayIP _ => errorf "renewing lease" (.message f.text)
  | .all => listError "selecting all subnets" f
  | .allBlockSubnets => listError "selecting all block subnets" f
  | .allSingleIPSubnets => listError "selecting all single ip subnets" f
  | .allActive _ => listError "selecting all active subnets" f
  | .oldestExpiredBlockSubnet _ | .oldestExpiredSingleIP _ => errorf "scan result" (.message f.text)

def Fault.applied : Fault → Bool
  | .exec applied _ => applied
  | .result _ | .next _ => true

def exec (ch : Choice) (db : Database) (q : Statement) : Reply q × Database :=
  match ch.fault with
  | none => respond ch db q
  | some f => (.error (faultError f q), if f.applied then (respond ch db q).2 else db)

/-- Everything a statement can do to the table. -/
inductive Effect (db : Database) : Statement → Database → Prop where
  | unchanged (q : Statement) : Effect db q db
  | inserted {l : Lease} (h : db.table.Admits l) :
      Effect db (.addEntry l) { db with table := db.table.insert l db.now h }
  | deleted (u : String) : Effect db (.deleteEntry u) { db with table := db.table.delete u }
  | renewed (u : String) :
      Effect db (.renewLeaseForUnderlayIP u) { db with table := db.table.renew u db.now }

theorem respond_effect (ch : Choice) (db : Database) (q : Statement) :
    Effect db q (respond ch db q).2 := by
  cases q with
  | addEntry l =>
    simp only [respond, addEntry]
    split_ifs with h
    · exact .inserted h
    · exact .unchanged _
  | deleteEntry u =>
    simp only [respond, deleteEntry]
    split_ifs
    · exact .deleted u
    · exact .unchanged _
  | renewLeaseForUnderlayIP u => exact .renewed u
  | _ => exact .unchanged _

theorem exec_effect (ch : Choice) (db : Database) (q : Statement) :
    Effect db q (exec ch db q).2 := by
  rw [exec]
  split
  · exact respond_effect ch db q
  · dsimp only
    split_ifs
    · exact respond_effect ch db q
    · exact .unchanged q

theorem Effect.row_cases {db db' : Database} {q : Statement} (h : Effect db q db') {r : Row}
    (hr : r ∈ db'.table.rows) : r ∈ db.table.rows ∨ r.lastRenewedAt = db.now := by
  cases h with
  | unchanged => exact Or.inl hr
  | inserted hadm =>
    rcases (Table.mem_insert hadm).mp hr with hr | rfl
    · exact Or.inl hr
    · exact Or.inr rfl
  | deleted => exact Or.inl (Table.mem_delete.mp hr).1
  | renewed v =>
    obtain ⟨s, hs, rfl⟩ := Table.mem_renew.mp hr
    rw [Table.touch]
    split_ifs
    · exact Or.inr rfl
    · exact Or.inl hs

def Statement.reads : Statement → Bool
  | .addEntry _ | .deleteEntry _ | .renewLeaseForUnderlayIP _ => false
  | _ => true

theorem exec_reads (ch : Choice) (db : Database) {q : Statement} (h : q.reads = true) :
    (exec ch db q).2 = db := by
  have heff := exec_effect ch db q
  generalize (exec ch db q).2 = db' at heff
  cases heff with
  | unchanged => rfl
  | inserted => cases h
  | deleted => cases h
  | renewed => cases h

theorem exec_of_fault_none {ch : Choice} (h : ch.fault = none) (db : Database) (q : Statement) :
    exec ch db q = respond ch db q := by
  simp [exec, h]

theorem exec_ok {ch : Choice} {db : Database} {q : Statement} {a : Answer q}
    (h : (exec ch db q).1 = .ok a) : exec ch db q = respond ch db q := by
  rw [exec] at h ⊢
  split at h
  · rfl
  · cases h

theorem Effect.now_eq {db db' : Database} {q : Statement} (h : Effect db q db') :
    db'.now = db.now := by
  cases h <;> rfl

theorem mem_leasesWhere {ch : Choice} {db : Database} {cond : Row → Bool} {l : Lease} :
    l ∈ leasesWhere ch db cond ↔ ∃ r ∈ db.table.rows, cond r = true ∧ r.toLease = l := by
  simp only [leasesWhere, List.mem_map, List.mem_filter, (ch.order.perm db.table.rows).mem_iff]
  constructor
  · rintro ⟨r, ⟨hr, hc⟩, hl⟩
    exact ⟨r, hr, hc, hl⟩
  · rintro ⟨r, hr, hc, hl⟩
    exact ⟨r, ⟨hr, hc⟩, hl⟩

theorem oldestWhere_none {ch : Choice} {db : Database} {cond : Row → Bool} :
    oldestWhere ch db cond = none ↔ ∀ r ∈ db.table.rows, cond r = false := by
  simp only [oldestWhere, oldest, Option.map_eq_none_iff, List.argmin_eq_none,
    List.filter_eq_nil_iff, (ch.order.perm db.table.rows).mem_iff, Bool.not_eq_true]

theorem oldestWhere_some {ch : Choice} {db : Database} {cond : Row → Bool} {l : Lease}
    (h : oldestWhere ch db cond = some l) :
    ∃ r ∈ db.table.rows, r.toLease = l ∧ cond r = true ∧
      ∀ s ∈ db.table.rows, cond s = true → r.lastRenewedAt ≤ s.lastRenewedAt := by
  obtain ⟨r, hr, hl⟩ := Option.map_eq_some_iff.mp h
  have hmem := List.mem_filter.mp (List.argmin_mem hr)
  refine ⟨r, (ch.order.perm _).mem_iff.mp hmem.1, hl, hmem.2, fun s hs hc => ?_⟩
  exact List.le_of_mem_argmin (List.mem_filter.mpr ⟨(ch.order.perm _).mem_iff.mpr hs, hc⟩) hr

def RowOrder.starting (r : Row) : RowOrder where
  scan rows := if r ∈ rows then r :: rows.erase r else rows
  perm rows := by
    split_ifs with h
    · exact (List.perm_cons_erase h).symm
    · exact .refl _

theorem oldestWhere_of_oldest {db : Database} {cond : Row → Bool} {r : Row}
    (hr : r ∈ db.table.rows) (hcond : cond r = true)
    (hmin : ∀ s ∈ db.table.rows, cond s = true → r.lastRenewedAt ≤ s.lastRenewedAt) :
    ∃ ch : Choice, ch.fault = none ∧ oldestWhere ch db cond = some r.toLease := by
  refine ⟨⟨none, .starting r, ""⟩, rfl, ?_⟩
  have hscan : (RowOrder.starting r).scan db.table.rows = r :: db.table.rows.erase r := if_pos hr
  rw [oldestWhere, hscan, List.filter_cons_of_pos hcond]
  have holdest : oldest (r :: (db.table.rows.erase r).filter cond) = some r := by
    apply List.argmin_eq_some_iff.mpr
    refine ⟨List.mem_cons_self, ?_, ?_⟩
    · intro s hs
      rcases List.mem_cons.mp hs with rfl | hs
      · exact le_rfl
      · have hmem := List.mem_filter.mp hs
        exact hmin s (List.mem_of_mem_erase hmem.1) hmem.2
    · intro s _ _
      rw [List.idxOf_cons_self]
      exact Nat.zero_le _
  rw [holdest]
  rfl

theorem rowForUnderlayIP_some {db : Database} {u : String} {r : Row} :
    rowForUnderlayIP db u = some r ↔ r ∈ db.table.rows ∧ r.underlayIP = u := by
  constructor
  · intro h
    exact ⟨List.mem_of_find?_eq_some h, by simpa using List.find?_some h⟩
  · rintro ⟨hr, hu⟩
    cases hf : rowForUnderlayIP db u with
    | none =>
      have hn := List.find?_eq_none.mp hf r hr
      simp [hu] at hn
    | some s =>
      have hs : s.underlayIP = u := by simpa using List.find?_some hf
      rw [Table.eq_of_underlayIP (List.mem_of_find?_eq_some hf) hr (hs.trans hu.symm)]

theorem rowForUnderlayIP_none {db : Database} {u : String} :
    rowForUnderlayIP db u = none ↔ ∀ r ∈ db.table.rows, r.underlayIP ≠ u := by
  simp [rowForUnderlayIP, List.find?_eq_none]

theorem leaseForUnderlayIP_some {db : Database} {u : String} {l : Lease} :
    leaseForUnderlayIP db u = some l ↔ ∃ r ∈ db.table.rows, r.underlayIP = u ∧ r.toLease = l := by
  rw [leaseForUnderlayIP, Option.map_eq_some_iff]
  constructor
  · rintro ⟨r, hr, hl⟩
    obtain ⟨hmem, hu⟩ := rowForUnderlayIP_some.mp hr
    exact ⟨r, hmem, hu, by rw [← hl, ← hu]⟩
  · rintro ⟨r, hmem, hu, hl⟩
    exact ⟨r, rowForUnderlayIP_some.mpr ⟨hmem, hu⟩, by rw [← hl, ← hu]⟩

theorem leaseForUnderlayIP_none {db : Database} {u : String} :
    leaseForUnderlayIP db u = none ↔ ∀ r ∈ db.table.rows, r.underlayIP ≠ u := by
  rw [leaseForUnderlayIP, Option.map_eq_none_iff, rowForUnderlayIP_none]

end Silk.Controller
