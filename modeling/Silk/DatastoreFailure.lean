import Silk.DatastoreCalls

/-!
# Failing writes

After a call that returned an error, `ReadAll` should fail or return the map that
was there before. A call that fails before its truncation takes effect leaves the
file alone, and a part of the new text is no value; but a file that was truncated
and not written to reads as an empty map. That happens when the encoding fails,
since the pool is encoded behind the truncation.
-/

namespace Silk.Datastore

open GoJson Resumption

variable (float64 : Number → Option Number)

def Stored (bytes : List UInt8) (m : SortedMap GoString Container) : Prop :=
  ∃ pool, loaded float64 bytes none = .ok pool ∧ pool.contents = m

def readBack (d : Disk) : Except Failure Answer :=
  ((serve float64 .readAll).run.follow Disk.exec (fun _ => none) d).1

/-- `ReadAll` fails after the call, or returns the map it would have returned before. -/
def Keeps (before after : Disk) : Prop :=
  ∀ pool, readBack float64 before = .ok (.all pool) →
    (∃ e, readBack float64 after = .error e) ∨
      ∃ pool', readBack float64 after = .ok (.all pool') ∧ pool'.contents = pool.contents

def LosesNothing (req : Request) (plan : ℕ → FileChoice) (d : Disk) : Prop :=
  ∀ text, ((serve float64 req).run.follow Disk.exec plan d).1 = .error (.error text) →
    Keeps float64 d ((serve float64 req).run.follow Disk.exec plan d).2.1

def Part (pool : Pool) (bytes : List UInt8) : Prop :=
  bytes ≠ [] ∧ ∃ missing, missing ≠ [] ∧ encode pool = .ok (bytes ++ missing)

def Whole (pool : Pool) (before bytes : List UInt8) : Prop :=
  (∃ text, encode pool = .ok text ∧ text <+: bytes) ∧
    ∀ m, Stored float64 bytes m → Stored float64 before m

/-- When the file has been truncated, nothing fails behind that; or nothing was stored before;
or the write stops inside the text, or behind a text for the same map. -/
def Spared (req : Request) (plan : ℕ → FileChoice) (bytes : List UInt8) : Prop :=
  ∀ pool, overwrites float64 req plan bytes = some pool →
    Completes (plan 4) (plan 5) pool ∨
      (written (plan 4) (plan 5) pool = [] ∧ Stored float64 bytes .empty) ∨
      Part pool (written (plan 4) (plan 5) pool) ∨
      Whole float64 pool bytes (written (plan 4) (plan 5) pool)

variable {float64}

theorem readBack_eq (d : Disk) : readBack float64 d =
    ((loaded float64 d.bytes none).mapError (context "decoding file: ")).map .all := by
  obtain ⟨rest, hrun⟩ := withLock_follow (context "open lock: ")
    (Fallible.wrap (context "decoding file: ") (decodeAll float64)) d (fun _ => none) rfl
  obtain ⟨c, hbody⟩ := follow_decodeAll float64 (fun _ => none) rfl d.openLocked
  rw [readBack, serve, Fallible.follow_map, readAll, hrun, Fallible.follow_wrap, hbody]
  rfl

theorem loaded_of_fault {bytes : List UInt8} {read : FileChoice} {pool : Pool}
    (h : loaded float64 bytes read = .ok pool) : loaded float64 bytes none = .ok pool := by
  cases read with
  | none => exact h
  | some f =>
    have hread := readValue_failure_ne_eof (bytes.take f.count) f.text
    simp only [loaded, inputOf, decode] at h ⊢
    cases hv : readValue ⟨bytes.take f.count, some f.text⟩ with
    | error e =>
      rw [hv] at h hread
      cases e with
      | eof => exact absurd rfl hread
      | _ => cases h
    | ok v =>
      have hwhole := readValue_of_failure hv (bytes.drop f.count)
      rw [List.take_append_drop] at hwhole
      rw [hv] at h
      rw [hwhole]
      exact h

theorem loaded_nil : loaded float64 [] none = .ok (some .empty) := rfl

theorem readValue_part_null {bytes missing : List UInt8} (h : ascii "null" = bytes ++ missing)
    (hbytes : bytes ≠ []) (hmissing : missing ≠ []) :
    readValue ⟨bytes, none⟩ = .error .unexpectedEOF := by
  have htake := List.prefix_iff_eq_take.mp ⟨missing, h.symm⟩
  have hlen : 4 = bytes.length + missing.length := by
    rw [← List.length_append, ← h]
    rfl
  have hlow := List.length_pos_of_ne_nil hbytes
  have hhigh := List.length_pos_of_ne_nil hmissing
  have hcases : bytes.length = 1 ∨ bytes.length = 2 ∨ bytes.length = 3 := by omega
  rcases hcases with hn | hn | hn
  · rw [htake, hn]
    rfl
  · rw [htake, hn]
    rfl
  · rw [htake, hn]
    rfl

theorem Part.fails {pool : Pool} {bytes : List UInt8} (h : Part pool bytes) :
    ∃ e, loaded float64 bytes none = .error e := by
  obtain ⟨hbytes, missing, hmissing, htext⟩ := h
  have hread : ∃ e, readValue ⟨bytes, none⟩ = .error e ∧ e ≠ .eof := by
    cases pool with
    | some m => exact readValue_part htext hbytes hmissing
    | none =>
      have hnull : ascii "null" = bytes ++ missing := Except.ok.inj htext
      exact ⟨_, readValue_part_null hnull hbytes hmissing, by decide⟩
  obtain ⟨e, he, hne⟩ := hread
  refine ⟨decodeErrorText e, ?_⟩
  rw [loaded, inputOf, decode, he]
  cases e with
  | eof => exact absurd rfl hne
  | _ => rfl

theorem Stored.unique {bytes : List UInt8} {m m' : SortedMap GoString Container}
    (h : Stored float64 bytes m) (h' : Stored float64 bytes m') : m = m' := by
  obtain ⟨pool, hpool, rfl⟩ := h
  obtain ⟨pool', hpool', rfl⟩ := h'
  rw [hpool] at hpool'
  cases hpool'
  rfl

theorem keeps_iff {before : Disk} (after : Disk) {m : SortedMap GoString Container}
    (hbefore : Stored float64 before.bytes m) :
    Keeps float64 before after ↔ ∀ m', Stored float64 after.bytes m' → m' = m := by
  obtain ⟨pool, hpool, rfl⟩ := hbefore
  have hbefore : readBack float64 before = .ok (.all pool) := by
    rw [readBack_eq, hpool]
    rfl
  constructor
  · rintro hkeeps m' ⟨pool', hpool', rfl⟩
    have hafter : readBack float64 after = .ok (.all pool') := by
      rw [readBack_eq, hpool']
      rfl
    rcases hkeeps pool hbefore with ⟨e, he⟩ | ⟨pool'', hpool'', heq⟩
    · rw [hafter] at he
      cases he
    · rw [hafter] at hpool''
      cases hpool''
      exact heq
  · intro hstored pool₀ hpool₀
    rw [hbefore] at hpool₀
    cases hpool₀
    rw [readBack_eq]
    cases hafter : loaded float64 after.bytes none with
    | error e => exact Or.inl ⟨_, rfl⟩
    | ok pool' => exact Or.inr ⟨pool', rfl, hstored _ ⟨pool', hafter, rfl⟩⟩

theorem written_cases (truncate write : FileChoice) (pool : Pool) :
    written truncate write pool = [] ∨ Part pool (written truncate write pool) ∨
      ∃ text, encode pool = .ok text ∧ text <+: written truncate write pool := by
  cases truncate with
  | some f => exact Or.inl (by simp [written])
  | none =>
    cases htext : encode pool with
    | error e => exact Or.inl (by simp [written, htext])
    | ok text =>
      cases write with
      | none =>
        simp only [written, htext]
        exact Or.inr (Or.inr ⟨text, rfl, List.prefix_append text _⟩)
      | some f =>
        simp only [written, htext]
        by_cases hwhole : text.length ≤ f.count
        · refine Or.inr (Or.inr ⟨text, rfl, ?_⟩)
          exact List.prefix_of_prefix_length_le (List.prefix_append _ _) (List.take_prefix _ _)
            (by simp; omega)
        · rw [List.take_append_of_le_length (by omega)]
          by_cases hzero : f.count = 0
          · exact Or.inl (by simp [hzero])
          · refine Or.inr (Or.inl ⟨?_, text.drop f.count, ?_, ?_⟩)
            · exact List.ne_nil_of_length_pos (by rw [List.length_take]; omega)
            · exact List.ne_nil_of_length_pos (by rw [List.length_drop]; omega)
            · rw [htext, List.take_append_drop]

theorem keeps_written_iff {bytes : List UInt8} {m : SortedMap GoString Container}
    (hm : Stored float64 bytes m) (truncate write : FileChoice) (pool : Pool) :
    (∀ m', Stored float64 (written truncate write pool) m' → m' = m) ↔
      (written truncate write pool = [] ∧ Stored float64 bytes .empty) ∨
        Part pool (written truncate write pool) ∨
        Whole float64 pool bytes (written truncate write pool) := by
  constructor
  · intro hkeeps
    rcases written_cases truncate write pool with hnil | hpart | hwhole
    · have hempty : Stored float64 (written truncate write pool) .empty := by
        rw [hnil]
        exact ⟨_, loaded_nil, rfl⟩
      refine Or.inl ⟨hnil, ?_⟩
      rw [hkeeps _ hempty]
      exact hm
    · exact Or.inr (Or.inl hpart)
    · refine Or.inr (Or.inr ⟨hwhole, fun m' hm' => ?_⟩)
      rw [hkeeps m' hm']
      exact hm
  · rintro (⟨hnil, hempty⟩ | hpart | hwhole) m' hm'
    · rw [hnil] at hm'
      rw [hm'.unique ⟨_, loaded_nil, rfl⟩]
      exact hempty.unique hm
    · obtain ⟨pool', hpool', -⟩ := hm'
      obtain ⟨e, he⟩ : ∃ e, loaded float64 (written truncate write pool) none = .error e :=
        hpart.fails
      rw [he] at hpool'
      cases hpool'
    · exact (hwhole.2 m' hm').unique hm

/-- A failed call loses nothing in exactly these cases. -/
theorem failed_write_keeps_iff (float64 : Number → Option Number) (req : Request)
    (plan : ℕ → FileChoice) (d : Disk) :
    LosesNothing float64 req plan d ↔ Spared float64 req plan d.bytes := by
  cases hover : overwrites float64 req plan d.bytes with
  | none =>
    have hsame := serve_untouched hover
    constructor
    · intro _ pool hpool
      rw [hover] at hpool
      cases hpool
    · intro _ text _ pool hpool
      refine Or.inr ⟨pool, ?_, rfl⟩
      rw [readBack_eq] at hpool ⊢
      rw [hsame]
      exact hpool
  | some pool =>
    obtain ⟨hbytes, hok, herr⟩ := serve_touched hover
    obtain ⟨-, pool₀, hpool₀, -⟩ := overwrites_eq_some.mp hover
    have hm : Stored float64 d.bytes pool₀.contents := ⟨pool₀, loaded_of_fault hpool₀, rfl⟩
    by_cases hcompletes : Completes (plan 4) (plan 5) pool
    · obtain ⟨pool₁, -, ha⟩ := hok hcompletes
      constructor
      · intro _ pool' hpool'
        rw [hover] at hpool'
        cases hpool'
        exact Or.inl hcompletes
      · intro _ text htext
        rw [ha] at htext
        cases htext
    · obtain ⟨text, htext⟩ := herr hcompletes
      have hkeeps := keeps_iff ((serve float64 req).run.follow Disk.exec plan d).2.1 hm
      rw [hbytes, keeps_written_iff hm] at hkeeps
      constructor
      · intro hloses pool' hpool'
        rw [hover] at hpool'
        cases hpool'
        exact Or.inr (hkeeps.mp (hloses text htext))
      · intro hspared _ _
        exact hkeeps.mpr ((hspared pool hover).resolve_left hcompletes)

def oneContainer : Disk :=
  ⟨ascii "\x7b\"a\":\x7b\"handle\":\"a\",\"ip\":\"10.255.1.2\",\"metadata\":null\x7d\x7d\n",
    0, false⟩

def addChannel : Request :=
  .add (ascii "b") (ascii "10.255.1.3") (some (SortedMap.empty.insert (ascii "events")
    (.unsupported (ascii "json: unsupported type: chan int"))))

/-- No file operation fails, the call reports that it could not encode, and the container that was
stored is gone. -/
theorem unencodable_metadata_empties_store :
    ((serve some addChannel).run.follow Disk.exec (fun _ => none) oneContainer).1 =
      .error (.error (ascii "encode and overwrite: json: unsupported type: chan int")) ∧
    readBack some oneContainer = .ok (.all (some (SortedMap.empty.insert (ascii "a")
      ⟨ascii "a", ascii "10.255.1.2", none⟩))) ∧
    readBack some ((serve some addChannel).run.follow Disk.exec (fun _ => none) oneContainer).2.1 =
      .ok (.all (some .empty)) ∧
    ¬ LosesNothing some addChannel (fun _ => none) oneContainer := by
  have herror : ((serve some addChannel).run.follow Disk.exec (fun _ => none) oneContainer).1 =
      .error (.error (ascii "encode and overwrite: json: unsupported type: chan int")) := rfl
  have hbefore : readBack some oneContainer = .ok (.all (some (SortedMap.empty.insert (ascii "a")
      ⟨ascii "a", ascii "10.255.1.2", none⟩))) := rfl
  have hafter : readBack some ((serve some addChannel).run.follow Disk.exec (fun _ => none)
      oneContainer).2.1 = .ok (.all (some .empty)) := rfl
  refine ⟨herror, hbefore, hafter, fun hloses => ?_⟩
  rcases hloses _ herror _ hbefore with ⟨e, he⟩ | ⟨pool, hpool, hcontents⟩
  · rw [hafter] at he
    cases he
  · rw [hafter] at hpool
    cases hpool
    cases congrArg SortedMap.entries hcontents

end Silk.Datastore
