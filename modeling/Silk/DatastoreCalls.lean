import Silk.DatastoreStore

/-!
# What a call leaves in the file

Each part of a call is executed along a plan of faults. A call that reads a pool
and writes another one leaves the file alone until its truncation takes effect;
from then on the file holds what has been written.
-/

namespace Silk.Datastore

open GoJson Resumption

def inputOf (bytes : List UInt8) : FileChoice → Input
  | none => ⟨bytes, none⟩
  | some f => ⟨bytes.take f.count, some f.text⟩

def loaded (float64 : Number → Option Number) (bytes : List UInt8) (read : FileChoice) :
    Except GoString Pool :=
  ignoreEOF (decode float64 (inputOf bytes read))

def truncates (seek truncate : FileChoice) : Bool := seek.isNone && truncate.all FileFault.applied

/-- What `encodeAndOverwrite` has put into the truncated file when it ends. -/
def written (truncate write : FileChoice) (pool : Pool) : List UInt8 :=
  match truncate, encode pool, write with
  | none, .ok text, none => text ++ [0x0a]
  | none, .ok text, some f => (text ++ [0x0a]).take f.count
  | _, _, _ => []

def Completes (truncate write : FileChoice) (pool : Pool) : Prop :=
  truncate = none ∧ (∃ text, encode pool = .ok text) ∧ write = none

section Parts

theorem follow_issue (plan : ℕ → FileChoice) (c : FileCall) (d : Disk) :
    (issue c).run.follow Disk.exec plan d =
      ((Disk.exec (plan 0) d c).1, (Disk.exec (plan 0) d c).2, fun n => plan (n + 1)) := by
  have hid : ∀ res : Except GoString (FileAnswer c), res.mapError id = res := by
    intro res
    cases res with
    | error e => rfl
    | ok a => rfl
  exact congrArg (·, _) (hid _)

variable {plan : ℕ → FileChoice}

theorem seek_start (h : plan 0 = none) (d : Disk) :
    (issue (.seek 0)).run.follow Disk.exec plan d = (.ok (), d.seek 0, fun n => plan (n + 1)) := by
  rw [follow_issue, h]
  rfl

theorem follow_seek_fails {α : Type} {f : FileFault} (h : plan 0 = some f) (d : Disk)
    (k : Unit → FileProgram GoString α) :
    ∃ c, (issue (.seek 0) >>= k).run.follow Disk.exec plan d =
      (.error f.text, ⟨d.bytes, c, d.locked⟩, fun n => plan (n + 1)) := by
  have hseek : (issue (.seek 0)).run.follow Disk.exec plan d =
      (.error f.text, if f.applied then d.seek 0 else d, fun n => plan (n + 1)) := by
    rw [follow_issue, h]
    rfl
  rw [Fallible.follow_bind_error hseek]
  split_ifs
  · exact ⟨0, rfl⟩
  · exact ⟨d.cursor, rfl⟩

theorem follow_decodeAll_fails (float64 : Number → Option Number) (plan : ℕ → FileChoice)
    {f : FileFault} (h : plan 0 = some f) (d : Disk) :
    ∃ c, (decodeAll float64).run.follow Disk.exec plan d =
      (.error f.text, ⟨d.bytes, c, d.locked⟩, fun n => plan (n + 1)) :=
  follow_seek_fails h d _

theorem follow_decodeAll (float64 : Number → Option Number) (plan : ℕ → FileChoice)
    (h : plan 0 = none) (d : Disk) :
    ∃ c, (decodeAll float64).run.follow Disk.exec plan d =
      (loaded float64 d.bytes (plan 1), ⟨d.bytes, c, d.locked⟩, fun n => plan (n + 2)) := by
  have hread : ∃ c, (issue .read).run.follow Disk.exec (fun n => plan (n + 1)) (d.seek 0) =
      (.ok (inputOf d.bytes (plan 1)), ⟨d.bytes, c, d.locked⟩, fun n => plan (n + 2)) := by
    rw [follow_issue]
    cases hplan : plan 1 with
    | none => exact ⟨_, rfl⟩
    | some f => exact ⟨_, rfl⟩
  obtain ⟨c, hread⟩ := hread
  rw [decodeAll, Fallible.follow_bind_ok (seek_start h d), Fallible.follow_bind_ok hread]
  exact ⟨c, rfl⟩

theorem truncate_seek (d : Disk) : (d.seek 0).truncate 0 = ⟨[], 0, d.locked⟩ := by
  simp [Disk.seek, Disk.truncate, Disk.resized]

theorem write_empty (data : List UInt8) (locked : Bool) :
    (Disk.mk [] 0 locked).write data = ⟨data, data.length, locked⟩ := by
  simp [Disk.write, Disk.resized]

section Overwrite

variable (pool : Pool) (d : Disk)

theorem overwrite_seek_fails {f : FileFault} (h : plan 0 = some f) :
    ∃ c, (encodeAndOverwrite pool).run.follow Disk.exec plan d =
      (.error f.text, ⟨d.bytes, c, d.locked⟩, fun n => plan (n + 1)) :=
  follow_seek_fails h d _

theorem overwrite_truncate_fails (h₀ : plan 0 = none) {f : FileFault} (h₁ : plan 1 = some f) :
    (encodeAndOverwrite pool).run.follow Disk.exec plan d =
      (.error f.text, ⟨if f.applied then [] else d.bytes, 0, d.locked⟩, fun n => plan (n + 2)) := by
  have htruncate : (issue (.truncate 0)).run.follow Disk.exec (fun n => plan (n + 1)) (d.seek 0) =
      (.error f.text, ⟨if f.applied then [] else d.bytes, 0, d.locked⟩, fun n => plan (n + 2)) := by
    rw [follow_issue, h₁]
    simp only [Disk.exec, truncate_seek]
    split_ifs
    · rfl
    · rfl
  rw [encodeAndOverwrite, Fallible.follow_bind_ok (seek_start h₀ d),
    Fallible.follow_bind_error htruncate]

theorem truncate_start (h : plan 1 = none) :
    (issue (.truncate 0)).run.follow Disk.exec (fun n => plan (n + 1)) (d.seek 0) =
      (.ok (), ⟨[], 0, d.locked⟩, fun n => plan (n + 2)) := by
  rw [follow_issue, h, ← truncate_seek]
  rfl

theorem overwrite_encode_fails (h₀ : plan 0 = none) (h₁ : plan 1 = none) {e : GoString}
    (he : encode pool = .error e) :
    (encodeAndOverwrite pool).run.follow Disk.exec plan d =
      (.error e, ⟨[], 0, d.locked⟩, fun n => plan (n + 2)) := by
  rw [encodeAndOverwrite, Fallible.follow_bind_ok (seek_start h₀ d),
    Fallible.follow_bind_ok (truncate_start d h₁), he]
  rfl

theorem overwrite_write (h₀ : plan 0 = none) (h₁ : plan 1 = none) {text : List UInt8}
    (ht : encode pool = .ok text) :
    (encodeAndOverwrite pool).run.follow Disk.exec plan d =
      ((Disk.exec (plan 2) ⟨[], 0, d.locked⟩ (.write (text ++ [0x0a]))).1,
        (Disk.exec (plan 2) ⟨[], 0, d.locked⟩ (.write (text ++ [0x0a]))).2,
        fun n => plan (n + 3)) := by
  rw [encodeAndOverwrite, Fallible.follow_bind_ok (seek_start h₀ d),
    Fallible.follow_bind_ok (truncate_start d h₁), ht]
  exact follow_issue _ _ _

theorem overwrite_disk (plan : ℕ → FileChoice) :
    ∃ c, ((encodeAndOverwrite pool).run.follow Disk.exec plan d).2.1 =
      ⟨if truncates (plan 0) (plan 1) then written (plan 1) (plan 2) pool else d.bytes, c,
        d.locked⟩ := by
  cases h₀ : plan 0 with
  | some f =>
    obtain ⟨c, hrun⟩ := overwrite_seek_fails pool d h₀
    rw [hrun]
    exact ⟨c, rfl⟩
  | none =>
    cases h₁ : plan 1 with
    | some f =>
      rw [overwrite_truncate_fails pool d h₀ h₁]
      refine ⟨0, ?_⟩
      cases happlied : f.applied with
      | false => simp [truncates, happlied]
      | true => simp [truncates, happlied, written]
    | none =>
      cases ht : encode pool with
      | error e =>
        rw [overwrite_encode_fails pool d h₀ h₁ ht]
        refine ⟨0, ?_⟩
        simp [truncates, written, ht]
      | ok text =>
        rw [overwrite_write pool d h₀ h₁ ht]
        cases h₂ : plan 2 with
        | some f =>
          refine ⟨((text ++ [0x0a]).take f.count).length, ?_⟩
          simp only [Disk.exec, write_empty, truncates, written, ht]
          rfl
        | none =>
          refine ⟨(text ++ [0x0a]).length, ?_⟩
          simp only [Disk.exec, write_empty, truncates, written, ht]
          rfl

theorem overwrite_result (plan : ℕ → FileChoice) :
    ((encodeAndOverwrite pool).run.follow Disk.exec plan d).1 = .ok () ↔
      plan 0 = none ∧ Completes (plan 1) (plan 2) pool := by
  cases h₀ : plan 0 with
  | some f =>
    obtain ⟨c, hrun⟩ := overwrite_seek_fails pool d h₀
    simp [hrun]
  | none =>
    cases h₁ : plan 1 with
    | some f => simp [overwrite_truncate_fails pool d h₀ h₁, Completes]
    | none =>
      cases ht : encode pool with
      | error e => simp [overwrite_encode_fails pool d h₀ h₁ ht, Completes, ht]
      | ok text =>
        rw [overwrite_write pool d h₀ h₁ ht]
        cases h₂ : plan 2 with
        | some f => simp [Disk.exec, Completes]
        | none => simp [Disk.exec, Completes, ht]

end Overwrite

section Lock

variable {ε α : Type} (opening : GoString → ε) (body : FileProgram ε α) (d : Disk)

theorem withLock_fails {f : FileFault} (h : plan 0 = some f) :
    (withLock opening body).run.follow Disk.exec plan d =
      (.error (opening f.text), d, fun n => plan (n + 1)) := by
  have hopen : (Fallible.wrap opening (issue .openLocked)).run.follow Disk.exec plan d =
      (.error (opening f.text), d, fun n => plan (n + 1)) := by
    rw [Fallible.follow_wrap, follow_issue, h]
    rfl
  rw [withLock, Fallible.follow_bind_error hopen]

/-- The outcome of a call is the outcome of its body, whatever happens when the file is closed. -/
theorem withLock_follow (plan : ℕ → FileChoice) (h : plan 0 = none) :
    ∃ rest, (withLock opening body).run.follow Disk.exec plan d =
      ((body.run.follow Disk.exec (fun n => plan (n + 1)) d.openLocked).1,
        (body.run.follow Disk.exec (fun n => plan (n + 1)) d.openLocked).2.1.close, rest) := by
  have hopen : (Fallible.wrap opening (issue .openLocked)).run.follow Disk.exec plan d =
      (.ok (), d.openLocked, fun n => plan (n + 1)) := by
    rw [Fallible.follow_wrap, follow_issue, h]
    rfl
  have hclose : ∀ (plan : ℕ → FileChoice) (d : Disk), ∃ res,
      (Fallible.attempt (issue .close) : FileProgram ε (Except GoString Unit)).run.follow
        Disk.exec plan d = (.ok res, d.close, fun n => plan (n + 1)) := by
    intro plan d
    rw [Fallible.follow_attempt, follow_issue]
    cases plan 0 with
    | none => exact ⟨_, rfl⟩
    | some f => exact ⟨_, rfl⟩
  obtain ⟨res, hclose⟩ :=
    hclose (body.run.follow Disk.exec (fun n => plan (n + 1)) d.openLocked).2.2
    (body.run.follow Disk.exec (fun n => plan (n + 1)) d.openLocked).2.1
  rw [withLock, Fallible.follow_bind_ok hopen,
    Fallible.follow_bind_ok (Fallible.follow_attempt _ _ _), Fallible.follow_bind_ok hclose]
  exact ⟨_, rfl⟩

end Lock

section Decoded

variable {float64 : Number → Option Number} {ε α : Type} (f : GoString → ε)
  (k : Pool → FileProgram ε α) (d : Disk)

theorem decoded_fails (plan : ℕ → FileChoice)
    (h : plan 0 ≠ none ∨ ∃ e, loaded float64 d.bytes (plan 1) = .error e) :
    ∃ e c rest, (Fallible.wrap f (decodeAll float64) >>= k).run.follow Disk.exec plan d =
      (.error (f e), ⟨d.bytes, c, d.locked⟩, rest) := by
  cases h₀ : plan 0 with
  | some fault =>
    obtain ⟨c, hrun⟩ := follow_decodeAll_fails float64 plan h₀ d
    refine ⟨fault.text, c, fun n => plan (n + 1), Fallible.follow_bind_error ?_⟩
    rw [Fallible.follow_wrap, hrun]
    rfl
  | none =>
    rcases h with h | ⟨e, he⟩
    · exact absurd h₀ h
    · obtain ⟨c, hrun⟩ := follow_decodeAll float64 plan h₀ d
      refine ⟨e, c, fun n => plan (n + 2), Fallible.follow_bind_error ?_⟩
      rw [Fallible.follow_wrap, hrun, he]
      rfl

theorem decoded_follow (plan : ℕ → FileChoice) (h : plan 0 = none) {pool : Pool}
    (hpool : loaded float64 d.bytes (plan 1) = .ok pool) :
    ∃ c, (Fallible.wrap f (decodeAll float64) >>= k).run.follow Disk.exec plan d =
      (k pool).run.follow Disk.exec (fun n => plan (n + 2)) ⟨d.bytes, c, d.locked⟩ := by
  obtain ⟨c, hrun⟩ := follow_decodeAll float64 plan h d
  refine ⟨c, Fallible.follow_bind_ok ?_⟩
  rw [Fallible.follow_wrap, hrun, hpool]
  rfl

end Decoded

namespace Request

def rejection : Request → Option GoString
  | .add handle ip _ => validate handle ip
  | .delete handle => if handle = [] then some (ascii "invalid handle") else none
  | .readAll => none

def update : Request → Pool → Option Pool
  | .add handle ip metadata, some m => some (some (m.insert handle ⟨handle, ip, metadata⟩))
  | .delete handle, pool => some (pool.map (·.erase handle))
  | _, _ => none

def answer : Request → Pool → Answer
  | .add _ _ _, _ => .added
  | .delete handle, pool => .deleted ((pool.contents.get handle).getD .zero)
  | .readAll, pool => .all pool

end Request

section Rewriting

variable {float64 : Number → Option Number} {ε α : Type} (opening f : GoString → ε)
  {k : Pool → FileProgram ε α}

/-- What a call does with the pool it has read: nothing, or overwriting the file with another. -/
structure Rewrites (k : Pool → FileProgram ε α) (update : Pool → Option Pool) (result : Pool → α)
    (fails : ε → Prop) : Prop where
  keeps : ∀ pool plan d, update pool = none →
    ((k pool).run.follow Disk.exec plan d).2.1.bytes = d.bytes
  writes : ∀ pool pool', update pool = some pool' → ∃ h : GoString → ε, (∀ e, fails (h e)) ∧
    ∀ plan d, (k pool).run.follow Disk.exec plan d =
      ((((encodeAndOverwrite pool').run.follow Disk.exec plan d).1.mapError h).map
          fun _ => result pool, ((encodeAndOverwrite pool').run.follow Disk.exec plan d).2)

theorem locked_follow (h₀ : plan 0 = none) (h₁ : plan 1 = none) (d : Disk) {pool : Pool}
    (hpool : loaded float64 d.bytes (plan 2) = .ok pool) :
    ∃ c rest, (withLock opening (Fallible.wrap f (decodeAll float64) >>= k)).run.follow Disk.exec
      plan d =
        (((k pool).run.follow Disk.exec (fun n => plan (n + 3)) ⟨d.bytes, c, true⟩).1,
          ((k pool).run.follow Disk.exec (fun n => plan (n + 3)) ⟨d.bytes, c, true⟩).2.1.close,
          rest) := by
  obtain ⟨rest, hrun⟩ :=
    withLock_follow opening (Fallible.wrap f (decodeAll float64) >>= k) d plan h₀
  obtain ⟨c, hbody⟩ := decoded_follow f k d.openLocked (fun n => plan (n + 1)) h₁ hpool
  refine ⟨c, rest, ?_⟩
  rw [hrun, hbody]
  rfl

variable {update : Pool → Option Pool} {result : Pool → α} {fails : ε → Prop}
  (hk : Rewrites k update result fails) (d : Disk)
include hk

theorem Rewrites.untouched (h : ∀ pool pool', plan 0 = none → plan 1 = none →
      loaded float64 d.bytes (plan 2) = .ok pool → update pool = some pool' →
      truncates (plan 3) (plan 4) = false) :
    ((withLock opening (Fallible.wrap f (decodeAll float64) >>= k)).run.follow Disk.exec plan
      d).2.1.bytes = d.bytes := by
  cases h₀ : plan 0 with
  | some fault => rw [withLock_fails _ _ d h₀]
  | none =>
    by_cases hread : plan 1 ≠ none ∨ ∃ e, loaded float64 d.bytes (plan 2) = .error e
    · obtain ⟨rest, hrun⟩ :=
        withLock_follow opening (Fallible.wrap f (decodeAll float64) >>= k) d plan h₀
      obtain ⟨e, c, rest', hbody⟩ :=
        decoded_fails f k d.openLocked (fun n => plan (n + 1)) hread
      rw [hrun, hbody]
      rfl
    · rw [not_or, not_not, not_exists] at hread
      cases hpool : loaded float64 d.bytes (plan 2) with
      | error e => exact absurd hpool (hread.2 e)
      | ok pool =>
        obtain ⟨c, rest, hrun⟩ := locked_follow opening f (k := k) h₀ hread.1 d hpool
        rw [hrun]
        cases hupdate : update pool with
        | none => exact hk.keeps pool _ _ hupdate
        | some pool' =>
          obtain ⟨c', hdisk⟩ := overwrite_disk pool' ⟨d.bytes, c, true⟩ fun n => plan (n + 3)
          obtain ⟨h', -, hwrites⟩ := hk.writes pool pool' hupdate
          rw [hwrites, hdisk]
          exact if_neg (by simp [h pool pool' h₀ hread.1 hpool hupdate])

theorem Rewrites.touched (h₀ : plan 0 = none) (h₁ : plan 1 = none) {pool pool' : Pool}
    (hpool : loaded float64 d.bytes (plan 2) = .ok pool) (hupdate : update pool = some pool')
    (ht : truncates (plan 3) (plan 4) = true) :
    let run := (withLock opening (Fallible.wrap f (decodeAll float64) >>= k)).run.follow Disk.exec
      plan d
    run.2.1.bytes = written (plan 4) (plan 5) pool' ∧
      (Completes (plan 4) (plan 5) pool' → run.1 = .ok (result pool)) ∧
      (¬ Completes (plan 4) (plan 5) pool' → ∃ e, run.1 = .error e ∧ fails e) := by
  obtain ⟨c, rest, hrun⟩ := locked_follow opening f (k := k) h₀ h₁ d hpool
  obtain ⟨c', hdisk⟩ := overwrite_disk pool' ⟨d.bytes, c, true⟩ fun n => plan (n + 3)
  have hresult := overwrite_result pool' ⟨d.bytes, c, true⟩ fun n => plan (n + 3)
  have hseek : plan 3 = none := by
    simp only [truncates, Bool.and_eq_true, Option.isNone_iff_eq_none] at ht
    exact ht.1
  obtain ⟨h, hfails, hwrites⟩ := hk.writes pool pool' hupdate
  rw [hrun, hwrites]
  refine ⟨?_, fun hc => ?_, fun hc => ?_⟩
  · rw [hdisk]
    exact if_pos ht
  · rw [hresult.mpr ⟨hseek, hc⟩]
    rfl
  · cases hres : ((encodeAndOverwrite pool').run.follow Disk.exec (fun n => plan (n + 3))
      ⟨d.bytes, c, true⟩).1 with
    | ok u => exact absurd (hresult.mp hres).2 hc
    | error e => exact ⟨h e, rfl, hfails e⟩

end Rewriting

def overwrites (float64 : Number → Option Number) (req : Request) (plan : ℕ → FileChoice)
    (bytes : List UInt8) : Option Pool :=
  if req.rejection = none ∧ plan 0 = none ∧ plan 1 = none ∧ truncates (plan 3) (plan 4) then
    match loaded float64 bytes (plan 2) with
    | .ok pool => req.update pool
    | .error _ => none
  else none

theorem overwrites_eq_some {float64 : Number → Option Number} {req : Request}
    {bytes : List UInt8} {pool' : Pool} :
    overwrites float64 req plan bytes = some pool' ↔
      (req.rejection = none ∧ plan 0 = none ∧ plan 1 = none ∧ truncates (plan 3) (plan 4) = true) ∧
        ∃ pool, loaded float64 bytes (plan 2) = .ok pool ∧ req.update pool = some pool' := by
  rw [overwrites]
  split_ifs with h
  · cases hpool : loaded float64 bytes (plan 2) with
    | error e => simp
    | ok pool => simp [h]
  · simp [h]

section Serve

variable {float64 : Number → Option Number}

def returned (e : Failure) : Prop := ∃ text, e = .error text

theorem add_rewrites (handle ip : GoString) (metadata : Metadata) :
    Rewrites (fun pool => do
        let pool ← Fallible.lift (insertContainer handle ip metadata pool)
        Fallible.wrap (context "encode and overwrite: ") (encodeAndOverwrite pool))
      (Request.add handle ip metadata).update (fun _ => ()) returned := by
  have hid : ∀ res : Except Failure Unit, (res.map fun _ => ()) = res := by
    intro res
    cases res with
    | error e => rfl
    | ok u => rfl
  constructor
  · intro pool plan d hupdate
    cases pool with
    | none => rfl
    | some m => cases hupdate
  · intro pool pool' hupdate
    cases pool with
    | none => cases hupdate
    | some m =>
      cases hupdate
      refine ⟨context "encode and overwrite: ", fun e => ⟨_, rfl⟩, fun plan d => ?_⟩
      rw [Fallible.follow_bind_ok rfl, Fallible.follow_wrap, hid]

theorem delete_rewrites (handle : GoString) :
    Rewrites (fun pool : Pool => do
        let deleted := (pool.contents.get handle).getD .zero
        Fallible.wrap (fun err => ⟨deleted, context "encode and overwrite: " err⟩)
          (encodeAndOverwrite (pool.map (·.erase handle)))
        pure deleted)
      (Request.delete handle).update (fun pool => (pool.contents.get handle).getD .zero)
      fun e : DeleteFailure => returned e.failure := by
  constructor
  · intro pool plan d hupdate
    cases hupdate
  · intro pool pool' hupdate
    cases hupdate
    refine ⟨
      fun err => ⟨(pool.contents.get handle).getD .zero, context "encode and overwrite: " err⟩,
      fun e => ⟨_, rfl⟩, fun plan d => ?_⟩
    rw [Fallible.follow_map, Fallible.follow_wrap]

theorem readAll_untouched (d : Disk) :
    ((readAll float64).run.follow Disk.exec plan d).2.1.bytes = d.bytes := by
  rw [readAll]
  cases h₀ : plan 0 with
  | some f => rw [withLock_fails _ _ d h₀]
  | none =>
    obtain ⟨rest, hrun⟩ := withLock_follow (context "open lock: ")
      (Fallible.wrap (context "decoding file: ") (decodeAll float64)) d plan h₀
    rw [hrun, Fallible.follow_wrap]
    cases h₁ : plan 1 with
    | some f =>
      obtain ⟨c, hbody⟩ := follow_decodeAll_fails float64 (fun n => plan (n + 1)) h₁ d.openLocked
      rw [hbody]
      rfl
    | none =>
      obtain ⟨c, hbody⟩ := follow_decodeAll float64 (fun n => plan (n + 1)) h₁ d.openLocked
      rw [hbody]
      rfl

theorem serve_untouched {req : Request} {d : Disk}
    (h : overwrites float64 req plan d.bytes = none) :
    ((serve float64 req).run.follow Disk.exec plan d).2.1.bytes = d.bytes := by
  have hnot : ∀ pool pool', req.rejection = none → plan 0 = none → plan 1 = none →
      loaded float64 d.bytes (plan 2) = .ok pool → req.update pool = some pool' →
      truncates (plan 3) (plan 4) = false := by
    intro pool pool' hrej h₀ h₁ hpool hupdate
    by_contra ht
    have hsome := overwrites_eq_some.mpr
      ⟨⟨hrej, h₀, h₁, Bool.not_eq_false _ ▸ ht⟩, pool, hpool, hupdate⟩
    rw [h] at hsome
    cases hsome
  cases req with
  | add handle ip metadata =>
    rw [serve, Fallible.follow_map, add]
    cases hvalid : validate handle ip with
    | some err => rfl
    | none =>
      exact (add_rewrites handle ip metadata).untouched _ _ d fun pool pool' =>
        hnot pool pool' hvalid
  | delete handle =>
    rw [serve, Fallible.follow_map, Fallible.follow_wrap, delete]
    split_ifs with hempty
    · rfl
    · exact (delete_rewrites handle).untouched _ _ d fun pool pool' =>
        hnot pool pool' (if_neg hempty)
  | readAll =>
    rw [serve, Fallible.follow_map]
    exact readAll_untouched d

theorem serve_touched {req : Request} {d : Disk} {pool' : Pool}
    (h : overwrites float64 req plan d.bytes = some pool') :
    let run := (serve float64 req).run.follow Disk.exec plan d
    run.2.1.bytes = written (plan 4) (plan 5) pool' ∧
      (Completes (plan 4) (plan 5) pool' →
        ∃ pool, loaded float64 d.bytes (plan 2) = .ok pool ∧ run.1 = .ok (req.answer pool)) ∧
      (¬ Completes (plan 4) (plan 5) pool' → ∃ text, run.1 = .error (.error text)) := by
  obtain ⟨⟨hrej, h₀, h₁, ht⟩, pool, hpool, hupdate⟩ := overwrites_eq_some.mp h
  cases req with
  | add handle ip metadata =>
    rw [serve, Fallible.follow_map, add, show validate handle ip = none from hrej]
    obtain ⟨hbytes, hok, herr⟩ := (add_rewrites handle ip metadata).touched
      (context "open lock: ") (context "decoding file: ") d h₀ h₁ hpool hupdate ht
    refine ⟨hbytes, fun hc => ?_, fun hc => ?_⟩
    · exact ⟨pool, hpool, congrArg (Except.map fun _ => Answer.added) (hok hc)⟩
    · obtain ⟨e, he, text, htext⟩ := herr hc
      rw [htext] at he
      exact ⟨text, congrArg (Except.map fun _ => Answer.added) he⟩
  | delete handle =>
    have hne : handle ≠ [] := by
      rintro rfl
      cases hrej
    rw [serve, Fallible.follow_map, Fallible.follow_wrap, delete, if_neg hne]
    obtain ⟨hbytes, hok, herr⟩ := (delete_rewrites handle).touched
      (fun err => ⟨.zero, context "open lock: " err⟩)
      (fun err => ⟨.zero, context "decoding file: " err⟩) d h₀ h₁ hpool hupdate ht
    let answer (res : Except DeleteFailure Container) : Except Failure Answer :=
      (res.mapError DeleteFailure.failure).map Answer.deleted
    refine ⟨hbytes, fun hc => ?_, fun hc => ?_⟩
    · exact ⟨pool, hpool, congrArg answer (hok hc)⟩
    · obtain ⟨e, he, text, htext⟩ := herr hc
      refine ⟨text, ?_⟩
      rw [← htext]
      exact congrArg answer he
  | readAll => cases hupdate

end Serve

end Parts

end Silk.Datastore
