import Silk.DatastoreFailure
import Silk.ResumptionLock
import Mathlib.Logic.Function.Basic

/-!
# The store is a map

Any number of processes call the store on one file. When nothing fails and the
arguments are valid UTF-8, every call behaves as one step on a map from handles
to containers, and these steps are taken in the order in which the calls got the
file lock.
-/

namespace Silk.Datastore

open GoJson Resumption

abbrev Containers := GoString → Option Container

namespace Request

def effect (m : Containers) : Request → Containers
  | .add handle ip metadata => Function.update m handle (some ⟨handle, ip, metadata⟩)
  | .delete handle => Function.update m handle none
  | .readAll => m

def apply (m : Containers) (req : Request) : Containers :=
  if req.rejection = none then effect m req else m

def Answers (m : Containers) (req : Request) (result : Except Failure Answer) : Prop :=
  match req with
  | .add _ _ _ => result = .ok .added
  | .delete handle => result = .ok (.deleted ((m handle).getD .zero))
  | .readAll => ∃ sm : SortedMap GoString Container,
      result = .ok (.all (some sm)) ∧ ∀ k, sm.get k = m k

def Plain : Request → Prop
  | .add handle ip metadata => (Container.mk handle ip metadata).Plain
  | .delete handle => ValidUTF8 handle
  | .readAll => True

end Request

def WellFormed (m : Containers) : Prop :=
  ∀ k c, m k = some c → c.handle = k ∧ k ≠ [] ∧ parseableIP c.ip = true

theorem validate_eq_none {handle ip : GoString} (h : validate handle ip = none) :
    handle ≠ [] ∧ parseableIP ip = true := by
  rw [validate] at h
  split_ifs at h with hempty hip
  exact ⟨hempty, by simpa using hip⟩

theorem WellFormed.apply {m : Containers} (h : WellFormed m) (req : Request) :
    WellFormed (Request.apply m req) := by
  rw [Request.apply]
  split_ifs with haccepted
  · cases req with
    | add handle ip metadata =>
      intro k c hk
      rw [Request.effect, Function.update_apply] at hk
      split_ifs at hk with heq
      · cases hk
        rw [heq]
        exact ⟨rfl, validate_eq_none haccepted⟩
      · exact h k c hk
    | delete handle =>
      intro k c hk
      rw [Request.effect, Function.update_apply] at hk
      split_ifs at hk with heq
      exact h k c hk
    | readAll => exact h
  · exact h

theorem wellFormed_foldl (reqs : List Request) :
    WellFormed (reqs.foldl Request.apply fun _ => none) := by
  induction reqs using List.reverseRecOn with
  | nil => exact nofun
  | append_singleton reqs req ih =>
    rw [List.foldl_append]
    exact ih.apply req

/-- Calls without failures, with plain arguments. -/
def machine (float64 : Number → Option Number) :
    Machine FileCall (fun c => Except GoString (FileAnswer c)) (Except Failure Answer) Request Disk
      FileChoice where
  exec := Disk.exec
  allowed ch := ch = none
  drift _ _ := False
  body req := (serve float64 req).run
  accepts _ req := req.Plain

def isOpen : FileCall → Bool
  | .openLocked => true
  | _ => false

def isClose : FileCall → Bool
  | .close => true
  | _ => false

/-- The lock of the file, held from `Open` to `Close`. -/
def fileLock (float64 : Number → Option Number) : Lock (machine float64) where
  held := Disk.locked
  acquires := isOpen
  releases := isClose
  acquired := by
    rintro ch d c rfl hc
    cases c with
    | openLocked => rfl
    | _ => cases hc
  released := by
    rintro ch d c rfl hc
    cases c with
    | close => rfl
    | _ => cases hc
  kept := by
    rintro ch d c rfl hopen hclose
    cases c with
    | openLocked => cases hopen
    | close => cases hclose
    | _ => rfl

section Guarded

variable (float64 : Number → Option Number)

def Inner (c : FileCall) : Prop := isOpen c = false ∧ isClose c = false

theorem only_decodeAll : Fallible.Only Inner (decodeAll float64) :=
  Fallible.Only.bind (.request ⟨rfl, rfl⟩ id) fun _ =>
    .bind (.request ⟨rfl, rfl⟩ id) fun _ => .lift Inner _

theorem only_encodeAndOverwrite (pool : Pool) : Fallible.Only Inner (encodeAndOverwrite pool) :=
  Fallible.Only.bind (.request ⟨rfl, rfl⟩ id) fun _ =>
    .bind (.request ⟨rfl, rfl⟩ id) fun _ =>
      .bind (.lift Inner _) fun _ => .request ⟨rfl, rfl⟩ id

theorem guarded_withLock {ε α : Type} (opening : GoString → ε) {body : FileProgram ε α}
    (h : Fallible.Only Inner body) : (fileLock float64).Guarded (withLock opening body).run := by
  refine ⟨rfl, ?_⟩
  rintro ch d rfl
  have hbody : (fileLock float64).Within (Fallible.attempt body >>= fun res =>
      Fallible.attempt (issue .close) >>= fun _ => Fallible.lift res).run := by
    rw [Fallible.run_attempt_bind]
    refine Lock.Within.bind _ (h none) fun res => ?_
    refine ⟨rfl, fun r => ⟨res, ?_⟩⟩
    cases r with
    | error e => rfl
    | ok a => rfl
  exact hbody

theorem guarded_serve (req : Request) : (fileLock float64).Guarded (serve float64 req).run := by
  cases req with
  | add handle ip metadata =>
    rw [serve, Fallible.run_map]
    refine Lock.Guarded.map ?_ _
    rw [add]
    cases validate handle ip with
    | some err => trivial
    | none =>
      refine guarded_withLock float64 _ ?_
      exact ((only_decodeAll float64).wrap _).bind fun _ =>
        .bind (.lift Inner _) fun _ => (only_encodeAndOverwrite _).wrap _
  | delete handle =>
    rw [serve, Fallible.run_map]
    refine Lock.Guarded.map (Lock.Guarded.map ?_ _) _
    rw [delete]
    split_ifs
    · trivial
    · refine guarded_withLock float64 _ ?_
      exact ((only_decodeAll float64).wrap _).bind fun _ =>
        .bind ((only_encodeAndOverwrite _).wrap _) fun _ => .lift Inner _
  | readAll =>
    rw [serve, Fallible.run_map]
    refine Lock.Guarded.map ?_ _
    exact guarded_withLock float64 _ ((only_decodeAll float64).wrap _)

end Guarded

variable {float64 : Number → Option Number}

def Represents (float64 : Number → Option Number) (d : Disk) (m : Containers) : Prop :=
  ∃ sm, loaded float64 d.bytes none = .ok (some sm) ∧ PlainPool sm ∧ ∀ k, sm.get k = m k

theorem represents_empty : Represents float64 ⟨[], 0, false⟩ fun _ => none :=
  ⟨.empty, rfl, .empty, fun _ => rfl⟩

theorem serve_rewrites {req : Request} (hrej : req.rejection = none) {d : Disk}
    {sm sm' : SortedMap GoString Container} (hsm : loaded float64 d.bytes none = .ok (some sm))
    (hupdate : req.update (some sm) = some (some sm')) (hplain : PlainPool sm') :
    let run := (serve float64 req).run.follow Disk.exec (fun _ => none) d
    loaded float64 run.2.1.bytes none = .ok (some sm') ∧ run.1 = .ok (req.answer (some sm)) := by
  obtain ⟨text, htext, hdecode⟩ := hplain.decode_encode float64
  have hover : overwrites float64 req (fun _ => none) d.bytes = some (some sm') :=
    overwrites_eq_some.mpr ⟨⟨hrej, rfl, rfl, rfl⟩, some sm, hsm, hupdate⟩
  obtain ⟨hbytes, hok, -⟩ := serve_touched hover
  obtain ⟨pool, hpool, hresult⟩ := hok ⟨rfl, ⟨text, htext⟩, rfl⟩
  rw [hsm] at hpool
  cases hpool
  have hwritten : written none none (some sm') = text ++ [0x0a] := by
    simp only [written, htext]
  refine ⟨?_, hresult⟩
  rw [hbytes, hwritten]
  simp only [loaded, inputOf, hdecode, ignoreEOF]

theorem serve_rejected {req : Request} {err : GoString} (h : req.rejection = some err) :
    (serve float64 req).run = .done (.error (.error err)) := by
  cases req with
  | add handle ip metadata =>
    rw [serve, Fallible.run_map, add, show validate handle ip = some err from h]
    rfl
  | delete handle =>
    rw [Request.rejection] at h
    split_ifs at h with hempty
    cases h
    rw [serve, Fallible.run_map, delete, if_pos hempty]
    rfl
  | readAll => cases h

theorem serve_represents {req : Request} (hplain : req.Plain) {d : Disk} {m : Containers}
    (hm : Represents float64 d m) :
    let run := (serve float64 req).run.follow Disk.exec (fun _ => none) d
    Represents float64 run.2.1 (Request.apply m req) ∧
      (req.rejection = none → Request.Answers m req run.1) := by
  cases hrej : req.rejection with
  | some err =>
    rw [serve_rejected hrej, Request.apply, if_neg (by simp [hrej])]
    exact ⟨hm, nofun⟩
  | none =>
    obtain ⟨sm, hsm, hpool, hget⟩ := hm
    rw [Request.apply, if_pos hrej]
    cases req with
    | add handle ip metadata =>
      have hnew := hpool.insert (c := ⟨handle, ip, metadata⟩) hplain
      obtain ⟨hloaded, hresult⟩ := serve_rewrites hrej hsm rfl hnew
      refine ⟨⟨_, hloaded, hnew, fun k => ?_⟩, fun _ => hresult⟩
      rw [SortedMap.get_insert, Request.effect, Function.update_apply, hget]
      congr
    | delete handle =>
      obtain ⟨hloaded, hresult⟩ := serve_rewrites hrej hsm rfl (hpool.erase handle)
      refine ⟨⟨_, hloaded, hpool.erase handle, fun k => ?_⟩, fun _ => ?_⟩
      · rw [SortedMap.get_erase, Request.effect, Function.update_apply, hget]
        congr
      · rw [hresult, Request.Answers, ← hget handle]
        rfl
    | readAll =>
      have hread : readBack float64 d = .ok (.all (some sm)) := by
        rw [readBack_eq, hsm]
        rfl
      have hbytes : ((serve float64 .readAll).run.follow Disk.exec (fun _ => none) d).2.1.bytes =
          d.bytes := by
        apply serve_untouched
        cases hover : overwrites float64 .readAll (fun _ => none) d.bytes with
        | none => rfl
        | some pool' =>
          obtain ⟨-, pool, -, hupdate⟩ := overwrites_eq_some.mp hover
          cases hupdate
      refine ⟨⟨sm, ?_, hpool, hget⟩, fun _ => ⟨sm, hread, hget⟩⟩
      rw [hbytes]
      exact hsm

theorem runs_represents {req : Request} (hplain : req.Plain) {s t : Disk} {m : Containers}
    {result : Except Failure Answer} (hm : Represents float64 s m)
    (hruns : (serve float64 req).run.Runs Disk.exec (fun ch => ch = none) s result t) :
    Represents float64 t (Request.apply m req) ∧
      (req.rejection = none → Request.Answers m req result) := by
  have hquiet : ∀ ch d c, ch = none → Disk.exec ch d c = Disk.exec none d c :=
    fun _ _ _ hch => by rw [hch]
  have hone := Program.Runs.runWith_eq hquiet hruns
  rw [Program.runWith_eq_follow] at hone
  cases hone
  exact serve_represents hplain hm

theorem issues_iff {req : Request} : Issues (machine float64) req ↔ req.rejection = none := by
  constructor
  · rintro ⟨c, next, hcall⟩
    cases hrej : req.rejection with
    | none => rfl
    | some err => cases (serve_rejected hrej).symm.trans hcall
  · intro hrej
    cases req with
    | add handle ip metadata =>
      change ∃ c next, (serve float64 (.add handle ip metadata)).run = .call c next
      rw [serve, Fallible.run_map, add, show validate handle ip = none from hrej]
      exact ⟨_, _, rfl⟩
    | delete handle =>
      have hempty : handle ≠ [] := by
        rintro rfl
        cases hrej
      change ∃ c next, (serve float64 (.delete handle)).run = .call c next
      rw [serve, Fallible.run_map, delete, if_neg hempty]
      exact ⟨_, _, rfl⟩
    | readAll => exact ⟨_, _, rfl⟩

abbrev Calls :=
  System FileCall (fun c => Except GoString (FileAnswer c)) (Except Failure Answer) Request Disk

def noCalls : Calls := ⟨⟨[], 0, false⟩, []⟩

def mapAfter (sys : Calls) (is : List ℕ) : Containers :=
  (requests sys.threads is).foldl Request.apply fun _ => none

/-- A rejected call has issued nothing. Every other call that has ended answers from the map that
the calls before it in lock order leave, and these have ended; the file stands for the map after
all of them. -/
theorem store_refines_map (float64 : Number → Option Number)
    {ls : List (Label Request Disk FileChoice)} {sys : Calls}
    (hrun : Run (machine float64) (fileLock float64).Respected noCalls ls sys) :
    (∀ i th result, sys.threads[i]? = some th → th.program = .done result →
      (∃ err, th.request.rejection = some err ∧ result = .error (.error err) ∧ th.history = [] ∧
        i ∉ (fileLock float64).order noCalls ls) ∨
      th.request.rejection = none ∧ ∃ before after,
        (fileLock float64).order noCalls ls = before ++ i :: after ∧
        (∀ j ∈ before, Finished sys.threads j) ∧
        Request.Answers (mapAfter sys before) th.request result) ∧
    (∀ is, is <+: (fileLock float64).order noCalls ls → WellFormed (mapAfter sys is)) ∧
    (sys.shared.locked = false →
      Represents float64 sys.shared (mapAfter sys ((fileLock float64).order noCalls ls))) ∧
    (∀ i, Machine.pending sys i = true → ∃ j, (machine float64).Enabled sys (.statement j none) ∧
      (fileLock float64).Respected sys (.statement j none)) := by
  have hstep : ∀ (sys : Calls) req s t m result, (machine float64).accepts sys req →
      Represents float64 s m →
      ((machine float64).body req).Runs (machine float64).exec (machine float64).allowed
        s result t →
      Represents float64 t (Request.apply m req) ∧
        (req.rejection = none → Request.Answers m req result) :=
    fun _ _ _ _ _ _ hplain hm hruns => runs_represents hplain hm hruns
  obtain ⟨log, hserial⟩ := Run.serial (fun _ _ => id) (fun _ req _ => guarded_serve float64 req)
    rfl hrun
  refine ⟨fun i th result hi hdone => ?_, fun is _ => wellFormed_foldl _,
    hserial.shared represents_empty hstep, fun i hi => hserial.progress hi rfl⟩
  rcases hserial.finished represents_empty hstep hi hdone with
    ⟨hbody, hhistory, habsent⟩ | ⟨hissues, before, after, horder, hended, hanswers⟩
  · cases hrej : th.request.rejection with
    | some err =>
      cases (serve_rejected hrej).symm.trans hbody
      exact Or.inl ⟨err, rfl, rfl, hhistory, habsent⟩
    | none =>
      obtain ⟨c, next, hcall⟩ := issues_iff.mpr hrej
      cases hcall.symm.trans hbody
  · have hrej := issues_iff.mp hissues
    exact Or.inr ⟨hrej, before, after, horder, hended, hanswers hrej⟩

def addThenRead : List (Label Request Disk FileChoice) :=
  [.start (.add (ascii "a") (ascii "10.255.1.2") none), .statement 0 none, .start .readAll,
    .statement 0 none, .statement 0 none, .statement 0 none, .statement 0 none, .statement 0 none,
    .statement 0 none, .statement 1 none, .statement 1 none, .statement 1 none, .statement 1 none]

theorem store_refines_map_sample : ∃ (sys : Calls) (sm : SortedMap GoString Container),
    Run (machine some) (fileLock some).Respected noCalls addThenRead sys ∧
    sys.threads.map (·.program) = [.done (.ok .added), .done (.ok (.all (some sm)))] ∧
    sm.get (ascii "a") = some ⟨ascii "a", ascii "10.255.1.2", none⟩ := by
  have hplain : Request.Plain (.add (ascii "a") (ascii "10.255.1.2") none) :=
    ⟨by decide, by decide, nofun⟩
  have hfree {sys : Calls} {i : ℕ} (h : sys.shared.locked = false) :
      (fileLock some).Respected sys (.statement i none) := Lock.respected_of_taker _ (Or.inr h)
  have hheld {sys : Calls} {i : ℕ} (h : (fileLock some).taker sys (.statement i none) = []) :
      (fileLock some).Respected sys (.statement i none) := Lock.respected_of_taker _ (Or.inl h)
  have hplay : (machine some).Playable (fileLock some).Respected noCalls addThenRead :=
    ⟨⟨hplain, trivial⟩, ⟨⟨rfl, rfl⟩, hfree rfl⟩, ⟨trivial, trivial⟩, ⟨⟨rfl, rfl⟩, hheld rfl⟩,
      ⟨⟨rfl, rfl⟩, hheld rfl⟩, ⟨⟨rfl, rfl⟩, hheld rfl⟩, ⟨⟨rfl, rfl⟩, hheld rfl⟩,
      ⟨⟨rfl, rfl⟩, hheld rfl⟩, ⟨⟨rfl, rfl⟩, hheld rfl⟩, ⟨⟨rfl, rfl⟩, hfree rfl⟩,
      ⟨⟨rfl, rfl⟩, hheld rfl⟩, ⟨⟨rfl, rfl⟩, hheld rfl⟩, ⟨⟨rfl, rfl⟩, hheld rfl⟩, trivial⟩
  have hrun := Run.of_playable hplay
  rcases (store_refines_map some hrun).1 1 _ _ rfl rfl with
    ⟨err, hrej, -⟩ | ⟨-, before, after, horder, -, sm, hresult, hget⟩
  · cases hrej
  · have hbefore : before = [0] := by
      change [0, 1] = before ++ 1 :: after at horder
      cases before with
      | nil => simp at horder
      | cons b bs =>
        rw [List.cons_append, List.cons.injEq] at horder
        cases bs with
        | nil => rw [← horder.1]
        | cons _ _ => simp at horder
    rw [hbefore] at hget
    refine ⟨_, sm, hrun, ?_, (hget _).trans rfl⟩
    rw [← hresult]
    rfl

end Silk.Datastore
