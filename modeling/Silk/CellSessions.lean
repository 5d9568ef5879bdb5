import Silk.ControllerCells
import Silk.DaemonDiscovery

/-!
# Cells that come and go

The daemon of a cell is started and torn down again and again, and each of its
calls may fail. Its calls to the controller go over the network, its other calls
to the host of the cell. The starts of different cells and the calls of other
clients interleave.
-/

namespace Silk.Cells

open Controller Daemon GoJson GoNet Leaser Resumption

variable {ι : Type}

inductive CellCall (ι : Type) where
  | wire (c : WireCall)
  | host (cell : ι) (q : HostCall)

abbrev CellReply : CellCall ι → Type
  | .wire c => WireReply c
  | .host _ q => Except String (HostAnswer q)

structure State (ι : Type) where
  db : Database
  hosts : ι → Host

structure CellChoice where
  wire : WireChoice
  host : HostChoice

def cellExec [DecidableEq ι] (ch : CellChoice) (s : State ι) :
    (c : CellCall ι) → CellReply c × State ι
  | .wire c => ((wireExec ch.wire s.db c).1, { s with db := (wireExec ch.wire s.db c).2 })
  | .host cell q =>
    ((Host.exec ch.host (s.hosts cell) q).1,
      { s with hosts := Function.update s.hosts cell (Host.exec ch.host (s.hosts cell) q).2 })

def wire : Embedding WireCall WireReply (CellCall ι) CellReply := ⟨.wire, fun _ r => r⟩

def onWire [DecidableEq ι] : OnWire wire (cellExec (ι := ι)) where
  choice := CellChoice.wire
  db := State.db
  set s db := { s with db := db }
  db_set _ _ := rfl
  reply_eq _ _ _ := rfl
  state_eq _ _ _ := rfl

abbrev Entry (ι : Type) : Type := (c : CellCall ι) × CellReply c

abbrev CellProgram (ι : Type) : Type → Type := Program (CellCall ι) CellReply

section Programs

variable (jsonError : GoString → DecodeError → String) (c : LeaseController)

def serveHost (cell : ι) : (q : HostCall) → CellProgram ι (Except String (HostAnswer q))
  | .acquireSubnetLease u => do
    let res ← request wire jsonError c (.acquireLease u false)
    return res.mapError DoError.text
  | .acquireSingleOverlayIPLease u => do
    let res ← request wire jsonError c (.acquireLease u true)
    return res.mapError DoError.text
  | .renewSubnetLease l => do
    let res ← request wire jsonError c (.renewSubnetLease l)
    return res.mapError ClientError.text
  | q => .call (.host cell q) .done

def boot (cfg : Daemon.Config) (cell : ι) : CellProgram ι (Except String Running) :=
  (start cfg).run.through (serveHost jsonError c cell)

/-- `silk-teardown`: the errors that it has collected. -/
def teardown (cfg : Daemon.Config) (cell : ι) : CellProgram ι (List String) := do
  let released ← request wire jsonError c (.releaseSubnetLease cfg.underlayIP)
  let deleted ← (deleteVTEP cfg.vtepName).run.through (serveHost jsonError c cell)
  let errList := match released with
    | .error err => ["release subnet lease: " ++ err.text]
    | .ok () => []
  match deleted with
  | .error err => return errList ++ ["delete vtep: " ++ err]
  | .ok () => return errList

inductive Session where
  | boot
  | teardown

def sessions (cfg : Daemon.Config) (cell : ι) : List Session → CellProgram ι Unit
  | [] => return ()
  | .boot :: rest => do
    let _ ← boot jsonError c cfg cell
    sessions cfg cell rest
  | .teardown :: rest => do
    let _ ← teardown jsonError c cfg cell
    sessions cfg cell rest

end Programs

def restart (jsonError : GoString → DecodeError → String) (c : LeaseController)
    (cfgs : ι → Daemon.Config) (i : ι) (before : List Session) :
    CellProgram ι (Except String Running) := do
  sessions jsonError c (cfgs i) i before
  boot jsonError c (cfgs i) i

abbrev CellJob (ι : Type) : Type := Job ι (List Session)

abbrev Outcome (ι : Type) : Type := Sigma (Job.Result (Except String Running) : CellJob ι → Type)

abbrev CellThread (ι : Type) : Type := Thread (CellCall ι) CellReply (Outcome ι) (CellJob ι)

abbrev CellSystem (ι : Type) : Type :=
  System (CellCall ι) CellReply (Outcome ι) (CellJob ι) (State ι)

def cells [DecidableEq ι] (jsonError : GoString → DecodeError → String) (c : LeaseController)
    (cfgs : ι → Daemon.Config) (network : Verdict → Prop) (allowed : Choice → Prop) :
    Machine (CellCall ι) CellReply (Outcome ι) (CellJob ι) (State ι) CellChoice where
  exec := cellExec
  allowed ch := Permits network allowed ch.wire
  drift s t := t.hosts = s.hosts ∧ anyTime s.db t.db
  body job := job.body wire jsonError c (restart jsonError c cfgs)
  accepts _ _ := False

/-- A lease of the overlay; if it is for one of the cells, it is of the kind that the cell asks
for. -/
def Suited (o : Overlay) (cfgs : ι → Daemon.Config) (l : Lease) : Prop :=
  o.Grants l ∧ ∀ i, l.underlayIP = (cfgs i).underlayIP →
    likeSingleIP l.overlaySubnet = (cfgs i).singleIPOnly

def Held (o : Overlay) (cfgs : ι → Daemon.Config) (i : ι) (l : Lease) : Prop :=
  Suited o cfgs l ∧ l.underlayIP = (cfgs i).underlayIP

/-- The configuration of the cells agrees with the one of the controllers. -/
structure Configured (o : Overlay) (cfgs : ι → Daemon.Config) : Prop where
  mask : o.subnetMask < 32
  faithful : ∀ i, Faithful (cfgs i)
  blocks : ∀ i, (cfgs i).singleIPOnly = false → (cfgs i).subnetPrefixLength = o.subnetMask
  hosts : ∀ i j, (cfgs i).underlayIP = (cfgs j).underlayIP → i = j

section Leases

variable {o : Overlay} {cfgs : ι → Daemon.Config} {A E : ℤ} {i : ι}

theorem Held.granted (hcfgs : Configured o cfgs) {l : Lease} (h : Held o cfgs i l) :
    Granted (cfgs i) l := by
  obtain ⟨⟨⟨a, w, hslot, hsub, hmac⟩, hkind⟩, hunder⟩ := h
  refine ⟨hunder, a, w, ⟨hslot.lt, hslot.le, hsub, hmac⟩, ?_⟩
  have hlike := likeSingleIP_cidrText (addrBytes a) hslot.le
  rw [← hsub, hkind i hunder] at hlike
  split_ifs with hsingle
  · rw [hlike.mp hsingle]
    rfl
  · rw [hcfgs.blocks i (Bool.eq_false_iff.mpr hsingle)]
    rcases hslot with ⟨rfl, -⟩ | ⟨rfl, -⟩
    · rfl
    · exact absurd (hlike.mpr rfl) hsingle

theorem kind_of_offered (hcfgs : Configured o cfgs) {single : Bool} {subnet : String}
    (hs : (o.controller A E).Offered (AllRows (Suited o cfgs)) single subnet) :
    likeSingleIP subnet = single := by
  rcases hs with hs | ⟨db, hI, r, hr, -, hkind, rfl⟩
  · exact Overlay.likeSingleIP_of_mem hcfgs.mask hs
  · exact hkind

theorem fits_acquire (hcfgs : Configured o cfgs) (i : ι) :
    (ClientCall.acquireLease (cfgs i).underlayIP (cfgs i).singleIPOnly).Fits (o.controller A E)
      (Suited o cfgs) := by
  intro _ subnet l hs hl
  obtain ⟨hunder, hsub⟩ := LeaseController.vtepLease_ok hl
  refine ⟨grants_of_offered_rows (fun _ hl => hl.1) hs hl, fun j hj => ?_⟩
  rw [hunder] at hj
  cases hcfgs.hosts i j hj
  rw [hsub]
  exact kind_of_offered hcfgs hs

end Leases

def silent (ch : HostChoice) : HostChoice where
  fault
    | .acquireSubnetLease _ | .acquireSingleOverlayIPLease _ => some ⟨false, ""⟩
    | q => ch.fault q
  lease := ch.lease
  containers := ch.containers
  index := ch.index
  mtu := ch.mtu

theorem silent_answers (ch : HostChoice) (P : Lease → Prop) (cfg : Daemon.Config) :
    (silent ch).Answers P cfg := by
  intro hnone
  rw [Daemon.Config.acquireCall] at hnone
  split_ifs at hnone
  · cases hnone
  · cases hnone

theorem exec_silent (ch : HostChoice) (h : Host) {q : HostCall}
    (hq : ∀ u, q ≠ .acquireSubnetLease u ∧ q ≠ .acquireSingleOverlayIPLease u) :
    Host.exec (silent ch) h q = Host.exec ch h q := by
  cases q with
  | acquireSubnetLease u => exact absurd rfl (hq u).1
  | acquireSingleOverlayIPLease u => exact absurd rfl (hq u).2
  | _ => rfl

def answering (res : Except String Lease) : HostChoice where
  fault _ := match res with
    | .error e => some ⟨false, e⟩
    | .ok _ => none
  lease := match res with
    | .error _ => ⟨"", "", ""⟩
    | .ok l => l
  containers := 0
  index := 0
  mtu := 0

theorem answering_answers {P : Lease → Prop} {res : Except String Lease}
    (h : ∀ l, res = .ok l → P l) (cfg : Daemon.Config) : (answering res).Answers P cfg := by
  intro hnone
  cases res with
  | error e => cases hnone
  | ok l => exact h l rfl

abbrev Rely (o : Overlay) (cfgs : ι → Daemon.Config) : Option ι → State ι → State ι → Prop :=
  Relies (Keeps fun s => AllRows (Suited o cfgs) s.db) fun i s => s.hosts i

abbrev Guarantee (o : Overlay) (cfgs : ι → Daemon.Config) : Option ι → State ι → State ι → Prop :=
  Guarantees (Keeps fun s => AllRows (Suited o cfgs) s.db) fun i s => s.hosts i

theorem Rely.hosts_eq {o : Overlay} {cfgs : ι → Daemon.Config} {i : ι} {s t : State ι}
    (h : Rely o cfgs (some i) s t) : t.hosts i = s.hosts i := h.2 i rfl

section Sessions

variable [DecidableEq ι] {o : Overlay} {cfgs : ι → Daemon.Config} {A E : ℤ} {i : ι} {s : State ι}
  {network : Verdict → Prop} {allowed : Choice → Prop} {jsonError : GoString → DecodeError → String}

theorem guarded_request {owner : Option ι} {c : LeaseController} {q : ClientCall}
    (h : q.Fits c (Suited o cfgs)) (hs : AllRows (Suited o cfgs) s.db) :
    (request wire jsonError c q).Guarded cellExec (fun ch => Permits network allowed ch.wire)
      (Rely o cfgs owner) (Guarantee o cfgs owner)
      (fun res t => q.Delivers c (Suited o cfgs) res ∧ AllRows (Suited o cfgs) t.db ∧
        ∀ i, owner = some i → t.hosts i = s.hosts i) s := by
  refine onWire.guarded_request h (fun _ hch => hch) (R := Rely o cfgs owner)
    (J := fun t : State ι =>
      AllRows (Suited o cfgs) t.db ∧ ∀ i, owner = some i → t.hosts i = s.hosts i)
    (fun t u htu ht => ⟨htu.1 ht.1, fun i hi => (htu.2 i hi).trans (ht.2 i hi)⟩)
    (fun _ ht => ht.1) (fun t db ht hdb => ?_) ⟨hs, fun _ _ => rfl⟩
  exact ⟨⟨hdb, ht.2⟩, fun _ => hdb, fun _ _ => rfl⟩

theorem guarded_acquire (hcfgs : Configured o cfgs) {single : Bool}
    (hsingle : (cfgs i).singleIPOnly = single) (hs : AllRows (Suited o cfgs) s.db) :
    (request wire jsonError (o.controller A E) (.acquireLease (cfgs i).underlayIP single) >>=
      fun res =>
      .done (res.mapError DoError.text) : CellProgram ι (Except String Lease)).Guarded cellExec
        (fun ch => Permits network allowed ch.wire) (Rely o cfgs (some i))
        (Guarantee o cfgs (some i))
        (fun res t => AllRows (Suited o cfgs) t.db ∧ t.hosts i = s.hosts i ∧
          ∀ l, res = .ok l → Held o cfgs i l) s := by
  subst hsingle
  refine (guarded_request (fits_acquire hcfgs i) hs).bind (Relies.refl Keeps.refl)
    fun res t ⟨hgiven, ht, hhost⟩ u htu => ?_
  refine ⟨htu.1 ht, (Rely.hosts_eq htu).trans (hhost i rfl), fun l hl => ?_⟩
  cases res with
  | error e => cases hl
  | ok k =>
    cases hl
    exact hgiven l rfl

/-- Each call of a daemon is answered as its host and a controller that grants leases of the overlay
might answer it. -/
theorem guarded_serveHost (hcfgs : Configured o cfgs) {q : HostCall}
    (hq : Own (Held o cfgs i) (cfgs i) q) (hs : AllRows (Suited o cfgs) s.db) :
    (serveHost jsonError (o.controller A E) i q).Guarded cellExec
      (fun ch => Permits network allowed ch.wire) (Rely o cfgs (some i)) (Guarantee o cfgs (some i))
      (fun r t => AllRows (Suited o cfgs) t.db ∧
        ∃ ch, HostChoice.Answers (Held o cfgs i) (cfgs i) ch ∧
          Host.exec ch (s.hosts i) q = (r, t.hosts i)) s := by
  have hcall : (∀ u, q ≠ .acquireSubnetLease u ∧ q ≠ .acquireSingleOverlayIPLease u) →
      (Program.call (.host i q) .done : CellProgram ι (Except String (HostAnswer q))).Guarded
        cellExec (fun ch => Permits network allowed ch.wire) (Rely o cfgs (some i))
        (Guarantee o cfgs (some i))
        (fun r t => AllRows (Suited o cfgs) t.db ∧ ∃ ch,
          HostChoice.Answers (Held o cfgs i) (cfgs i) ch ∧
          Host.exec ch (s.hosts i) q = (r, t.hosts i)) s := by
    intro hne t ch hst _
    have ht := hst.1 hs
    refine ⟨⟨fun _ => ht, fun j hj => ?_⟩,
      fun u htu => ⟨htu.1 ht, silent ch.host, silent_answers _ _ _, ?_⟩⟩
    · exact Function.update_of_ne (fun h => hj (congrArg some h.symm)) _ _
    · have hupdate : u.hosts i = (Host.exec ch.host (t.hosts i) q).2 :=
        htu.hosts_eq.trans (Function.update_self _ _ _)
      rw [exec_silent _ _ hne, hupdate, ← hst.hosts_eq]
      rfl
  cases q with
  | acquireSubnetLease u =>
    obtain ⟨rfl, hsingle⟩ := hq
    refine (guarded_acquire hcfgs hsingle hs).mono fun res t ⟨ht, hhost, hheld⟩ =>
      ⟨ht, answering res, answering_answers hheld _, ?_⟩
    rw [hhost]
    cases res <;> rfl
  | acquireSingleOverlayIPLease u =>
    obtain ⟨rfl, hsingle⟩ := hq
    refine (guarded_acquire hcfgs hsingle hs).mono fun res t ⟨ht, hhost, hheld⟩ =>
      ⟨ht, answering res, answering_answers hheld _, ?_⟩
    rw [hhost]
    cases res <;> rfl
  | renewSubnetLease l =>
    refine (guarded_request (q := .renewSubnetLease l) (fun _ => hq.1) hs).bind
      (Relies.refl Keeps.refl) fun res t ⟨_, ht, hhost⟩ u htu => ?_
    refine ⟨htu.1 ht, silent (answering (res.mapError ClientError.text |>.map fun _ => l)),
      silent_answers _ _ _, ?_⟩
    rw [(Rely.hosts_eq htu).trans (hhost i rfl)]
    cases res <;> rfl
  | _ => exact hcall fun _ => ⟨by simp, by simp⟩

theorem guarded_through (hcfgs : Configured o cfgs) {α : Type} {p : Boot α}
    (hasks : p.run.Asks Host.exec (HostChoice.Answers (Held o cfgs i) (cfgs i))
      (Own (Held o cfgs i) (cfgs i)) (s.hosts i)) (hs : AllRows (Suited o cfgs) s.db) :
    (p.run.through (serveHost jsonError (o.controller A E) i)).Guarded cellExec
      (fun ch => Permits network allowed ch.wire) (Rely o cfgs (some i)) (Guarantee o cfgs (some i))
      (fun res t => AllRows (Suited o cfgs) t.db ∧ p.run.Runs Host.exec
        (HostChoice.Answers (Held o cfgs i) (cfgs i)) (s.hosts i) res (t.hosts i)) s :=
  Program.Asks.guarded (v := fun t : State ι => t.hosts i)
    (J := fun t => AllRows (Suited o cfgs) t.db) (Relies.refl Keeps.refl)
    (fun _ _ hst hs => ⟨hst.1 hs, hst.2 i rfl⟩) (fun _ _ hq hs => guarded_serveHost hcfgs hq hs)
    hasks hs

theorem guarded_boot (hcfgs : Configured o cfgs) (hs : AllRows (Suited o cfgs) s.db)
    (hhost : Encodes (Held o cfgs i) (cfgs i) (s.hosts i)) :
    (boot jsonError (o.controller A E) (cfgs i) i).Guarded cellExec
      (fun ch => Permits network allowed ch.wire) (Rely o cfgs (some i)) (Guarantee o cfgs (some i))
      (fun res t => AllRows (Suited o cfgs) t.db ∧ Fallible.Ends
        (fun running h => Held o cfgs i running.lease ∧ Ready (cfgs i) running h)
        (fun _ => Encodes (Held o cfgs i) (cfgs i)) res (t.hosts i)) s := by
  have hgranted : ∀ l, Held o cfgs i l → Granted (cfgs i) l := fun _ hl => hl.granted hcfgs
  have hasks := asks_start (hcfgs.faithful i) hgranted hhost
  refine (guarded_through hcfgs hasks hs).mono fun res t ⟨ht, hrun⟩ => ⟨ht, ?_⟩
  exact encodes_start (hcfgs.faithful i) hgranted _ _ _ hhost hrun

theorem guarded_teardown (hcfgs : Configured o cfgs) (hs : AllRows (Suited o cfgs) s.db)
    (hhost : Encodes (Held o cfgs i) (cfgs i) (s.hosts i)) :
    (teardown jsonError (o.controller A E) (cfgs i) i).Guarded cellExec
      (fun ch => Permits network allowed ch.wire) (Rely o cfgs (some i)) (Guarantee o cfgs (some i))
      (fun _ t => AllRows (Suited o cfgs) t.db ∧
        Encodes (Held o cfgs i) (cfgs i) (t.hosts i)) s := by
  refine (guarded_request (q := .releaseSubnetLease _) trivial hs).bind (Relies.refl Keeps.refl)
    fun released s₁ ⟨_, hs₁, hsame⟩ => ?_
  have hown : Fallible.Only (Own (Held o cfgs i) (cfgs i)) (deleteVTEP (cfgs i).vtepName) :=
    Fallible.Only.bind (own_ask _ _ (q := .linkByName _) trivial _) fun _ =>
      own_ask _ _ (q := .linkDel _) trivial _
  refine (guarded_through hcfgs (hown.asks _) hs₁).bind (Relies.refl Keeps.refl)
    fun deleted s₂ ⟨hs₂, hrun⟩ => ?_
  have hkept : Encodes (Held o cfgs i) (cfgs i) (s₂.hosts i) :=
    Fallible.ends_const.mp (encodes_deleteVTEP _ _ _ (hsame i rfl ▸ hhost) hrun)
  have hdone : ∀ errs : List String, (Program.done errs : CellProgram ι (List String)).Guarded
      cellExec (fun ch => Permits network allowed ch.wire) (Rely o cfgs (some i))
      (Guarantee o cfgs (some i))
      (fun _ t => AllRows (Suited o cfgs) t.db ∧
        Encodes (Held o cfgs i) (cfgs i) (t.hosts i)) s₂ := by
    refine fun errs t hst => ⟨hst.1 hs₂, ?_⟩
    rw [Rely.hosts_eq hst]
    exact hkept
  cases deleted with
  | error e => exact hdone _
  | ok _ => exact hdone _

theorem guarded_sessions (hcfgs : Configured o cfgs) (before : List Session)
    (hs : AllRows (Suited o cfgs) s.db) (hhost : Encodes (Held o cfgs i) (cfgs i) (s.hosts i)) :
    (sessions jsonError (o.controller A E) (cfgs i) i before).Guarded cellExec
      (fun ch => Permits network allowed ch.wire) (Rely o cfgs (some i)) (Guarantee o cfgs (some i))
      (fun _ t => AllRows (Suited o cfgs) t.db ∧
        Encodes (Held o cfgs i) (cfgs i) (t.hosts i)) s := by
  induction before generalizing s with
  | nil =>
    refine fun t hst => ⟨hst.1 hs, ?_⟩
    rw [Rely.hosts_eq hst]
    exact hhost
  | cons session rest ih =>
    cases session with
    | boot =>
      refine (guarded_boot hcfgs hs hhost).bind (Relies.refl Keeps.refl)
        fun res s₁ ⟨hs₁, hend⟩ => ih hs₁ ?_
      cases res with
      | error e => exact hend
      | ok running => exact hend.2.presents.encodes hend.1
    | teardown =>
      exact (guarded_teardown hcfgs hs hhost).bind (Relies.refl Keeps.refl)
        fun _ s₁ ⟨hs₁, hkept⟩ => ih hs₁ hkept

end Sessions

end Silk.Cells
