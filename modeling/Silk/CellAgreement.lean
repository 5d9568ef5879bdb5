import Silk.CellSessions

/-!
# The agreement of cells and controllers

Whatever fails, and however the starts of the cells interleave, a daemon that has
been started goes by a lease of its own that its VTEP shows and that the
controllers had in their table, disjoint from the leases of all other hosts.
-/

namespace Silk.Cells

open Controller Daemon GoJson GoNet Leaser Resumption

variable {ι : Type}

/-- A statement has found the lease in the table, or put it there. -/
def Confirms (e : Entry ι) (l : Lease) : Prop :=
  ∃ q r, e = ⟨.wire (.statement q), r⟩ ∧ Establishes (some ⟨q, r⟩) l

section Evidence

variable (jsonError : GoString → DecodeError → String) (c : LeaseController)

theorem confirmed_request (q : ClientCall) (later : List (Entry ι)) :
    (request wire jsonError c q).Earns (fun later res => ∀ l, q.Affirms res l →
      ∃ e ∈ later, Confirms e l) later :=
  earns_request (A := fun e l => Establishes (some e) l) wire jsonError c
    (fun draws _ => established_operation q draws) q.not_affirms_report later

theorem confirmed_serveHost (cell : ι) (q : HostCall) (later : List (Entry ι)) :
    (serveHost jsonError c cell q).Earns (fun later r => ∀ l, Acknowledges l ⟨q, r⟩ →
      ∃ e ∈ later, Confirms e l) later := by
  have hacquire : ∀ (u : String) (single : Bool),
      (request wire jsonError c (.acquireLease u single) >>= fun res =>
        .done (res.mapError DoError.text) : CellProgram ι (Except String Lease)).Earns
          (fun later r => ∀ l, r = .ok l → ∃ e ∈ later, Confirms e l) later := by
    intro u single
    refine (confirmed_request jsonError c (.acquireLease u single) later).bind
      fun res later hres l hl => ?_
    cases res with
    | error e => cases hl
    | ok k =>
      cases hl
      exact hres l rfl
  cases q with
  | acquireSubnetLease u => exact hacquire u false
  | acquireSingleOverlayIPLease u => exact hacquire u true
  | renewSubnetLease k =>
    refine (confirmed_request jsonError c (.renewSubnetLease k) later).bind
      fun res later hres l hl => ?_
    obtain ⟨rfl, hok⟩ := hl
    cases res with
    | error e => cases hok
    | ok _ => exact hres k ⟨rfl, rfl⟩
  | _ => exact .of_forall (fun _ _ _ h => h.elim) _ _

theorem confirmed_boot (cfg : Daemon.Config) (cell : ι) (later : List (Entry ι)) :
    (boot jsonError c cfg cell).Earns (fun later res => ∀ l,
      (∃ running, res = .ok running ∧ running.lease = l) → ∃ e ∈ later, Confirms e l) later := by
  have hstart : (start cfg).run.Earns (fun history res => ∀ l,
      (∃ running, res = .ok running ∧ running.lease = l) → ∃ e ∈ history, Acknowledges l e) [] := by
    refine Program.Earns.mono (fun history res hres l hl => ?_) (acknowledged_start cfg)
    obtain ⟨running, hok, rfl⟩ := hl
    exact hres running hok
  exact hstart.through (A := fun e l => Acknowledges l e)
    (fun q later => confirmed_serveHost jsonError c cell q later)
    fun e he => absurd he List.not_mem_nil

end Evidence

/-- Other clients call for other hosts, or for a cell what the cell itself might ask for. -/
def Fits (o : Overlay) (cfgs : ι → Daemon.Config) : CellJob ι → Prop
  | .client (.acquireLease u single) =>
      ∀ i, u = (cfgs i).underlayIP → single = (cfgs i).singleIPOnly
  | .client (.renewSubnetLease l) => Suited o cfgs l
  | .client .getActiveLeases | .client (.releaseSubnetLease _) | .cell _ _ => True

def Finished (o : Overlay) (cfgs : ι → Daemon.Config) : Outcome ι → State ι → Prop
  | ⟨.client _, _⟩, _ => True
  | ⟨.cell i _, res⟩, s => ∀ running, res = .ok running →
      Held o cfgs i running.lease ∧ Ready (cfgs i) running (s.hosts i)

section Runs

variable {jsonError : GoString → DecodeError → String} {o : Overlay} {A E : ℤ}
  {cfgs : ι → Daemon.Config} {network : Verdict → Prop} {allowed : Choice → Prop}

theorem fits_client (hcfgs : Configured o cfgs) {q : ClientCall}
    (h : Fits o cfgs (.client q)) : q.Fits (o.controller A E) (Suited o cfgs) := by
  cases q with
  | acquireLease u single =>
    intro _ subnet l hs hl
    obtain ⟨hunder, hsub⟩ := LeaseController.vtepLease_ok hl
    refine ⟨grants_of_offered_rows (fun _ hl => hl.1) hs hl, fun j hj => ?_⟩
    rw [hunder] at hj
    rw [hsub, kind_of_offered hcfgs hs]
    exact h j hj
  | renewSubnetLease l => exact fun _ => h
  | getActiveLeases => trivial
  | releaseSubnetLease u => trivial

theorem confirmed_restart (c : LeaseController) (i : ι) (before : List Session) :
    (restart jsonError c cfgs i before).Earns (fun later res => ∀ l,
      (∃ running, res = .ok running ∧ running.lease = l) → ∃ e ∈ later, Confirms e l) [] :=
  (Program.Earns.of_forall (P := fun _ _ => True) (fun _ _ => trivial) _ _).bind
    fun _ later _ => confirmed_boot jsonError c (cfgs i) i later

variable [DecidableEq ι]

theorem guarded_restart (hcfgs : Configured o cfgs) {s : State ι}
    (hs : AllRows (Suited o cfgs) s.db)
    {i : ι} (hhost : Encodes (Held o cfgs i) (cfgs i) (s.hosts i)) (before : List Session) :
    (restart jsonError (o.controller A E) cfgs i before).Guarded cellExec
      (fun ch => Permits network allowed ch.wire) (Rely o cfgs (some i)) (Guarantee o cfgs (some i))
      (fun res t => ∀ running, res = .ok running →
        Held o cfgs i running.lease ∧ Ready (cfgs i) running (t.hosts i)) s := by
  refine (guarded_sessions hcfgs before hs hhost).bind (Relies.refl Keeps.refl)
    fun _ s₁ ⟨hs₁, hkept⟩ => ?_
  refine (guarded_boot hcfgs hs₁ hkept).mono fun res t ⟨_, hend⟩ running hok => ?_
  cases hok
  exact hend

theorem guarded_job (hcfgs : Configured o cfgs) {job : CellJob ι} (h : Fits o cfgs job)
    {s : State ι} (hs : AllRows (Suited o cfgs) s.db)
    (hhosts : ∀ i, Encodes (Held o cfgs i) (cfgs i) (s.hosts i)) :
    (job.body wire jsonError (o.controller A E) (restart jsonError (o.controller A E) cfgs)).Guarded
      cellExec (fun ch => Permits network allowed ch.wire) (Rely o cfgs job.owner)
      (Guarantee o cfgs job.owner) (Finished o cfgs) s := by
  refine Job.guarded_body (Relies.refl Keeps.refl) (fun q hq => ?_) fun i before hi => ?_
  · subst hq
    exact (guarded_request (fits_client hcfgs h) hs).mono fun _ _ _ _ _ => trivial
  · subst hi
    refine (guarded_restart hcfgs hs (hhosts i) before).mono fun res t hres u htu running hok => ?_
    rw [Rely.hosts_eq htu]
    exact hres running hok

theorem run_finished (hcfgs : Configured o cfgs) {jobs : List (CellJob ι)}
    (hjobs : ∀ job ∈ jobs, Fits o cfgs job) (hcells : jobs.Pairwise Job.Apart) {s : State ι}
    (hs : AllRows (Suited o cfgs) s.db) (hhosts : ∀ i, Encodes (Held o cfgs i) (cfgs i) (s.hosts i))
    {ls : List (Label (CellJob ι) (State ι) CellChoice)} {sys : CellSystem ι}
    (hr : (cells jsonError (o.controller A E) cfgs network allowed).RunOf jobs s ls sys) :
    AllRows (Suited o cfgs) sys.shared.db ∧ ∀ th ∈ sys.threads, ∀ res, th.program = .done res →
      Finished o cfgs res sys.shared := by
  have hdrift : ∀ s t : State ι, t.hosts = s.hosts ∧ anyTime s.db t.db →
      (AllRows (Suited o cfgs) s.db → AllRows (Suited o cfgs) t.db) ∧ ∀ i, t.hosts i = s.hosts i :=
    fun s t hst => ⟨fun hs r hr => hs r (hst.2 ▸ hr), congrFun hst.1⟩
  obtain ⟨hkeeps, hfinished⟩ := Resumption.Run.owned
    (N := Keeps fun s : State ι => AllRows (Suited o cfgs) s.db) Job.owner
    (P := fun _ => Finished o cfgs) Keeps.refl Keeps.trans (fun _ _ h => h) hdrift hr hcells
    fun job hjob => guarded_job hcfgs (hjobs job hjob) hs hhosts
  exact ⟨hkeeps hs, hfinished⟩

end Runs

/-- A daemon that has been started goes by a granted lease that its VTEP shows, and at some moment
the controllers had this lease in their table, together with leases of other hosts that are all
disjoint from it. -/
theorem started_agrees [DecidableEq ι] (jsonError : GoString → DecodeError → String) (o : Overlay)
    (A E : ℤ) {cfgs : ι → Daemon.Config} (hcfgs : Configured o cfgs) {network : Verdict → Prop}
    {allowed : Choice → Prop} {jobs : List (CellJob ι)} (hjobs : ∀ job ∈ jobs, Fits o cfgs job)
    (hcells : jobs.Pairwise Job.Apart) {s : State ι}
    (hs : AllRows (Suited o cfgs) s.db) (hhosts : ∀ i, Encodes (Held o cfgs i) (cfgs i) (s.hosts i))
    {ls : List (Label (CellJob ι) (State ι) CellChoice)} {sys : CellSystem ι}
    (hr : (cells jsonError (o.controller A E) cfgs network allowed).RunOf jobs s ls sys)
    {th : CellThread ι} (hth : th ∈ sys.threads) {i : ι} {before : List Session} {running : Running}
    (hdone : th.program = .done ⟨.cell i before, .ok running⟩) :
    Granted (cfgs i) running.lease ∧ Ready (cfgs i) running (sys.shared.hosts i) ∧
    ∃ ls₁ ls₂ sys₁, ls = ls₁ ++ ls₂ ∧
      (cells jsonError (o.controller A E) cfgs network allowed).RunOf jobs s ls₁ sys₁ ∧
      (∃ r ∈ sys₁.shared.db.table.rows, r.toLease = running.lease) ∧
      ∀ r ∈ sys₁.shared.db.table.rows, r.toLease ≠ running.lease →
        rangesDisjoint running.lease.overlaySubnet r.overlaySubnet := by
  obtain ⟨hheld, hready⟩ := (run_finished hcfgs hjobs hcells hs hhosts hr).2 th hth _ hdone _ rfl
  refine ⟨hheld.granted hcfgs, hready, ?_⟩
  have hconfirmed := hr.earns_launch (fun job => Job.earns_body (confirmed_restart _) job) th hth
  rw [hdone] at hconfirmed
  obtain ⟨e, he, q, r, rfl, hest⟩ := hconfirmed i before _ rfl running.lease ⟨running, rfl, rfl⟩
  obtain ⟨j, hj⟩ := List.mem_iff_getElem?.mp hth
  have hstored : ∀ (choice : CellChoice) (t : State ι), (exec choice.wire.choice t.db q).1 = r →
      ∃ r ∈ (exec choice.wire.choice t.db q).2.table.rows, r.toLease = running.lease := by
    intro choice t hreply
    rw [← hreply] at hest
    exact exec_establishes hest
  obtain ⟨ls₁, ls₂, sys₁, hls, hrun, hrow⟩ := hr.witnessed
    (W := fun t : State ι => ∃ r ∈ t.db.table.rows, r.toLease = running.lease)
    (Machine.launch_fresh _ _ _) hj he hstored
  refine ⟨ls₁, ls₂, sys₁, hls, hrun, hrow, fun r' hr' hne => ?_⟩
  obtain ⟨r, hr, hlease⟩ := hrow
  have hrows := (run_finished hcfgs hjobs hcells hs hhosts hrun).1
  rw [← hlease] at hne ⊢
  exact (hrows r hr).1.rangesDisjoint (hrows r' hr').1
    (Table.distinct_of_mem hr hr' fun heq => hne (congrArg Row.toLease heq.symm)).2.1

def smallConfig : Daemon.Config :=
  { sampleConfig false with subnetPrefixLength := 30, overlayNetwork := "10.255.0.0/29" }

def smallState : State Unit := ⟨⟨Table.empty, 0⟩, fun _ => sampleHost⟩

def quietCell : CellChoice :=
  ⟨⟨.served (fun _ => .first) none none, .quiet⟩, Daemon.quietChoice sampleLease⟩

theorem configured_small : Configured Overlay.small fun _ : Unit => smallConfig :=
  ⟨by decide, fun _ => Or.inl rfl, fun _ _ => rfl, fun _ _ _ => rfl⟩

theorem encodes_sampleHost {P : Lease → Prop} : Encodes P smallConfig sampleHost :=
  encodes_of_unaddressed fun l hl => by cases hl

def subnetOf : Except String Running → Option String
  | .ok running => some running.lease.overlaySubnet
  | .error _ => none

def smallCells :
    Machine (CellCall Unit) CellReply (Outcome Unit) (CellJob Unit) (State Unit) CellChoice :=
  cells (fun _ _ => "") (Overlay.small.controller 2 5) (fun _ => smallConfig) (fun _ => True)
    Leaser.faultless

def smallJob : CellJob Unit := .cell () [.boot, .teardown]

def smallProgram : CellProgram Unit (Except String Running) :=
  restart (fun _ _ => "") (Overlay.small.controller 2 5) (fun _ => smallConfig) ()
    [.boot, .teardown]

theorem runs_quietCell {α : Type} (p : CellProgram Unit α) (s : State Unit) :
    p.Runs smallCells.exec smallCells.allowed s (p.runWith smallCells.exec quietCell s).1
      (p.runWith smallCells.exec quietCell s).2 := by
  have hallowed : smallCells.allowed quietCell := ⟨trivial, rfl⟩
  exact Program.runs_runWith hallowed p s

theorem boot_small :
    subnetOf (smallProgram.runWith smallCells.exec quietCell smallState).1 =
      some "10.255.0.4/30" := by
  decide +kernel

theorem started_agrees_small : ∃ ls sys th running,
    smallCells.RunOf [smallJob] smallState ls sys ∧
    th ∈ sys.threads ∧ th.program = .done ⟨smallJob, .ok running⟩ ∧
    running.lease.overlaySubnet = "10.255.0.4/30" ∧ Granted smallConfig running.lease ∧
    Ready smallConfig running (sys.shared.hosts ()) := by
  have hprogram := runs_quietCell smallProgram smallState
  have hsubnet := boot_small
  generalize smallProgram.runWith smallCells.exec quietCell smallState = result at hprogram hsubnet
  obtain ⟨res, t⟩ := result
  cases res with
  | error e => cases hsubnet
  | ok running =>
    have hnil : smallCells.RunOf [smallJob] smallState [] ⟨smallState, [] ++ [⟨smallJob, [],
          smallProgram >>= fun result => .done ⟨smallJob, result⟩⟩]⟩ := .nil _
    obtain ⟨ls, th, hrun, hdone⟩ := hnil.finish (Program.runs_bind.mpr ⟨_, _, hprogram, rfl, rfl⟩)
    have hfits : ∀ job ∈ [smallJob], Fits Overlay.small (fun _ => smallConfig) job := by
      simp [smallJob, Fits]
    have hagrees := started_agrees (fun _ _ => "") Overlay.small 2 5 configured_small hfits
      (List.pairwise_singleton _ _) (s := smallState) (fun r hr => absurd hr List.not_mem_nil)
      (fun _ => encodes_sampleHost) hrun (List.mem_singleton_self th) hdone
    exact ⟨ls, _, th, running, hrun, List.mem_singleton_self _, hdone, Option.some.inj hsubnet,
      hagrees.1, hagrees.2.1⟩

end Silk.Cells
