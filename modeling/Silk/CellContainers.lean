import Silk.CniDiscovery
import Silk.CniMetadata
import Silk.DaemonOccupancy

/-!
# The containers of a cell

Daemons are started on a cell one after the other, and in between the plugin is
invoked for its containers. Each start reads the datastore that the plugin
writes, and the plugin asks the daemon for the subnet of the lease. However the
starts and the invocations end, every container in the datastore has an address
in the range of the lease that the VTEP shows. So containers on cells with
different leases have different addresses.
-/

namespace Silk.Cni

open GoJson GoNet Resumption
open Controller (HttpRequest HttpReply Lease)
open Daemon (TransportError Host HostCall HostAnswer HostChoice Running Presents Encodes Granted
  Faithful)
open Datastore (Containers Disk FileAnswer FileCall Represents)
open Fallible (Only Triple)

inductive CellCall where
  | host (q : HostCall)
  | plugin (c : Call)
  | http (port : ℤ) (req : HttpRequest)
  | listen (port : ℤ) (handler : HttpRequest → HttpReply)
  | exit (port : ℤ)

abbrev CellReply : CellCall → Type
  | .host q => Except String (HostAnswer q)
  | .plugin c => Except GoString (Answer c)
  | .http _ _ => Except TransportError HttpReply
  | .listen _ _ | .exit _ => Unit

abbrev CellProgram : Type → Type := Program CellCall CellReply

def loopback (port : ℤ) :
    Embedding HttpRequest (fun _ => Except TransportError HttpReply) CellCall CellReply :=
  ⟨.http port, fun _ r => r⟩

def files : Embedding FileCall (fun c => Except GoString (FileAnswer c)) CellCall CellReply :=
  ⟨fun c => .plugin (.file c), fun _ r => r⟩

def serveCall (jsonError : GoString → DecodeError → String) :
    (c : Call) → CellProgram (Except GoString (Answer c))
  | .daemonInfo port => do
    let res ← (daemonGet jsonError).run.embed (loopback port)
    return discovered res
  | c => .call (.plugin c) .done

def counted : Except Datastore.Failure Datastore.Pool → Except String ℕ
  | .ok pool => .ok pool.contents.entries.length
  | .error (.error err) | .error (.panic err) => .error (ofUTF8 err)

/-- The calls of the daemon: the datastore is the one of the plugin. -/
def serveHost (float64 : Number → Option Number) :
    (q : HostCall) → CellProgram (Except String (HostAnswer q))
  | .readAll _ => do
    let res ← (Datastore.readAll float64).run.embed files
    return counted res
  | q => .call (.host q) .done

def healthCheckPort (cfg : Daemon.Config) : ℤ := cfg.healthCheckPort.toNat

/-- The end of `mainWithError`: the health check server is started. It is built earlier, which
makes no difference, as that does not fail. -/
def listen (cfg : Daemon.Config) : Except String Running → CellProgram (Except String Unit)
  | .error err => return .error err
  | .ok running =>
    match buildHealthCheckServer running.networkInfo with
    | .error err => return .error ("create health check server: " ++ err)
    | .ok handler => .call (.listen (healthCheckPort cfg) handler) fun _ => .done (.ok ())

/-- A daemon is started when the one before it has ended. -/
def boot (float64 : Number → Option Number) (cfg : Daemon.Config) :
    CellProgram (Except String Unit) :=
  .call (.exit (healthCheckPort cfg)) fun _ =>
    (Daemon.start cfg).run.through (serveHost float64) >>= listen cfg

/-- The links of the cell, the file of the datastore, the servers on the loopback address and what
the IPAM plugin was last asked for. -/
structure Cell where
  host : Host
  disk : Disk
  server : ℤ → HttpRequest → Except TransportError HttpReply
  asked : Option IPAMConfig

structure CellChoice where
  host : HostChoice
  lost : Option TransportError
  refusal : TransportError
  assign : IPAMConfig → Except GoString (List IP)
  replies : Replies

def cellExec (ch : CellChoice) (s : Cell) : (c : CellCall) → CellReply c × Cell
  | .host q => ((Host.exec ch.host s.host q).1, { s with host := (Host.exec ch.host s.host q).2 })
  | .http port req => (ch.lost.elim (s.server port req) .error, s)
  | .listen port handler =>
    ((), { s with server := Function.update s.server port fun req => .ok (handler req) })
  | .exit port =>
    ((), { s with server := Function.update s.server port fun _ => .error ch.refusal })
  | .plugin (.file c) =>
    ((Disk.exec none s.disk c).1, { s with disk := (Disk.exec none s.disk c).2 })
  | .plugin (.delegateAdd ipam) => (ch.replies (.delegateAdd ipam), { s with asked := some ipam })
  | .plugin .newResultFromResult => (s.asked.elim (.error []) ch.assign, s)
  | .plugin c => (ch.replies c, s)

/-- The IPAM plugin assigns addresses of the subnet in its configuration, and the controller grants
leases that suit the cell. -/
structure CellChoice.Fair (cfg : Daemon.Config) (ch : CellChoice) : Prop where
  assigns : ∀ ipam ips, ch.assign ipam = .ok ips → ∀ ip ∈ ips, ipam.subnet.contains ip = true
  answers : HostChoice.Answers (Granted cfg) cfg ch.host

inductive Task where
  | boot
  | invoke (inv : Invocation)

inductive Outcome where
  | daemon (res : Except String Unit)
  | plugin (res : Except CmdError Unit)

/-- Between two tasks other links may change, and servers may disappear. -/
def cell (jsonError : GoString → DecodeError → String) (float64 : Number → Option Number)
    (cfg : Daemon.Config) : Machine CellCall CellReply Outcome Task Cell CellChoice where
  exec := cellExec
  allowed := CellChoice.Fair cfg
  drift s t := t.host.link cfg.vtepName = s.host.link cfg.vtepName ∧ t.disk = s.disk ∧
    ∀ port req reply, t.server port req = .ok reply → s.server port req = .ok reply
  body
    | .boot => boot float64 cfg >>= fun res => .done (.daemon res)
    | .invoke inv => (inv.command float64).run.through (serveCall jsonError) >>= fun res =>
        .done (.plugin res)
  accepts _ _ := True

def Invocation.args : Invocation → CmdArgs
  | .add args | .del args => args

/-- The network configuration names the port of the daemon and no file, and the handle is valid. -/
def AsksDaemon (cfg : Daemon.Config) (_ : List (Event Outcome Task Cell)) :
    Event Outcome Task Cell → Prop
  | .served (.invoke inv) _ => ValidUTF8 (base inv.netns) ∧
      ∀ netConf, inv.args.stdin = .ok netConf →
        netConf.subnetFile = [] ∧ netConf.daemonPort = healthCheckPort cfg
  | _ => True

def Housed (cfg : Daemon.Config) (h : Host) (c : Datastore.Container) : Prop :=
  ∃ lease ip, Presents cfg lease h ∧ c.ip = ascii (ipString ip) ∧ covers lease.overlaySubnet ip

structure Sound (float64 : Number → Option Number) (cfg : Daemon.Config) (s : Cell) : Prop where
  encodes : Encodes (Granted cfg) cfg s.host
  announced : ∀ req reply, s.server (healthCheckPort cfg) req = .ok reply → ∃ lease mtu handler,
    Presents cfg lease s.host ∧ buildHealthCheckServer ⟨lease.overlaySubnet, mtu⟩ = .ok handler ∧
      reply = handler req
  recorded : ∃ m, Represents float64 s.disk m ∧ ∀ handle c, m handle = some c → Housed cfg s.host c

theorem presents_congr {cfg : Daemon.Config} {lease : Lease} {h h' : Host}
    (hlink : h'.link cfg.vtepName = h.link cfg.vtepName) (hp : Presents cfg lease h) :
    Presents cfg lease h' := by
  obtain ⟨hw, addr, ⟨l, hl, hshown⟩, hlease⟩ := hp
  exact ⟨hw, addr, ⟨l, hlink.trans hl, hshown⟩, hlease⟩

theorem Housed.congr {cfg : Daemon.Config} {h h' : Host} {c : Datastore.Container}
    (hlink : h'.link cfg.vtepName = h.link cfg.vtepName) (hc : Housed cfg h c) :
    Housed cfg h' c := by
  obtain ⟨lease, ip, hp, hip, hcovers⟩ := hc
  exact ⟨lease, ip, presents_congr hlink hp, hip, hcovers⟩

variable {jsonError : GoString → DecodeError → String} {float64 : Number → Option Number}
  {cfg : Daemon.Config}

theorem Sound.drift {s t : Cell} (hs : Sound float64 cfg s)
    (h : (cell jsonError float64 cfg).drift s t) : Sound float64 cfg t := by
  obtain ⟨hlink, hdisk, hserver⟩ := h
  obtain ⟨m, hm, hhoused⟩ := hs.recorded
  refine ⟨fun lease hp => hs.encodes lease (presents_congr hlink.symm hp),
    fun req reply hreply => ?_, m, hdisk ▸ hm, fun handle c hc => (hhoused handle c hc).congr hlink⟩
  obtain ⟨lease, mtu, handler, hp, hhandler⟩ := hs.announced req reply (hserver _ _ _ hreply)
  exact ⟨lease, mtu, handler, presents_congr hlink hp, hhandler⟩

def pluginExec (jsonError : GoString → DecodeError → String) (ch : CellChoice) (s : Cell) :
    (c : Call) → Except GoString (Answer c) × Cell
  | .daemonInfo port =>
    (discovered (fetched jsonError (ch.lost.elim (s.server port ⟨.GET, "/", []⟩) .error)), s)
  | c => cellExec ch s (.plugin c)

theorem serveCall_daemonInfo (port : ℤ) :
    serveCall jsonError (.daemonInfo port) =
      .call (.http port ⟨.GET, "/", []⟩)
        fun resp => .done (discovered (fetched jsonError resp)) := by
  refine congrArg (Program.call (CellCall.http port ⟨.GET, "/", []⟩)) (funext fun resp => ?_)
  cases resp with
  | error err => rfl
  | ok reply => rfl

theorem runs_serveCall {allowed : CellChoice → Prop} {c : Call} {s t : Cell}
    {r : Except GoString (Answer c)} (h : (serveCall jsonError c).Runs cellExec allowed s r t) :
    ∃ ch, allowed ch ∧ pluginExec jsonError ch s c = (r, t) := by
  cases c with
  | daemonInfo port =>
    rw [serveCall_daemonInfo] at h
    obtain ⟨ch, hch, rfl, rfl⟩ := h
    exact ⟨ch, hch, rfl⟩
  | _ =>
    obtain ⟨ch, hch, rfl, rfl⟩ := h
    exact ⟨ch, hch, rfl⟩

def Call.silent : Call → Bool
  | .file _ | .delegateAdd _ => false
  | _ => true

theorem pluginExec_silent {c : Call} (hc : c.silent = true) (ch : CellChoice) (s : Cell) :
    (pluginExec jsonError ch s c).2 = s := by
  cases c with
  | file _ | delegateAdd _ => cases hc
  | _ => rfl

theorem keeps_silent {ε α : Type} {p : CniProgram ε α} {P : Cell → Prop}
    {allowed : CellChoice → Prop} (hp : Only (fun c => c.silent = true) p) :
    Triple (pluginExec jsonError) allowed P p (fun _ => P) fun _ => P :=
  hp.keeps fun ch s _ _ hc hs => (pluginExec_silent hc ch s).symm ▸ hs

theorem silent_inNamespace {α : Type} (ns : Namespace) (p : NetProgram α) :
    Only (fun c => c.silent = true) (inNamespace ns p) :=
  .bind (.request (by exact rfl) _) fun _ => .embed (.of_forall (fun _ => rfl) _)

theorem silent_create (args : CmdArgs) (ips : List IP) (mtu : ℤ) :
    Only (fun c => c.silent = true) (create args ips mtu) := by
  rw [create]
  split_ifs
  · exact .lift _ _
  · exact .lift _ _
  · exact .bind (.request (by exact rfl) _) fun _ => .lift _ _

theorem runs_on_disk {α : Type} {allowed : CellChoice → Prop}
    {exec : CellChoice → Cell → (c : FileCall) → Except GoString (FileAnswer c) × Cell}
    (hexec : ∀ ch s c, exec ch s c =
      ((Disk.exec none s.disk c).1, { s with disk := (Disk.exec none s.disk c).2 }))
    {p : Program FileCall (fun c => Except GoString (FileAnswer c)) α} {s t : Cell} {a : α}
    (hr : p.Runs exec allowed s a t) :
    p.Runs Disk.exec (fun ch => ch = none) s.disk a t.disk ∧ t = { s with disk := t.disk } := by
  induction p generalizing s with
  | done b =>
    obtain ⟨rfl, rfl⟩ := hr
    exact ⟨⟨rfl, rfl⟩, rfl⟩
  | call c next ih =>
    obtain ⟨ch, hch, hnext⟩ := hr
    rw [hexec] at hnext
    obtain ⟨hrun, ht⟩ := ih _ hnext
    exact ⟨⟨none, rfl, hrun⟩, ht⟩

def Settled (float64 : Number → Option Number) (cfg : Daemon.Config) (h : Host) (s : Cell) : Prop :=
  Sound float64 cfg s ∧ s.host = h

section Invocations

variable {h : Host}

theorem settled_record {req : Datastore.Request} (hplain : req.Plain)
    (hnew : ∀ m : Containers, (∀ handle c, m handle = some c → Housed cfg h c) →
      ∀ handle c, req.apply m handle = some c → Housed cfg h c) :
    Triple (pluginExec jsonError) (CellChoice.Fair cfg) (Settled float64 cfg h) (record float64 req)
      (fun _ => Settled float64 cfg h) fun _ => Settled float64 cfg h := by
  rintro s res t ⟨hs, rfl⟩ hr
  obtain ⟨m, hm, hhoused⟩ := hs.recorded
  obtain ⟨hdisk, ht⟩ := runs_on_disk (fun _ _ _ => rfl) (Program.runs_embed.mp hr)
  have hrep := (Datastore.runs_represents hplain hm hdisk).1
  rw [Fallible.ends_const, ht]
  exact ⟨⟨hs.encodes, hs.announced, _, hrep, hnew m hhoused⟩, rfl⟩

theorem settled_getNetworkInfo {netConf : NetConf} (hfile : netConf.subnetFile = [])
    (hport : netConf.daemonPort = healthCheckPort cfg) :
    Triple (pluginExec jsonError) (CellChoice.Fair cfg) (Settled float64 cfg h)
      (getNetworkInfo netConf) (fun info s => Settled float64 cfg h s ∧ ∃ lease, Granted cfg lease ∧
        Presents cfg lease h ∧ info.overlaySubnet = utf8 lease.overlaySubnet)
      fun _ => Settled float64 cfg h := by
  have hinfo : Triple (pluginExec jsonError) (CellChoice.Fair cfg) (Settled float64 cfg h)
      (getNetInfo netConf) (fun info s => Settled float64 cfg h s ∧ ∃ lease, Granted cfg lease ∧
        Presents cfg lease h ∧ info.overlaySubnet = utf8 lease.overlaySubnet)
      fun _ => Settled float64 cfg h := by
    rw [getNetInfo, if_neg (not_not_intro hfile), hport]
    refine .request (fun s ch info t _ hs hexec => ?_) fun s ch e t _ hs hexec => ?_
    · obtain ⟨hres, rfl⟩ := Prod.mk.inj hexec
      obtain ⟨hsound, rfl⟩ := hs
      refine ⟨⟨hsound, rfl⟩, ?_⟩
      obtain ⟨reply, hreply, hread⟩ := discovered_announced hres
      cases hlost : ch.lost with
      | some err =>
        rw [hlost] at hreply
        cases hreply
      | none =>
        rw [hlost] at hreply
        obtain ⟨lease, mtu, handler, hp, hhandler, heq⟩ := hsound.announced _ _ hreply
        exact ⟨lease, hsound.encodes lease hp, hp, hread _ handler _ hhandler heq⟩
    · obtain ⟨-, rfl⟩ := Prod.mk.inj hexec
      exact hs
  rw [getNetworkInfo]
  split_ifs
  · exact .throw fun _ hs => hs
  · refine Triple.bind (Triple.wrap hinfo) fun info => .pure fun s hs => ?_
    split_ifs
    · exact hs
    · exact hs

theorem settled_prepare {args : CmdArgs} {netConf : NetConf} (hfile : netConf.subnetFile = [])
    (hport : netConf.daemonPort = healthCheckPort cfg) :
    Triple (pluginExec jsonError) (CellChoice.Fair cfg) (Settled float64 cfg h)
      (prepare args netConf)
      (fun config s => Settled float64 cfg h s ∧ ∃ lease a, Presents cfg lease h ∧
        to4 config.container.address.ip = some a ∧
          covers lease.overlaySubnet config.container.address.ip)
      fun _ => Settled float64 cfg h := by
  refine Triple.bind (Triple.wrap (settled_getNetworkInfo hfile hport)) fun info =>
    Triple.assuming fun hinfo => ?_
  obtain ⟨lease, ⟨-, n, m, ⟨-, hm, hsubnet, -⟩, -⟩, hp, hinfo⟩ := hinfo
  refine Triple.bind (Q := fun ipam s => Settled float64 cfg h s ∧
    ∀ x, ipam.subnet.contains x = true → covers lease.overlaySubnet x) (.lift _ fun s hs => ?_)
      fun ipam => Triple.assuming fun hipam => ?_
  · rw [hinfo, hsubnet]
    cases hgen : generateConfig (utf8 (cidrText (addrBytes n) m)) netConf.name netConf.dataDir with
    | error err => exact hs
    | ok ipam => exact ⟨hs, fun x hx => generateConfig_covers hm hgen hx⟩
  have hasked : ∀ s : Cell, Settled float64 cfg h s →
      Settled float64 cfg h { s with asked := some ipam } :=
    fun s hs => ⟨⟨hs.1.encodes, hs.1.announced, hs.1.recorded⟩, hs.2⟩
  refine Triple.bind (Q := fun _ s => Settled float64 cfg h s ∧ s.asked = some ipam)
    (.request (fun s ch a t _ hs hexec => ?_) fun s ch e t _ hs hexec => ?_) fun _ => ?_
  · obtain ⟨-, rfl⟩ := Prod.mk.inj hexec
    exact ⟨hasked s hs, rfl⟩
  · obtain ⟨-, rfl⟩ := Prod.mk.inj hexec
    exact hasked s hs
  refine Triple.bind (Q := fun ips s => Settled float64 cfg h s ∧
    ∀ ip ∈ ips, covers lease.overlaySubnet ip) (.request (fun s ch ips t hch hs hexec => ?_)
      fun s ch e t _ hs hexec => ?_) fun ips => Triple.assuming fun hips => ?_
  · obtain ⟨hres, rfl⟩ := Prod.mk.inj hexec
    rw [hs.2] at hres
    exact ⟨hs.1, fun ip hip => hipam ip (hch.assigns ipam ips hres ip hip)⟩
  · obtain ⟨-, rfl⟩ := Prod.mk.inj hexec
    exact hs.1
  refine Triple.wrap (((keeps_silent (silent_create args ips info.mtu)).and
    (triple_create args ips info.mtu)).post (fun config s hs => ⟨hs.1, ?_⟩) fun _ _ hx => hx.1)
  obtain ⟨ip, hip, hconfig⟩ := hs.2
  obtain ⟨a, ha⟩ := configFor_address hconfig
  refine ⟨lease, a, hp, ha, ?_⟩
  rw [(configFor_ok hconfig).2.2.2]
  exact hips ip (List.mem_of_head? hip)

theorem settled_cmdAdd {args : CmdArgs} (hhandle : ValidUTF8 (base args.netns))
    (hargs : ∀ netConf, args.stdin = .ok netConf →
      netConf.subnetFile = [] ∧ netConf.daemonPort = healthCheckPort cfg) :
    Triple (pluginExec jsonError) (CellChoice.Fair cfg) (Settled float64 cfg h)
      (cmdAdd float64 args) (fun _ => Settled float64 cfg h) fun _ => Settled float64 cfg h := by
  refine Triple.bind (Q := fun netConf s => Settled float64 cfg h s ∧ args.stdin = .ok netConf)
    (.lift _ fun s hs => ?_) fun netConf => Triple.assuming fun hstdin => ?_
  · cases hstdin : args.stdin with
    | error err => exact hs
    | ok netConf => exact ⟨hs, rfl⟩
  obtain ⟨hfile, hport⟩ := hargs netConf hstdin
  refine Triple.bind (settled_prepare hfile hport) fun config => Triple.assuming fun hconfig => ?_
  obtain ⟨lease, a, hp, ha, hcovers⟩ := hconfig
  refine Triple.bind (keeps_silent ((silent_inNamespace _ _).wrap _)) fun _ => ?_
  refine Triple.bind (keeps_silent ((silent_inNamespace _ _).wrap _)) fun _ => ?_
  refine Triple.bind (keeps_silent ((silent_inNamespace _ _).wrap _)) fun _ => ?_
  refine Triple.bind (Triple.wrap (settled_record
    ⟨hhandle, validUTF8_ipString ha, fun _ h => by cases h⟩
      fun m hhoused handle c hc => ?_)) fun _ => keeps_silent (.request (by exact rfl) _)
  rw [Datastore.Request.apply] at hc
  split_ifs at hc
  · rw [Datastore.Request.effect, Function.update_apply] at hc
    split_ifs at hc
    · cases hc
      exact ⟨lease, _, hp, rfl, hcovers⟩
    · exact hhoused handle c hc
  · exact hhoused handle c hc

theorem settled_cmdDel {args : CmdArgs} (hhandle : ValidUTF8 (base args.netns)) :
    Triple (pluginExec jsonError) (CellChoice.Fair cfg) (Settled float64 cfg h)
      (cmdDel float64 args) (fun _ => Settled float64 cfg h) fun _ => Settled float64 cfg h := by
  have hdelete : Triple (pluginExec jsonError) (CellChoice.Fair cfg) (Settled float64 cfg h)
      (record float64 (.delete (base args.netns))) (fun _ => Settled float64 cfg h)
      fun _ => Settled float64 cfg h := by
    refine settled_record hhandle fun m hhoused handle c hc => ?_
    rw [Datastore.Request.apply] at hc
    split_ifs at hc
    · rw [Datastore.Request.effect, Function.update_apply] at hc
      split_ifs at hc
      exact hhoused handle c hc
    · exact hhoused handle c hc
  refine Triple.bind (keeps_silent (.lift _ _)) fun netConf => ?_
  refine Triple.bind (keeps_silent (Only.attempt (.request (by exact rfl) _))) fun _ => ?_
  refine Triple.bind (keeps_silent (Only.attempt (.request (by exact rfl) _))) fun containerNS => ?_
  cases containerNS with
  | error err => exact .pure fun _ hs => hs
  | ok _ =>
    refine Triple.bind (keeps_silent ((silent_inNamespace _ _).wrap _)) fun _ => ?_
    exact Triple.bind (.attempt (Q := fun _ => Settled float64 cfg h) hdelete) fun _ =>
      .pure fun _ hs => hs

end Invocations

theorem sound_invoke {inv : Invocation} (hhandle : ValidUTF8 (base inv.netns))
    (hargs : ∀ netConf, inv.args.stdin = .ok netConf →
      netConf.subnetFile = [] ∧ netConf.daemonPort = healthCheckPort cfg)
    {s t : Cell} {res : Except CmdError Unit} (hs : Sound float64 cfg s)
    (hr : ((inv.command float64).run.through (serveCall jsonError)).Runs cellExec
      (CellChoice.Fair cfg) s res t) : Sound float64 cfg t := by
  have hview : ∀ c s r t, True → (serveCall jsonError c).Runs cellExec (CellChoice.Fair cfg) s r t →
      True ∧ ∃ ch, CellChoice.Fair cfg ch ∧ pluginExec jsonError ch (id s) c = (r, id t) :=
    fun _ _ _ _ _ hr => ⟨trivial, runs_serveCall hr⟩
  have hruns :
      (inv.command float64).run.Runs (pluginExec jsonError) (CellChoice.Fair cfg) s res t :=
    (Program.Runs.abstract hview trivial hr).2
  have hend : Triple (pluginExec jsonError) (CellChoice.Fair cfg) (Settled float64 cfg s.host)
      (inv.command float64) (fun _ => Settled float64 cfg s.host)
      fun _ => Settled float64 cfg s.host := by
    cases inv with
    | add args => exact settled_cmdAdd hhandle hargs
    | del args => exact settled_cmdDel hhandle
  exact (Fallible.ends_const.mp (hend s res t ⟨hs, rfl⟩ hruns)).1

def reading (containers : ℕ) : HostChoice where
  fault
    | .readAll _ => none
    | _ => some ⟨false, ""⟩
  lease := ⟨"", "", ""⟩
  containers := containers
  index := 0
  mtu := 0

theorem reading_answers (containers : ℕ) : (reading containers).Answers (Granted cfg) cfg := by
  intro hfault
  rw [Daemon.Config.acquireCall] at hfault
  split_ifs at hfault
  · cases hfault
  · cases hfault

def Counts (cfg : Daemon.Config) (m : Containers) (ch : HostChoice) : Prop :=
  ch.Answers (Granted cfg) cfg ∧ ((∃ handle c, m handle = some c) → ch.containers ≠ 0)

theorem runs_serveHost {q : HostCall} {m : Containers} {s t : Cell}
    {r : Except String (HostAnswer q)} (hm : Represents float64 s.disk m)
    (hr : (serveHost float64 q).Runs cellExec (CellChoice.Fair cfg) s r t) :
    (Represents float64 t.disk m ∧ t.server = s.server) ∧
      ∃ ch, Counts cfg m ch ∧ Host.exec ch s.host q = (r, t.host) := by
  cases q with
  | readAll path =>
    obtain ⟨res, u, hread, rfl, rfl⟩ := Program.runs_bind.mp hr
    obtain ⟨hdisk, ht⟩ := runs_on_disk (fun _ _ _ => rfl) (Program.runs_embed.mp hread)
    have hserve : (Datastore.serve float64 .readAll).run.Runs Disk.exec (fun ch => ch = none) s.disk
        (res.map .all) t.disk := by
      rw [Datastore.serve, Fallible.run_map]
      exact Program.runs_bind.mpr ⟨res, _, hdisk, rfl, rfl⟩
    obtain ⟨hrep, hanswers⟩ := Datastore.runs_represents
      (show Datastore.Request.Plain .readAll from trivial) hm hserve
    obtain ⟨sm, hres, hget⟩ := hanswers rfl
    have hpool : res = .ok (some sm) := by
      cases res with
      | error e => cases hres
      | ok pool =>
        cases hres
        rfl
    rw [hpool, ht]
    refine ⟨⟨hrep, rfl⟩, reading sm.entries.length, ⟨reading_answers _, ?_⟩, rfl⟩
    rintro ⟨handle, c, hc⟩ hzero
    rw [← hget handle, SortedMap.get, List.eq_nil_of_length_eq_zero hzero] at hc
    cases hc
  | _ =>
    obtain ⟨ch, hch, rfl, rfl⟩ := hr
    exact ⟨⟨hm, rfl⟩, { ch.host with containers := 1 },
      ⟨hch.answers, fun _ => Nat.one_ne_zero⟩, rfl⟩

theorem runs_start {m : Containers} {s t : Cell} {res : Except String Running}
    (hm : Represents float64 s.disk m)
    (hr : ((Daemon.start cfg).run.through (serveHost float64)).Runs cellExec (CellChoice.Fair cfg)
      s res t) :
    (Represents float64 t.disk m ∧ t.server = s.server) ∧
      (Daemon.start cfg).run.Runs Host.exec (Counts cfg m) s.host res t.host := by
  have hview : ∀ q u r v, Represents float64 u.disk m ∧ u.server = s.server →
      (serveHost float64 q).Runs cellExec (CellChoice.Fair cfg) u r v →
      (Represents float64 v.disk m ∧ v.server = s.server) ∧
        ∃ ch, Counts cfg m ch ∧ Host.exec ch u.host q = (r, v.host) := by
    intro q u r v hu hrun
    obtain ⟨⟨hv, hserver⟩, hch⟩ := runs_serveHost hu.1 hrun
    exact ⟨⟨hv, hserver.trans hu.2⟩, hch⟩
  exact Program.Runs.abstract hview ⟨hm, rfl⟩ hr

def Announces (cfg : Daemon.Config) (h : Host) (running : Running) : Prop :=
  ∃ mtu, Presents cfg running.lease h ∧ running.networkInfo = ⟨running.lease.overlaySubnet, mtu⟩

theorem start_inhabited {m : Containers} {handle : GoString} {c : Datastore.Container}
    (hc : m handle = some c) {h h' : Host} (hhoused : Housed cfg h c) {res : Except String Running}
    (hrun : (Daemon.start cfg).run.Runs Host.exec (Counts cfg m) h res h') :
    h'.link cfg.vtepName = h.link cfg.vtepName := by
  obtain ⟨-, -, ⟨-, -, ⟨l, hl, -⟩, -⟩, -⟩ := hhoused
  have hend := Daemon.start_occupied (fun ch hch => hch.2 ⟨handle, c, hc⟩) h res h' hl hrun
  cases res with
  | error e => exact Eq.trans hend hl.symm
  | ok running => exact hend.1.trans hl.symm

theorem start_encodes (hfaithful : Faithful cfg) {m : Containers} {h h' : Host}
    (hencodes : Encodes (Granted cfg) cfg h) {res : Except String Running}
    (hrun : (Daemon.start cfg).run.Runs Host.exec (Counts cfg m) h res h') :
    Encodes (Granted cfg) cfg h' ∧ ∀ running, res = .ok running → Announces cfg h' running := by
  have hend := Daemon.encodes_start (P := Granted cfg) hfaithful (fun _ hl => hl) h res h' hencodes
    (hrun.mono fun ch hch => hch.1)
  cases res with
  | error e =>
    refine ⟨hend, fun running hok => ?_⟩
    cases hok
  | ok running =>
    refine ⟨hend.2.presents.encodes hend.1, fun running hok => ?_⟩
    cases hok
    obtain ⟨l, -, -, hinfo⟩ := hend.2.vtep
    exact ⟨l.mtu, hend.2.presents, hinfo⟩

theorem sound_start (hfaithful : Faithful cfg) {s t : Cell} {res : Except String Running}
    (hs : Sound float64 cfg s)
    (hdown : ∀ req reply, s.server (healthCheckPort cfg) req ≠ .ok reply)
    (hr : ((Daemon.start cfg).run.through (serveHost float64)).Runs cellExec (CellChoice.Fair cfg)
      s res t) :
    Sound float64 cfg t ∧ ∀ running, res = .ok running → Announces cfg t.host running := by
  obtain ⟨m, hm, hhoused⟩ := hs.recorded
  obtain ⟨⟨hm', hserver⟩, hrun⟩ := runs_start hm hr
  obtain ⟨hencodes, hrunning⟩ := start_encodes hfaithful hs.encodes hrun
  refine ⟨⟨hencodes, fun req reply hreply => ?_, m, hm', fun handle c hc => ?_⟩, hrunning⟩
  · rw [hserver] at hreply
    exact absurd hreply (hdown req reply)
  · exact (hhoused handle c hc).congr (start_inhabited hc (hhoused handle c hc) hrun)

theorem sound_boot (hfaithful : Faithful cfg) {s t : Cell} {res : Except String Unit}
    (hs : Sound float64 cfg s)
    (hr : (boot float64 cfg).Runs cellExec (CellChoice.Fair cfg) s res t) :
    Sound float64 cfg t := by
  obtain ⟨ch, hch, hr⟩ := hr
  obtain ⟨started, u, hstart, hlisten⟩ := Program.runs_bind.mp hr
  have hdown : ∀ req reply, (cellExec ch s (.exit (healthCheckPort cfg))).2.server
      (healthCheckPort cfg) req ≠ .ok reply := by
    have hexit : (cellExec ch s (.exit (healthCheckPort cfg))).2.server (healthCheckPort cfg) =
        fun _ => .error ch.refusal := Function.update_self _ _ _
    intro req reply hreply
    rw [hexit] at hreply
    cases hreply
  have hexited : Sound float64 cfg (cellExec ch s (.exit (healthCheckPort cfg))).2 :=
    ⟨hs.encodes, fun req reply hreply => absurd hreply (hdown req reply), hs.recorded⟩
  obtain ⟨hu, hready⟩ := sound_start hfaithful hexited hdown hstart
  cases started with
  | error err =>
    obtain ⟨-, rfl⟩ := hlisten
    exact hu
  | ok running =>
    rw [listen] at hlisten
    cases hserver : buildHealthCheckServer running.networkInfo with
    | error err =>
      rw [hserver] at hlisten
      obtain ⟨-, rfl⟩ := hlisten
      exact hu
    | ok handler =>
      rw [hserver] at hlisten
      obtain ⟨ch', -, -, rfl⟩ := hlisten
      obtain ⟨mtu, hp, hinfo⟩ := hready running rfl
      have hlistens : (cellExec ch' u (.listen (healthCheckPort cfg) handler)).2.server
          (healthCheckPort cfg) = fun req => .ok (handler req) := Function.update_self _ _ _
      refine ⟨hu.encodes, fun req reply hreply => ?_, hu.recorded⟩
      rw [hlistens] at hreply
      cases hreply
      exact ⟨running.lease, mtu, handler, hp, hinfo ▸ hserver, rfl⟩

theorem trace_sound (hfaithful : Faithful cfg) {s t : Cell} {es : List (Event Outcome Task Cell)}
    (hs : Sound float64 cfg s)
    (ht : Trace (cell jsonError float64 cfg) (AsksDaemon cfg) s es t) : Sound float64 cfg t := by
  refine ht.invariant (fun _ _ _ _ hs hdrift => hs.drift hdrift)
    (fun _ task _ s t hcond hs hrun => ?_) hs
  cases task with
  | boot =>
    obtain ⟨res, u, hboot, -, rfl⟩ := Program.runs_bind.mp hrun
    exact sound_boot hfaithful hs hboot
  | invoke inv =>
    obtain ⟨res, u, hinvoke, -, rfl⟩ := Program.runs_bind.mp hrun
    exact sound_invoke hcond.1 hcond.2 hs hinvoke

structure NewCell (cfg : Daemon.Config) (s : Cell) : Prop where
  encodes : Encodes (Granted cfg) cfg s.host
  disk : s.disk = missingFile
  down : ∀ req reply, s.server (healthCheckPort cfg) req ≠ .ok reply

theorem NewCell.sound {s : Cell} (hs : NewCell cfg s) : Sound float64 cfg s := by
  have hempty : Represents float64 s.disk fun _ => none := by
    rw [hs.disk]
    exact Datastore.represents_empty
  refine ⟨hs.encodes, fun req reply hreply => absurd hreply (hs.down req reply), _, hempty,
    fun handle c hc => ?_⟩
  cases hc

theorem to4_of_covers {lease : Lease} (hl : Granted cfg lease) {ip : IP}
    (hip : covers lease.overlaySubnet ip) : ∃ y, to4 ip = some y := by
  obtain ⟨-, n, m, ⟨hn, hm, hsubnet, -⟩, -⟩ := hl
  rw [hsubnet] at hip
  obtain ⟨y, hy, -⟩ := (covers_cidrText hn hm ip).mp hip
  exact ⟨y, hy⟩

theorem text_ipString {ip y : IP} (h : to4 ip = some y) :
    text (ascii (ipString ip)) = ipString ip := by
  refine text_ascii fun c hc => ?_
  rw [ipString_of_to4 h, String.toList_ofList] at hc
  exact toNat_lt_of_mem_dotted hc

def emptyCell (h : Host) : Cell :=
  ⟨h, missingFile, fun _ _ => .error (.clientDo "connect: connection refused"), none⟩

theorem newCell_emptyCell {h : Host} (hnone : h.link cfg.vtepName = none) :
    NewCell cfg (emptyCell h) where
  encodes := Daemon.encodes_of_unaddressed fun l hl => by
    rw [emptyCell, hnone] at hl
    cases hl
  disk := rfl
  down := fun req reply h => by cases h

def repliesFor (ip : IP) : Replies
  | .net .host (.linkByName name) => .ok ⟨name, 1, [0xaa, 0xaa] ++ ip⟩
  | .net .container (.linkByName name) => .ok ⟨name, 2, [0xee, 0xee] ++ ip⟩
  | c => .ok (sampleAnswer c)

def assigning (lease : Lease) (ip : IP) : CellChoice where
  host := Daemon.quietChoice lease
  lost := none
  refusal := .clientDo "connect: connection refused"
  assign ipam :=
    if ipam.subnet.contains ip then .ok [ip] else .error (ascii "no IP addresses available")
  replies := repliesFor ip

theorem fair_assigning {lease : Lease} (hl : Granted cfg lease) (ip : IP) :
    (assigning lease ip).Fair cfg := by
  refine ⟨fun ipam ips h ip' hip' => ?_, fun _ => hl⟩
  dsimp only [assigning] at h
  split_ifs at h with hin
  cases h
  rw [List.mem_singleton.mp hip']
  exact hin

abbrev sampleMachine (cfg : Daemon.Config) :
    Machine CellCall CellReply Outcome Task Cell CellChoice :=
  cell (fun _ _ => "") some cfg

def addedOn (cfg : Daemon.Config) (h : Host) (lease : Lease) (ip : IP) : Cell :=
  (((sampleMachine cfg).body (.invoke (.add sampleArgs))).runWith cellExec (assigning lease ip)
    (((sampleMachine cfg).body .boot).runWith cellExec (assigning lease ip) (emptyCell h)).2).2

theorem trace_addedOn {lease : Lease} (hl : Granted cfg lease) (hport : healthCheckPort cfg = 23954)
    (h : Host) (ip : IP) :
    ∃ es, Trace (sampleMachine cfg) (AsksDaemon cfg) (emptyCell h) es (addedOn cfg h lease ip) := by
  have hfair : (sampleMachine cfg).allowed (assigning lease ip) := fair_assigning hl ip
  refine ⟨_, ((Trace.nil _).served (Program.runs_runWith hfair ((sampleMachine cfg).body .boot) _)
    trivial).served (Program.runs_runWith hfair
      ((sampleMachine cfg).body (.invoke (.add sampleArgs))) _) ⟨by decide, fun netConf h => ?_⟩⟩
  cases h
  exact ⟨rfl, hport.symm⟩

def entry (d : Disk) : Option Datastore.Container :=
  (Datastore.loaded some d.bytes none).toOption.join.bind (·.get (base sampleArgs.netns))

theorem entry_eq {d : Disk} {m : Containers} (hm : Represents some d m) :
    m (base sampleArgs.netns) = entry d := by
  obtain ⟨sm, hsm, -, hget⟩ := hm
  rw [entry, hsm]
  exact (hget _).symm

/-- However the starts of daemons and the invocations of the plugin end: every container in the
datastore has an address in the range of the lease that the VTEP shows, which is a granted one. -/
theorem containers_in_lease (jsonError : GoString → DecodeError → String)
    (float64 : Number → Option Number) {cfg : Daemon.Config} (hfaithful : Faithful cfg) {s t : Cell}
    (hs : NewCell cfg s) {es : List (Event Outcome Task Cell)}
    (ht : Trace (cell jsonError float64 cfg) (AsksDaemon cfg) s es t) :
    ∃ m, Represents float64 t.disk m ∧ ∀ handle c, m handle = some c → ∃ lease ip,
      Presents cfg lease t.host ∧ Granted cfg lease ∧ c.ip = ascii (ipString ip) ∧
        covers lease.overlaySubnet ip := by
  have hsound := trace_sound hfaithful hs.sound ht
  obtain ⟨m, hm, hhoused⟩ := hsound.recorded
  refine ⟨m, hm, fun handle c hc => ?_⟩
  obtain ⟨lease, ip, hp, hip, hcovers⟩ := hhoused handle c hc
  exact ⟨lease, ip, hp, hsound.encodes lease hp, hip, hcovers⟩

theorem containers_in_lease_sample : ∃ es t m c,
    Trace (sampleMachine (Daemon.sampleConfig false)) (AsksDaemon (Daemon.sampleConfig false))
      (emptyCell Daemon.sampleHost) es t ∧
    Represents some t.disk m ∧ m (base sampleArgs.netns) = some c ∧ c.ip = ascii "10.255.30.5" ∧
    ∃ lease ip, Presents (Daemon.sampleConfig false) lease t.host ∧ c.ip = ascii (ipString ip) ∧
      covers lease.overlaySubnet ip := by
  obtain ⟨es, ht⟩ := trace_addedOn Daemon.sampleLease_granted rfl Daemon.sampleHost [10, 255, 30, 5]
  obtain ⟨m, hm, hall⟩ := containers_in_lease (fun _ _ => "") some (Or.inl rfl)
    (newCell_emptyCell rfl) ht
  have hip : (entry (addedOn (Daemon.sampleConfig false) Daemon.sampleHost Daemon.sampleLease
      [10, 255, 30, 5]).disk).map (·.ip) = some (ascii "10.255.30.5") := rfl
  obtain ⟨c, hc, hip⟩ := Option.map_eq_some_iff.mp hip
  obtain ⟨lease, ip, hp, -, hprinted, hcovers⟩ := hall _ c ((entry_eq hm).trans hc)
  exact ⟨es, _, m, c, ht, hm, (entry_eq hm).trans hc, hip, lease, ip, hp, hprinted, hcovers⟩

/-- Containers on two cells have different addresses when the leases that the VTEPs show have
nothing in common. -/
theorem containers_apart (jsonError : GoString → DecodeError → String)
    (float64 : Number → Option Number) {cfg cfg' : Daemon.Config} (hfaithful : Faithful cfg)
    (hfaithful' : Faithful cfg') {s s' t t' : Cell} (hs : NewCell cfg s) (hs' : NewCell cfg' s')
    {es es' : List (Event Outcome Task Cell)}
    (ht : Trace (cell jsonError float64 cfg) (AsksDaemon cfg) s es t)
    (ht' : Trace (cell jsonError float64 cfg') (AsksDaemon cfg') s' es' t')
    {lease lease' : Lease} (hp : Presents cfg lease t.host) (hp' : Presents cfg' lease' t'.host)
    (hdisjoint : rangesDisjoint lease.overlaySubnet lease'.overlaySubnet) :
    ∃ m m', Represents float64 t.disk m ∧ Represents float64 t'.disk m' ∧
      ∀ handle c handle' c', m handle = some c → m' handle' = some c' → c.ip ≠ c'.ip := by
  have hsound := trace_sound hfaithful hs.sound ht
  have hsound' := trace_sound hfaithful' hs'.sound ht'
  obtain ⟨m, hm, hhoused⟩ := hsound.recorded
  obtain ⟨m', hm', hhoused'⟩ := hsound'.recorded
  refine ⟨m, m', hm, hm', fun handle c handle' c' hc hc' heq => ?_⟩
  obtain ⟨l, ip, hl, hip, hcovers⟩ := hhoused handle c hc
  obtain ⟨l', ip', hl', hip', hcovers'⟩ := hhoused' handle' c' hc'
  rw [hp.unique hl] at hcovers
  rw [hp'.unique hl'] at hcovers'
  obtain ⟨y, hy⟩ := to4_of_covers (hsound.encodes lease hp) hcovers
  obtain ⟨y', hy'⟩ := to4_of_covers (hsound'.encodes lease' hp') hcovers'
  -- The datastore holds the texts of the addresses, which determine them up to the form of IPv4.
  have hprinted : ipString ip = ipString ip' := by
    rw [← text_ipString hy, ← text_ipString hy', ← hip, ← hip', heq]
  have hto4 : to4 ip = some y' := to4_of_ipString_eq hy' hprinted
  obtain ⟨_, net, hparse, hcontains⟩ := hcovers
  exact hdisjoint ip'
    ⟨⟨_, net, hparse, (contains_congr hto4 hy' net).symm.trans hcontains⟩, hcovers'⟩

def otherConfig : Daemon.Config :=
  { Daemon.sampleConfig false with underlayIP := "10.0.0.6", subnetPrefixLength := 25 }

def otherHost : Host :=
  ⟨[⟨"eth0", 2, [2, 0, 0, 0, 0, 6], 1500, true, [⟨[10, 0, 0, 6], [255, 255, 255, 0]⟩]⟩], by decide⟩

def otherLease : Lease := ⟨"10.0.0.6", "10.255.31.0/25", "ee:ee:0a:ff:1f:00"⟩

theorem otherLease_granted : Granted otherConfig otherLease :=
  ⟨rfl, 0x0aff1f00, 25, ⟨by decide, by decide, rfl, rfl⟩, rfl⟩

theorem rangesDisjoint_otherLease :
    rangesDisjoint Daemon.sampleLease.overlaySubnet otherLease.overlaySubnet := by
  rintro x ⟨hx, hx'⟩
  have hsub : Daemon.sampleLease.overlaySubnet = cidrText (addrBytes 0x0aff1e00) 24 := rfl
  have hsub' : otherLease.overlaySubnet = cidrText (addrBytes 0x0aff1f00) 25 := rfl
  rw [hsub, covers_cidrText (by decide) (by decide)] at hx
  rw [hsub', covers_cidrText (by decide) (by decide)] at hx'
  obtain ⟨y, hy, hval⟩ := hx
  obtain ⟨y', hy', hval'⟩ := hx'
  rw [hy] at hy'
  cases hy'
  omega

theorem containers_apart_sample : ∃ es es' t t' m m' c c',
    Trace (sampleMachine (Daemon.sampleConfig false)) (AsksDaemon (Daemon.sampleConfig false))
      (emptyCell Daemon.sampleHost) es t ∧
    Trace (sampleMachine otherConfig) (AsksDaemon otherConfig) (emptyCell otherHost) es' t' ∧
    Represents some t.disk m ∧ Represents some t'.disk m' ∧
    m (base sampleArgs.netns) = some c ∧ m' (base sampleArgs.netns) = some c' ∧ c.ip ≠ c'.ip := by
  obtain ⟨es, ht⟩ := trace_addedOn Daemon.sampleLease_granted rfl Daemon.sampleHost [10, 255, 30, 5]
  obtain ⟨es', ht'⟩ := trace_addedOn otherLease_granted rfl otherHost [10, 255, 31, 5]
  have hp : Presents (Daemon.sampleConfig false) Daemon.sampleLease (addedOn
      (Daemon.sampleConfig false) Daemon.sampleHost Daemon.sampleLease [10, 255, 30, 5]).host :=
    ⟨_, _, ⟨_, rfl, rfl, rfl⟩, rfl⟩
  have hp' : Presents otherConfig otherLease
      (addedOn otherConfig otherHost otherLease [10, 255, 31, 5]).host :=
    ⟨_, _, ⟨_, rfl, rfl, rfl⟩, rfl⟩
  obtain ⟨m, m', hm, hm', hne⟩ := containers_apart (fun _ _ => "") some (Or.inl rfl) (Or.inl rfl)
    (newCell_emptyCell rfl) (newCell_emptyCell rfl) ht ht' hp hp' rangesDisjoint_otherLease
  have hentry : (entry (addedOn (Daemon.sampleConfig false) Daemon.sampleHost Daemon.sampleLease
      [10, 255, 30, 5]).disk).isSome = true := rfl
  have hentry' : (entry (addedOn otherConfig otherHost otherLease
      [10, 255, 31, 5]).disk).isSome = true := rfl
  obtain ⟨c, hc⟩ := Option.isSome_iff_exists.mp hentry
  obtain ⟨c', hc'⟩ := Option.isSome_iff_exists.mp hentry'
  have hmc := (entry_eq hm).trans hc
  have hmc' := (entry_eq hm').trans hc'
  exact ⟨es, es', _, _, m, m', c, c', ht, ht', hm, hm', hmc, hmc', hne _ c _ c' hmc hmc'⟩

end Silk.Cni
