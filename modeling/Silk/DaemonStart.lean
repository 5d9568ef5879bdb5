import Silk.DaemonVtep
import Silk.ResumptionSequential

/-!
# Starting the daemon

A start looks for a lease on the VTEP. If there is none it acquires one and
creates the VTEP; otherwise it checks and renews the lease, and replaces lease
and VTEP if that fails and no container is left. It ends with an error or with
what the poller needs. Setting up logging, TLS, metrics and the servers is left
out: these steps touch neither the links nor the lease.
-/

namespace Silk.Daemon

open GoNet Resumption Keyed
open Controller (Lease)
open Fallible (Triple Reads)

structure NetworkInfo where
  overlaySubnet : String
  mtu : ℤ

structure Running where
  lease : Lease
  overlayNetwork : IPNet
  localSubnet : IPNet
  localVTEP : Interface
  networkInfo : NetworkInfo

def requestLease (cfg : Config) : Boot Lease :=
  if cfg.singleIPOnly then
    ask (.acquireSingleOverlayIPLease cfg.underlayIP) "acquire subnet lease: "
  else ask (.acquireSubnetLease cfg.underlayIP) "acquire subnet lease: "

def acquireLease (cfg : Config) : Boot Lease := do
  let lease ← requestLease cfg
  if cfg.healthCheckPort = 0 then
    throw ("invalid health check port: " ++ toString cfg.healthCheckPort)
  else do
    let vtepConf ← within "create vtep config: " (create cfg lease)
    within "create vtep: " (createVTEP vtepConf)
    pure lease

def deleteAndAcquire (cfg : Config) : Boot Lease := do
  within "delete vtep: " (deleteVTEP cfg.vtepName)
  acquireLease cfg

/-- The two branches of `mainWithError` that give up a lease; only their message differs. -/
def replaceLease (cfg : Config) (refusal : String) : Boot Lease := do
  let containers : ℕ ← ask (.readAll cfg.datastore) "read datastore: "
  if containers ≠ 0 then throw (refusal ++ toString containers)
  else deleteAndAcquire cfg

def checkLease (cfg : Config) (overlayNetwork : IPNet) (lease : Lease) : Boot Lease := do
  let subnet ← parsed "parse local subnet CIDR: " (parseCIDR lease.overlaySubnet)
  if overlayNetwork.contains subnet.2.ip then pure lease
  else replaceLease cfg "discovered lease is not in overlay network and has containers: "

def renewLease (cfg : Config) (lease : Lease) : Boot Lease := do
  let renewed ← Fallible.attempt (ask (.renewSubnetLease lease) "")
  match renewed with
  | .ok _ => pure lease
  | .error _ => replaceLease cfg "renew subnet lease with containers: "

def establishLease (cfg : Config) (overlayNetwork : IPNet) : Boot Lease := do
  let discovered ← Fallible.attempt (discoverLocalLease cfg)
  match discovered with
  | .error _ => acquireLease cfg
  | .ok lease => do
    let lease ← checkLease cfg overlayNetwork lease
    renewLease cfg lease

def getNetworkInfo (cfg : Config) (lease : Lease) : Boot NetworkInfo := do
  let state ← within "get vtep mtu: " (getVTEPState cfg.vtepName)
  pure ⟨lease.overlaySubnet, state.2.2⟩

/-- `mainWithError` from the parsed configuration to the start of the poller. -/
def start (cfg : Config) : Boot Running := do
  let overlayNetwork ← parsed "parse overlay network CIDR: " (parseCIDR cfg.overlayNetwork)
  let lease ← establishLease cfg overlayNetwork.2
  let networkInfo ← within "get network info: " (getNetworkInfo cfg lease)
  let localSubnet ← parsed "parse local subnet CIDR: " (parseCIDR lease.overlaySubnet)
  let vxlanIface ← ask (.interfaceByName cfg.vtepName) "find local VTEP: "
  pure ⟨lease, overlayNetwork.2, localSubnet.2, vxlanIface, networkInfo⟩

def HostCall.isRead : HostCall → Bool
  | .linkAdd _ | .linkSetUp _ | .addrAddScopeLink _ _ | .linkDel _ => false
  | _ => true

theorem respond_isRead {q : HostCall} (hq : q.isRead = true) (ch : HostChoice) (h : Host) :
    (Host.respond ch h q).2 = h := by
  cases q with
  | linkByName name =>
    rw [Host.respond]
    cases h.link name <;> rfl
  | addrList name =>
    rw [Host.respond]
    cases h.link name <;> rfl
  | interfaceAddrs iface =>
    rw [Host.respond]
    cases h.link iface.name <;> rfl
  | interfaceByName name =>
    rw [Host.respond]
    cases h.link name <;> rfl
  | linkAdd _ | linkSetUp _ | addrAddScopeLink _ _ | linkDel _ => cases hq
  | interfaces | acquireSubnetLease _ | acquireSingleOverlayIPLease _ | renewSubnetLease _
  | readAll _ => rfl

theorem reads_ask (q : HostCall) (hq : q.isRead = true) (context : String) :
    Reads Host.exec (ask q context) := by
  refine Reads.request fun ch h => ?_
  rw [Host.exec]
  cases ch.fault q with
  | none => exact respond_isRead hq ch h
  | some f =>
    dsimp only
    split_ifs with happlied
    · exact respond_isRead hq ch h
    · rfl

theorem reads_getVTEPState (name : String) : Reads Host.exec (getVTEPState name) := by
  refine (reads_ask (.linkByName name) rfl _).bind fun link =>
    (reads_ask (.addrList name) rfl _).bind fun addrs => ?_
  cases addrs with
  | nil => exact .lift _
  | cons addr rest => exact .lift _

theorem reads_discoverLocalLease (cfg : Config) : Reads Host.exec (discoverLocalLease cfg) :=
  (Reads.wrap _ (reads_getVTEPState _)).bind fun _ => .lift _

theorem reads_getNetworkInfo (cfg : Config) (lease : Lease) :
    Reads Host.exec (getNetworkInfo cfg lease) :=
  (Reads.wrap _ (reads_getVTEPState _)).bind fun _ => .lift _

theorem reads_scanInterfaces (toFind : IP) (ifaces : List Interface) :
    Reads Host.exec (scanInterfaces toFind ifaces) := by
  induction ifaces with
  | nil => exact .lift _
  | cons iface rest ih =>
    refine (reads_ask (.interfaceAddrs iface) rfl _).bind fun addrs =>
      (Reads.lift _).bind fun found => ?_
    cases found with
    | true => exact .lift _
    | false => exact ih

theorem reads_underlayInterface (cfg : Config) (underlayIP : IP) :
    Reads Host.exec (underlayInterface cfg underlayIP) := by
  rw [underlayInterface]
  split_ifs
  · exact reads_ask (.interfaceByName _) rfl _
  · exact .wrap _ ((reads_ask .interfaces rfl _).bind fun ifaces => reads_scanInterfaces _ ifaces)

theorem reads_create (cfg : Config) (lease : Lease) : Reads Host.exec (create cfg lease) := by
  rw [create]
  split_ifs
  · exact .lift _
  · exact .lift _
  cases parseIP cfg.underlayIP with
  | none => exact .lift _
  | some underlayIP =>
    refine (reads_underlayInterface cfg underlayIP).bind fun iface => (Reads.lift _).bind fun _ =>
      (Reads.lift _).bind fun _ => (Reads.lift _).bind fun network => ?_
    dsimp only
    split_ifs
    · exact .lift _
    · exact .lift _

theorem triple_create_reads {allowed : HostChoice → Prop} {P : Host → Prop} (cfg : Config)
    (lease : Lease) :
    Triple Host.exec allowed P (create cfg lease) (fun v h => Describes cfg lease v ∧ P h)
      fun _ => P := by
  have hdesc : Triple Host.exec allowed P (create cfg lease) (fun v _ => Describes cfg lease v)
      fun _ _ => True :=
    (triple_create cfg lease).mono (fun _ _ => trivial) (fun _ _ hq => hq) fun _ _ hx => hx
  exact (hdesc.and (reads_create cfg lease allowed P)).onError fun _ _ hx => hx.2

theorem reads_requestLease (cfg : Config) : Reads Host.exec (requestLease cfg) := by
  rw [requestLease]
  split_ifs
  · exact reads_ask (.acquireSingleOverlayIPLease _) rfl _
  · exact reads_ask (.acquireSubnetLease _) rfl _

end Silk.Daemon
