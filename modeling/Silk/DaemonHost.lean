import Silk.ControllerTable
import Silk.GoNetParse
import Silk.KeyedTable

/-!
# The host of a daemon

The client configuration, the network links of the host and the calls a starting
daemon makes: to netlink, to the `net` package, to the controller and to the
container datastore. A choice resolves each call: whether it fails, with or
without having taken effect, and what the controller and the datastore answer.
-/

namespace Silk.Daemon

open GoNet Keyed
open Controller (Lease)

structure Config where
  underlayIP : String
  vxlanInterfaceName : String
  subnetPrefixLength : ℤ
  overlayNetwork : String
  healthCheckPort : UInt16
  vtepName : String
  connectivityServerURL : String
  serverCACertFile : String
  clientCertFile : String
  clientKeyFile : String
  vni : ℤ
  vtepPort : ℤ
  pollInterval : ℤ
  debugServerPort : ℤ
  datastore : String
  partitionToleranceSeconds : ℤ
  clientTimeoutSeconds : ℤ
  metronPort : ℤ
  logPrefix : String
  logLevel : String
  singleIPOnly : Bool

/-- The `validate` tags of the configuration: `nonzero` or `min=1`. -/
def Config.checks (cfg : Config) : List (String × Bool) :=
  [("UnderlayIP", cfg.underlayIP ≠ ""), ("SubnetPrefixLength", cfg.subnetPrefixLength ≠ 0),
    ("OverlayNetwork", cfg.overlayNetwork ≠ ""), ("HealthCheckPort", cfg.healthCheckPort ≠ 0),
    ("VTEPName", cfg.vtepName ≠ ""), ("ConnectivityServerURL", cfg.connectivityServerURL ≠ ""),
    ("ServerCACertFile", cfg.serverCACertFile ≠ ""), ("ClientCertFile", cfg.clientCertFile ≠ ""),
    ("ClientKeyFile", cfg.clientKeyFile ≠ ""), ("VNI", cfg.vni ≠ 0), ("VTEPPort", 1 ≤ cfg.vtepPort),
    ("PollInterval", cfg.pollInterval ≠ 0), ("DebugServerPort", cfg.debugServerPort ≠ 0),
    ("Datastore", cfg.datastore ≠ ""),
    ("PartitionToleranceSeconds", cfg.partitionToleranceSeconds ≠ 0),
    ("ClientTimeoutSeconds", cfg.clientTimeoutSeconds ≠ 0), ("MetronPort", 1 ≤ cfg.metronPort),
    ("LogPrefix", cfg.logPrefix ≠ "")]

def Config.load (cfg : Config) : Except (List String) Config :=
  if cfg.checks.all Prod.snd then .ok cfg
  else .error ((cfg.checks.filter fun c => !c.2).map Prod.fst)

structure Interface where
  index : ℤ
  name : String
deriving DecidableEq

structure Vxlan where
  name : String
  hardwareAddr : HardwareAddr
  vxlanId : ℤ
  srcAddr : IP
  port : ℤ
  vtepDevIndex : ℤ
  gbp : Bool
deriving DecidableEq

structure Link where
  name : String
  index : ℤ
  hardwareAddr : HardwareAddr
  mtu : ℤ
  up : Bool
  addrs : List IPNet

abbrev Host : Type := Table Link.name

inductive HostCall where
  | linkByName (name : String)
  | addrList (link : String)
  | linkAdd (vxlan : Vxlan)
  | linkSetUp (link : String)
  | addrAddScopeLink (link : String) (addr : IPNet)
  | linkDel (link : String)
  | interfaces
  | interfaceAddrs (iface : Interface)
  | interfaceByName (name : String)
  | acquireSubnetLease (underlayIP : String)
  | acquireSingleOverlayIPLease (underlayIP : String)
  | renewSubnetLease (lease : Lease)
  | readAll (path : String)

/-- `LinkByName` answers the hardware address and the MTU, `ReadAll` the number of containers. -/
abbrev HostAnswer : HostCall → Type
  | .linkByName _ => HardwareAddr × ℤ
  | .addrList _ => List IPNet
  | .linkAdd _ | .linkSetUp _ | .addrAddScopeLink _ _ | .linkDel _ | .renewSubnetLease _ => Unit
  | .interfaces => List Interface
  | .interfaceAddrs _ => List String
  | .interfaceByName _ => Interface
  | .acquireSubnetLease _ | .acquireSingleOverlayIPLease _ => Lease
  | .readAll _ => ℕ

structure HostFault where
  applied : Bool
  text : String

structure HostChoice where
  fault : HostCall → Option HostFault
  lease : Lease
  containers : ℕ
  index : ℤ
  mtu : ℤ

namespace Host

def link (h : Host) (name : String) : Option Link := h.get name

def addrsV4 (l : Link) : List IPNet :=
  l.addrs.filterMap fun a => (to4 a.ip).map fun ip => ⟨ip, a.mask⟩

def linkNotFound : String := "Link not found"

def respond (ch : HostChoice) (h : Host) : (q : HostCall) → Except String (HostAnswer q) × Host
  | .linkByName name =>
    match h.link name with
    | some l => (.ok (l.hardwareAddr, l.mtu), h)
    | none => (.error linkNotFound, h)
  | .addrList name =>
    match h.link name with
    | some l => (.ok (addrsV4 l), h)
    | none => (.error "no such device", h)
  | .linkAdd vxlan =>
    match h.link vxlan.name with
    | some _ => (.error "file exists", h)
    | none => (.ok (), h.set ⟨vxlan.name, ch.index, vxlan.hardwareAddr, ch.mtu, false, []⟩)
  | .linkSetUp name =>
    match h.link name with
    | some l => (.ok (), h.set { l with up := true })
    | none => (.error "no such device", h)
  | .addrAddScopeLink name addr =>
    match h.link name with
    | some l =>
      if addr ∈ l.addrs then (.error "file exists", h)
      else (.ok (), h.set { l with addrs := l.addrs ++ [addr] })
    | none => (.error "no such device", h)
  | .linkDel name =>
    match h.link name with
    | some _ => (.ok (), h.erase name)
    | none => (.error "no such device", h)
  | .interfaces => (.ok (h.entries.map fun l => ⟨l.index, l.name⟩), h)
  | .interfaceAddrs iface =>
    match h.link iface.name with
    | some l => (.ok (l.addrs.map fun a => netString (some a)), h)
    | none => (.ok [], h)
  | .interfaceByName name =>
    match h.link name with
    | some l => (.ok ⟨l.index, l.name⟩, h)
    | none => (.error "route ip+net: no such network interface", h)
  | .acquireSubnetLease _ => (.ok ch.lease, h)
  | .acquireSingleOverlayIPLease _ => (.ok ch.lease, h)
  | .renewSubnetLease _ => (.ok (), h)
  | .readAll _ => (.ok ch.containers, h)

def exec (ch : HostChoice) (h : Host) (q : HostCall) : Except String (HostAnswer q) × Host :=
  match ch.fault q with
  | none => respond ch h q
  | some f => (.error f.text, if f.applied then (respond ch h q).2 else h)

end Host
end Silk.Daemon
