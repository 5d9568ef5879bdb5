import Silk.DatastoreStore
import Silk.GoNetText

/-!
# Setting up a veth device

The netlink and sysctl calls of the CNI plugin, the operations on links built
from them, and `Common.BasicSetup`, which both ends of a veth pair go through.
An error of a call after the first lookup of the device can go unnoticed: the
lookup is discarded, and its missing link is dereferenced.
-/

namespace Silk.Cni

open GoJson GoNet Resumption
open Datastore (Failure context)

structure Link where
  name : GoString
  index : ℕ
  hardwareAddr : HardwareAddr

structure Veth where
  name : GoString
  mtu : ℤ
  hardwareAddr : HardwareAddr
  peerName : GoString
  peerHardwareAddr : HardwareAddr

structure Addr where
  ipNet : IPNet
  peer : Option IPNet

structure Route where
  dst : IPNet
  gw : IP

inductive NetCall where
  | linkByName (name : GoString)
  | linkAdd (veth : Veth)
  | linkSetNsFd (link : Link)
  | linkSetHardwareAddr (link : Link) (hardwareAddr : HardwareAddr)
  | linkSetARPOff (link : Link)
  | linkSetName (link : Link) (newName : GoString)
  | linkSetUp (link : Link)
  | linkDel (link : Link)
  | neighAddPermanentIPv4 (index : ℕ) (destIP : IP) (hardwareAddr : HardwareAddr)
  | parseAddr (text : String)
  | addrAddScopeLink (link : Link) (addr : Addr)
  | routeAdd (src : IP) (route : Route)
  | sysctl (name : GoString) (value : GoString)

abbrev NetAnswer : NetCall → Type
  | .linkByName _ => Link
  | .parseAddr _ => Addr
  | .linkAdd _ | .linkSetNsFd _ | .linkSetHardwareAddr _ _ | .linkSetARPOff _ | .linkSetName _ _
  | .linkSetUp _ | .linkDel _ | .neighAddPermanentIPv4 _ _ _ | .addrAddScopeLink _ _ | .routeAdd _ _
  | .sysctl _ _ => Unit

abbrev NetProgram : Type → Type := Fallible NetCall NetAnswer GoString Failure

abbrev NetHistory := List ((c : NetCall) × Except GoString (NetAnswer c))

def issue (c : NetCall) (err : GoString → Failure) : NetProgram (NetAnswer c) :=
  Fallible.request c err

def within (text : GoString) : Failure → Failure
  | .error err => .error (text ++ err)
  | .panic err => .panic err

def quoted (name : GoString) : GoString := [quote] ++ name ++ [quote]

namespace LinkOperations

def disableIPv6 (deviceName : GoString) : NetProgram Unit :=
  issue (.sysctl (ascii "net.ipv6.conf." ++ deviceName ++ ascii ".disable_ipv6") (ascii "1"))
    fun err => .error (ascii "sysctl for " ++ deviceName ++ ascii ": " ++ err)

def enableReversePathFiltering (deviceName : GoString) : NetProgram Unit :=
  issue (.sysctl (ascii "net.ipv4.conf." ++ deviceName ++ ascii ".rp_filter") (ascii "1"))
    fun err => .error (ascii "sysctl for " ++ deviceName ++ ascii ": " ++ err)

def enableIPv4Forwarding : NetProgram Unit :=
  issue (.sysctl (ascii "net.ipv4.ip_forward") (ascii "1")) (context "enabling IPv4 forwarding: ")

def staticNeighborNoARP (link : Link) (destIP : IP) (hwAddr : HardwareAddr) : NetProgram Unit := do
  issue (.linkSetARPOff link) (context "set ARP off: ")
  issue (.neighAddPermanentIPv4 link.index destIP hwAddr) (context "neigh add: ")

def singleAddress (ip : IP) : IPNet := ⟨ip, [255, 255, 255, 255]⟩

def setPointToPointAddress (link : Link) (localIPAddr peerIPAddr : IP) : NetProgram Unit := do
  let localAddr := netString (some (singleAddress localIPAddr))
  let addr ← issue (.parseAddr localAddr)
    (context ("parsing address " ++ localAddr ++ ": "))
  issue (.addrAddScopeLink link ⟨addr.ipNet, some (singleAddress peerIPAddr)⟩)
    (context ("adding IP address " ++ localAddr ++ ": "))

def renameLink (oldName newName : GoString) : NetProgram Unit := do
  let link ← issue (.linkByName oldName) fun err =>
    .error (ascii "failed to find link " ++ quoted oldName ++ ascii ": " ++ err)
  issue (.linkSetName link newName) (context "set link name: ")

/-- A link that is not found counts as deleted. -/
def deleteLinkByName (deviceName : GoString) : NetProgram Unit := do
  match ← Fallible.attempt (issue (.linkByName deviceName) .error) with
  | .error _ => pure ()
  | .ok link => issue (.linkDel link) .error

def routeAddAll (sourceIP : IP) : List Route → NetProgram Unit
  | [] => pure ()
  | r :: routes => do
    issue (.routeAdd sourceIP r) (context "adding route: ")
    routeAddAll sourceIP routes

end LinkOperations

structure DualAddress where
  hardware : HardwareAddr
  ip : IP

namespace Common

open LinkOperations

def maxAttempts : ℕ := 10

def nilDereference : GoString :=
  ascii "runtime error: invalid memory address or nil pointer dereference"

/-- The error of the lookup is discarded, and the attributes of the missing link are read. -/
def readHardwareAddr (deviceName : GoString) : NetProgram String := do
  let l ← issue (.linkByName deviceName) fun _ => .panic nilDereference
  pure (hardwareAddrString l.hardwareAddr)

def retry (deviceName : GoString) (link : Link) (hardware : HardwareAddr) :
    ℕ → String → NetProgram String
  | 0, got => pure got
  | i + 1, got =>
    if got = hardwareAddrString hardware then pure got
    else do
      issue (.linkSetHardwareAddr link hardware) (context "setting hardware address: ")
      let got ← readHardwareAddr deviceName
      retry deviceName link hardware i got

def configure (deviceName : GoString) (link : Link) (loc peer : DualAddress) : NetProgram Unit := do
  let _ ← Fallible.attempt (disableIPv6 deviceName)
  Fallible.wrap (within (ascii "replace ARP with permanent neighbor rule: "))
    (staticNeighborNoARP link peer.ip peer.hardware)
  Fallible.wrap (within (ascii "setting point to point address: "))
    (setPointToPointAddress link loc.ip peer.ip)
  Fallible.wrap (within (ascii "enable reverse path filtering: "))
    (enableReversePathFiltering deviceName)
  issue (.linkSetUp link) fun err =>
    .error (ascii "setting link " ++ deviceName ++ ascii " up: " ++ err)

def setUpLink (deviceName : GoString) (link : Link) (loc peer : DualAddress) : NetProgram Unit := do
  let got ← readHardwareAddr deviceName
  let got ← retry deviceName link loc.hardware maxAttempts got
  if got ≠ hardwareAddrString loc.hardware then
    throw (.error (ascii "failed to set hardware addr after 10 attempts"))
  else configure deviceName link loc peer

def basicSetup (deviceName : GoString) (loc peer : DualAddress) : NetProgram Unit := do
  let link ← issue (.linkByName deviceName) fun err =>
    .error (ascii "failed to find link " ++ quoted deviceName ++ ascii ": " ++ err)
  setUpLink deviceName link loc peer

end Common
end Silk.Cni
