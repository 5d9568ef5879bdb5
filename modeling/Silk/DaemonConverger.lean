import Silk.ControllerTable
import Silk.DaemonNetlink
import Silk.ResumptionFallible

/-!
# The converger

`Converge` reads the routes and neighbours of the VTEP, installs a route, an ARP
entry and an FDB entry for every remote lease, and then deletes the entries it
read that equal none of the installed ones. Equality is by the printed fields.
The log message about non-routable leases is left out.
-/

namespace Silk.Daemon

open GoNet Resumption Keyed
open Controller (Lease)

inductive ConvergeError where
  | linkByIndex (err : String)
  | listRoutes (err : String)
  | listFDB (err : String)
  | listARP (err : String)
  | parseLease (err : String)
  | addRoute (err : String)
  | invalidUnderlayIP (text : String)
  | invalidHardwareAddr (text : String)
  | setNeigh (err : String)
  | delRoute (err : String)
  | delNeigh (neigh : String) (err : String)
deriving DecidableEq

def ConvergeError.text : ConvergeError → String
  | .linkByIndex err => "link by index: " ++ err
  | .listRoutes err => "list routes: " ++ err
  | .listFDB err => "list fdb: " ++ err
  | .listARP err => "list arp: " ++ err
  | .parseLease err => "parse lease: " ++ err
  | .addRoute err => "add route: " ++ err
  | .invalidUnderlayIP text => "invalid underlay ip: " ++ text
  | .invalidHardwareAddr text => "invalid hardware addr: " ++ text
  | .setNeigh err => "set neigh: " ++ err
  | .delRoute err => "del route: " ++ err
  | .delNeigh neigh err => "del neigh with ip/hwaddr " ++ neigh ++ ": " ++ err

abbrev Netlink : Type → Type := Fallible NetlinkCall Answer String ConvergeError

def netlink (q : NetlinkCall) (wrap : String → ConvergeError) : Netlink (Answer q) :=
  Fallible.request q wrap

def routeEqual (r₁ r₂ : Route) : Bool :=
  r₁.linkIndex = r₂.linkIndex && r₁.scope = r₂.scope && netString r₁.dst = netString r₂.dst &&
    ipString r₁.gw = ipString r₂.gw && ipString r₁.src = ipString r₂.src

def neighEqual (n₁ n₂ : Neigh) : Bool :=
  n₁.linkIndex = n₂.linkIndex && n₁.state = n₂.state && ipString n₁.ip = ipString n₂.ip &&
    hardwareAddrString n₁.hardwareAddr = hardwareAddrString n₂.hardwareAddr

def getDeletedRoutes (previous current : List Route) : List Route :=
  previous.filter fun p => current.all fun c => !routeEqual p c

def getDeletedNeighs (previous current : List Neigh) : List Neigh :=
  previous.filter fun p => current.all fun c => !neighEqual p c

structure Converger where
  overlayNetwork : IPNet
  localSubnet : IPNet
  localVTEP : ℤ

namespace Converger

def getPreviousState (c : Converger) : Netlink (List Route × List Neigh) := do
  let link : ℤ ← netlink (.linkByIndex c.localVTEP) .linkByIndex
  let previousRoutes : List Route ← netlink (.routeList link) .listRoutes
  let previousFDBNeighs : List Neigh ← netlink (.fdbList c.localVTEP) .listFDB
  let previousARPNeighs : List Neigh ← netlink (.arpList c.localVTEP) .listARP
  return (previousRoutes, previousARPNeighs ++ previousFDBNeighs)

def isLocal (c : Converger) (destNet : IPNet) : Bool :=
  netString (some destNet) = netString (some c.localSubnet)

def routeFor (c : Converger) (destNet : IPNet) (destAddr : IP) : Route where
  linkIndex := c.localVTEP
  scope := SCOPE_UNIVERSE
  dst := some destNet
  gw := destAddr
  src := c.localSubnet.ip

def arpFor (c : Converger) (destAddr : IP) (remoteMac : HardwareAddr) : Neigh where
  linkIndex := c.localVTEP
  family := 0
  state := NUD_PERMANENT
  type := RTN_UNICAST
  flags := 0
  ip := destAddr
  hardwareAddr := remoteMac

def fdbFor (c : Converger) (underlayIP : IP) (remoteMac : HardwareAddr) : Neigh where
  linkIndex := c.localVTEP
  family := AF_BRIDGE
  state := NUD_PERMANENT
  type := 0
  flags := NTF_SELF
  ip := underlayIP
  hardwareAddr := remoteMac

def addRoute (c : Converger) (destNet : IPNet) (destAddr : IP) : Netlink Route := do
  let _ ← netlink (.routeReplace (c.routeFor destNet destAddr)) .addRoute
  return c.routeFor destNet destAddr

def addNeighs (c : Converger) (underlayIP destAddr : IP) (remoteMac : HardwareAddr) :
    Netlink (List Neigh) := do
  let _ ← netlink (.neighSet (c.arpFor destAddr remoteMac)) .setNeigh
  let _ ← netlink (.neighSet (c.fdbFor underlayIP remoteMac)) .setNeigh
  return [c.arpFor destAddr remoteMac, c.fdbFor underlayIP remoteMac]

def installLease (c : Converger) (lease : Lease) : Netlink (List Route × List Neigh) :=
  match parseCIDR lease.overlaySubnet with
  | .error err => throw (.parseLease err)
  | .ok (destAddr, destNet) =>
    if c.isLocal destNet then return ([], [])
    else if !c.overlayNetwork.contains destNet.ip then return ([], [])
    else do
      let route ← c.addRoute destNet destAddr
      match parseIP lease.underlayIP with
      | none => throw (.invalidUnderlayIP lease.underlayIP)
      | some underlayIP =>
        match parseMAC lease.overlayHardwareAddr with
        | .error _ => throw (.invalidHardwareAddr lease.overlayHardwareAddr)
        | .ok remoteMac =>
          let neighs ← c.addNeighs underlayIP destAddr remoteMac
          return ([route], neighs)

def installLeases (c : Converger) : List Lease → Netlink (List Route × List Neigh)
  | [] => return ([], [])
  | lease :: leases => do
    let (routes, neighs) ← c.installLease lease
    let (routes', neighs') ← c.installLeases leases
    return (routes ++ routes', neighs ++ neighs')

def deleteRoutes (c : Converger) : List Route → Netlink Unit
  | [] => return ()
  | route :: routes =>
    if route.linkIndex = c.localVTEP ∧ c.overlayNetwork.contains route.gw then do
      let _ ← netlink (.routeDel route) .delRoute
      c.deleteRoutes routes
    else c.deleteRoutes routes

def deleteNeighs (c : Converger) : List Neigh → Netlink Unit
  | [] => return ()
  | neigh :: neighs =>
    if neigh.linkIndex = c.localVTEP then do
      let _ ← netlink (.neighDel neigh) (.delNeigh neigh.string)
      c.deleteNeighs neighs
    else c.deleteNeighs neighs

def converge (c : Converger) (leases : List Lease) : Netlink Unit := do
  let (previousRoutes, previousNeighs) ← c.getPreviousState
  let (currentRoutes, currentNeighs) ← c.installLeases leases
  c.deleteRoutes (getDeletedRoutes previousRoutes currentRoutes)
  c.deleteNeighs (getDeletedNeighs previousNeighs currentNeighs)

end Converger
end Silk.Daemon
