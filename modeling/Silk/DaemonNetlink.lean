import Silk.GoNetParse
import Silk.KeyedTable

/-!
# Routes and neighbours in the kernel

The tables of the kernel as the converger sees them through the netlink adapter.
On a link, routes are keyed by their destination, ARP entries by their address
and FDB entries by their hardware address. Addresses that print alike are the
same key: the printed form is common to the four-byte and the sixteen-byte form
of an IPv4 address. A failing call may or may not have taken effect. That
deleting an FDB entry under another address fails is an assumption of the model.
-/

namespace Silk.Daemon

open GoNet Keyed

structure Route where
  linkIndex : ℤ
  scope : ℕ
  dst : Option IPNet
  gw : IP
  src : IP
deriving DecidableEq

structure Neigh where
  linkIndex : ℤ
  family : ℤ
  state : ℤ
  type : ℤ
  flags : ℤ
  ip : IP
  hardwareAddr : HardwareAddr
deriving DecidableEq

def SCOPE_UNIVERSE : ℕ := 0
def NUD_PERMANENT : ℤ := 0x80
def RTN_UNICAST : ℤ := 1
def AF_BRIDGE : ℤ := 7
def NTF_SELF : ℤ := 2

def Neigh.string (n : Neigh) : String := ipString n.ip ++ " " ++ hardwareAddrString n.hardwareAddr

def Route.key (r : Route) : ℤ × String := (r.linkIndex, netString r.dst)

inductive NeighKey where
  | arp (linkIndex : ℤ) (ip : String)
  | fdb (linkIndex : ℤ) (hardwareAddr : String)
deriving DecidableEq

def Neigh.key (n : Neigh) : NeighKey :=
  if n.family = AF_BRIDGE then .fdb n.linkIndex (hardwareAddrString n.hardwareAddr)
  else .arp n.linkIndex (ipString n.ip)

structure Kernel where
  routes : Table Route.key
  neighs : Table Neigh.key

inductive NetlinkCall where
  | linkByIndex (index : ℤ)
  | routeList (link : ℤ)
  | fdbList (linkIndex : ℤ)
  | arpList (linkIndex : ℤ)
  | routeReplace (route : Route)
  | routeDel (route : Route)
  | neighSet (neigh : Neigh)
  | neighDel (neigh : Neigh)

def Answer : NetlinkCall → Type
  | .linkByIndex _ => ℤ
  | .routeList _ => List Route
  | .fdbList _ | .arpList _ => List Neigh
  | .routeReplace _ | .routeDel _ | .neighSet _ | .neighDel _ => Unit

namespace Kernel

def routeList (k : Kernel) (link : ℤ) : List Route := k.routes.entries.filter (·.linkIndex = link)

def fdbList (k : Kernel) (linkIndex : ℤ) : List Neigh :=
  k.neighs.entries.filter fun n => n.linkIndex = linkIndex ∧ n.family = AF_BRIDGE

def arpList (k : Kernel) (linkIndex : ℤ) : List Neigh :=
  k.neighs.entries.filter fun n => n.linkIndex = linkIndex ∧ n.family ≠ AF_BRIDGE

def routeAgrees (r s : Route) : Bool := ipString r.gw = ipString s.gw

/-- An FDB entry is deleted only together with its address, an ARP entry by its key alone. -/
def neighAgrees (n m : Neigh) : Bool := m.family ≠ AF_BRIDGE || ipString n.ip = ipString m.ip

def respond (k : Kernel) : (q : NetlinkCall) → Except String (Answer q) × Kernel
  | .linkByIndex index => (.ok index, k)
  | .routeList link => (.ok (k.routeList link), k)
  | .fdbList linkIndex => (.ok (k.fdbList linkIndex), k)
  | .arpList linkIndex => (.ok (k.arpList linkIndex), k)
  | .routeReplace route => (.ok (), { k with routes := k.routes.set route })
  | .routeDel route =>
    match k.routes.remove routeAgrees route with
    | some routes => (.ok (), { k with routes := routes })
    | none => (.error "no such process", k)
  | .neighSet neigh => (.ok (), { k with neighs := k.neighs.set neigh })
  | .neighDel neigh =>
    match k.neighs.remove neighAgrees neigh with
    | some neighs => (.ok (), { k with neighs := neighs })
    | none => (.error "no such file or directory", k)

structure Fault where
  applied : Bool
  text : String

def exec (fault : Option Fault) (k : Kernel) (q : NetlinkCall) :
    Except String (Answer q) × Kernel :=
  match fault with
  | none => respond k q
  | some f => (.error f.text, if f.applied then (respond k q).2 else k)

/-- The only failure is the deletion of an entry that is not there. -/
def faultless (fault : Option Fault) : Prop := fault = none

theorem exec_faultless (fault : Option Fault) (k : Kernel) (q : NetlinkCall)
    (h : faultless fault) : exec fault k q = exec none k q := by
  rw [h]

theorem exec_eq_or_error (fault : Option Fault) (k : Kernel) (q : NetlinkCall) :
    exec fault k q = exec none k q ∨ ∃ e, (exec fault k q).1 = .error e := by
  cases fault with
  | none => exact Or.inl rfl
  | some f => exact Or.inr ⟨f.text, rfl⟩

theorem exec_cases (fault : Option Fault) (k : Kernel) (q : NetlinkCall) :
    (exec fault k q).2 = k ∨ (exec fault k q).2 = (respond k q).2 := by
  cases fault with
  | none => exact Or.inr rfl
  | some f =>
    rw [exec]
    dsimp only
    split_ifs
    · exact Or.inr rfl
    · exact Or.inl rfl

end Kernel
end Silk.Daemon
