import Silk.LeaserCIDRPool
import Silk.ControllerDatabase
import Silk.ResumptionProgram

/-!
# The lease controller

The operations of `LeaseController` are programs over the statements of the
database handler, so one definition serves uninterrupted and interleaved
execution. A Go result pair `(lease, err)` is `Except Err (Option Lease)`: the
pair with both components nil is `.ok none`. The draws of `mathRand` are an
argument, one for each attempt. Logging is left out.
-/

namespace Silk.Leaser

open GoNet Controller Resumption

abbrev Prog (α : Type) : Type := Program Statement Reply α

/-! The interface `databaseHandler`, one call a statement. -/

namespace DatabaseHandler

def addEntry (lease : Lease) : Prog (Except Err Unit) := .call (.addEntry lease) .done

def deleteEntry (underlayIP : String) : Prog (Except Err Unit) :=
  .call (.deleteEntry underlayIP) .done

def leaseForUnderlayIP (underlayIP : String) : Prog (Except Err (Option Lease)) :=
  .call (.leaseForUnderlayIP underlayIP) .done

def lastRenewedAtForUnderlayIP (underlayIP : String) : Prog (Except Err ℤ) :=
  .call (.lastRenewedAtForUnderlayIP underlayIP) .done

def renewLeaseForUnderlayIP (underlayIP : String) : Prog (Except Err Unit) :=
  .call (.renewLeaseForUnderlayIP underlayIP) .done

def allBlockSubnets : Prog (Except Err (List Lease)) := .call .allBlockSubnets .done

def allSingleIPSubnets : Prog (Except Err (List Lease)) := .call .allSingleIPSubnets .done

def allActive (duration : ℤ) : Prog (Except Err (List Lease)) := .call (.allActive duration) .done

def oldestExpiredBlockSubnet (expirationTime : ℤ) : Prog (Except Err (Option Lease)) :=
  .call (.oldestExpiredBlockSubnet expirationTime) .done

def oldestExpiredSingleIP (expirationTime : ℤ) : Prog (Except Err (Option Lease)) :=
  .call (.oldestExpiredSingleIP expirationTime) .done

end DatabaseHandler

def generateHardwareAddr4 (ip : IP) (bytes : List UInt8) : Except String HardwareAddr :=
  if to4 ip = none then .error (ipString ip ++ " is not an IPv4 address")
  else if bytes.length ≠ 2 then
    .error ("Prefix length should be 2 bytes, but received " ++ toString bytes.length ++ " bytes")
  else .ok (bytes ++ ip.drop (ip.length - 4))

def generateForVTEP (containerIP : IP) : Except String HardwareAddr :=
  generateHardwareAddr4 containerIP [0xee, 0xee]

def validate (lease : Lease) : Except String Unit :=
  if parseIP lease.underlayIP = none then .error ("invalid underlay ip: " ++ lease.underlayIP)
  else match parseCIDR lease.overlaySubnet with
    | .error err => .error err
    | .ok _ =>
      match parseMAC lease.overlayHardwareAddr with
      | .error err => .error err
      | .ok _ => .ok ()

structure LeaseController where
  acquireSubnetLeaseAttempts : ℤ
  cidrPool : CIDRPool
  leaseExpirationSeconds : ℤ

inductive LeaseError where
  | nonRetriable (text : String)
  | other (text : String)
deriving DecidableEq, Repr

namespace LeaseController

def releaseSubnetLease (underlayIP : String) : Prog (Except Err Unit) := do
  match ← DatabaseHandler.deleteEntry underlayIP with
  | .error .recordNotAffected => return .ok ()
  | .error err => return .error (errorf "release lease" err)
  | .ok () => return .ok ()

/-- The shape shared by the two `tryAcquireAvailable` functions: take a free
subnet, or else reclaim the oldest expired one. -/
def tryAcquireAvailable (taken : Prog (Except Err (List Lease))) (available : List String → String)
    (oldest : Prog (Except Err (Option Lease))) (takenContext oldestContext : String) :
    Prog (Except Err String) := do
  match ← taken with
  | .error err => return .error (errorf takenContext err)
  | .ok leases =>
    let subnet := available (leases.map (·.overlaySubnet))
    if subnet ≠ "" then return .ok subnet
    else
      match ← oldest with
      | .error err => return .error (errorf oldestContext err)
      | .ok none => return .ok ""
      | .ok (some lease) =>
        match ← DatabaseHandler.deleteEntry lease.underlayIP with
        | .error err => return .error (errorf "delete expired subnet" err)
        | .ok () => return .ok lease.overlaySubnet

def tryAcquireAvailableSingleIPSubnet (c : LeaseController) (draw : Draw) :
    Prog (Except Err String) :=
  tryAcquireAvailable DatabaseHandler.allSingleIPSubnets (c.cidrPool.getAvailableSingleIP draw)
    (DatabaseHandler.oldestExpiredSingleIP c.leaseExpirationSeconds)
    "getting all single ip subnets" "get oldest expired single ip"

def tryAcquireAvailableBlockSubnet (c : LeaseController) (draw : Draw) :
    Prog (Except Err String) :=
  tryAcquireAvailable DatabaseHandler.allBlockSubnets (c.cidrPool.getAvailableBlock draw)
    (DatabaseHandler.oldestExpiredBlockSubnet c.leaseExpirationSeconds)
    "getting all subnets" "get oldest expired"

def vtepLease (underlayIP subnet : String) : Except Err Lease :=
  match parseCIDR subnet with
  | .error err => .error (errorf "parse subnet" (.message err))
  | .ok (vtepIP, _) =>
    match generateForVTEP vtepIP with
    | .error err => .error (errorf "generate hardware address" (.message err))
    | .ok hwAddr => .ok ⟨underlayIP, subnet, hardwareAddrString hwAddr⟩

def addLease (underlayIP subnet : String) : Prog (Except Err (Option Lease)) :=
  match vtepLease underlayIP subnet with
  | .error err => return .error err
  | .ok lease => do
    match ← DatabaseHandler.addEntry lease with
    | .error err => return .error (errorf "adding lease entry" err)
    | .ok () => return .ok (some lease)

def tryAcquireLease (c : LeaseController) (draw : Draw) (underlayIP : String)
    (singleOverlayIP : Bool) : Prog (Except Err (Option Lease)) := do
  match ← if singleOverlayIP then c.tryAcquireAvailableSingleIPSubnet draw
      else c.tryAcquireAvailableBlockSubnet draw with
  | .error err => return .error err
  | .ok subnet => if subnet = "" then return .ok none else addLease underlayIP subnet

/-- The retry loop; `result` is what the last attempt left in `lease, err`. -/
def attempts (c : LeaseController) (underlayIP : String) (singleOverlayIP : Bool) :
    ℕ → (ℕ → Draw) → Except Err (Option Lease) → Prog (Except Err (Option Lease))
  | 0, _, result => return result
  | n + 1, draws, _ => do
    match ← c.tryAcquireLease (draws 0) underlayIP singleOverlayIP with
    | .ok (some lease) => return .ok (some lease)
    | result => c.attempts underlayIP singleOverlayIP n (fun i => draws (i + 1)) result

def acquireSubnetLease (c : LeaseController) (draws : ℕ → Draw) (underlayIP : String)
    (singleOverlayIP : Bool) : Prog (Except Err (Option Lease)) :=
  if (parseIP underlayIP).bind to4 = none then
    return .error (.message ("invalid ipv4 address: " ++ underlayIP))
  else do
    let retry := c.attempts underlayIP singleOverlayIP c.acquireSubnetLeaseAttempts.toNat draws
      (.ok none)
    match ← DatabaseHandler.leaseForUnderlayIP underlayIP with
    | .error err => return .error (errorf "getting lease for underlay ip" err)
    | .ok none => retry
    | .ok (some lease) =>
      if c.cidrPool.isMember lease.overlaySubnet then return .ok (some lease)
      else
        match ← DatabaseHandler.deleteEntry underlayIP with
        | .error err => return .error (errorf ("deleting lease for underlay ip " ++ underlayIP) err)
        | .ok () => retry

def confirmRenewal (lease : Lease) : Prog (Except LeaseError Unit) := do
  match ← DatabaseHandler.renewLeaseForUnderlayIP lease.underlayIP with
  | .error err => return .error (.other (errorf "renewing lease for underlay ip" err).text)
  | .ok () =>
    match ← DatabaseHandler.lastRenewedAtForUnderlayIP lease.underlayIP with
    | .error err => return .error (.other (errorf "getting last renewed at" err).text)
    | .ok _ => return .ok ()

def renewSubnetLease (lease : Lease) : Prog (Except LeaseError Unit) :=
  match validate lease with
  | .error err => return .error (.nonRetriable err)
  | .ok () => do
    match ← DatabaseHandler.leaseForUnderlayIP lease.underlayIP with
    | .error err => return .error (.other (errorf "getting lease for underlay ip" err).text)
    | .ok none =>
      match ← DatabaseHandler.addEntry lease with
      | .error err => return .error (.nonRetriable err.text)
      | .ok () => confirmRenewal lease
    | .ok (some existingLease) =>
      if lease ≠ existingLease then return .error (.nonRetriable "lease mismatch")
      else confirmRenewal lease

def routableLeases (c : LeaseController) : Prog (Except Err (List Lease)) := do
  match ← DatabaseHandler.allActive c.leaseExpirationSeconds with
  | .error err => return .error (errorf "getting all leases" err)
  | .ok leases => return .ok leases

end LeaseController

inductive Request where
  | acquire (draws : ℕ → Draw) (underlayIP : String) (singleOverlayIP : Bool)
  | release (underlayIP : String)
  | renew (lease : Lease)

inductive Response where
  | acquired (result : Except Err (Option Lease))
  | released (result : Except Err Unit)
  | renewed (result : Except LeaseError Unit)

def serve (c : LeaseController) : Request → Prog Response
  | .acquire draws underlayIP singleOverlayIP =>
    return .acquired (← c.acquireSubnetLease draws underlayIP singleOverlayIP)
  | .release underlayIP => return .released (← LeaseController.releaseSubnetLease underlayIP)
  | .renew lease => return .renewed (← LeaseController.renewSubnetLease lease)

def Request.underlayIP : Request → String
  | .acquire _ underlayIP _ => underlayIP
  | .release underlayIP => underlayIP
  | .renew lease => lease.underlayIP

end Silk.Leaser
