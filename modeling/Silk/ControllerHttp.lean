import Silk.DaemonPlanner
import Silk.GoJsonRecord

/-!
# The HTTP interface of the controller

The messages between the client and the controller, the four handlers and the
router in front of them. A handler reads the body, which may fail, unmarshals a
request, runs one operation of the lease controller and turns its result into a
status and a body. The texts of the json package's errors are a parameter.
Logging and metrics are left out.
-/

namespace Silk.Controller

open GoJson Leaser
open Daemon (HttpResponse StatusOK StatusBadRequest StatusConflict StatusInternalServerError
  respondWithCode serveRenewLease)

def leaseRecord : Record Lease where
  fields := [.text "underlay_ip" (·.underlayIP) fun s l => { l with underlayIP := s },
    .text "overlay_subnet" (·.overlaySubnet) fun s l => { l with overlaySubnet := s },
    .text "overlay_hardware_addr" (·.overlayHardwareAddr) fun s l =>
      { l with overlayHardwareAddr := s }]
  zero := ⟨"", "", ""⟩

structure AcquireLeaseRequest where
  underlayIP : String
  singleOverlayIP : Bool

def acquireLeaseRequestRecord : Record AcquireLeaseRequest where
  fields := [.text "underlay_ip" (·.underlayIP) fun s r => { r with underlayIP := s },
    .flag "single_overlay_ip" (·.singleOverlayIP) fun b r => { r with singleOverlayIP := b }]
  zero := ⟨"", false⟩

structure ReleaseLeaseRequest where
  underlayIP : String

def releaseLeaseRequestRecord : Record ReleaseLeaseRequest where
  fields := [.text "underlay_ip" (·.underlayIP) fun s r => { r with underlayIP := s }]
  zero := ⟨""⟩

/-- The list of leases; the handler names it by a tag, the client by its Go name. -/
def leasesRecord (name : String) : Record (List Lease) where
  fields := [.slice name leaseRecord id fun ls _ => ls]
  zero := []

def errorRecord : Record String where
  fields := [.text "Error" id fun s _ => s]
  zero := ""

inductive Method where
  | GET
  | PUT
  | other (name : String)
deriving DecidableEq

structure HttpRequest where
  method : Method
  path : String
  body : GoString

structure HttpReply where
  statusCode : ℕ
  body : GoString

def sent (r : HttpResponse) : HttpReply := ⟨r.statusCode, utf8 r.body⟩

namespace Handlers

section

variable (jsonError : GoString → DecodeError → String)

def withPayload {α : Type} (r : Record α) (handle : α → Prog HttpReply) :
    Except String GoString → Prog HttpReply
  | .error err => return sent (respondWithCode StatusBadRequest ("read-body: " ++ err))
  | .ok bodyBytes =>
    match r.unmarshal bodyBytes with
    | .error err =>
      return sent (respondWithCode StatusBadRequest
        ("unmarshal-request: " ++ jsonError bodyBytes err))
    | .ok payload => handle payload

def marshalResponse {α : Type} (r : Record α) (x : α) : HttpReply :=
  match r.marshal x with
  | .error err =>
    sent (respondWithCode StatusInternalServerError ("marshal-response: " ++ ofUTF8 err))
  | .ok bytes => ⟨StatusOK, bytes⟩

end

def serveLeasesAcquire : Except Err (Option Lease) → HttpReply
  | .error err => sent (respondWithCode StatusInternalServerError err.text)
  | .ok none => sent (respondWithCode StatusConflict "no lease available")
  | .ok (some lease) => marshalResponse leaseRecord lease

def serveReleaseLease : Except Err Unit → HttpReply
  | .error err => sent (respondWithCode StatusInternalServerError err.text)
  | .ok () => sent ⟨StatusOK, "\x7b\x7d"⟩

def serveLeasesIndex : Except Err (List Lease) → HttpReply
  | .error err =>
    sent (respondWithCode StatusInternalServerError ("all-routable-leases: " ++ err.text))
  | .ok leases => marshalResponse (leasesRecord "leases") leases

section

variable (jsonError : GoString → DecodeError → String)

def leasesAcquire (c : LeaseController) (draws : ℕ → Draw) :
    Except String GoString → Prog HttpReply :=
  withPayload jsonError acquireLeaseRequestRecord fun payload => do
    let result ← c.acquireSubnetLease draws payload.underlayIP payload.singleOverlayIP
    return serveLeasesAcquire result

def releaseLease : Except String GoString → Prog HttpReply :=
  withPayload jsonError releaseLeaseRequestRecord fun payload => do
    let result ← LeaseController.releaseSubnetLease payload.underlayIP
    return serveReleaseLease result

def renewLease : Except String GoString → Prog HttpReply :=
  withPayload jsonError leaseRecord fun lease => do
    let result ← LeaseController.renewSubnetLease lease
    return sent (serveRenewLease (.ok result))

end

def leasesIndex (c : LeaseController) : Prog HttpReply := do
  let result ← c.routableLeases
  return serveLeasesIndex result

end Handlers

inductive Endpoint where
  | leasesIndex | leasesAcquire | leasesRelease | leasesRenew

def routes : List (Method × String × Endpoint) :=
  [(.GET, "/leases", .leasesIndex), (.PUT, "/leases/acquire", .leasesAcquire),
    (.PUT, "/leases/release", .leasesRelease), (.PUT, "/leases/renew", .leasesRenew)]

/-- The patterns have no captures and no slash at their end, so they match literally. -/
def endpoint (req : HttpRequest) : Except HttpResponse Endpoint :=
  match routes.find? fun r => r.1 = req.method ∧ r.2.1 = req.path with
  | some r => .ok r.2.2
  | none =>
    if routes.any fun r => r.2.1 = req.path then .error ⟨405, "Method Not Allowed\n"⟩
    else .error ⟨404, "404 page not found\n"⟩

def serveHTTP (jsonError : GoString → DecodeError → String) (c : LeaseController) (draws : ℕ → Draw)
    (req : HttpRequest) (body : Except String GoString) : Prog HttpReply :=
  match endpoint req with
  | .error resp => return sent resp
  | .ok .leasesIndex => Handlers.leasesIndex c
  | .ok .leasesAcquire => Handlers.leasesAcquire jsonError c draws body
  | .ok .leasesRelease => Handlers.releaseLease jsonError body
  | .ok .leasesRenew => Handlers.renewLease jsonError body

theorem leaseRecord_sends (l : Lease) : leaseRecord.Sends l := by
  constructor
  · simp only [leaseRecord, List.forall_mem_cons, Field.text, Value.Clean, validUTF8_utf8, and_true,
      List.not_mem_nil, false_implies, implies_true]
    decide
  · simp [leaseRecord, Field.text, Value.depth, maxNestingDepth]

theorem leaseRecord_reads (l : Lease) :
    (leaseRecord.members l).foldlM leaseRecord.setMember leaseRecord.zero = some l := by
  have hfold : (leaseRecord.members l).foldlM leaseRecord.setMember leaseRecord.zero =
      some ⟨ofUTF8 (utf8 l.underlayIP), ofUTF8 (utf8 l.overlaySubnet),
        ofUTF8 (utf8 l.overlayHardwareAddr)⟩ := rfl
  rw [hfold, ofUTF8_utf8, ofUTF8_utf8, ofUTF8_utf8]

theorem lease_roundTrip (l : Lease) :
    ∃ text, leaseRecord.marshal l = .ok text ∧ leaseRecord.unmarshal text = .ok l :=
  Record.unmarshal_marshal (leaseRecord_sends l) (leaseRecord_reads l)

theorem acquireLeaseRequest_roundTrip (r : AcquireLeaseRequest) :
    ∃ text, acquireLeaseRequestRecord.marshal r = .ok text ∧
      acquireLeaseRequestRecord.unmarshal text = .ok r := by
  refine Record.unmarshal_marshal ⟨?_, ?_⟩ ?_
  · simp only [acquireLeaseRequestRecord, List.forall_mem_cons, Field.text, Field.flag, Value.Clean,
      validUTF8_utf8, and_true, List.not_mem_nil, false_implies, implies_true]
    decide
  · simp [acquireLeaseRequestRecord, Field.text, Field.flag, Value.depth, maxNestingDepth]
  · have hfold : (acquireLeaseRequestRecord.members r).foldlM acquireLeaseRequestRecord.setMember
        acquireLeaseRequestRecord.zero =
        some ⟨ofUTF8 (utf8 r.underlayIP), r.singleOverlayIP⟩ := rfl
    rw [hfold, ofUTF8_utf8]

theorem releaseLeaseRequest_roundTrip (r : ReleaseLeaseRequest) :
    ∃ text, releaseLeaseRequestRecord.marshal r = .ok text ∧
      releaseLeaseRequestRecord.unmarshal text = .ok r := by
  refine Record.unmarshal_marshal ⟨?_, ?_⟩ ?_
  · simp only [releaseLeaseRequestRecord, List.forall_mem_cons, Field.text, Value.Clean,
      validUTF8_utf8, and_true, List.not_mem_nil, false_implies, implies_true]
    decide
  · simp [releaseLeaseRequestRecord, Field.text, Value.depth, maxNestingDepth]
  · have hfold : (releaseLeaseRequestRecord.members r).foldlM releaseLeaseRequestRecord.setMember
        releaseLeaseRequestRecord.zero = some ⟨ofUTF8 (utf8 r.underlayIP)⟩ := rfl
    rw [hfold, ofUTF8_utf8]

theorem leases_roundTrip (ls : List Lease) :
    ∃ text, (leasesRecord "leases").marshal ls = .ok text ∧
      (leasesRecord "Leases").unmarshal text = .ok ls := by
  refine Record.unmarshal_marshal ⟨fun f hf => ?_, fun f hf => ?_⟩ ?_
  · rw [List.mem_singleton.mp hf]
    refine ⟨show ValidUTF8 (ascii "leases") by decide, cleanItems_iff.mpr fun v hv => ?_⟩
    obtain ⟨l, -, rfl⟩ := List.mem_map.mp hv
    refine cleanMembers_iff.mpr fun m hm => ?_
    obtain ⟨g, hg, rfl⟩ := List.mem_map.mp hm
    exact (leaseRecord_sends l).clean g hg
  · rw [List.mem_singleton.mp hf]
    have hitems : depthItems (ls.map fun l => Value.object (leaseRecord.members l)) ≤ 1 := by
      refine depthItems_le fun v hv => ?_
      obtain ⟨l, -, rfl⟩ := List.mem_map.mp hv
      exact le_of_eq rfl
    exact Nat.lt_of_le_of_lt (Nat.add_le_add_left hitems 1) (by decide)
  · have hfold : ((leasesRecord "leases").members ls).foldlM (leasesRecord "Leases").setMember
        (leasesRecord "Leases").zero =
        ((Field.fillItems leaseRecord [] (ls.map fun l => .object (leaseRecord.members l))).map
          fun ys => ys).bind some := rfl
    rw [hfold, Field.fillItems_members leaseRecord_reads]
    rfl

end Silk.Controller
