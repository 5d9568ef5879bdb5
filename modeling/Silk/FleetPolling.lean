import Silk.ControllerCells
import Silk.DaemonPlanner

/-!
# Daemons that poll the controllers

The daemon of each cell renews its lease and lists the active leases through the
client, over the network and the HTTP interface of the controllers, and converges
the tables of its own cell. Between two cycles it waits for a timer. The
statements on the database and the netlink calls of all cells interleave. The
clock of a cell may differ from the clock of the database.
-/

namespace Silk.Fleet

open Controller Daemon GoJson GoNet Leaser Resumption

variable {ι : Type}

inductive FleetCall (ι : Type) where
  | wire (c : WireCall)
  | netlink (cell : ι) (q : NetlinkCall)
  | now (cell : ι)
  | after (cell : ι)

abbrev FleetReply : FleetCall ι → Type
  | .wire c => WireReply c
  | .netlink _ q => Except String (Daemon.Answer q)
  | .now _ => ℤ
  | .after _ => Unit

/-- The database of the controllers, the tables of each cell, and when the cell was started or its
timer has fired last, by the clock of the database. -/
structure State (ι : Type) where
  db : Database
  tables : ι → Kernel
  fired : ι → ℤ

/-- `ahead` is by how much the clock of a cell is ahead of the clock of the database, in
nanoseconds. -/
structure FleetChoice (ι : Type) where
  wire : WireChoice
  fault : Option Kernel.Fault
  ahead : ι → ℤ

def second : ℤ := 10 ^ 9

def fleetExec [DecidableEq ι] (ch : FleetChoice ι) (s : State ι) :
    (c : FleetCall ι) → FleetReply c × State ι
  | .wire c => ((wireExec ch.wire s.db c).1, { s with db := (wireExec ch.wire s.db c).2 })
  | .netlink cell q =>
    ((Kernel.exec ch.fault (s.tables cell) q).1,
      { s with tables := Function.update s.tables cell (Kernel.exec ch.fault (s.tables cell) q).2 })
  | .now cell => (second * s.db.now + ch.ahead cell, s)
  | .after cell => ((), { s with fired := Function.update s.fired cell s.db.now })

def wire : Embedding WireCall WireReply (FleetCall ι) FleetReply := ⟨.wire, fun _ r => r⟩

def onWire [DecidableEq ι] : OnWire wire (fleetExec (ι := ι)) where
  choice := FleetChoice.wire
  db := State.db
  set s db := { s with db := db }
  db_set _ _ := rfl
  reply_eq _ _ _ := rfl
  state_eq _ _ _ := rfl

def netlinkOf (cell : ι) :
    Embedding NetlinkCall (fun q => Except String (Daemon.Answer q)) (FleetCall ι) FleetReply :=
  ⟨.netlink cell, fun _ r => r⟩

abbrev Entry (ι : Type) : Type := (c : FleetCall ι) × FleetReply c

abbrev FleetProgram (ι : Type) : Type → Type := Program (FleetCall ι) FleetReply

abbrev Polled : Type := Except String (Except CycleError (List Lease) × GracefulDetector)

section Daemon

variable (jsonError : GoString → DecodeError → String) (c : LeaseController)

def clock (cell : ι) : FleetProgram ι ℤ := .call (.now cell) .done

def wait (cell : ι) : FleetProgram ι Unit := .call (.after cell) .done

/-- `VXLANPlanner.DoCycle`; a successful cycle returns the leases it has logged. -/
def doCycle (cell : ι) (lease : Lease) (converger : Converger) (d : GracefulDetector) :
    FleetProgram ι (Except CycleError (List Lease) × GracefulDetector) := do
  let renewal ← request wire jsonError c (.renewSubnetLease lease)
  let now ← clock cell
  match renewal with
  | .error err =>
    if d.isFatal err now then return (.error (.fatal ("renew lease: " ++ err.text)), d)
    else return (.error (.plain ("renew lease: " ++ err.text)), d)
  | .ok () =>
    let listing ← request wire jsonError c .getActiveLeases
    match listing with
    | .error err =>
      return (.error (.plain ("get routable leases: " ++ err.text)), d.gotSuccess now)
    | .ok leases =>
      let converged ← (converger.converge leases).run.embed (netlinkOf cell)
      match converged with
      | .error err => return (.error (.plain ("converge leases: " ++ err.text)), d.gotSuccess now)
      | .ok () => return (.ok leases, d.gotSuccess now)

/-- `Poller.Run` until the stop signal after so many turns. -/
def poll (cell : ι) (lease : Lease) (converger : Converger) :
    ℕ → GracefulDetector → FleetProgram ι Polled
  | turns, d => do
    let outcome ← doCycle jsonError c cell lease converger d
    match runFunction (outcome.1.map fun _ => ()) with
    | .error text => return .error text
    | .ok () =>
      match turns with
      | 0 => return .ok outcome
      | turns + 1 => do
        wait cell
        poll cell lease converger turns outcome.2

end Daemon

structure Site where
  lease : Lease
  converger : Converger
  detector : GracefulDetector
  initial : Kernel

abbrev Outcome (ι : Type) : Type := Sigma (Job.Result Polled : Job ι ℕ → Type)

abbrev FleetSystem (ι : Type) : Type :=
  System (FleetCall ι) FleetReply (Outcome ι) (Job ι ℕ) (State ι)

def daemon (jsonError : GoString → DecodeError → String) (c : LeaseController) (sites : ι → Site)
    (i : ι) (turns : ℕ) : FleetProgram ι Polled :=
  poll jsonError c i (sites i).lease (sites i).converger turns (sites i).detector

/-- The jobs are all there from the beginning; time passes between their calls. -/
def fleet [DecidableEq ι] (jsonError : GoString → DecodeError → String) (c : LeaseController)
    (sites : ι → Site) (network : Verdict → Prop) (allowed : Choice → Prop) :
    Machine (FleetCall ι) FleetReply (Outcome ι) (Job ι ℕ) (State ι) (FleetChoice ι) where
  exec := fleetExec
  allowed ch := Permits network allowed ch.wire
  drift s t := t.tables = s.tables ∧ t.fired = s.fired ∧ anyTime s.db t.db
  body job := job.body wire jsonError c (daemon jsonError c sites)
  accepts _ _ := False

def Quiet (ch : FleetChoice ι) : Prop :=
  Permits Reliable Leaser.faultless ch.wire ∧ Kernel.faultless ch.fault

section Quiet

variable [DecidableEq ι] {jsonError : GoString → DecodeError → String} {c : LeaseController}
  {s t : State ι}

end Quiet

end Silk.Fleet
