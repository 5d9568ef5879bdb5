import Silk.ControllerNetwork
import Silk.ResumptionOwnership

/-!
# Cells around the controllers

Clients and the daemons of cells ask the controllers over the wire. What else a
cell calls, and which state it has of its own, is left to the system: its calls
contain those on the wire, and its state contains the database, on which they act.
-/

namespace Silk.Controller

open Daemon GoJson Leaser Resumption

variable {Call : Type} {Reply : Call → Type} {ι Work ρ σ Choice' : Type}

inductive Job (ι Work : Type) where
  | client (q : ClientCall)
  | cell (i : ι) (work : Work)

namespace Job

abbrev Result (ρ : Type) : Job ι Work → Type
  | .client q => q.Result
  | .cell _ _ => ρ

def owner : Job ι Work → Option ι
  | .client _ => none
  | .cell i _ => some i

def Apart (a b : Job ι Work) : Prop := Resumption.Apart a.owner b.owner

end Job

section Programs

variable (wire : Embedding WireCall WireReply Call Reply)
  (jsonError : GoString → DecodeError → String) (c : LeaseController)

/-- A call of the client, with the network and the controllers under it. -/
def request (q : ClientCall) : Program Call Reply q.Result :=
  ((q.program jsonError).through (overWire jsonError c)).embed wire

def Job.program (daemon : ι → Work → Program Call Reply ρ) :
    (job : Job ι Work) → Program Call Reply (job.Result ρ)
  | .client q => request wire jsonError c q
  | .cell i work => daemon i work

def Job.body (daemon : ι → Work → Program Call Reply ρ) (job : Job ι Work) :
    Program Call Reply (Sigma (Job.Result ρ : Job ι Work → Type)) :=
  job.program wire jsonError c daemon >>= fun result => .done ⟨job, result⟩

end Programs

section Jobs

variable {wire : Embedding WireCall WireReply Call Reply}
  {jsonError : GoString → DecodeError → String} {c : LeaseController}
  {daemon : ι → Work → Program Call Reply ρ}

theorem Job.guarded_body {exec' : Choice' → σ → (c : Call) → Reply c × σ}
    {allowed' : Choice' → Prop}
    {R G : σ → σ → Prop} {P : Sigma (Job.Result ρ : Job ι Work → Type) → σ → Prop} {s : σ}
    {job : Job ι Work} (hrefl : ∀ s, R s s)
    (hclient : ∀ q, job = .client q → (request wire jsonError c q).Guarded exec' allowed' R G
      (fun res t => ∀ u, R t u → P ⟨.client q, res⟩ u) s)
    (hcell : ∀ i work, job = .cell i work → (daemon i work).Guarded exec' allowed' R G
      (fun res t => ∀ u, R t u → P ⟨.cell i work, res⟩ u) s) :
    (job.body wire jsonError c daemon).Guarded exec' allowed' R G P s := by
  cases job with
  | client q => exact (hclient q rfl).bind hrefl fun _ _ hres => hres
  | cell i work => exact (hcell i work rfl).bind hrefl fun _ _ hres => hres

theorem Job.earns_body {P : ι → Work → List (Sigma Reply) → ρ → Prop}
    (h : ∀ i work, (daemon i work).Earns (P i work) []) (job : Job ι Work) :
    (job.body wire jsonError c daemon).Earns (fun history res => ∀ i work result,
      res = ⟨.cell i work, result⟩ → P i work history result) [] := by
  cases job with
  | client q =>
    refine (Program.Earns.of_forall (P := fun _ _ => True) (fun _ _ => trivial) _ _).bind ?_
    exact fun res later _ i work result hres => by cases hres
  | cell i work =>
    refine (h i work).bind fun res later hlater i' work' result hres => ?_
    cases hres
    exact hlater

end Jobs

theorem earns_request {A : Sigma Controller.Reply → ρ → Prop} {q : ClientCall}
    {Q : q.Result → ρ → Prop}
    (wire : Embedding WireCall WireReply Call Reply) (jsonError : GoString → DecodeError → String)
    (c : LeaseController)
    (hop : ∀ draws history, (q.operation c draws).Earns
      (fun history res => ∀ x, Q res x → ∃ e ∈ history, A e x) history)
    (hreport : ∀ err x, ¬ Q (q.report err) x) (later : List (Sigma Reply)) :
    (request wire jsonError c q).Earns (fun later res => ∀ x, Q res x → ∃ e ∈ later,
      ∃ s r, e = ⟨wire.call (.statement s), r⟩ ∧ A ⟨s, wire.reply (.statement s) r⟩ x) later := by
  refine (q.earns_through jsonError hop hreport []).embed (fun w r x hw => ?_) later
  obtain ⟨s, r', heq, hA⟩ := hw
  cases heq
  exact ⟨s, r, rfl, hA⟩

/-- Calls on the wire act on the database in the state as they do alone, and on nothing else. -/
structure OnWire (wire : Embedding WireCall WireReply Call Reply)
    (exec : Choice' → σ → (c : Call) → Reply c × σ) where
  choice : Choice' → WireChoice
  db : σ → Database
  set : σ → Database → σ
  db_set : ∀ s d, db (set s d) = d
  reply_eq : ∀ ch s w, wire.reply w (exec ch s (wire.call w)).1 = (wireExec (choice ch) (db s) w).1
  state_eq : ∀ ch s w, (exec ch s (wire.call w)).2 = set s (wireExec (choice ch) (db s) w).2

section OnWire

variable {wire : Embedding WireCall WireReply Call Reply}
  {exec' : Choice' → σ → (c : Call) → Reply c × σ} {allowed' : Choice' → Prop} {R G : σ → σ → Prop}
  {J : σ → Prop} {s : σ} {network : Verdict → Prop} {allowed : Choice → Prop}

/-- What is safe on the database is guarded in the system, if the rest of the state goes with it. -/
theorem OnWire.guarded (on : OnWire wire exec') {α : Type} {p : Program WireCall WireReply α}
    {I : Database → Prop} {Q : α → Prop} (h : p.Safe wireExec (Permits network allowed) I Q)
    (hallowed : ∀ ch, allowed' ch → Permits network allowed (on.choice ch))
    (hrely : ∀ s t, R s t → J s → J t) (hdb : ∀ s, J s → I (on.db s))
    (hset : ∀ s ch w, J s → I (wireExec ch (on.db s) w).2 →
      J (on.set s (wireExec ch (on.db s) w).2) ∧ G s (on.set s (wireExec ch (on.db s) w).2))
    (hs : J s) : (p.embed wire).Guarded exec' allowed' R G (fun a t => Q a ∧ J t) s := by
  refine ((h.guarded (hdb s hs)).embed (v := on.db) (J := J)
    (fun t u htu ht => ⟨hrely t u htu ht, fun _ => hdb u (hrely t u htu ht)⟩)
    (fun ch t w hch ht => ⟨on.choice ch, hallowed ch hch, ?_, fun hkeeps => ?_⟩) hs).mono
    fun _ _ hpost => ⟨hpost.1.1, hpost.2⟩
  · rw [on.reply_eq, on.state_eq, on.db_set]
  · rw [on.state_eq]
    exact hset t _ w ht (hkeeps (hdb t ht))

theorem OnWire.guarded_request (on : OnWire wire exec')
    {jsonError : GoString → DecodeError → String}
    {c : LeaseController} {q : ClientCall} {P : Lease → Prop} (h : q.Fits c P)
    (hallowed : ∀ ch, allowed' ch → Permits network allowed (on.choice ch))
    (hrely : ∀ s t, R s t → J s → J t) (hrows : ∀ s, J s → AllRows P (on.db s))
    (hset : ∀ s d, J s → AllRows P d → J (on.set s d) ∧ G s (on.set s d)) (hs : J s) :
    (request wire jsonError c q).Guarded exec' allowed' R G
      (fun res t => q.Delivers c P res ∧ J t) s :=
  on.guarded (ClientCall.safe jsonError network allowed h) hallowed hrely hrows
    (fun s _ _ hs hd => hset s _ hs hd) hs

end OnWire

end Silk.Controller
