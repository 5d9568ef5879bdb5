import Silk.ControllerHttp
import Silk.ResumptionService

/-!
# The client of the controller, over a network that loses messages

A method of the client sends one request and reads the reply. A request may get
lost on its way, the handler may fail to read its body, and the reply may get
lost after the operation was carried out. Whatever happens, the operation of the
lease controller runs at most once, and a result that the client reports as the
controller's is the result of that one run.
-/

namespace Silk.Controller

open GoJson Leaser Resumption
open Daemon (ClientError DoError TransportError clientRenewSubnetLease serveRenewLease
    respondWithCode
  StatusOK StatusBadRequest StatusConflict StatusInternalServerError)

namespace Client

abbrev Exchange : Type → Type := Fallible HttpRequest (fun _ => HttpReply) TransportError DoError

def errDescription (body : GoString) : String :=
  match errorRecord.unmarshal body with
  | .ok text => text
  | .error _ => ofUTF8 body

/-- What `JsonClient.Do` makes of a reply. -/
def receive {β : Type} (read : GoString → Except DoError β) (resp : HttpReply) : Except DoError β :=
  if 299 < resp.statusCode then
    .error (.httpResponseCode resp.statusCode (errDescription resp.body))
  else read resp.body

def exchange {β : Type} (req : HttpRequest) (read : GoString → Except DoError β) : Exchange β := do
  let resp ← Fallible.request req fun err => .other err.text
  Fallible.lift (receive read resp)

def send {α β : Type} (r : Record α) (reqData : α) (path : String)
    (read : GoString → Except DoError β) : Exchange β :=
  match r.marshal reqData with
  | .error err => throw (.other (TransportError.marshal (ofUTF8 err)).text)
  | .ok body => exchange ⟨.PUT, path, body⟩ read

section

variable (jsonError : GoString → DecodeError → String)

def unmarshalResponse {β : Type} (r : Record β) (body : GoString) : Except DoError β :=
  match r.unmarshal body with
  | .ok x => .ok x
  | .error err => .error (.other ("json unmarshal: " ++ jsonError body err))

def getActiveLeases : Exchange (List Lease) :=
  exchange ⟨.GET, "/leases", []⟩ (unmarshalResponse jsonError (leasesRecord "Leases"))

def acquireLease (underlayIP : String) (singleOverlayIP : Bool) : Exchange Lease :=
  send acquireLeaseRequestRecord ⟨underlayIP, singleOverlayIP⟩ "/leases/acquire"
    (unmarshalResponse jsonError leaseRecord)

def acquireSubnetLease (underlayIP : String) : Exchange Lease :=
  acquireLease jsonError underlayIP false

def acquireSingleOverlayIPLease (underlayIP : String) : Exchange Lease :=
  acquireLease jsonError underlayIP true

end

def renewSubnetLease (lease : Lease) :
    Fallible HttpRequest (fun _ => HttpReply) TransportError ClientError Unit :=
  ExceptT.mk ((send leaseRecord lease "/leases/renew" fun _ => .ok ()).run >>= fun res =>
    .done (clientRenewSubnetLease res))

def releaseSubnetLease (underlayIP : String) : Exchange Unit :=
  send releaseLeaseRequestRecord ⟨underlayIP⟩ "/leases/release" fun _ => .ok ()

end Client

/-- What becomes of a request: it is not served, or it is served with these draws, perhaps without
a body that could be read, and perhaps without a reply that arrives. -/
inductive Verdict where
  | unserved (err : TransportError)
  | served (draws : ℕ → Draw) (unread : Option String) (lost : Option TransportError)

inductive WireCall where
  | request (req : HttpRequest)
  | statement (q : Statement)

abbrev WireReply : WireCall → Type
  | .request _ => Verdict
  | .statement q => Reply q

def statements : Embedding Statement Reply WireCall WireReply := ⟨.statement, fun _ r => r⟩

structure WireChoice where
  verdict : Verdict
  choice : Choice

def wireExec (ch : WireChoice) (db : Database) : (c : WireCall) → WireReply c × Database
  | .request _ => (ch.verdict, db)
  | .statement q => exec ch.choice db q

def Permits (network : Verdict → Prop) (allowed : Choice → Prop) (ch : WireChoice) : Prop :=
  network ch.verdict ∧ allowed ch.choice

def readBody (req : HttpRequest) : Option String → Except String GoString
  | some err => .error err
  | none => .ok req.body

def answer (reply : HttpReply) : Option TransportError → Except TransportError HttpReply
  | some err => .error err
  | none => .ok reply

section

variable (jsonError : GoString → DecodeError → String) (c : LeaseController)

def deliver (req : HttpRequest) :
    Verdict → Program WireCall WireReply (Except TransportError HttpReply)
  | .unserved err => .done (.error err)
  | .served draws unread lost => do
    let reply ← (serveHTTP jsonError c draws req (readBody req unread)).embed statements
    return answer reply lost

def overWire (req : HttpRequest) : Program WireCall WireReply (Except TransportError HttpReply) :=
  .call (.request req) (deliver jsonError c req)

end

def statusError (statusCode : ℕ) (description : String) : DoError :=
  .httpResponseCode statusCode
    (Client.errDescription (sent (respondWithCode statusCode description)).body)

def acquired : Except Err (Option Lease) → Except DoError Lease
  | .error err => .error (statusError StatusInternalServerError err.text)
  | .ok none => .error (statusError StatusConflict "no lease available")
  | .ok (some lease) => .ok lease

def renewed : Except LeaseError Unit → Except ClientError Unit
  | .error (.nonRetriable text) =>
    clientRenewSubnetLease (.error (statusError StatusConflict ("renew-subnet-lease: " ++ text)))
  | .error (.other text) =>
    .error (.json (statusError StatusInternalServerError ("renew-subnet-lease: " ++ text)))
  | .ok () => .ok ()

inductive ClientCall where
  | getActiveLeases
  | acquireLease (underlayIP : String) (singleOverlayIP : Bool)
  | renewSubnetLease (lease : Lease)
  | releaseSubnetLease (underlayIP : String)

namespace ClientCall

abbrev Result : ClientCall → Type
  | .getActiveLeases => Except DoError (List Lease)
  | .acquireLease _ _ => Except DoError Lease
  | .renewSubnetLease _ => Except ClientError Unit
  | .releaseSubnetLease _ => Except DoError Unit

def program (jsonError : GoString → DecodeError → String) : (q : ClientCall) →
    Program HttpRequest (fun _ => Except TransportError HttpReply) q.Result
  | .getActiveLeases => (Client.getActiveLeases jsonError).run
  | .acquireLease u single => (Client.acquireLease jsonError u single).run
  | .renewSubnetLease l => (Client.renewSubnetLease l).run
  | .releaseSubnetLease u => (Client.releaseSubnetLease u).run

def report (err : DoError) : (q : ClientCall) → q.Result
  | .getActiveLeases | .acquireLease _ _ | .releaseSubnetLease _ => .error err
  | .renewSubnetLease _ => clientRenewSubnetLease (.error err)

/-- The call without a network: one operation of the lease controller, and its result in the words
of the client. -/
def operation (c : LeaseController) (draws : ℕ → Draw) : (q : ClientCall) → Prog q.Result
  | .getActiveLeases => do
    let result ← c.routableLeases
    return result.mapError fun err => statusError StatusInternalServerError
      ("all-routable-leases: " ++ err.text)
  | .acquireLease u single => do
    let result ← c.acquireSubnetLease draws u single
    return acquired result
  | .renewSubnetLease l => do
    let result ← LeaseController.renewSubnetLease l
    return renewed result
  | .releaseSubnetLease u => do
    let result ← LeaseController.releaseSubnetLease u
    return result.mapError fun err => statusError StatusInternalServerError err.text

end ClientCall

/-- What a request comes to: an error of the network, the outcome of `attend`, or an error of the
network after `attend`. -/
def settle {γ : Type} (report : DoError → γ) (attend : (ℕ → Draw) → Option String → Prog γ) :
    Verdict → Prog γ
  | .unserved err => return report (.other err.text)
  | .served draws unread lost => do
    let result ← attend draws unread
    return lost.elim result fun err => report (.other err.text)

namespace ClientCall

def sendsBody : ClientCall → Bool
  | .getActiveLeases => false
  | .acquireLease _ _ | .renewSubnetLease _ | .releaseSubnetLease _ => true

/-- The controller's part in a call: a request whose body cannot be read is refused, and any other
is one run of the operation. -/
def attend (c : LeaseController) (q : ClientCall) (draws : ℕ → Draw) :
    Option String → Prog q.Result
  | none => q.operation c draws
  | some text =>
    if q.sendsBody then return q.report (statusError StatusBadRequest ("read-body: " ++ text))
    else q.operation c draws

end ClientCall

section

variable {jsonError : GoString → DecodeError → String} {c : LeaseController} {β γ : Type}

theorem settle_bind (finish : Except DoError β → γ)
    (attend : (ℕ → Draw) → Option String → Prog (Except DoError β)) (v : Verdict) :
    (settle .error attend v >>= fun res => .done (finish res)) =
      settle (fun err => finish (.error err))
        (fun draws unread => attend draws unread >>= fun res => .done (finish res)) v := by
  cases v with
  | unserved err => rfl
  | served draws unread lost =>
    simp only [settle, Program.pure_eq, Program.bind_assoc, Program.bind_done]
    cases lost <;> rfl

theorem exchange_through {req : HttpRequest} {read : GoString → Except DoError β}
    {attend : (ℕ → Draw) → Option String → Prog (Except DoError β)}
    (hserve : ∀ draws unread,
      (serveHTTP jsonError c draws req (readBody req unread) >>= fun reply =>
      .done (Client.receive read reply)) = attend draws unread) :
    (Client.exchange req read).run.through (overWire jsonError c) =
      .call (.request req) fun v => (settle .error attend v).embed statements := by
  have hcall : (Client.exchange req read).run.through (overWire jsonError c) =
      .call (.request req) fun v => deliver jsonError c req v >>= fun resp =>
        .done (match resp with
          | .error err => .error (.other err.text)
          | .ok reply => Client.receive read reply) := by
    refine congrArg (Program.call _) (funext fun v => congrArg (deliver jsonError c req v >>= ·) ?_)
    funext resp
    cases resp <;> rfl
  rw [hcall]
  congr 1
  funext v
  cases v with
  | unserved err => rfl
  | served draws unread lost =>
    simp only [deliver, settle, ← hserve, Program.pure_eq, Program.bind_assoc, Program.bind_done,
      Program.embed_bind]
    congr 1
    funext reply
    cases lost <;> rfl

theorem send_through {α : Type} {r : Record α} {x : α} {path : String}
    {read : GoString → Except DoError β}
    (hsend : ∃ text, r.marshal x = .ok text ∧ r.unmarshal text = .ok x)
    {handle : (ℕ → Draw) → α → Prog HttpReply}
    (hroute : ∀ draws text body, serveHTTP jsonError c draws ⟨.PUT, path, text⟩ body =
      Handlers.withPayload jsonError r (handle draws) body)
    {attend : (ℕ → Draw) → Option String → Prog (Except DoError β)}
    (hrefuse : ∀ draws text, attend draws (some text) =
      .done (.error (statusError StatusBadRequest ("read-body: " ++ text))))
    (hserve : ∀ draws, (handle draws x >>= fun reply => .done (Client.receive read reply)) =
      attend draws none) :
    ∃ req, (Client.send r x path read).run.through (overWire jsonError c) =
      .call (.request req) fun v => (settle .error attend v).embed statements := by
  obtain ⟨text, hmarshal, hunmarshal⟩ := hsend
  refine ⟨⟨.PUT, path, text⟩, ?_⟩
  simp only [Client.send, hmarshal]
  refine exchange_through fun draws unread => ?_
  rw [hroute]
  cases unread with
  | some err => exact (hrefuse draws err).symm
  | none =>
    simp only [readBody, Handlers.withPayload, hunmarshal]
    exact hserve draws

theorem receive_error {read : GoString → Except DoError β} {statusCode : ℕ} (h : 299 < statusCode)
    (text : String) : Client.receive read (sent (respondWithCode statusCode text)) =
      .error (statusError statusCode text) := if_pos h

theorem receive_marshalResponse {r r' : Record β} {x : β}
    (h : ∃ text, r.marshal x = .ok text ∧ r'.unmarshal text = .ok x) :
    Client.receive (Client.unmarshalResponse jsonError r') (Handlers.marshalResponse r x) =
      .ok x := by
  obtain ⟨text, hmarshal, hunmarshal⟩ := h
  simp [Client.receive, Client.unmarshalResponse, Handlers.marshalResponse, hmarshal, hunmarshal,
    StatusOK]

theorem receive_leasesAcquire (result : Except Err (Option Lease)) :
    Client.receive (Client.unmarshalResponse jsonError leaseRecord)
      (Handlers.serveLeasesAcquire result) = acquired result := by
  rcases result with err | _ | lease
  · exact receive_error (by decide) _
  · exact receive_error (by decide) _
  · exact receive_marshalResponse (lease_roundTrip lease)

theorem receive_leasesIndex (result : Except Err (List Lease)) :
    Client.receive (Client.unmarshalResponse jsonError (leasesRecord "Leases"))
      (Handlers.serveLeasesIndex result) = result.mapError fun err =>
        statusError StatusInternalServerError ("all-routable-leases: " ++ err.text) := by
  rcases result with err | leases
  · exact receive_error (by decide) _
  · exact receive_marshalResponse (leases_roundTrip leases)

theorem receive_releaseLease (result : Except Err Unit) :
    Client.receive (fun _ => .ok ()) (Handlers.serveReleaseLease result) =
      result.mapError fun err => statusError StatusInternalServerError err.text := by
  rcases result with err | _
  · exact receive_error (by decide) _
  · rfl

theorem receive_renewLease (result : Except LeaseError Unit) :
    clientRenewSubnetLease
      (Client.receive (fun _ => .ok ()) (sent (serveRenewLease (.ok result)))) =
      renewed result := by
  rcases result with (text | text) | _
  · exact congrArg clientRenewSubnetLease (receive_error (by decide) _)
  · exact congrArg clientRenewSubnetLease (receive_error (by decide) _)
  · rfl

theorem reply_received {ρ : Type} {op : Prog ρ} {reply : ρ → HttpReply}
    {read : GoString → Except DoError β} {view : ρ → Except DoError β}
    (h : ∀ result, Client.receive read (reply result) = view result) :
    ((do let result ← op; return reply result) >>= fun reply => .done (Client.receive read reply)) =
      do let result ← op; return view result := by
  simp only [Program.bind_assoc, Program.pure_eq, Program.bind_done, h]

/-- A call of the client, with the network and the HTTP interface of the controller under it, is
at most one run of the operation on the database. -/
theorem ClientCall.program_through (jsonError : GoString → DecodeError → String)
    (c : LeaseController) (q : ClientCall) :
    ∃ req, (q.program jsonError).through (overWire jsonError c) =
      .call (.request req) fun v => (settle q.report (q.attend c) v).embed statements := by
  cases q with
  | getActiveLeases =>
    refine ⟨_, exchange_through fun draws unread => ?_⟩
    have hattend : ClientCall.getActiveLeases.attend c draws unread =
        ClientCall.getActiveLeases.operation c draws := by cases unread <;> rfl
    rw [hattend]
    exact reply_received receive_leasesIndex
  | acquireLease u single =>
    exact send_through (acquireLeaseRequest_roundTrip _) (fun _ _ _ => rfl) (fun _ _ => rfl)
      fun _ => reply_received receive_leasesAcquire
  | renewSubnetLease l =>
    obtain ⟨req, hsend⟩ :
      ∃ req, (Client.send leaseRecord l "/leases/renew" fun _ => .ok ()).run.through
        (overWire jsonError c) = .call (.request req) fun v => (settle .error (fun _ unread =>
          unread.elim (do
            let result ← LeaseController.renewSubnetLease l
            return Client.receive (fun _ => .ok ()) (sent (serveRenewLease (.ok result))))
          fun text => return .error (statusError StatusBadRequest ("read-body: " ++ text))) v).embed
            statements :=
      send_through (lease_roundTrip l) (fun _ _ _ => rfl) (fun _ _ => rfl) fun _ =>
        reply_received fun _ => rfl
    refine ⟨req, (Program.through_bind _ _ _).trans ?_⟩
    rw [hsend]
    refine congrArg (Program.call _) (funext fun v => ?_)
    refine (Program.embed_bind statements _
      fun res => .done (clientRenewSubnetLease res)).symm.trans ?_
    rw [settle_bind]
    refine congrArg (fun attend => (settle _ attend v).embed statements)
      (funext₂ fun draws unread => ?_)
    cases unread with
    | some text => rfl
    | none =>
      simp only [Option.elim, Program.bind_assoc, Program.pure_eq, Program.bind_done,
        receive_renewLease]
      rfl
  | releaseSubnetLease u =>
    exact send_through (releaseLeaseRequest_roundTrip _) (fun _ _ _ => rfl) (fun _ _ => rfl)
      fun _ => reply_received receive_releaseLease

theorem runs_statements {α : Type} {p : Prog α} {network : Verdict → Prop} {allowed : Choice → Prop}
    {v : Verdict} (hv : network v) {db db' : Database} {res : α} :
    (p.embed statements).Runs wireExec (Permits network allowed) db res db' ↔
      p.Runs exec allowed db res db' := by
  rw [Program.runs_embed]
  constructor
  · exact Program.Runs.transfer fun ch _ _ hch => ⟨ch.choice, hch.2, rfl⟩
  · exact Program.Runs.transfer fun ch _ _ hch => ⟨⟨v, ch⟩, ⟨hv, hch⟩, rfl⟩

theorem ClientCall.runs_iff {q : ClientCall} {network : Verdict → Prop} {allowed : Choice → Prop}
    {choice : Choice} (hchoice : allowed choice) {db db' : Database} {res : q.Result} :
    ((q.program jsonError).through (overWire jsonError c)).Runs wireExec
        (Permits network allowed) db res db' ↔
      ∃ v, network v ∧ (settle q.report (q.attend c) v).Runs exec allowed db res db' := by
  obtain ⟨req, hreq⟩ := q.program_through jsonError c
  rw [hreq]
  constructor
  · rintro ⟨ch, hch, hrun⟩
    exact ⟨ch.verdict, hch.1, (runs_statements hch.1).mp hrun⟩
  · rintro ⟨v, hv, hrun⟩
    exact ⟨⟨v, choice⟩, ⟨hv, hchoice⟩, (runs_statements hv).mpr hrun⟩

end

theorem parse_respondWithCode (statusCode : ℕ) {text : String} (h : Plain text) :
    parse (sent (respondWithCode statusCode text)).body =
      .ok (.object [(ascii "error", .string (utf8 text))]) := by
  obtain ⟨hfeed, hunquote⟩ := unquote_utf8 h
  have hbody : (sent (respondWithCode statusCode text)).body =
      utf8 "\x7b\"error\": \"" ++ (utf8 text ++ [quote, 0x7d]) := by
    simp only [sent, respondWithCode, utf8_append, List.append_assoc]
    rfl
  have hopen : ∀ t, run maxNestingDepth .start (utf8 "\x7b\"error\": \"" ++ t) =
      run maxNestingDepth ⟨[.object [] (some (ascii "error"))], .string false [] (.plain none)⟩ t :=
    fun t => rfl
  have hclose : step maxNestingDepth ⟨[.object [] (some (ascii "error"))],
      .string false (utf8 text) (.plain none)⟩ quote =
      .more ⟨[.object [(ascii "error", .string (utf8 text))] none], .next⟩ := by
    simp only [step, inString, hunquote]
    rfl
  rw [parse, hbody, hopen, run_string hfeed, List.nil_append, run_more hclose]
  rfl

/-- A text without quotes, backslashes and control characters reaches the caller of the client as
the controller has written it. -/
theorem statusError_verbatim (statusCode : ℕ) {text : String} (h : Plain text) :
    statusError statusCode text = .httpResponseCode statusCode text := by
  have hfill : errorRecord.fill errorRecord.zero (.object [(ascii "error", .string (utf8 text))]) =
      some (ofUTF8 (utf8 text)) := rfl
  rw [statusError, Client.errDescription, Record.unmarshal, parse_respondWithCode statusCode h]
  simp only [bind, Except.bind, hfill, ofUTF8_utf8]
  rfl

theorem statusError_verbatim_conflict :
    statusError StatusConflict "no lease available" =
      .httpResponseCode StatusConflict "no lease available" :=
  statusError_verbatim StatusConflict rfl

end Silk.Controller
