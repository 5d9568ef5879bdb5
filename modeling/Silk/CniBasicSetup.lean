import Silk.CniLinks

/-!
# `BasicSetup` against any device behaviour

The calls may reply anything. Over every path through `BasicSetup`, the hardware
address is set at most ten times, and a result is only returned after the
expected address was read and the remaining steps succeeded in their order. A
panic is the outcome of exactly those paths on which a lookup after the first
one fails.
-/

namespace Silk.Cni.Common

open GoJson GoNet LinkOperations Resumption
open Datastore (Failure context)

variable {α β : Type}

def LookupFailed (e : (c : NetCall) × Except GoString (NetAnswer c)) : Prop :=
  ∃ name err, e = ⟨.linkByName name, .error err⟩

def setsHardwareAddr (e : (c : NetCall) × Except GoString (NetAnswer c)) : Bool :=
  match e.1 with
  | .linkSetHardwareAddr _ _ => true
  | _ => false

def Panics (res : Except Failure α) : Prop := ∃ text, res = .error (.panic text)

/-- A part of the setup that sets the hardware address at most `n` times, and panics exactly when
a lookup fails. -/
structure Part (n : ℕ) (history : NetHistory) (res : Except Failure α) : Prop where
  panics : Panics res ↔ ∃ e ∈ history, LookupFailed e
  attempts : history.countP setsHardwareAddr ≤ n

theorem Part.nil {res : Except Failure α} (h : ¬ Panics res) (n : ℕ) : Part n [] res :=
  ⟨by simp [h], Nat.zero_le n⟩

theorem Part.append {m n : ℕ} {first second : NetHistory} {a : α} {res : Except Failure β}
    (h : Part m first (.ok a)) (h' : Part n second res) : Part (m + n) (first ++ second) res := by
  constructor
  · have hfirst : ¬ ∃ e ∈ first, LookupFailed e := by
      rw [← h.panics]
      rintro ⟨text, htext⟩
      cases htext
    rw [h'.panics]
    constructor
    · rintro ⟨e, he, hfailed⟩
      exact ⟨e, List.mem_append_right _ he, hfailed⟩
    · rintro ⟨e, he, hfailed⟩
      rcases List.mem_append.mp he with he | he
      · exact absurd ⟨e, he, hfailed⟩ hfirst
      · exact ⟨e, he, hfailed⟩
  · rw [List.countP_append]
    exact Nat.add_le_add h.attempts h'.attempts

theorem Part.error {n : ℕ} {history : NetHistory} {e : Failure}
    (h : Part n history (.error e : Except Failure α)) :
    Part n history (.error e : Except Failure β) := by
  refine ⟨?_, h.attempts⟩
  rw [← h.panics, Panics, Panics]
  simp

theorem Part.mono {m n : ℕ} {history : NetHistory} {res : Except Failure α} (h : Part m history res)
    (hmn : m ≤ n) : Part n history res :=
  ⟨h.panics, h.attempts.trans hmn⟩

def Parts (n : ℕ) (p : NetProgram α) : Prop :=
  ∀ history res, p.run.Path history res → Part n history res

theorem Parts.bind {m n : ℕ} {p : NetProgram α} {f : α → NetProgram β} (hp : Parts m p)
    (hf : ∀ a, Parts n (f a)) : Parts (m + n) (p >>= f) := by
  intro history res hpath
  rcases Fallible.path_bind.mp hpath with
    ⟨e, hfirst, rfl⟩ | ⟨a, first, second, hfirst, hsecond, rfl⟩
  · exact (hp _ _ hfirst).error.mono (Nat.le_add_right m n)
  · exact (hp _ _ hfirst).append (hf a _ _ hsecond)

theorem parts_pure (a : α) (n : ℕ) : Parts n (pure a) := by
  rintro history res ⟨rfl, rfl⟩
  exact .nil (by simp [Panics]) n

theorem parts_throw (err : GoString) (n : ℕ) : Parts n (throw (.error err) : NetProgram α) := by
  rintro history res ⟨rfl, rfl⟩
  exact .nil (by simp [Panics]) n

def plain : NetCall → Bool
  | .linkByName _ | .linkSetHardwareAddr _ _ => false
  | _ => true

theorem Part.plain {c : NetCall} (hc : plain c = true) {r : Except GoString (NetAnswer c)}
    {res : Except Failure α} (h : ¬ Panics res) : Part 0 [⟨c, r⟩] res := by
  constructor
  · simp only [h, List.mem_singleton, exists_eq_left, false_iff]
    rintro ⟨name, err, he⟩
    obtain rfl := congrArg Sigma.fst he
    cases hc
  · cases c <;> first | exact le_rfl | cases hc

theorem parts_issue {c : NetCall} {err : GoString → Failure} (hc : plain c = true)
    (herr : ∀ text, ∃ text', err text = .error text') : Parts 0 (issue c err) := by
  intro history res hpath
  obtain ⟨r, rfl, rfl⟩ := Fallible.path_request.mp hpath
  apply Part.plain hc
  rintro ⟨text, htext⟩
  cases r with
  | error e =>
    obtain ⟨text', htext'⟩ := herr e
    rw [Except.mapError, htext'] at htext
    cases htext
  | ok a => cases htext

theorem Parts.wrap {n : ℕ} {p : NetProgram α} (hp : Parts n p) (text : GoString) :
    Parts n (Fallible.wrap (within text) p) := by
  intro history res hpath
  obtain ⟨mid, hmid, rfl⟩ := Fallible.path_wrap.mp hpath
  refine ⟨?_, (hp _ _ hmid).attempts⟩
  rw [← (hp _ _ hmid).panics]
  rcases mid with ⟨err⟩ | a
  · cases err <;> simp [Panics, Except.mapError, within]
  · simp [Panics, Except.mapError]

theorem parts_readHardwareAddr (deviceName : GoString) : Parts 0 (readHardwareAddr deviceName) := by
  have hlookup : Parts 0 (issue (.linkByName deviceName) fun _ => .panic nilDereference) := by
    intro history res hpath
    obtain ⟨r, rfl, rfl⟩ := Fallible.path_request.mp hpath
    refine ⟨?_, le_rfl⟩
    cases r with
    | error err => simp [Panics, LookupFailed, Except.mapError]
    | ok l => simp [Panics, LookupFailed, Except.mapError]
  exact hlookup.bind fun l => parts_pure _ 0

theorem parts_setHardwareAddr (link : Link) (hardware : HardwareAddr) :
    Parts 1 (issue (.linkSetHardwareAddr link hardware)
      (context "setting hardware address: ")) := by
  intro history res hpath
  obtain ⟨r, rfl, rfl⟩ := Fallible.path_request.mp hpath
  refine ⟨?_, le_rfl⟩
  cases r with
  | error err => simp [Panics, LookupFailed, Except.mapError, context]
  | ok l => simp [Panics, LookupFailed, Except.mapError]

theorem parts_retry (deviceName : GoString) (link : Link) (hardware : HardwareAddr) (i : ℕ)
    (got : String) : Parts i (retry deviceName link hardware i got) := by
  induction i generalizing got with
  | zero => exact parts_pure got 0
  | succ i ih =>
    rw [retry]
    split_ifs with hgot
    · exact parts_pure got (i + 1)
    · have h := (parts_setHardwareAddr link hardware).bind fun _ =>
        (parts_readHardwareAddr deviceName).bind ih
      exact (by omega : 1 + (0 + i) = i + 1) ▸ h

theorem path_retry {deviceName : GoString} {link : Link} {hardware : HardwareAddr} {i : ℕ}
    {got last : String} {history : NetHistory}
    (h : (retry deviceName link hardware i got).run.Path history (.ok last)) :
    (history = [] ∧ last = got) ∨ ∃ before l,
      history = before ++ [⟨.linkByName deviceName, .ok l⟩] ∧
        last = hardwareAddrString l.hardwareAddr := by
  induction i generalizing got history with
  | zero =>
    obtain ⟨rfl, hres⟩ := h
    cases hres
    exact Or.inl ⟨rfl, rfl⟩
  | succ i ih =>
    rw [retry] at h
    split_ifs at h with hgot
    · obtain ⟨rfl, hres⟩ := h
      cases hres
      exact Or.inl ⟨rfl, rfl⟩
    · obtain ⟨_, set, _, -, hrest, rfl⟩ := Fallible.path_bind_ok.mp h
      obtain ⟨_, read, later, hread, hlater, rfl⟩ := Fallible.path_bind_ok.mp hrest
      obtain ⟨l, _, _, hlookup, ⟨rfl, hres⟩, rfl⟩ := Fallible.path_bind_ok.mp hread
      cases hres
      obtain rfl := Fallible.path_request_ok.mp hlookup
      right
      rcases ih hlater with ⟨rfl, rfl⟩ | ⟨before, l', rfl, rfl⟩
      · exact ⟨set, l, by simp, rfl⟩
      · exact ⟨set ++ ⟨.linkByName deviceName, .ok l⟩ :: before, l', by simp, rfl⟩

/-- The steps in their order, all successful but for the first, whose outcome is ignored. -/
def configured (deviceName : GoString) (link : Link) (loc peer : DualAddress)
    (ipv6 : Except GoString Unit) (addr : Addr) : NetHistory :=
  [⟨.sysctl (ascii "net.ipv6.conf." ++ deviceName ++ ascii ".disable_ipv6") (ascii "1"), ipv6⟩,
    ⟨.linkSetARPOff link, .ok ()⟩,
    ⟨.neighAddPermanentIPv4 link.index peer.ip peer.hardware, .ok ()⟩,
    ⟨.parseAddr (netString (some (singleAddress loc.ip))), .ok addr⟩,
    ⟨.addrAddScopeLink link ⟨addr.ipNet, some (singleAddress peer.ip)⟩, .ok ()⟩,
    ⟨.sysctl (ascii "net.ipv4.conf." ++ deviceName ++ ascii ".rp_filter") (ascii "1"), .ok ()⟩,
    ⟨.linkSetUp link, .ok ()⟩]

theorem path_configure {deviceName : GoString} {link : Link} {loc peer : DualAddress}
    {history : NetHistory} (h : (configure deviceName link loc peer).run.Path history (.ok ())) :
    ∃ ipv6 addr, history = configured deviceName link loc peer ipv6 addr := by
  obtain ⟨_, _, _, hfirst, hrest, rfl⟩ := Fallible.path_bind_ok.mp h
  obtain ⟨_, hipv6, -⟩ := Fallible.path_attempt.mp hfirst
  obtain ⟨ipv6, rfl, -⟩ := Fallible.path_request.mp hipv6
  obtain ⟨_, _, _, hstatic, hrest', rfl⟩ := Fallible.path_bind_ok.mp hrest
  obtain ⟨_, _, _, harp, hneigh, rfl⟩ := Fallible.path_bind_ok.mp (Fallible.path_wrap_ok.mp hstatic)
  obtain rfl := Fallible.path_request_ok.mp harp
  obtain rfl := Fallible.path_request_ok.mp hneigh
  obtain ⟨_, _, _, hpoint, hlast, rfl⟩ := Fallible.path_bind_ok.mp hrest'
  obtain ⟨addr, _, _, hparse, hadd, rfl⟩ :=
    Fallible.path_bind_ok.mp (Fallible.path_wrap_ok.mp hpoint)
  obtain rfl := Fallible.path_request_ok.mp hparse
  obtain rfl := Fallible.path_request_ok.mp hadd
  obtain ⟨_, _, _, hfilter, hup, rfl⟩ := Fallible.path_bind_ok.mp hlast
  obtain rfl := Fallible.path_request_ok.mp (Fallible.path_wrap_ok.mp hfilter)
  obtain rfl := Fallible.path_request_ok.mp hup
  exact ⟨ipv6, addr, rfl⟩

theorem parts_configure (deviceName : GoString) (link : Link) (loc peer : DualAddress) :
    Parts 0 (configure deviceName link loc peer) := by
  have hipv6 : Parts 0 (Fallible.attempt (disableIPv6 deviceName) :
      NetProgram (Except Failure Unit)) := by
    intro history res hpath
    obtain ⟨mid, hcall, rfl⟩ := Fallible.path_attempt.mp hpath
    obtain ⟨r, rfl, -⟩ := Fallible.path_request.mp hcall
    exact .plain rfl (by simp [Panics])
  have hstatic : Parts 0 (staticNeighborNoARP link peer.ip peer.hardware) :=
    (parts_issue rfl fun err => ⟨_, rfl⟩).bind fun _ => parts_issue rfl fun err => ⟨_, rfl⟩
  have hpoint : Parts 0 (setPointToPointAddress link loc.ip peer.ip) := by
    refine Parts.bind (m := 0) (n := 0) ?_ fun addr => ?_
    · exact parts_issue rfl fun err => ⟨_, rfl⟩
    · exact parts_issue rfl fun err => ⟨_, rfl⟩
  exact hipv6.bind fun _ => (hstatic.wrap _).bind fun _ => (hpoint.wrap _).bind fun _ =>
    ((parts_issue rfl fun err => ⟨_, rfl⟩).wrap _).bind fun _ => parts_issue rfl fun err => ⟨_, rfl⟩

theorem parts_setUpLink (deviceName : GoString) (link : Link) (loc peer : DualAddress) :
    Parts maxAttempts (setUpLink deviceName link loc peer) := by
  refine Parts.bind (m := 0) (n := maxAttempts) (parts_readHardwareAddr deviceName) fun got => ?_
  refine Parts.bind (m := maxAttempts) (n := 0) (parts_retry _ _ _ _ _) fun last => ?_
  split_ifs with hlast
  · exact parts_throw _ 0
  · exact parts_configure deviceName link loc peer

theorem path_setUpLink {deviceName : GoString} {link : Link} {loc peer : DualAddress}
    {history : NetHistory} (h : (setUpLink deviceName link loc peer).run.Path history (.ok ())) :
    ∃ before l ipv6 addr, history = before ++ ⟨.linkByName deviceName, .ok l⟩ ::
      configured deviceName link loc peer ipv6 addr ∧ l.hardwareAddr = loc.hardware := by
  obtain ⟨got, _, _, hread, hrest, rfl⟩ := Fallible.path_bind_ok.mp h
  obtain ⟨l, _, _, hlookup, ⟨rfl, hres⟩, rfl⟩ := Fallible.path_bind_ok.mp hread
  cases hres
  obtain rfl := Fallible.path_request_ok.mp hlookup
  obtain ⟨last, _, _, hretry, hfinish, rfl⟩ := Fallible.path_bind_ok.mp hrest
  split_ifs at hfinish with hlast
  · cases hfinish.2
  obtain ⟨ipv6, addr, rfl⟩ := path_configure hfinish
  rw [not_not] at hlast
  rcases path_retry hretry with ⟨rfl, rfl⟩ | ⟨before, l', rfl, rfl⟩
  · exact ⟨[], l, ipv6, addr, rfl, hardwareAddrString_injective hlast⟩
  · exact ⟨⟨.linkByName deviceName, .ok l⟩ :: before, l', ipv6, addr, by simp,
      hardwareAddrString_injective hlast⟩

theorem callsWithin_readHardwareAddr (deviceName : GoString) :
    (readHardwareAddr deviceName).run.CallsWithin 1 :=
  Fallible.callsWithin_bind (n := 0) (Fallible.callsWithin_request _ _) fun _ => trivial

theorem callsWithin_retry (deviceName : GoString) (link : Link) (hardware : HardwareAddr) (i : ℕ)
    (got : String) : (retry deviceName link hardware i got).run.CallsWithin (2 * i) := by
  induction i generalizing got with
  | zero => trivial
  | succ i ih =>
    rw [retry]
    split_ifs
    · trivial
    · have hcalls := Fallible.callsWithin_bind
        (Fallible.callsWithin_request (.linkSetHardwareAddr link hardware)
          (context "setting hardware address: "))
        fun _ => Fallible.callsWithin_bind (callsWithin_readHardwareAddr deviceName) ih
      exact hcalls.mono (by omega)

theorem callsWithin_configure (deviceName : GoString) (link : Link) (loc peer : DualAddress) :
    (configure deviceName link loc peer).run.CallsWithin 7 := by
  have hstatic : (staticNeighborNoARP link peer.ip peer.hardware).run.CallsWithin 2 :=
    Fallible.callsWithin_bind (Fallible.callsWithin_request _ _) fun _ =>
      Fallible.callsWithin_request _ _
  have hpoint : (setPointToPointAddress link loc.ip peer.ip).run.CallsWithin 2 :=
    Fallible.callsWithin_bind (m := 1) (n := 1) (Fallible.callsWithin_request _ _) fun addr =>
      Fallible.callsWithin_request _ _
  exact Fallible.callsWithin_bind (Fallible.callsWithin_attempt (Fallible.callsWithin_request _ _))
    fun _ => Fallible.callsWithin_bind (Fallible.callsWithin_wrap hstatic _)
    fun _ => Fallible.callsWithin_bind (Fallible.callsWithin_wrap hpoint _)
    fun _ => Fallible.callsWithin_bind
      (Fallible.callsWithin_wrap (Fallible.callsWithin_request _ _) _)
    fun _ => Fallible.callsWithin_request _ _

theorem callsWithin_basicSetup (deviceName : GoString) (loc peer : DualAddress) :
    (basicSetup deviceName loc peer).run.CallsWithin 29 := by
  refine Fallible.callsWithin_bind (m := 1) (n := 28) (Fallible.callsWithin_request _ _)
    fun link => ?_
  refine Fallible.callsWithin_bind (m := 1) (n := 27) (callsWithin_readHardwareAddr _) fun got => ?_
  refine Fallible.callsWithin_bind (m := 20) (n := 7) (callsWithin_retry _ _ _ maxAttempts _)
    fun last => ?_
  split_ifs
  · trivial
  · exact callsWithin_configure deviceName link loc peer

/-- Whatever the calls reply, the setup ends, sets the address at most ten times, succeeds only
after the right reading and all steps, and does not panic: exactly when no lookup but the first
fails. -/
theorem basicSetup_safe_iff (deviceName : GoString) (loc peer : DualAddress) {history : NetHistory}
    {res : Except Failure Unit}
    (hpath : (basicSetup deviceName loc peer).run.Path history res) :
    ((basicSetup deviceName loc peer).run.CallsWithin 29 ∧ ¬ Panics res ∧
      history.countP setsHardwareAddr ≤ maxAttempts ∧
      (res = .ok () → ∃ before link l ipv6 addr,
        history = before ++ ⟨.linkByName deviceName, .ok l⟩ ::
          configured deviceName link loc peer ipv6 addr ∧
        l.hardwareAddr = loc.hardware)) ↔
      ∀ e ∈ history.tail, ¬ LookupFailed e := by
  have hends := callsWithin_basicSetup deviceName loc peer
  rcases Fallible.path_bind.mp hpath with ⟨e, hlookup, rfl⟩ | ⟨link, _, later, hlookup, hlater, rfl⟩
  · obtain ⟨r, rfl, hres⟩ := Fallible.path_request.mp hlookup
    have hpanic : ¬ Panics (.error e : Except Failure Unit) := by
      rintro ⟨text, htext⟩
      cases r with
      | error err =>
        cases hres
        cases htext
      | ok l => cases hres
    simp only [hends, hpanic, List.tail_cons, List.not_mem_nil, false_imp_iff, implies_true,
      reduceCtorEq, and_true, not_false_eq_true, true_and, iff_true]
    exact Nat.zero_le _
  · obtain rfl := Fallible.path_request_ok.mp hlookup
    have hpart := parts_setUpLink deviceName link loc peer later res hlater
    constructor
    · rintro ⟨-, hpanic, -⟩ e he hfailed
      exact hpanic (hpart.panics.mpr ⟨e, he, hfailed⟩)
    · intro hfound
      refine ⟨hends, fun hpanic => ?_, hpart.attempts, ?_⟩
      · obtain ⟨e, he, hfailed⟩ := hpart.panics.mp hpanic
        exact hfound e he hfailed
      · rintro rfl
        obtain ⟨before, l, ipv6, addr, rfl, hl⟩ := path_setUpLink hlater
        exact ⟨⟨.linkByName deviceName, .ok link⟩ :: before, link, l, ipv6, addr, rfl, hl⟩

def hostEnd : DualAddress := ⟨[0xaa, 0xaa, 10, 255, 30, 5], [169, 254, 0, 1]⟩
def containerEnd : DualAddress := ⟨[0xee, 0xee, 10, 255, 30, 5], [10, 255, 30, 5]⟩
def hostLink : Link := ⟨ascii "s-010255030005", 7, [0xaa, 0xaa, 10, 255, 30, 5]⟩

theorem vanished_link_panics :
    (basicSetup (ascii "s-010255030005") hostEnd containerEnd).run.Path
      [⟨.linkByName (ascii "s-010255030005"), .ok hostLink⟩,
        ⟨.linkByName (ascii "s-010255030005"), .error (ascii "Link not found")⟩]
      (.error (.panic nilDereference)) :=
  ⟨.ok hostLink, _, rfl, .error (ascii "Link not found"), [], rfl, rfl, rfl⟩

def strayLink : Link := ⟨ascii "s-010255030005", 7, [0xff, 0xdd, 0x23, 0xf1, 0x9a, 0x43]⟩

def hostAddr : Addr := ⟨singleAddress [169, 254, 0, 1], none⟩

def retriedOnce : NetHistory :=
  [⟨.linkByName (ascii "s-010255030005"), .ok strayLink⟩,
    ⟨.linkByName (ascii "s-010255030005"), .ok strayLink⟩,
    ⟨.linkSetHardwareAddr strayLink hostEnd.hardware, .ok ()⟩,
    ⟨.linkByName (ascii "s-010255030005"), .ok hostLink⟩] ++
  configured (ascii "s-010255030005") strayLink hostEnd containerEnd (.ok ()) hostAddr

theorem basicSetup_safe_retried :
    ∃ before link l ipv6 addr,
      retriedOnce = before ++ ⟨.linkByName (ascii "s-010255030005"), .ok l⟩ ::
        configured (ascii "s-010255030005") link hostEnd containerEnd ipv6 addr ∧
      l.hardwareAddr = hostEnd.hardware := by
  have hpath : (basicSetup (ascii "s-010255030005") hostEnd containerEnd).run.Path retriedOnce
      (.ok ()) :=
    ⟨.ok strayLink, _, rfl, .ok strayLink, _, rfl, .ok (), _, rfl, .ok hostLink, _, rfl, .ok (), _,
      rfl, .ok (), _, rfl, .ok (), _, rfl, .ok hostAddr, _, rfl, .ok (), _, rfl, .ok (), _, rfl,
      .ok (), _, rfl, rfl, rfl⟩
  refine ((basicSetup_safe_iff _ _ _ hpath).mpr ?_).2.2.2 rfl
  simp [retriedOnce, configured, LookupFailed]

end Silk.Cni.Common
