import Silk.CniPlugin
import Silk.ControllerClient
import Silk.DaemonStart
import Silk.GoJsonInteger

/-!
# The network that the plugin learns from the daemon

The daemon announces the subnet of its lease and the MTU of the VTEP on the
health check port. The plugin asks there over HTTP, and makes the configuration
of the IPAM plugin from the reply. It reads what the daemon announces or gets an
error, and the addresses in the configuration are those of the subnet.
-/

namespace Silk.Cni

open GoJson GoNet Resumption
open Controller (HttpRequest HttpReply)
open Daemon (TransportError DoError StatusOK)

def networkInfoRecord : Record Daemon.NetworkInfo where
  fields := [.text "overlay_subnet" (·.overlaySubnet)
    fun s info => { info with overlaySubnet := s },
    .int "mtu" (·.mtu) fun n info => { info with mtu := n }]
  zero := ⟨"", 0⟩

def buildHealthCheckServer (networkInfo : Daemon.NetworkInfo) :
    Except String (HttpRequest → HttpReply) :=
  match networkInfoRecord.marshal networkInfo with
  | .error err => .error ("unmarshaling network info: " ++ ofUTF8 err)
  | .ok networkBytes => .ok fun _ => ⟨StatusOK, networkBytes⟩

section

variable (jsonError : GoString → DecodeError → String)

def readNetworkInfo : GoString → Except DoError Daemon.NetworkInfo :=
  Controller.Client.unmarshalResponse jsonError networkInfoRecord

/-- `netinfo.Daemon.Get`, whose caller puts the error into its context. -/
def daemonGet : Controller.Client.Exchange Daemon.NetworkInfo :=
  Controller.Client.exchange ⟨.GET, "/", []⟩ (readNetworkInfo jsonError)

end

theorem networkInfo_read (info : Daemon.NetworkInfo) :
    ∃ text, networkInfoRecord.marshal info = .ok text ∧
      networkInfoRecord.unmarshal text =
        if FitsInt64 info.mtu then .ok info else .error .unmarshalType := by
  have hsends : networkInfoRecord.Sends info := by
    constructor
    · simp only [networkInfoRecord, List.forall_mem_cons, Field.text, Field.int, Value.Clean,
        validUTF8_utf8, and_true, List.not_mem_nil, false_implies, implies_true]
      decide
    · simp [networkInfoRecord, Field.text, Field.int, Value.depth, maxNestingDepth]
  have hfold : (networkInfoRecord.members info).foldlM networkInfoRecord.setMember
      networkInfoRecord.zero = ((parseInt (appendInt info.mtu)).map fun n =>
        (⟨ofUTF8 (utf8 info.overlaySubnet), n⟩ : Daemon.NetworkInfo)).bind some := rfl
  obtain ⟨text, hmarshal, hunmarshal⟩ := Record.unmarshal_members (r := networkInfoRecord) hsends
  refine ⟨text, hmarshal, ?_⟩
  rw [hunmarshal, hfold, parseInt_appendInt, ofUTF8_utf8]
  split_ifs
  · rfl
  · rfl

theorem receive_announced {jsonError : GoString → DecodeError → String}
    {info info' : Daemon.NetworkInfo}
    {handler : HttpRequest → HttpReply} (h : buildHealthCheckServer info = .ok handler)
    {req : HttpRequest}
    (hread : Controller.Client.receive (readNetworkInfo jsonError) (handler req) = .ok info') :
    info' = info := by
  obtain ⟨text, hmarshal, hunmarshal⟩ := networkInfo_read info
  rw [buildHealthCheckServer, hmarshal] at h
  cases h
  have hstatus : ¬ 299 < StatusOK := by decide
  change (if 299 < StatusOK then _ else readNetworkInfo jsonError text) = _ at hread
  rw [if_neg hstatus, readNetworkInfo, Controller.Client.unmarshalResponse, hunmarshal] at hread
  split_ifs at hread
  cases hread
  rfl

def discovered : Except DoError Daemon.NetworkInfo → Except GoString NetworkInfo
  | .ok info => .ok ⟨utf8 info.overlaySubnet, info.mtu⟩
  | .error err => .error (utf8 err.text)

def fetched (jsonError : GoString → DecodeError → String) :
    Except TransportError HttpReply → Except DoError Daemon.NetworkInfo
  | .error err => .error (.other err.text)
  | .ok reply => Controller.Client.receive (readNetworkInfo jsonError) reply

theorem discovered_announced {jsonError : GoString → DecodeError → String}
    {resp : Except TransportError HttpReply} {info : NetworkInfo}
    (h : discovered (fetched jsonError resp) = .ok info) :
    ∃ reply, resp = .ok reply ∧ ∀ announced handler req,
      buildHealthCheckServer announced = .ok handler → reply = handler req →
        info.overlaySubnet = utf8 announced.overlaySubnet := by
  cases resp with
  | error err => cases h
  | ok reply =>
    refine ⟨reply, rfl, ?_⟩
    rintro announced handler req hserver rfl
    cases hread : Controller.Client.receive (readNetworkInfo jsonError) (handler req) with
    | error err =>
      simp only [fetched, hread] at h
      cases h
    | ok info' =>
      simp only [fetched, hread] at h
      cases h
      rw [receive_announced hserver hread]

theorem text_ascii {s : String} (h : ∀ c ∈ s.toList, c.toNat < 0x80) : text (ascii s) = s := by
  rw [text, ascii, List.map_map]
  have hid : s.toList.map ((fun b => Char.ofNat b.toNat) ∘ fun c => UInt8.ofNat c.toNat) =
      s.toList := by
    refine (List.map_congr_left fun c hc => ?_).trans (List.map_id _)
    have hmod : c.toNat % 256 = c.toNat := Nat.mod_eq_of_lt (Nat.lt_trans (h c hc) (by decide))
    rw [Function.comp_apply, UInt8.toNat_ofNat', hmod, Char.ofNat_toNat]
    rfl
  rw [hid, String.ofList_toList]

theorem toNat_lt_of_isDigit {c : Char} (h : c.isDigit = true) : c.toNat < 0x80 := by
  simp only [Char.isDigit, Bool.and_eq_true, decide_eq_true_eq] at h
  exact Nat.lt_of_le_of_lt h.2 (by decide)

theorem toNat_lt_of_mem_dotted {bytes : List UInt8} {c : Char} (h : c ∈ dotted bytes) :
    c.toNat < 0x80 := by
  rcases dotted_chars bytes h with hc | rfl
  · exact toNat_lt_of_isDigit hc
  · decide

theorem toNat_lt_of_mem_cidrText {bytes : List UInt8} {m : ℕ} {c : Char}
    (h : c ∈ (cidrText bytes m).toList) : c.toNat < 0x80 := by
  rw [cidrText_toList, List.mem_append, List.mem_cons] at h
  rcases h with h | rfl | h
  · exact toNat_lt_of_mem_dotted h
  · decide
  · exact toNat_lt_of_isDigit (decimal_isDigit h)

theorem contains_unmasked (n : ℕ) {m : ℕ} (hm : m ≤ 32) (x : IP) :
    IPNet.contains ⟨v4InV6Prefix ++ addrBytes n, cidrMask m 32⟩ x =
      IPNet.contains ⟨List.zipWith (· &&& ·) (addrBytes n) (cidrMask m 32), cidrMask m 32⟩ x := by
  rw [cidrMask_length hm]
  have hfull : networkNumberAndMask ⟨v4InV6Prefix ++ addrBytes n, maskBytes 4 m⟩ =
      some (addrBytes n, maskBytes 4 m) := rfl
  have hmasked : networkNumberAndMask
      ⟨List.zipWith (· &&& ·) (addrBytes n) (maskBytes 4 m), maskBytes 4 m⟩ =
      some (List.zipWith (· &&& ·) (addrBytes n) (maskBytes 4 m), maskBytes 4 m) := rfl
  simp only [IPNet.contains, hfull, hmasked, mask_idem]
  rfl

theorem generateConfig_covers {n m : ℕ} (hm : m ≤ 32) {network dataDir : GoString}
    {ipam : IPAMConfig}
    (h : generateConfig (utf8 (cidrText (addrBytes n) m)) network dataDir = .ok ipam) {x : IP}
    (hx : ipam.subnet.contains x = true) : covers (cidrText (addrBytes n) m) x := by
  have htext : text (utf8 (cidrText (addrBytes n) m)) = cidrText (addrBytes n) m := by
    rw [utf8_ascii fun c hc => toNat_lt_of_mem_cidrText hc]
    exact text_ascii fun c hc => toNat_lt_of_mem_cidrText hc
  have hparse : parseCIDR (cidrText (addrBytes n) m) = .ok (v4InV6Prefix ++ addrBytes n,
      ⟨List.zipWith (· &&& ·) (addrBytes n) (cidrMask m 32), cidrMask m 32⟩) :=
    parseCIDR_cidrText _ _ _ _ hm
  rw [generateConfig, htext, hparse] at h
  cases h
  refine ⟨_, _, hparse, ?_⟩
  rw [← contains_unmasked n hm]
  exact hx

end Silk.Cni
