import Silk.DaemonHost
import Silk.GoNetText
import Silk.LeaserGeometry
import Silk.ResumptionTriple

/-!
# The VTEP as an encoding of the lease

`create` turns a lease into the attributes of a VXLAN device and `createVTEP`
makes the device. After a restart `discoverLocalLease` prints the lease again
from the hardware address and the first address of the device. The prefix length
of the lease is not on the device; it is taken from the configuration.
-/

namespace Silk.Daemon

open GoNet Resumption Keyed
open Controller (Lease)

abbrev Boot : Type → Type := Fallible HostCall HostAnswer String String

def ask (q : HostCall) (context : String) : Boot (HostAnswer q) :=
  Fallible.request q (context ++ ·)

def within {α : Type} (context : String) (p : Boot α) : Boot α := Fallible.wrap (context ++ ·) p

def parsed {α : Type} (context : String) (res : Except String α) : Boot α :=
  Fallible.lift (res.mapError (context ++ ·))

structure VtepConfig where
  vtepName : String
  underlayInterface : Interface
  underlayIP : IP
  overlayIP : IP
  overlayHardwareAddr : HardwareAddr
  vni : ℤ
  overlayNetworkPrefixLength : ℕ
  vtepPort : ℤ

def hasAddress (toFind : IP) : List String → Except String Bool
  | [] => .ok false
  | addr :: rest =>
    match parseCIDR addr with
    | .error err => .error err
    | .ok (ip, _) => if ipString ip = ipString toFind then .ok true else hasAddress toFind rest

def scanInterfaces (toFind : IP) : List Interface → Boot Interface
  | [] => throw ("no interface with address " ++ ipString toFind)
  | iface :: rest => do
    let addrs ← ask (.interfaceAddrs iface) "get addresses: "
    let found ← parsed "parse address: " (hasAddress toFind addrs)
    if found then pure iface else scanInterfaces toFind rest

def locateInterface (toFind : IP) : Boot Interface := do
  let ifaces ← ask .interfaces "find interfaces: "
  scanInterfaces toFind ifaces

def underlayInterface (cfg : Config) (underlayIP : IP) : Boot Interface :=
  if cfg.vxlanInterfaceName ≠ "" then
    ask (.interfaceByName cfg.vxlanInterfaceName)
      ("find device from name " ++ cfg.vxlanInterfaceName ++ ": ")
  else within ("find device from ip " ++ ipString underlayIP ++ ": ") (locateInterface underlayIP)

def create (cfg : Config) (lease : Lease) : Boot VtepConfig :=
  if cfg.vtepName = "" then throw "empty vtep name"
  else if cfg.vtepPort < 1 then throw "vtep port must be greater than 0"
  else match parseIP cfg.underlayIP with
    | none => throw ("parse underlay ip: " ++ cfg.underlayIP)
    | some underlayIP => do
      let iface ← underlayInterface cfg underlayIP
      let overlay ← parsed "determine vtep overlay ip: " (parseCIDR lease.overlaySubnet)
      let hardwareAddr ← parsed "parsing hardware address: " (parseMAC lease.overlayHardwareAddr)
      let network ← parsed "determine overlay network: " (parseCIDR cfg.overlayNetwork)
      let prefixLength := (maskSize network.2.mask).1
      if cfg.subnetPrefixLength ≤ prefixLength then
        throw ("overlay prefix " ++ toString prefixLength ++
          " must be smaller than subnet prefix " ++ toString cfg.subnetPrefixLength)
      else
        pure ⟨cfg.vtepName, iface, underlayIP, overlay.1, hardwareAddr, cfg.vni, prefixLength,
          cfg.vtepPort⟩

/-- `net.CIDRMask` for 32 bits; nil outside the range. -/
def cidrMask32 (ones : ℤ) : IPMask := if ones < 0 then [] else cidrMask ones.toNat 32

namespace VtepConfig

def vxlan (v : VtepConfig) : Vxlan :=
  ⟨v.vtepName, v.overlayHardwareAddr, v.vni, v.underlayIP, v.vtepPort, v.underlayInterface.index,
    true⟩

def addr (v : VtepConfig) : IPNet := ⟨v.overlayIP, cidrMask32 v.overlayNetworkPrefixLength⟩

end VtepConfig

def createVTEP (v : VtepConfig) : Boot Unit := do
  ask (.linkAdd v.vxlan) ("create link " ++ v.vtepName ++ ": ")
  ask (.linkSetUp v.vtepName) "up link: "
  ask (.addrAddScopeLink v.vtepName v.addr) "add address: "

def deleteVTEP (deviceName : String) : Boot Unit := do
  let _ ← ask (.linkByName deviceName) ("find link " ++ deviceName ++ ": ")
  ask (.linkDel deviceName) ("delete link " ++ deviceName ++ ": ")

def getVTEPState (vtepName : String) : Boot (HardwareAddr × IP × ℤ) := do
  let link ← ask (.linkByName vtepName) "find link: "
  let addresses ← ask (.addrList vtepName) "list addresses: "
  match (addresses : List IPNet) with
  | [] => throw "no addresses"
  | addr :: _ => pure (link.1, addr.ip, link.2)

def leaseFromVTEPState (cfg : Config) (overlayHwAddr : HardwareAddr) (overlayIP : IP) : Lease :=
  ⟨cfg.underlayIP, netString (some ⟨overlayIP, cidrMask32 cfg.subnetPrefixLength⟩),
    hardwareAddrString overlayHwAddr⟩

def discoverLocalLease (cfg : Config) : Boot Lease := do
  let state ← within "get vtep overlay ip: " (getVTEPState cfg.vtepName)
  pure (leaseFromVTEPState cfg state.1 state.2.1)

namespace Host

theorem exec_quiet {ch : HostChoice} {q : HostCall} (hq : ch.fault q = none) (h : Host) :
    exec ch h q = respond ch h q := by
  rw [exec, hq]

theorem exec_ok {ch : HostChoice} {h t : Host} {q : HostCall} {a : HostAnswer q}
    (he : exec ch h q = (.ok a, t)) : respond ch h q = (.ok a, t) := by
  rw [exec] at he
  split at he
  · exact he
  · cases he

theorem respond_linkByName {ch : HostChoice} {h : Host} {l : Link} {name : String}
    (hl : h.link name = some l) :
    respond ch h (.linkByName name) = (.ok (l.hardwareAddr, l.mtu), h) := by
  rw [respond, hl]

theorem respond_addrList {ch : HostChoice} {h : Host} {l : Link} {name : String}
    (hl : h.link name = some l) : respond ch h (.addrList name) = (.ok (addrsV4 l), h) := by
  rw [respond, hl]

theorem respond_linkAdd {ch : HostChoice} {h : Host} {v : Vxlan} (hl : h.link v.name = none) :
    respond ch h (.linkAdd v) =
      (.ok (), h.set ⟨v.name, ch.index, v.hardwareAddr, ch.mtu, false, []⟩) := by
  rw [respond, hl]

theorem respond_linkAdd_exists {ch : HostChoice} {h : Host} {v : Vxlan} {l : Link}
    (hl : h.link v.name = some l) : respond ch h (.linkAdd v) = (.error "file exists", h) := by
  rw [respond, hl]

theorem respond_linkSetUp {ch : HostChoice} {h : Host} {l : Link} {name : String}
    (hl : h.link name = some l) :
    respond ch h (.linkSetUp name) = (.ok (), h.set { l with up := true }) := by
  rw [respond, hl]

theorem respond_addrAdd {ch : HostChoice} {h : Host} {l : Link} {name : String} {addr : IPNet}
    (hl : h.link name = some l) (hnew : addr ∉ l.addrs) :
    respond ch h (.addrAddScopeLink name addr) =
      (.ok (), h.set { l with addrs := l.addrs ++ [addr] }) := by
  rw [respond, hl]
  exact if_neg hnew

theorem link_set_self (h : Host) (l : Link) : link (h.set l) l.name = some l := by
  rw [link, Table.get_set, if_pos rfl]

theorem name_of_link {h : Host} {l : Link} {name : String} (hl : h.link name = some l) :
    l.name = name := (Table.get_eq_some.mp hl).2

end Host

def Carries (v : VtepConfig) (h : Host) : Prop :=
  ∃ l, h.link v.vtepName = some l ∧ l.hardwareAddr = v.overlayHardwareAddr ∧ l.up = true ∧
    l.addrs = [v.addr]

def Bare (v : VtepConfig) (h : Host) : Prop :=
  ∃ l, h.link v.vtepName = some l ∧ l.hardwareAddr = v.overlayHardwareAddr ∧ l.addrs = []

open Fallible (Triple)

/-- A created device carries its configuration; what an error leaves behind depends on the call
that failed. -/
theorem triple_createVTEP {allowed : HostChoice → Prop} {P : Host → Prop} {X : String → Host → Prop}
    (v : VtepConfig)
    (hadd : ∀ h ch e t, allowed ch → P h → Host.exec ch h (.linkAdd v.vxlan) = (.error e, t) →
      X ("create link " ++ v.vtepName ++ ": " ++ e) t)
    (hup : ∀ h ch e t, allowed ch → Bare v h →
      Host.exec ch h (.linkSetUp v.vtepName) = (.error e, t) → X ("up link: " ++ e) t)
    (haddr : ∀ h ch e t, allowed ch → Bare v h →
      Host.exec ch h (.addrAddScopeLink v.vtepName v.addr) = (.error e, t) →
        X ("add address: " ++ e) t) :
    Triple Host.exec allowed P (createVTEP v) (fun _ => Carries v) X := by
  refine Triple.bind (Q := fun _ => Bare v) (.request ?_ hadd) fun _ => ?_
  · intro h ch _ t _ _ hexec
    have hres := Host.exec_ok hexec
    cases hl : h.link v.vtepName with
    | none =>
      rw [Host.respond_linkAdd (v := v.vxlan) hl] at hres
      cases hres
      exact ⟨⟨v.vtepName, ch.index, v.overlayHardwareAddr, ch.mtu, false, []⟩,
        Host.link_set_self _ _, rfl, rfl⟩
    | some l =>
      rw [Host.respond_linkAdd_exists (v := v.vxlan) hl] at hres
      cases hres
  refine Triple.bind (Q := fun _ h => ∃ l, h.link v.vtepName = some l ∧
    l.hardwareAddr = v.overlayHardwareAddr ∧ l.up = true ∧ l.addrs = []) (.request ?_ hup)
      fun _ => ?_
  · rintro h ch _ t - ⟨l, hl, hhw, haddrs⟩ hexec
    have hres := Host.exec_ok hexec
    rw [Host.respond_linkSetUp hl] at hres
    cases hres
    refine ⟨{ l with up := true }, ?_, hhw, rfl, haddrs⟩
    rw [← Host.name_of_link hl]
    exact Host.link_set_self _ { l with up := true }
  · refine .request ?_ ?_
    · rintro h ch _ t - ⟨l, hl, hhw, hisUp, haddrs⟩ hexec
      have hres := Host.exec_ok hexec
      rw [Host.respond_addrAdd hl (by rw [haddrs]; exact List.not_mem_nil), haddrs] at hres
      cases hres
      refine ⟨{ l with addrs := [] ++ [v.addr] }, ?_, hhw, hisUp, rfl⟩
      rw [← Host.name_of_link hl]
      exact Host.link_set_self _ { l with addrs := [] ++ [v.addr] }
    · rintro h ch e t hch ⟨l, hl, hhw, -, haddrs⟩
      exact haddr h ch e t hch ⟨l, hl, hhw, haddrs⟩

def Shows (name : String) (hw : HardwareAddr) (addr : IPNet) (h : Host) : Prop :=
  ∃ l, h.link name = some l ∧ l.hardwareAddr = hw ∧ (Host.addrsV4 l).head? = some addr

theorem Carries.shows {v : VtepConfig} {h : Host} (hv : Carries v h) {x : IP}
    (hx : to4 v.overlayIP = some x) :
    Shows v.vtepName v.overlayHardwareAddr ⟨x, v.addr.mask⟩ h := by
  obtain ⟨l, hl, hhw, -, haddrs⟩ := hv
  refine ⟨l, hl, hhw, ?_⟩
  rw [Host.addrsV4, haddrs, List.filterMap_cons, VtepConfig.addr, hx]
  rfl

def HostChoice.Quiet (ch : HostChoice) : Prop := ∀ q, ch.fault q = none

theorem triple_getVTEPState {allowed : HostChoice → Prop} (hquiet : ∀ ch, allowed ch → ch.Quiet)
    {name : String} {hw : HardwareAddr} {addr : IPNet} :
    Triple Host.exec allowed (Shows name hw addr) (getVTEPState name)
      (fun st _ => st.1 = hw ∧ st.2.1 = addr.ip) fun _ _ => False := by
  refine Triple.bind (Q := fun link h => link.1 = hw ∧ Shows name hw addr h) (.request ?_ ?_)
    fun link => ?_
  · rintro h ch link t hch ⟨l, hl, hhw, hfirst⟩ hexec
    rw [Host.exec_quiet (hquiet ch hch _), Host.respond_linkByName hl] at hexec
    cases hexec
    exact ⟨hhw, l, hl, hhw, hfirst⟩
  · rintro h ch e t hch ⟨l, hl, -⟩ hexec
    rw [Host.exec_quiet (hquiet ch hch _), Host.respond_linkByName hl] at hexec
    cases hexec
  refine Triple.bind (Q := fun (addrs : List IPNet) _ => link.1 = hw ∧ addrs.head? = some addr)
    (.request ?_ ?_) fun addrs => ?_
  · rintro h ch addrs t hch ⟨hhw, l, hl, -, hfirst⟩ hexec
    rw [Host.exec_quiet (hquiet ch hch _), Host.respond_addrList hl] at hexec
    cases hexec
    exact ⟨hhw, hfirst⟩
  · rintro h ch e t hch ⟨-, l, hl, -⟩ hexec
    rw [Host.exec_quiet (hquiet ch hch _), Host.respond_addrList hl] at hexec
    cases hexec
  cases addrs with
  | nil => exact .throw fun h hs => Option.some_ne_none addr hs.2.symm
  | cons first rest =>
    refine .pure fun h hs => ⟨hs.1, ?_⟩
    have hfirst := Option.some.inj hs.2
    exact congrArg IPNet.ip hfirst

theorem triple_discoverLocalLease {allowed : HostChoice → Prop}
    (hquiet : ∀ ch, allowed ch → ch.Quiet) (cfg : Config) {hw : HardwareAddr} {addr : IPNet} :
    Triple Host.exec allowed (Shows cfg.vtepName hw addr) (discoverLocalLease cfg)
      (fun l _ => l = leaseFromVTEPState cfg hw addr.ip) fun _ _ => False := by
  refine Triple.bind (Triple.wrap (triple_getVTEPState hquiet)) fun st => .pure fun h hst => ?_
  rw [hst.1, hst.2]

def Describes (cfg : Config) (lease : Lease) (v : VtepConfig) : Prop :=
  v.vtepName = cfg.vtepName ∧ (∃ net, parseCIDR lease.overlaySubnet = .ok (v.overlayIP, net)) ∧
    parseMAC lease.overlayHardwareAddr = .ok v.overlayHardwareAddr

theorem triple_parsed {α : Type} {allowed : HostChoice → Prop} {P : Host → Prop} (context : String)
    (res : Except String α) :
    Triple Host.exec allowed P (parsed context res) (fun a h => res = .ok a ∧ P h)
      fun _ h => (∃ e, res = .error e) ∧ P h := by
  rcases res with e | a
  · exact .lift _ fun h hs => ⟨⟨e, rfl⟩, hs⟩
  · exact .lift _ fun h hs => ⟨rfl, hs⟩

theorem triple_create {allowed : HostChoice → Prop} (cfg : Config) (lease : Lease) :
    Triple Host.exec allowed (fun _ => True) (create cfg lease) (fun v _ => Describes cfg lease v)
      fun _ _ => True := by
  rw [create]
  split_ifs with hname hport
  · exact .throw fun _ _ => trivial
  · exact .throw fun _ _ => trivial
  cases parseIP cfg.underlayIP with
  | none => exact .throw fun _ _ => trivial
  | some underlayIP =>
    refine Triple.bind (.any _) fun iface => ?_
    refine Triple.bind ((triple_parsed _ _).weaken) fun overlay => ?_
    refine Triple.bind ((triple_parsed _ _).weaken) fun hardwareAddr => ?_
    refine Triple.bind ((triple_parsed _ _).weaken) fun network => ?_
    dsimp only
    split_ifs with hprefix
    · exact .throw fun _ _ => trivial
    · exact .pure fun h hs => ⟨rfl, ⟨overlay.2, hs.2.2.1⟩, hs.2.1⟩

theorem simpleMaskLength_cidrMask : ∀ m < 33, simpleMaskLength (cidrMask m 32) = some m := by decide

theorem netString_block (n : ℕ) {m : ℕ} (hm : m ≤ 32) :
    netString (some ⟨addrBytes n, cidrMask m 32⟩) = cidrText (addrBytes n) m := by
  have hlen : (cidrMask m 32).length = 4 := by
    rw [cidrMask_length hm, maskBytes_length]
  rw [netString, networkNumberAndMask, to4_addrBytes]
  simp only [hlen, if_true, simpleMaskLength_cidrMask m (Nat.lt_succ_of_le hm)]
  rw [ipString_of_to4 (to4_addrBytes n), cidrText, String.ofList_append]

theorem netString_outside (n : ℕ) {ones : ℤ} (h : ones < 0 ∨ 32 < ones) :
    netString (some ⟨addrBytes n, cidrMask32 ones⟩) = "<nil>" := by
  have hmask : cidrMask32 ones = [] := by
    rw [cidrMask32]
    split_ifs with hneg
    · rfl
    · rw [cidrMask, if_pos (Or.inr (by omega))]
  rw [hmask]
  rfl

def IsBlock (lease : Lease) (n m : ℕ) : Prop :=
  n < 2 ^ 32 ∧ m ≤ 32 ∧ lease.overlaySubnet = cidrText (addrBytes n) m ∧
    lease.overlayHardwareAddr = Leaser.macText n

/-- A lease the controller can grant: it is for this underlay address, its hardware address is
made from the subnet address, and the prefix length is the configured one or 32. -/
def Granted (cfg : Config) (lease : Lease) : Prop :=
  lease.underlayIP = cfg.underlayIP ∧ ∃ n m : ℕ, IsBlock lease n m ∧
    (m : ℤ) = if cfg.singleIPOnly then 32 else cfg.subnetPrefixLength

theorem Describes.of_block {cfg : Config} {lease : Lease} {v : VtepConfig}
    (hv : Describes cfg lease v) {n m : ℕ} (hblock : IsBlock lease n m) :
    v.overlayIP = v4InV6Prefix ++ addrBytes n ∧
      v.overlayHardwareAddr = [0xee, 0xee] ++ addrBytes n := by
  obtain ⟨-, hm, hsub, hmac⟩ := hblock
  obtain ⟨-, ⟨net, hip⟩, hhw⟩ := hv
  obtain ⟨net', hip'⟩ := Leaser.parseCIDR_slot (a := n) hm
  have hhw' : parseMAC (Leaser.macText n) = .ok ([0xee, 0xee] ++ addrBytes n) :=
    parseMAC_hardwareAddrString _ _ _ _ _ _
  rw [hsub, hip'] at hip
  rw [hmac, hhw'] at hhw
  exact ⟨(congrArg Prod.fst (Except.ok.inj hip)).symm, (Except.ok.inj hhw).symm⟩

theorem subnet_printed_iff {cfg : Config} {n m : ℕ} (hn : n < 2 ^ 32) (hm : m ≤ 32)
    (hlen : (m : ℤ) = if cfg.singleIPOnly then 32 else cfg.subnetPrefixLength) :
    netString (some ⟨addrBytes n, cidrMask32 cfg.subnetPrefixLength⟩) = cidrText (addrBytes n) m ↔
      cfg.singleIPOnly = false ∨ cfg.subnetPrefixLength = 32 := by
  by_cases hrange : 0 ≤ cfg.subnetPrefixLength ∧ cfg.subnetPrefixLength ≤ 32
  · obtain ⟨p, hp⟩ := Int.eq_ofNat_of_zero_le hrange.1
    have hp32 : p ≤ 32 := by omega
    have hmask : cidrMask32 cfg.subnetPrefixLength = cidrMask p 32 := by
      rw [cidrMask32, hp, if_neg (by omega)]
      rfl
    rw [hmask, netString_block n hp32]
    have hpm : cidrText (addrBytes n) p = cidrText (addrBytes n) m ↔ p = m :=
      ⟨fun h => (Leaser.cidrText_injective hn hn hp32 hm h).2, fun h => by rw [h]⟩
    rw [hpm]
    cases hs : cfg.singleIPOnly <;> simp [hs] at hlen ⊢ <;> omega
  · have hout : cfg.subnetPrefixLength < 0 ∨ 32 < cfg.subnetPrefixLength := by omega
    rw [netString_outside n hout]
    have hne : "<nil>" ≠ cidrText (addrBytes n) m := by
      intro h
      have hmem : '/' ∈ (cidrText (addrBytes n) m).toList := by
        rw [cidrText_toList]
        simp
      rw [← h] at hmem
      exact absurd hmem (by decide)
    cases hs : cfg.singleIPOnly <;> simp [hs] at hlen <;> simp [hne] <;> omega

theorem discovered_lease_iff {cfg : Config} {lease : Lease} (hlease : Granted cfg lease)
    {allowed : HostChoice → Prop} {h h₁ h₂ h₃ : Host} {v : VtepConfig} {res : Except String Lease}
    (hcreate : (create cfg lease).run.Runs Host.exec allowed h (.ok v) h₁)
    (hvtep : (createVTEP v).run.Runs Host.exec allowed h₁ (.ok ()) h₂)
    (hdiscover : (discoverLocalLease cfg).run.Runs Host.exec HostChoice.Quiet h₂ res h₃) :
    res = .ok lease ↔ cfg.singleIPOnly = false ∨ cfg.subnetPrefixLength = 32 := by
  obtain ⟨hunder, n, m, ⟨hn, hm, hsub, hmac⟩, hlen⟩ := hlease
  have hdesc := triple_create cfg lease h (.ok v) h₁ trivial hcreate
  obtain ⟨hover, hhard⟩ := hdesc.of_block ⟨hn, hm, hsub, hmac⟩
  have hcarries : Carries v h₂ :=
    triple_createVTEP (P := fun _ => True) (X := fun _ _ => True) v (fun _ _ _ _ _ _ _ => trivial)
      (fun _ _ _ _ _ _ _ => trivial) (fun _ _ _ _ _ _ _ => trivial) h₁ (.ok ()) h₂ trivial hvtep
  have hx : to4 v.overlayIP = some (addrBytes n) := by
    rw [hover]
    rfl
  have hshows := hcarries.shows hx
  rw [hdesc.1] at hshows
  obtain ⟨l, rfl, hl⟩ := (triple_discoverLocalLease (fun _ hch => hch) cfg).ok hshows hdiscover
  rw [← subnet_printed_iff hn hm hlen, hl, hhard, ← hsub]
  constructor
  · intro heq
    exact congrArg Lease.overlaySubnet (Except.ok.inj heq)
  · intro heq
    have hprinted : leaseFromVTEPState cfg ([0xee, 0xee] ++ addrBytes n) (addrBytes n) = lease := by
      rw [leaseFromVTEPState, heq, ← hunder]
      exact congrArg (Lease.mk _ _) hmac.symm
    exact congrArg Except.ok hprinted

def sampleConfig (single : Bool) : Config where
  underlayIP := "10.0.0.5"
  vxlanInterfaceName := ""
  subnetPrefixLength := 24
  overlayNetwork := "10.255.0.0/16"
  healthCheckPort := 23954
  vtepName := "silk-vtep"
  connectivityServerURL := "https://silk-controller:4103"
  serverCACertFile := "ca.crt"
  clientCertFile := "client.crt"
  clientKeyFile := "client.key"
  vni := 1
  vtepPort := 4789
  pollInterval := 5
  debugServerPort := 22233
  datastore := "store.json"
  partitionToleranceSeconds := 3600
  clientTimeoutSeconds := 5
  metronPort := 3457
  logPrefix := "cfnetworking"
  logLevel := ""
  singleIPOnly := single

def sampleHost : Host :=
  ⟨[⟨"eth0", 2, [2, 0, 0, 0, 0, 5], 1500, true, [⟨[10, 0, 0, 5], [255, 255, 255, 0]⟩]⟩], by decide⟩

def sampleLease : Lease := ⟨"10.0.0.5", "10.255.30.0/24", "ee:ee:0a:ff:1e:00"⟩

def singleLease : Lease := ⟨"10.0.0.5", "10.255.0.32/32", "ee:ee:0a:ff:00:20"⟩

def sampleVtep (overlayIP : IP) (hw : HardwareAddr) : VtepConfig :=
  ⟨"silk-vtep", ⟨2, "eth0"⟩, ipv4 10 0 0 5, overlayIP, hw, 1, 16, 4789⟩

def quietChoice (lease : Lease) : HostChoice := ⟨fun _ => none, lease, 0, 7, 1450⟩

theorem runs_with {α : Type} {allowed : HostChoice → Prop} (ch : HostChoice) (hch : allowed ch)
    (p : Boot α) (h : Host) :
    p.run.Runs Host.exec allowed h (p.run.runWith Host.exec ch h).1
      (p.run.runWith Host.exec ch h).2 :=
  Program.runs_runWith hch p.run h

theorem quietChoice_quiet (lease : Lease) : (quietChoice lease).Quiet := fun _ => rfl

theorem sampleLease_granted : Granted (sampleConfig false) sampleLease :=
  ⟨rfl, 0x0aff1e00, 24, ⟨by decide, by decide, rfl, rfl⟩, rfl⟩

theorem singleLease_granted : Granted (sampleConfig true) singleLease :=
  ⟨rfl, 0x0aff0020, 32, ⟨by decide, by decide, rfl, rfl⟩, rfl⟩

theorem discovered_lease_sample :
    (sampleConfig false).load = .ok (sampleConfig false) ∧
    ∃ h, (createVTEP (sampleVtep (ipv4 10 255 30 0) [0xee, 0xee, 10, 255, 30, 0])).run.Runs
      Host.exec
        HostChoice.Quiet sampleHost (.ok ()) h ∧
      ∀ res t, (discoverLocalLease (sampleConfig false)).run.Runs Host.exec
        HostChoice.Quiet h res t → res = .ok sampleLease := by
  have hcreate :=
    runs_with _ (quietChoice_quiet sampleLease) (create (sampleConfig false) sampleLease) sampleHost
  have hvtep := runs_with _ (quietChoice_quiet sampleLease)
    (createVTEP (sampleVtep (ipv4 10 255 30 0) [0xee, 0xee, 10, 255, 30, 0])) sampleHost
  exact ⟨rfl, _, hvtep, fun res t hdiscover =>
    (discovered_lease_iff sampleLease_granted hcreate hvtep hdiscover).mpr (Or.inl rfl)⟩

theorem discovered_lease_widened :
    (sampleConfig true).load = .ok (sampleConfig true) ∧ Granted (sampleConfig true) singleLease ∧
    (create (sampleConfig true) singleLease).run.Runs Host.exec HostChoice.Quiet sampleHost
      (.ok (sampleVtep (ipv4 10 255 0 32) [0xee, 0xee, 10, 255, 0, 32])) sampleHost ∧
    ∃ h, (createVTEP (sampleVtep (ipv4 10 255 0 32) [0xee, 0xee, 10, 255, 0, 32])).run.Runs
      Host.exec
        HostChoice.Quiet sampleHost (.ok ()) h ∧
      (discoverLocalLease (sampleConfig true)).run.Runs Host.exec HostChoice.Quiet h
        (.ok ⟨"10.0.0.5", "10.255.0.32/24", "ee:ee:0a:ff:00:20"⟩) h :=
  have hquiet := quietChoice_quiet singleLease
  ⟨rfl, singleLease_granted, runs_with _ hquiet _ _, _, runs_with _ hquiet _ _,
    runs_with _ hquiet _ _⟩

end Silk.Daemon
