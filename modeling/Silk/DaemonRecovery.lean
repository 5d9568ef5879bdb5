import Silk.DaemonStart

/-!
# Recovery of the daemon

A VTEP is whole if it is absent, or up with an IPv4 address. Starts keep it whole
as long as creating it is not interrupted half way, and from a whole VTEP a start
without faults reaches the poller. A VTEP without an address is never repaired:
discovery reports it as missing and creating it fails because it exists.
-/

namespace Silk.Daemon

open GoNet Resumption Keyed
open Controller (Lease)
open Fallible (Triple Reads)

def Whole (name : String) (h : Host) : Prop :=
  ∀ l, h.link name = some l → l.up = true ∧ Host.addrsV4 l ≠ []

def Torn (name : String) (h : Host) : Prop := ∃ l, h.link name = some l ∧ Host.addrsV4 l = []

def Leased (lease : Lease) : Prop := ∃ n m, IsBlock lease n m

/-- The controller grants IPv4 blocks, and no fault leaves the VTEP half created. -/
structure HostChoice.Tolerable (ch : HostChoice) : Prop where
  leased : Leased ch.lease
  linkAdd : ∀ v f, ch.fault (.linkAdd v) = some f → f.applied = false
  linkSetUp : ∀ name, ch.fault (.linkSetUp name) = none
  addrAdd : ∀ name addr, ch.fault (.addrAddScopeLink name addr) = none

theorem exec_linkAdd_error {ch : HostChoice} (hch : ch.Tolerable) {h t : Host} {v : Vxlan}
    {e : String} (hexec : Host.exec ch h (.linkAdd v) = (.error e, t)) : t = h := by
  rw [Host.exec] at hexec
  cases hf : ch.fault (.linkAdd v) with
  | none =>
    rw [hf] at hexec
    cases hl : h.link v.name with
    | none => simp [Host.respond_linkAdd hl] at hexec
    | some l =>
      simp only [Host.respond_linkAdd_exists hl, Prod.mk.injEq] at hexec
      exact hexec.2.symm
  | some f =>
    simp only [hf, hch.linkAdd v f hf, Bool.false_eq_true, if_false, Prod.mk.injEq] at hexec
    exact hexec.2.symm

theorem Carries.whole {v : VtepConfig} {h : Host} (hv : Carries v h) {x : IP}
    (hx : to4 v.overlayIP = some x) : Whole v.vtepName h := by
  obtain ⟨l, hl, -, hup, haddrs⟩ := hv
  intro l' hl'
  rw [hl] at hl'
  cases hl'
  refine ⟨hup, ?_⟩
  simp [Host.addrsV4, haddrs, VtepConfig.addr, hx]

theorem bare_addrAdd_ok {v : VtepConfig} {h t : Host} {ch : HostChoice} {e : String} (hb : Bare v h)
    (hexec : Host.respond ch h (.addrAddScopeLink v.vtepName v.addr) = (.error e, t)) : False := by
  obtain ⟨l, hl, -, haddrs⟩ := hb
  rw [Host.respond_addrAdd hl (by simp [haddrs])] at hexec
  cases hexec

theorem bare_linkSetUp_ok {v : VtepConfig} {h t : Host} {ch : HostChoice} {e : String}
    (hb : Bare v h)
    (hexec : Host.respond ch h (.linkSetUp v.vtepName) = (.error e, t)) : False := by
  obtain ⟨l, hl, -⟩ := hb
  rw [Host.respond_linkSetUp hl] at hexec
  cases hexec

theorem keeps_createVTEP {cfg : Config} {lease : Lease} (hlease : Leased lease) {v : VtepConfig}
    (hv : Describes cfg lease v) :
    Triple Host.exec HostChoice.Tolerable (Whole cfg.vtepName) (createVTEP v)
      (fun _ => Whole cfg.vtepName) fun _ => Whole cfg.vtepName := by
  obtain ⟨n, m, hblock⟩ := hlease
  have hx : to4 v.overlayIP = some (addrBytes n) := by
    rw [(hv.of_block hblock).1]
    rfl
  refine Triple.mono (triple_createVTEP (X := fun _ => Whole cfg.vtepName) v ?_ ?_ ?_)
    (fun _ hs => hs) (fun _ h hc => hv.1 ▸ hc.whole hx) fun _ _ hs => hs
  · intro h ch e t hch hs hexec
    rw [exec_linkAdd_error hch hexec]
    exact hs
  · intro h ch e t hch hb hexec
    rw [Host.exec_quiet (hch.linkSetUp _)] at hexec
    exact (bare_linkSetUp_ok hb hexec).elim
  · intro h ch e t hch hb hexec
    rw [Host.exec_quiet (hch.addrAdd _ _)] at hexec
    exact (bare_addrAdd_ok hb hexec).elim

abbrev Keeps {α : Type} (cfg : Config) (p : Boot α) : Prop :=
  Triple Host.exec HostChoice.Tolerable (Whole cfg.vtepName) p (fun _ => Whole cfg.vtepName)
    fun _ => Whole cfg.vtepName

theorem triple_requestLease {allowed : HostChoice → Prop} {P : Host → Prop} (cfg : Config)
    {R : Lease → Prop} (hR : ∀ ch, allowed ch → R ch.lease) :
    Triple Host.exec allowed P (requestLease cfg) (fun lease h => R lease ∧ P h) fun _ => P := by
  have hreq : Triple Host.exec allowed P (requestLease cfg) (fun lease _ => R lease)
      fun _ _ => True := by
    rw [requestLease]
    split_ifs
    · refine .request (fun h ch lease t hch _ hexec => ?_) fun _ _ _ _ _ _ _ => trivial
      cases Host.exec_ok hexec
      exact hR ch hch
    · refine .request (fun h ch lease t hch _ hexec => ?_) fun _ _ _ _ _ _ _ => trivial
      cases Host.exec_ok hexec
      exact hR ch hch
  exact (hreq.and (reads_requestLease cfg allowed P)).onError fun _ _ hx => hx.2

theorem keeps_acquireLease (cfg : Config) : Keeps cfg (acquireLease cfg) := by
  refine Triple.bind (triple_requestLease cfg (R := Leased) fun ch hch => hch.leased)
    fun lease => ?_
  split_ifs with hport
  · exact .throw fun h hs => hs.2
  refine Triple.bind (Triple.wrap ((triple_create_reads cfg lease).onError fun _ _ hx => hx.2))
    fun v => ?_
  refine Triple.bind (Triple.wrap (.of_states fun h hs => ?_)) fun _ => .pure fun _ hs => hs
  exact (keeps_createVTEP hs.2.1 hs.1).of_state hs.2.2

theorem keeps_deleteVTEP (cfg : Config) : Keeps cfg (deleteVTEP cfg.vtepName) := by
  refine Triple.bind (reads_ask (.linkByName _) rfl _ _ _) fun _ => ?_
  have hdel : ∀ h ch, Whole cfg.vtepName h →
      Whole cfg.vtepName (Host.exec ch h (.linkDel cfg.vtepName)).2 := by
    intro h ch hs
    have hres : Whole cfg.vtepName (Host.respond ch h (.linkDel cfg.vtepName)).2 := by
      rw [Host.respond]
      cases hl : h.link cfg.vtepName with
      | none => exact hs
      | some l =>
        intro l' hl'
        simp [Host.link, Table.get_erase] at hl'
    rw [Host.exec]
    cases ch.fault (.linkDel cfg.vtepName) with
    | none => exact hres
    | some f =>
      dsimp only
      split_ifs
      · exact hres
      · exact hs
  refine .request (fun h ch a t _ hs hexec => ?_) fun h ch e t _ hs hexec => ?_
  · have hafter := hdel h ch hs
    rw [hexec] at hafter
    exact hafter
  · have hafter := hdel h ch hs
    rw [hexec] at hafter
    exact hafter

theorem keeps_replaceLease (cfg : Config) (refusal : String) :
    Keeps cfg (replaceLease cfg refusal) := by
  refine Triple.bind (reads_ask (.readAll _) rfl _ _ _) fun containers => ?_
  split_ifs
  · exact .throw fun _ hs => hs
  · exact Triple.bind (Triple.wrap (keeps_deleteVTEP cfg)) fun _ => keeps_acquireLease cfg

theorem keeps_establishLease (cfg : Config) (overlayNetwork : IPNet) :
    Keeps cfg (establishLease cfg overlayNetwork) := by
  refine Triple.bind (Reads.attempt (reads_discoverLocalLease cfg) _ _) fun discovered => ?_
  cases discovered with
  | error e => exact keeps_acquireLease cfg
  | ok lease =>
    refine Triple.bind (Q := fun _ => Whole cfg.vtepName) ?_ fun lease => ?_
    · refine Triple.bind (Reads.lift _ _ _) fun subnet => ?_
      split_ifs
      · exact .pure fun _ hs => hs
      · exact keeps_replaceLease cfg _
    · refine Triple.bind (Reads.attempt (reads_ask (.renewSubnetLease lease) rfl _) _ _)
        fun renewed => ?_
      cases renewed with
      | ok _ => exact .pure fun _ hs => hs
      | error _ => exact keeps_replaceLease cfg _

theorem keeps_start (cfg : Config) : Keeps cfg (start cfg) :=
  Triple.bind (Reads.lift _ _ _) fun _ => Triple.bind (keeps_establishLease cfg _) fun lease =>
    Triple.bind (Triple.wrap (reads_getNetworkInfo cfg lease _ _)) fun _ =>
      Triple.bind (Reads.lift _ _ _) fun _ =>
        Triple.bind (reads_ask (.interfaceByName _) rfl _ _ _) fun _ => .pure fun _ hs => hs

structure HostChoice.Healthy (ch : HostChoice) : Prop where
  quiet : ch.Quiet
  leased : Leased ch.lease
  containers : ch.containers = 0

def Matches (underlayIP : IP) (addr : String) : Prop :=
  ∃ ip net, parseCIDR addr = .ok (ip, net) ∧ ipString ip = ipString underlayIP

def HasUnderlay (cfg : Config) (underlayIP : IP) (h : Host) : Prop :=
  if cfg.vxlanInterfaceName ≠ "" then h.link cfg.vxlanInterfaceName ≠ none
  else (∃ l ∈ h.entries, ∃ a ∈ l.addrs, Matches underlayIP (netString (some a))) ∧
    ∀ l ∈ h.entries, ∀ a ∈ l.addrs, ∃ res, parseCIDR (netString (some a)) = .ok res

theorem hasAddress_ok (toFind : IP) {addrs : List String}
    (hparse : ∀ a ∈ addrs, ∃ res, parseCIDR a = .ok res) :
    ∃ found, hasAddress toFind addrs = .ok found ∧
      (found = true ↔ ∃ a ∈ addrs, Matches toFind a) := by
  induction addrs with
  | nil => exact ⟨false, rfl, by simp⟩
  | cons a rest ih =>
    obtain ⟨⟨ip, net⟩, hres⟩ := hparse a List.mem_cons_self
    obtain ⟨found, hfound, hiff⟩ := ih fun b hb => hparse b (List.mem_cons_of_mem a hb)
    have hmatch : Matches toFind a ↔ ipString ip = ipString toFind := by
      simp [Matches, hres]
    by_cases heq : ipString ip = ipString toFind
    · exact ⟨true, by simp [hasAddress, hres, heq], by simp [hmatch, heq]⟩
    · exact ⟨found, by simp [hasAddress, hres, heq, hfound], by simp [hmatch, heq, hiff]⟩

theorem triple_scanInterfaces {toFind : IP} {h : Host} {ls : List Link}
    (hsub : ∀ l ∈ ls, l ∈ h.entries)
    (hparse : ∀ l ∈ h.entries, ∀ a ∈ l.addrs, ∃ res, parseCIDR (netString (some a)) = .ok res)
    (hfound : ∃ l ∈ ls, ∃ a ∈ l.addrs, Matches toFind (netString (some a))) :
    Triple Host.exec HostChoice.Quiet (· = h)
      (scanInterfaces toFind (ls.map fun l => ⟨l.index, l.name⟩)) (fun _ _ => True)
      fun _ _ => False := by
  induction ls with
  | nil =>
    obtain ⟨l, hl, -⟩ := hfound
    exact absurd hl List.not_mem_nil
  | cons l rest ih =>
    have hl : h.link l.name = some l := Table.get_eq_some.mpr ⟨hsub l List.mem_cons_self, rfl⟩
    have hall : ∀ a ∈ l.addrs.map fun a => netString (some a), ∃ res, parseCIDR a = .ok res := by
      simpa using hparse l (hsub l List.mem_cons_self)
    obtain ⟨found, hres, hiff⟩ := hasAddress_ok toFind hall
    refine Triple.bind
      (Q := fun addrs t => addrs = (l.addrs.map fun a => netString (some a)) ∧ t = h)
      (.request ?_ ?_) fun addrs => ?_
    · rintro _ ch addrs t hch rfl hexec
      rw [Host.exec_quiet (hch _), Host.respond, hl] at hexec
      cases hexec
      exact ⟨rfl, rfl⟩
    · rintro _ ch e t hch rfl hexec
      rw [Host.exec_quiet (hch _), Host.respond, hl] at hexec
      cases hexec
    refine Triple.bind (Q := fun b t => b = found ∧ t = h) (.lift _ ?_) fun b => .of_states ?_
    · rintro _ ⟨rfl, rfl⟩
      rw [hres]
      exact ⟨rfl, rfl⟩
    · rintro _ ⟨rfl, rfl⟩
      split_ifs with hb
      · exact .pure fun _ _ => trivial
      · refine ih (fun l' hl' => hsub l' (List.mem_cons_of_mem l hl')) ?_
        obtain ⟨l', hl', a, ha, hmatch⟩ := hfound
        rcases List.mem_cons.mp hl' with rfl | hrest
        · exact absurd (hiff.mpr ⟨_, List.mem_map_of_mem ha, hmatch⟩) hb
        · exact ⟨l', hrest, a, ha, hmatch⟩

theorem triple_underlayInterface {cfg : Config} {underlayIP : IP} :
    Triple Host.exec HostChoice.Quiet (HasUnderlay cfg underlayIP)
      (underlayInterface cfg underlayIP) (fun _ _ => True) fun _ _ => False := by
  rw [underlayInterface]
  by_cases hname : cfg.vxlanInterfaceName ≠ ""
  · rw [if_pos hname]
    refine .request (fun _ _ _ _ _ _ _ => trivial) fun h ch e t hch hs hexec => ?_
    rw [HasUnderlay, if_pos hname] at hs
    obtain ⟨l, hl⟩ := Option.ne_none_iff_exists'.mp hs
    rw [Host.exec_quiet (hch _), Host.respond, hl] at hexec
    cases hexec
  · rw [if_neg hname]
    refine Triple.wrap (.of_states fun h hs => ?_)
    rw [HasUnderlay, if_neg hname] at hs
    refine Triple.bind
      (Q := fun ifaces t => ifaces = (h.entries.map fun l => ⟨l.index, l.name⟩) ∧ t = h)
      (.request ?_ ?_) fun ifaces => .of_states ?_
    · rintro _ ch ifaces t hch rfl hexec
      rw [Host.exec_quiet (hch _)] at hexec
      cases hexec
      exact ⟨rfl, rfl⟩
    · rintro _ ch e t hch rfl hexec
      rw [Host.exec_quiet (hch _)] at hexec
      cases hexec
    · rintro _ ⟨rfl, rfl⟩
      exact triple_scanInterfaces (fun _ hl => hl) hs.2 hs.1

/-- An accepted configuration with an underlay address and an overlay network that is larger
than a subnet. -/
structure Usable (cfg : Config) (underlayIP : IP) : Prop where
  accepted : cfg.load = .ok cfg
  underlay : parseIP cfg.underlayIP = some underlayIP
  overlay : ∃ ip net, parseCIDR cfg.overlayNetwork = .ok (ip, net) ∧
    ((maskSize net.mask).1 : ℤ) < cfg.subnetPrefixLength
  subnet : cfg.subnetPrefixLength ≤ 32

theorem checks_of_load {cfg : Config} (h : cfg.load = .ok cfg) : ∀ c ∈ cfg.checks, c.2 = true := by
  rw [Config.load] at h
  split_ifs at h with hall
  exact List.all_eq_true.mp hall

section Healthy

variable {cfg : Config} {u : IP}

theorem Usable.vtepName_ne (hcfg : Usable cfg u) : cfg.vtepName ≠ "" := by
  have hcheck := checks_of_load hcfg.accepted ("VTEPName", cfg.vtepName ≠ "")
    (by simp [Config.checks])
  simpa using hcheck

theorem Usable.vtepPort_pos (hcfg : Usable cfg u) : ¬ cfg.vtepPort < 1 := by
  have hcheck := checks_of_load hcfg.accepted ("VTEPPort", 1 ≤ cfg.vtepPort)
    (by simp [Config.checks])
  simpa using hcheck

theorem Usable.healthCheckPort_ne (hcfg : Usable cfg u) : cfg.healthCheckPort ≠ 0 := by
  have hcheck := checks_of_load hcfg.accepted ("HealthCheckPort", cfg.healthCheckPort ≠ 0)
    (by simp [Config.checks])
  simpa using hcheck

theorem parsed_ok {α : Type} {allowed : HostChoice → Prop} {P : Host → Prop} {context : String}
    {res : Except String α} {a : α} (hres : res = .ok a) :
    Triple Host.exec allowed P (parsed context res) (fun b h => b = a ∧ P h) fun _ _ => False := by
  rw [hres]
  exact .lift _ fun h hs => ⟨rfl, hs⟩

theorem create_succeeds (hcfg : Usable cfg u) {lease : Lease} (hlease : Leased lease) :
    Triple Host.exec HostChoice.Quiet (HasUnderlay cfg u) (create cfg lease) (fun _ _ => True)
      fun _ _ => False := by
  obtain ⟨n, m, -, hm, hsub, hmac⟩ := hlease
  obtain ⟨net, hip⟩ := Leaser.parseCIDR_slot (a := n) hm
  obtain ⟨hw, hhw⟩ := Leaser.parseMAC_macOf 0xee n
  obtain ⟨ip, overlayNet, hoverlay, hprefix⟩ := hcfg.overlay
  rw [create, if_neg hcfg.vtepName_ne, if_neg hcfg.vtepPort_pos, hcfg.underlay, hsub, hmac]
  refine Triple.bind triple_underlayInterface fun iface => ?_
  refine Triple.bind (parsed_ok hip) fun overlay => ?_
  refine Triple.bind (parsed_ok hhw) fun hardwareAddr => ?_
  refine Triple.bind (parsed_ok hoverlay) fun network => .of_states ?_
  rintro h ⟨rfl, -⟩
  dsimp only
  rw [if_neg (by omega)]
  exact .pure fun _ _ => trivial

def Attached (cfg : Config) (lease : Lease) (h : Host) : Prop :=
  ∃ l a, h.link cfg.vtepName = some l ∧ l.up = true ∧ (Host.addrsV4 l).head? = some a ∧
    ∃ ip net, parseCIDR lease.overlaySubnet = .ok (ip, net) ∧ to4 ip = some a.ip

theorem Carries.attached {v : VtepConfig} {h : Host} (hc : Carries v h) {lease : Lease}
    (hv : Describes cfg lease v) (hlease : Leased lease) : Attached cfg lease h := by
  obtain ⟨n, m, hblock⟩ := hlease
  obtain ⟨l, hl, -, hup, haddrs⟩ := hc
  obtain ⟨net, hip⟩ := hv.2.1
  have hx : to4 v.overlayIP = some (addrBytes n) := by
    rw [(hv.of_block hblock).1]
    rfl
  refine ⟨l, ⟨addrBytes n, v.addr.mask⟩, hv.1 ▸ hl, hup, ?_, v.overlayIP, net, hip, hx⟩
  simp [Host.addrsV4, haddrs, VtepConfig.addr, hx]

def Vacant (cfg : Config) (underlayIP : IP) (h : Host) : Prop :=
  h.link cfg.vtepName = none ∧ HasUnderlay cfg underlayIP h

theorem createVTEP_succeeds {v : VtepConfig} (hname : v.vtepName = cfg.vtepName) :
    Triple Host.exec HostChoice.Quiet (Vacant cfg u) (createVTEP v) (fun _ => Carries v)
      fun _ _ => False := by
  refine triple_createVTEP v (fun h ch e t hch hs hexec => ?_) (fun h ch e t hch hb hexec => ?_)
    fun h ch e t hch hb hexec => ?_
  · have hnone : h.link v.vxlan.name = none := (congrArg h.link hname).trans hs.1
    rw [Host.exec_quiet (hch _), Host.respond_linkAdd hnone] at hexec
    cases hexec
  · rw [Host.exec_quiet (hch _)] at hexec
    exact bare_linkSetUp_ok hb hexec
  · rw [Host.exec_quiet (hch _)] at hexec
    exact bare_addrAdd_ok hb hexec

theorem requestLease_succeeds {P : Host → Prop} (cfg : Config) :
    Triple Host.exec HostChoice.Healthy P (requestLease cfg) (fun lease h => Leased lease ∧ P h)
      fun _ _ => False := by
  have hok : Triple Host.exec HostChoice.Healthy P (requestLease cfg) (fun _ _ => True)
      fun _ _ => False := by
    rw [requestLease]
    split_ifs
    · refine .request (fun _ _ _ _ _ _ _ => trivial) fun h ch e t hch _ hexec => ?_
      rw [Host.exec_quiet (hch.quiet _)] at hexec
      cases hexec
    · refine .request (fun _ _ _ _ _ _ _ => trivial) fun h ch e t hch _ hexec => ?_
      rw [Host.exec_quiet (hch.quiet _)] at hexec
      cases hexec
  exact (hok.and (triple_requestLease cfg fun ch hch => hch.leased)).post (fun _ _ hq => hq.2)
    fun _ _ hx => hx.1

theorem acquireLease_succeeds (hcfg : Usable cfg u) :
    Triple Host.exec HostChoice.Healthy (Vacant cfg u) (acquireLease cfg) (Attached cfg)
      fun _ _ => False := by
  refine Triple.bind (requestLease_succeeds cfg) fun lease => .of_states fun h hs => ?_
  rw [if_neg hcfg.healthCheckPort_ne]
  have hcreate :=
    ((create_succeeds hcfg hs.1).restrict fun ch (hch : ch.Healthy) => hch.quiet).of_state hs.2.2
  refine Triple.bind (Triple.wrap ((hcreate.and (triple_create_reads cfg lease)).post
    (fun _ _ hq => hq.2) fun _ _ hx => hx.1)) fun v => .of_states ?_
  rintro _ ⟨hv, rfl⟩
  have hvtep :=
    ((createVTEP_succeeds hv.1).restrict fun ch (hch : ch.Healthy) => hch.quiet).of_state hs.2
  exact Triple.bind (Triple.wrap hvtep) fun _ => .pure fun t ht => ht.attached hv hs.1

def Occupied (cfg : Config) (underlayIP : IP) (h : Host) : Prop :=
  h.link cfg.vtepName ≠ none ∧ HasUnderlay cfg underlayIP (h.erase cfg.vtepName)

theorem deleteVTEP_succeeds :
    Triple Host.exec HostChoice.Quiet (Occupied cfg u) (deleteVTEP cfg.vtepName)
      (fun _ => Vacant cfg u) fun _ _ => False := by
  have hfind : Triple Host.exec HostChoice.Quiet (Occupied cfg u)
      (ask (.linkByName cfg.vtepName) ("find link " ++ cfg.vtepName ++ ": ")) (fun _ _ => True)
      fun _ _ => False := by
    refine .request (fun _ _ _ _ _ _ _ => trivial) fun h ch e t hch hs hexec => ?_
    obtain ⟨l, hl⟩ := Option.ne_none_iff_exists'.mp hs.1
    rw [Host.exec_quiet (hch _), Host.respond_linkByName hl] at hexec
    cases hexec
  refine Triple.bind (hfind.reading (reads_ask (.linkByName _) rfl _)) fun _ => ?_
  refine .request (fun h ch a t hch hs hexec => ?_) fun h ch e t hch hs hexec => ?_
  · obtain ⟨l, hl⟩ := Option.ne_none_iff_exists'.mp hs.2.1
    rw [Host.exec_quiet (hch _), Host.respond, hl] at hexec
    cases hexec
    exact ⟨by simp [Host.link, Table.get_erase], hs.2.2⟩
  · obtain ⟨l, hl⟩ := Option.ne_none_iff_exists'.mp hs.2.1
    rw [Host.exec_quiet (hch _), Host.respond, hl] at hexec
    cases hexec

theorem replaceLease_succeeds (hcfg : Usable cfg u) (refusal : String) :
    Triple Host.exec HostChoice.Healthy (Occupied cfg u) (replaceLease cfg refusal) (Attached cfg)
      fun _ _ => False := by
  have hread : Triple Host.exec HostChoice.Healthy (Occupied cfg u)
      (ask (.readAll cfg.datastore) "read datastore: ") (fun containers _ => containers = 0)
      fun _ _ => False := by
    refine .request (fun h ch a t hch _ hexec => ?_) fun h ch e t hch _ hexec => ?_
    · rw [Host.exec_quiet (hch.quiet _)] at hexec
      cases hexec
      exact hch.containers
    · rw [Host.exec_quiet (hch.quiet _)] at hexec
      cases hexec
  refine Triple.bind (hread.reading (reads_ask (.readAll _) rfl _)) fun containers =>
    .of_states fun h hs => ?_
  rw [if_neg (by simp [hs.1])]
  refine Triple.bind (Q := fun _ => Vacant cfg u) (Triple.wrap ?_)
    fun _ => acquireLease_succeeds hcfg
  exact (deleteVTEP_succeeds.restrict fun ch hch => hch.quiet).of_state hs.2

theorem Attached.occupied {lease : Lease} {h : Host} (ha : Attached cfg lease h)
    (hu : HasUnderlay cfg u (h.erase cfg.vtepName)) : Occupied cfg u h := by
  obtain ⟨l, -, hl, -⟩ := ha
  exact ⟨by simp [hl], hu⟩

theorem checkLease_succeeds (hcfg : Usable cfg u) (overlayNetwork : IPNet) (lease : Lease) :
    Triple Host.exec HostChoice.Healthy
      (fun h => Attached cfg lease h ∧ HasUnderlay cfg u (h.erase cfg.vtepName))
      (checkLease cfg overlayNetwork lease) (Attached cfg) fun _ _ => False := by
  refine .of_states fun h hs => ?_
  obtain ⟨-, -, -, -, -, ip, net, hip, -⟩ := hs.1
  refine Triple.bind (parsed_ok hip) fun subnet => ?_
  split_ifs
  · exact .pure fun t ht => ht.2 ▸ hs.1
  · exact (replaceLease_succeeds hcfg _).mono (fun t ht => ht.2 ▸ hs.1.occupied hs.2)
      (fun _ _ hq => hq) fun _ _ hx => hx

theorem renewLease_succeeds (lease : Lease) :
    Triple Host.exec HostChoice.Healthy (Attached cfg lease) (renewLease cfg lease) (Attached cfg)
      fun _ _ => False := by
  refine Triple.bind (Q := fun res h => (∃ a, res = .ok a) ∧ Attached cfg lease h)
    (.attempt (.request ?_ ?_)) fun renewed => .of_states ?_
  · intro h ch a t hch hs hexec
    rw [Host.exec_quiet (hch.quiet _)] at hexec
    cases hexec
    exact ⟨⟨a, rfl⟩, hs⟩
  · intro h ch e t hch hs hexec
    rw [Host.exec_quiet (hch.quiet _)] at hexec
    cases hexec
  · rintro h ⟨⟨a, rfl⟩, hs⟩
    exact .pure fun t ht => ht ▸ hs

theorem to4_of_mem_addrsV4 {l : Link} {a : IPNet} (ha : a ∈ Host.addrsV4 l) :
    ∃ n, a.ip = addrBytes n := by
  simp only [Host.addrsV4, List.mem_filterMap, Option.map_eq_some_iff] at ha
  obtain ⟨b, -, x, hx, rfl⟩ := ha
  obtain ⟨p, q, r, s, rfl⟩ : ∃ p q r s, x = [p, q, r, s] := by
    have hlen := to4_length hx
    exact List.length_eq_four.mp hlen
  exact ⟨_, addrBytes_addrVal.symm⟩

theorem attached_discovered (hcfg : Usable cfg u) {h : Host} {l : Link} {a : IPNet}
    (hl : h.link cfg.vtepName = some l) (hup : l.up = true)
    (hfirst : (Host.addrsV4 l).head? = some a) (hw : HardwareAddr) :
    Attached cfg (leaseFromVTEPState cfg hw a.ip) h := by
  obtain ⟨n, hn⟩ := to4_of_mem_addrsV4 (List.mem_of_mem_head? hfirst)
  obtain ⟨_, overlayNet, -, hprefix⟩ := hcfg.overlay
  obtain ⟨p, hp⟩ := Int.eq_ofNat_of_zero_le (show 0 ≤ cfg.subnetPrefixLength by omega)
  have hp32 : p ≤ 32 := by
    have hsub := hcfg.subnet
    omega
  have htext :
      netString (some ⟨a.ip, cidrMask32 cfg.subnetPrefixLength⟩) = cidrText (addrBytes n) p := by
    rw [hn, cidrMask32, hp, if_neg (by omega)]
    exact netString_block n hp32
  obtain ⟨net, hip⟩ := Leaser.parseCIDR_slot (a := n) hp32
  refine ⟨l, a, hl, hup, hfirst, v4InV6Prefix ++ addrBytes n, net, ?_, ?_⟩
  · rw [leaseFromVTEPState, htext]
    exact hip
  · rw [hn]
    exact Leaser.to4_mapped n

theorem establishLease_succeeds (hcfg : Usable cfg u) (overlayNetwork : IPNet) :
    Triple Host.exec HostChoice.Healthy
      (fun h => Whole cfg.vtepName h ∧ HasUnderlay cfg u (h.erase cfg.vtepName))
      (establishLease cfg overlayNetwork) (Attached cfg) fun _ _ => False := by
  refine .of_states fun h hs => ?_
  cases hl : h.link cfg.vtepName with
  | none =>
    have hvacant : Vacant cfg u h := ⟨hl, Table.erase_of_get_eq_none hl ▸ hs.2⟩
    refine Triple.bind (Q := fun res t => (∃ e, res = .error e) ∧ t = h) (.attempt ?_)
      fun discovered => .of_states ?_
    · have hfail : Triple Host.exec HostChoice.Healthy (· = h) (discoverLocalLease cfg)
          (fun _ _ => False) fun _ _ => True := by
        refine Triple.bind (Q := fun _ _ => False) (Triple.wrap ?_) fun _ => .of_false
        refine Triple.bind (Q := fun _ _ => False) (.request ?_ fun _ _ _ _ _ _ _ => trivial)
          fun _ => .of_false
        rintro _ ch a t hch rfl hexec
        rw [Host.exec_quiet (hch.quiet _), Host.respond, hl] at hexec
        cases hexec
      exact (hfail.and (reads_discoverLocalLease cfg _ _)).post (fun _ _ hq => hq.1.elim)
        fun e _ hx => ⟨⟨e, rfl⟩, hx.2⟩
    · rintro _ ⟨⟨e, rfl⟩, rfl⟩
      exact (acquireLease_succeeds hcfg).of_state hvacant
  | some l =>
    obtain ⟨hup, haddrs⟩ := hs.1 l hl
    obtain ⟨a, rest, hcons⟩ := List.exists_cons_of_ne_nil haddrs
    have hfirst : (Host.addrsV4 l).head? = some a := by rw [hcons, List.head?_cons]
    have hattached := attached_discovered hcfg hl hup hfirst l.hardwareAddr
    have hshows : Shows cfg.vtepName l.hardwareAddr a h := ⟨l, hl, rfl, hfirst⟩
    refine Triple.bind
      (Q := fun res t => res = .ok (leaseFromVTEPState cfg l.hardwareAddr a.ip) ∧ t = h)
      (.attempt ?_) fun discovered => .of_states ?_
    · have hfind :=
        (triple_discoverLocalLease (fun ch (hch : ch.Healthy) => hch.quiet) cfg).of_state hshows
      exact (hfind.reading (reads_discoverLocalLease cfg)).post
        (fun _ _ hq => ⟨congrArg Except.ok hq.1, hq.2⟩) fun _ _ hx => hx.elim
    · rintro _ ⟨rfl, rfl⟩
      exact Triple.bind ((checkLease_succeeds hcfg overlayNetwork _).of_state ⟨hattached, hs.2⟩)
        fun lease => renewLease_succeeds lease

theorem start_succeeds (hcfg : Usable cfg u) :
    Triple Host.exec HostChoice.Healthy
      (fun h => Whole cfg.vtepName h ∧ HasUnderlay cfg u (h.erase cfg.vtepName)) (start cfg)
      (fun running h => Attached cfg running.lease h) fun _ _ => False := by
  obtain ⟨ip, net, hoverlay, -⟩ := hcfg.overlay
  refine Triple.bind (parsed_ok hoverlay) fun overlayNetwork => ?_
  refine Triple.bind ((establishLease_succeeds hcfg overlayNetwork.2).mono (fun _ hs => hs.2)
    (fun _ _ hq => hq) fun _ _ hx => hx) fun lease => .of_states fun h hs => ?_
  obtain ⟨l, a, hl, hup, hfirst, sip, snet, hsubnet, -⟩ := id hs
  have hshows : Shows cfg.vtepName l.hardwareAddr a h := ⟨l, hl, rfl, hfirst⟩
  have hinfo : Triple Host.exec HostChoice.Healthy (· = h) (getNetworkInfo cfg lease)
      (fun _ _ => True) fun _ _ => False :=
    Triple.bind (Triple.wrap ((triple_getVTEPState fun ch hch => hch.quiet).of_state hshows))
      fun _ => .pure fun _ _ => trivial
  refine Triple.bind (Triple.wrap (hinfo.reading (reads_getNetworkInfo cfg lease)))
    fun networkInfo => ?_
  refine Triple.bind (parsed_ok hsubnet) fun localSubnet => ?_
  refine Triple.bind (Q := fun _ t => t = h) (.request ?_ ?_) fun vxlanIface => .pure ?_
  · rintro t ch iface t' hch ⟨-, -, rfl⟩ hexec
    rw [Host.exec_quiet (hch.quiet _), Host.respond, hl] at hexec
    cases hexec
    rfl
  · rintro t ch e t' hch ⟨-, -, rfl⟩ hexec
    rw [Host.exec_quiet (hch.quiet _), Host.respond, hl] at hexec
    cases hexec
  · rintro t rfl
    exact hs

end Healthy

/-- Daemons started one after the other. Between two starts other links of the host may change,
and a reboot may remove the VTEP. -/
def starts (name : String) : Machine HostCall (fun q => Except String (HostAnswer q))
    (Except String Running) Config Host HostChoice where
  exec := Host.exec
  allowed := HostChoice.Tolerable
  drift h h' := h'.link name = h.link name ∨ h'.link name = none
  body cfg := (start cfg).run
  accepts _ _ := True

def SameVtep (name : String) (_ : List (Event (Except String Running) Config Host)) :
    Event (Except String Running) Config Host → Prop
  | .served cfg _ => cfg.vtepName = name
  | .drift _ => True

theorem trace_whole {name : String} {h h' : Host}
    {es : List (Event (Except String Running) Config Host)}
    (ht : Trace (starts name) (SameVtep name) h es h') (hw : Whole name h) : Whole name h' := by
  refine ht.invariant ?_ ?_ hw
  · intro _ s t _ hs hdrift l hl
    rcases hdrift with hsame | hgone
    · exact hs l (hsame ▸ hl)
    · rw [hgone] at hl
      cases hl
  · intro _ cfg res s t hname hs hrun
    cases (hname : cfg.vtepName = name)
    have hend := keeps_start cfg s res t hs hrun
    rcases res with e | running
    · exact hend
    · exact hend

theorem sampleLease_leased : Leased sampleLease :=
  ⟨0x0aff1e00, 24, by decide, by decide, rfl, rfl⟩

theorem sampleLease_healthy : (quietChoice sampleLease).Healthy :=
  ⟨quietChoice_quiet sampleLease, sampleLease_leased, rfl⟩

theorem start_recovers {cfg : Config} {u : IP} (hcfg : Usable cfg u) {h h' : Host}
    {es : List (Event (Except String Running) Config Host)}
    (ht : Trace (starts cfg.vtepName) (SameVtep cfg.vtepName) h es h') (hw : Whole cfg.vtepName h)
    (hu : HasUnderlay cfg u (h'.erase cfg.vtepName)) :
    (∃ res t, (start cfg).run.Runs Host.exec HostChoice.Healthy h' res t) ∧
      ∀ res t, (start cfg).run.Runs Host.exec HostChoice.Healthy h' res t →
        ∃ running, res = .ok running ∧ Attached cfg running.lease t := by
  refine ⟨⟨_, _, runs_with _ sampleLease_healthy _ h'⟩, fun res t hrun => ?_⟩
  exact (start_succeeds hcfg).ok ⟨trace_whole ht hw, hu⟩ hrun

def isLinkAdd : HostCall → Bool
  | .linkAdd _ => true
  | _ => false

def isLinkSetUp : HostCall → Bool
  | .linkSetUp _ => true
  | _ => false

def faultyChoice (fails : HostCall → Bool) : HostChoice :=
  ⟨fun q => if fails q then some ⟨false, "operation not permitted"⟩ else none,
    sampleLease, 0, 7, 1450⟩

theorem sampleConfig_usable : Usable (sampleConfig false) (ipv4 10 0 0 5) :=
  ⟨rfl, rfl, ⟨_, _, rfl, by decide⟩, by decide⟩

theorem sampleHost_hasUnderlay :
    HasUnderlay (sampleConfig false) (ipv4 10 0 0 5) (Table.erase sampleHost "silk-vtep") := by
  rw [HasUnderlay, if_neg (by decide)]
  rw [Table.erase_of_get_eq_none rfl]
  simp only [sampleHost, List.mem_singleton, forall_eq, exists_eq_left]
  exact ⟨⟨_, _, rfl, rfl⟩, _, rfl⟩

theorem start_recovers_sample :
    ∃ h, Trace (starts "silk-vtep") (SameVtep "silk-vtep") sampleHost
        [.served (sampleConfig false)
          (.error "create vtep: create link silk-vtep: operation not permitted")]
        h ∧
      ∀ res t, (start (sampleConfig false)).run.Runs Host.exec HostChoice.Healthy h res t →
        ∃ running, res = .ok running ∧ Attached (sampleConfig false) running.lease t := by
  have hchoice : (faultyChoice isLinkAdd).Tolerable :=
    ⟨sampleLease_leased, fun v f hf => by cases hf; rfl, fun _ => rfl, fun _ _ => rfl⟩
  have hrun := runs_with _ hchoice (start (sampleConfig false)) sampleHost
  have hnil : Trace (starts "silk-vtep") (SameVtep "silk-vtep") sampleHost [] sampleHost := .nil _
  have htrace := hnil.served hrun rfl
  refine ⟨sampleHost, htrace,
    (start_recovers sampleConfig_usable htrace ?_ sampleHost_hasUnderlay).2⟩
  intro l hl
  cases hl

theorem discover_torn {allowed : HostChoice → Prop} (cfg : Config) :
    Triple Host.exec allowed (Torn cfg.vtepName) (discoverLocalLease cfg) (fun _ _ => False)
      fun _ => Torn cfg.vtepName := by
  have hfail : Triple Host.exec allowed (Torn cfg.vtepName) (getVTEPState cfg.vtepName)
      (fun _ _ => False) fun _ _ => True := by
    refine Triple.bind ((reads_ask (.linkByName _) rfl _ _ _).onError fun _ _ _ => trivial)
      fun link => ?_
    refine Triple.bind (Q := fun addrs _ => addrs = []) (.request ?_ fun _ _ _ _ _ _ _ => trivial)
      fun addrs => .of_states ?_
    · rintro h ch addrs t - ⟨l, hl, hnone⟩ hexec
      have hres := Host.exec_ok hexec
      rw [Host.respond_addrList hl, hnone] at hres
      cases hres
      rfl
    · rintro h rfl
      exact .throw fun _ _ => trivial
  refine Triple.bind (Q := fun _ _ => False) (Triple.wrap ?_) fun _ => .of_false
  exact (hfail.and (reads_getVTEPState _ _ _)).post (fun _ _ hq => hq.1)
    fun _ _ hx => hx.2

theorem acquire_torn {allowed : HostChoice → Prop} (cfg : Config) :
    Triple Host.exec allowed (Torn cfg.vtepName) (acquireLease cfg) (fun _ _ => False)
      fun _ => Torn cfg.vtepName := by
  refine Triple.bind (reads_requestLease cfg _ _) fun lease => ?_
  split_ifs
  · exact .throw fun _ hs => hs
  refine Triple.bind (Triple.wrap (triple_create_reads cfg lease)) fun v => ?_
  refine Triple.bind (Q := fun _ _ => False) (Triple.wrap ?_) fun _ => .of_false
  refine Triple.bind (Q := fun _ _ => False) (.request ?_ ?_) fun _ => .of_false
  · rintro h ch a t - ⟨hv, l, hl, -⟩ hexec
    have hexists : h.link v.vxlan.name = some l := (congrArg h.link hv.1).trans hl
    have hres := Host.exec_ok hexec
    rw [Host.respond_linkAdd_exists hexists] at hres
    cases hres
  · rintro h ch e t - ⟨hv, hs⟩ hexec
    obtain ⟨l, hl, -⟩ := id hs
    have hexists : h.link v.vxlan.name = some l := (congrArg h.link hv.1).trans hl
    have hstate : (Host.exec ch h (.linkAdd v.vxlan)).2 = h := by
      rw [Host.exec, Host.respond_linkAdd_exists hexists]
      cases ch.fault (.linkAdd v.vxlan) with
      | none => rfl
      | some f => simp
    rw [hexec] at hstate
    cases hstate
    exact hs

/-- No start repairs a VTEP that is there without an address. -/
theorem torn_forever {allowed : HostChoice → Prop} (cfg : Config) :
    Triple Host.exec allowed (Torn cfg.vtepName) (start cfg) (fun _ _ => False)
      fun _ => Torn cfg.vtepName := by
  refine Triple.bind (Reads.lift _ _ _) fun overlayNetwork => ?_
  refine Triple.bind (Q := fun _ _ => False) ?_ fun _ => .of_false
  refine Triple.bind (Q := fun res h => (∃ e, res = .error e) ∧ Torn cfg.vtepName h) (.attempt ?_)
    fun discovered => .of_states ?_
  · exact (discover_torn cfg).post (fun _ _ hq => hq.elim) fun e _ hx => ⟨⟨e, rfl⟩, hx⟩
  · rintro h ⟨⟨e, rfl⟩, hs⟩
    exact (acquire_torn cfg).of_state hs

theorem interrupted_start_stuck :
    ∃ h, (start (sampleConfig false)).run.Runs Host.exec (fun ch => Leased ch.lease) sampleHost
        (.error "create vtep: up link: operation not permitted") h ∧
      (start (sampleConfig false)).run.Runs Host.exec HostChoice.Healthy h
        (.error "create vtep: create link silk-vtep: file exists") h ∧
      ∀ (allowed : HostChoice → Prop) (res : Except String Running) (t : Host),
        (start (sampleConfig false)).run.Runs Host.exec allowed h res t →
          (∃ e, res = .error e) ∧ Torn "silk-vtep" t := by
  refine ⟨_, runs_with (faultyChoice isLinkSetUp) sampleLease_leased _ _,
    runs_with _ sampleLease_healthy _ _, fun allowed res t hrun => ?_⟩
  have htorn := torn_forever (sampleConfig false) _ res t ⟨_, rfl, rfl⟩ hrun
  rcases res with e | running
  · exact ⟨⟨e, rfl⟩, htorn⟩
  · exact htorn.elim

end Silk.Daemon
