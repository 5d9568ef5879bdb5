import Silk.DaemonRecovery
import Silk.ResumptionDelegation

/-!
# The lease that a start goes by

A start takes its lease from the VTEP or from the controller. If the lease that
could be found on the VTEP is a granted one, then this is so again after every
start, whatever fails and whether or not the failed call has taken effect. A start
that succeeds leaves a VTEP on which the next start finds the very same lease, and
the controller has granted or renewed that lease during the start.
-/

namespace Silk.Daemon

open GoNet Resumption Keyed
open Controller (Lease)
open Fallible (Triple Reads Only Attains)

def Presents (cfg : Config) (lease : Lease) (h : Host) : Prop :=
  ∃ hw addr, Shows cfg.vtepName hw addr h ∧ leaseFromVTEPState cfg hw addr.ip = lease

def Encodes (P : Lease → Prop) (cfg : Config) (h : Host) : Prop :=
  ∀ lease, Presents cfg lease h → P lease

/-- The prefix length in the configuration is the one of every lease for this cell. -/
def Faithful (cfg : Config) : Prop := cfg.singleIPOnly = false ∨ cfg.subnetPrefixLength = 32

section Device

variable {P : Lease → Prop} {cfg : Config} {lease : Lease} {h : Host}

theorem Presents.unique {lease' : Lease} (hp : Presents cfg lease h) (hp' : Presents cfg lease' h) :
    lease' = lease := by
  obtain ⟨_, addr, ⟨l, hl, rfl, hfirst⟩, rfl⟩ := hp
  obtain ⟨_, addr', ⟨l', hl', rfl, hfirst'⟩, rfl⟩ := hp'
  rw [hl] at hl'
  cases hl'
  rw [hfirst] at hfirst'
  cases hfirst'
  rfl

theorem Presents.encodes (hp : Presents cfg lease h) (hlease : P lease) : Encodes P cfg h := by
  intro lease' hp'
  rw [hp.unique hp']
  exact hlease

theorem encodes_of_unaddressed (hnone : ∀ l, h.link cfg.vtepName = some l → Host.addrsV4 l = []) :
    Encodes P cfg h := by
  rintro lease ⟨hw, addr, ⟨l, hl, -, hfirst⟩, -⟩
  rw [hnone l hl] at hfirst
  cases hfirst

theorem Bare.encodes {v : VtepConfig} (hname : v.vtepName = cfg.vtepName) (hb : Bare v h) :
    Encodes P cfg h := by
  obtain ⟨l, hl, -, haddrs⟩ := hb
  refine encodes_of_unaddressed fun l' hl' => ?_
  rw [← hname, hl] at hl'
  cases hl'
  rw [Host.addrsV4, haddrs]
  rfl

theorem Describes.presents (hfaithful : Faithful cfg) (hlease : Granted cfg lease) {v : VtepConfig}
    (hv : Describes cfg lease v) {l : Link} (hl : h.link v.vtepName = some l)
    (hhw : l.hardwareAddr = v.overlayHardwareAddr) (haddrs : l.addrs = [v.addr]) :
    Presents cfg lease h := by
  obtain ⟨hunder, n, m, hblock, hlen⟩ := hlease
  obtain ⟨hover, hhard⟩ := hv.of_block hblock
  obtain ⟨hn, hm, hsub, hmac⟩ := hblock
  have hx : to4 v.overlayIP = some (addrBytes n) := by
    rw [hover]
    rfl
  refine ⟨l.hardwareAddr, ⟨addrBytes n, v.addr.mask⟩, ⟨l, hv.1 ▸ hl, rfl, ?_⟩, ?_⟩
  · rw [Host.addrsV4, haddrs, List.filterMap_cons, VtepConfig.addr, hx]
    rfl
  · have hprinted := (subnet_printed_iff hn hm hlen).mpr hfaithful
    rw [leaseFromVTEPState, hprinted, hhw, hhard, ← hunder, ← hsub]
    exact congrArg (Lease.mk _ _) hmac.symm

end Device

theorem Host.exec_state (ch : HostChoice) (h : Host) (q : HostCall) :
    (Host.exec ch h q).2 = h ∨ (Host.exec ch h q).2 = (Host.respond ch h q).2 := by
  rw [Host.exec]
  cases ch.fault q with
  | none => exact Or.inr rfl
  | some f =>
    dsimp only
    split_ifs
    · exact Or.inr rfl
    · exact Or.inl rfl

theorem keeps_of_respond {I : Host → Prop} {ch : HostChoice} {h t : Host} {q : HostCall}
    {res : Except String (HostAnswer q)} (hs : I h) (hres : I (Host.respond ch h q).2)
    (hexec : Host.exec ch h q = (res, t)) : I t := by
  have hstate := Host.exec_state ch h q
  rw [hexec] at hstate
  rcases hstate with hsame | hdone
  · change t = h at hsame
    rw [hsame]
    exact hs
  · change t = _ at hdone
    rw [hdone]
    exact hres

section Calls

variable {P : Lease → Prop} {cfg : Config} {allowed : HostChoice → Prop} {I : Host → Prop}

theorem triple_getVTEPState_reads (name : String) :
    Triple Host.exec allowed I (getVTEPState name) (fun st h => (∃ l addr, h.link name = some l ∧
      (Host.addrsV4 l).head? = some addr ∧ st = (l.hardwareAddr, addr.ip, l.mtu)) ∧ I h)
      fun _ => I := by
  have hread : Triple Host.exec allowed I (getVTEPState name) (fun st h => ∃ l addr,
      h.link name = some l ∧ (Host.addrsV4 l).head? = some addr ∧
      st = (l.hardwareAddr, addr.ip, l.mtu)) fun _ _ => True := by
    refine Triple.bind
      (Q := fun link h => ∃ l, h.link name = some l ∧ link = (l.hardwareAddr, l.mtu))
      (.request ?_ fun _ _ _ _ _ _ _ => trivial) fun link => ?_
    · intro h ch link t _ _ hexec
      have hres := Host.exec_ok hexec
      cases hl : h.link name with
      | none =>
        rw [Host.respond, hl] at hres
        cases hres
      | some l =>
        rw [Host.respond_linkByName hl] at hres
        cases hres
        exact ⟨l, hl, rfl⟩
    refine Triple.bind (Q := fun (addrs : List IPNet) h => ∃ l, h.link name = some l ∧
      addrs = Host.addrsV4 l ∧ link = (l.hardwareAddr, l.mtu))
        (.request ?_ fun _ _ _ _ _ _ _ => trivial)
      fun addrs => ?_
    · rintro h ch addrs t - ⟨l, hl, rfl⟩ hexec
      have hres := Host.exec_ok hexec
      rw [Host.respond_addrList hl] at hres
      cases hres
      exact ⟨l, hl, rfl, rfl⟩
    cases addrs with
    | nil => exact .throw fun _ _ => trivial
    | cons addr rest =>
      refine .pure fun h hs => ?_
      obtain ⟨l, hl, haddrs, rfl⟩ := hs
      exact ⟨l, addr, hl, by rw [← haddrs, List.head?_cons], rfl⟩
  exact (hread.and (reads_getVTEPState name allowed I)).onError fun _ _ hx => hx.2

theorem triple_discover (cfg : Config) :
    Triple Host.exec allowed I (discoverLocalLease cfg) (fun lease h => Presents cfg lease h ∧ I h)
      fun _ => I := by
  refine Triple.bind (Triple.wrap (triple_getVTEPState_reads _)) fun st => .pure fun h hst => ?_
  obtain ⟨⟨l, addr, hl, hfirst, rfl⟩, hI⟩ := hst
  exact ⟨⟨l.hardwareAddr, addr, ⟨l, hl, rfl, hfirst⟩, rfl⟩, hI⟩

theorem encodes_discover :
    Triple Host.exec allowed (Encodes P cfg) (discoverLocalLease cfg)
      (fun lease h => P lease ∧ Presents cfg lease h) fun _ => Encodes P cfg :=
  (triple_discover cfg).post (fun lease _ hq => ⟨hq.2 lease hq.1, hq.1⟩) fun _ _ hx => hx

def Config.acquireCall (cfg : Config) : HostCall :=
  if cfg.singleIPOnly then .acquireSingleOverlayIPLease cfg.underlayIP
  else .acquireSubnetLease cfg.underlayIP

def HostChoice.Answers (P : Lease → Prop) (cfg : Config) (ch : HostChoice) : Prop :=
  ch.fault cfg.acquireCall = none → P ch.lease

theorem triple_requestLease_answers :
    Triple Host.exec (HostChoice.Answers P cfg) I (requestLease cfg) (fun lease h => P lease ∧ I h)
      fun _ => I := by
  have hreq : Triple Host.exec (HostChoice.Answers P cfg) I (requestLease cfg)
      (fun lease _ => P lease) fun _ _ => True := by
    rw [requestLease]
    split_ifs with hsingle
    · refine .request (fun h ch lease t hch _ hexec => ?_) fun _ _ _ _ _ _ _ => trivial
      rw [HostChoice.Answers, Config.acquireCall, if_pos hsingle] at hch
      cases hf : ch.fault (.acquireSingleOverlayIPLease cfg.underlayIP) with
      | none =>
        cases Host.exec_ok hexec
        exact hch hf
      | some f =>
        rw [Host.exec, hf] at hexec
        cases hexec
    · refine .request (fun h ch lease t hch _ hexec => ?_) fun _ _ _ _ _ _ _ => trivial
      rw [HostChoice.Answers, Config.acquireCall, if_neg hsingle] at hch
      cases hf : ch.fault (.acquireSubnetLease cfg.underlayIP) with
      | none =>
        cases Host.exec_ok hexec
        exact hch hf
      | some f =>
        rw [Host.exec, hf] at hexec
        cases hexec
  exact (hreq.and (reads_requestLease cfg _ I)).onError fun _ _ hx => hx.2

theorem encodes_createVTEP (hfaithful : Faithful cfg) (hP : ∀ l, P l → Granted cfg l)
    {lease : Lease} (hlease : P lease) {v : VtepConfig} (hv : Describes cfg lease v) :
    Triple Host.exec allowed (Encodes P cfg) (createVTEP v) (fun _ => Presents cfg lease)
      fun _ => Encodes P cfg := by
  refine (triple_createVTEP (X := fun _ => Encodes P cfg) v ?_ ?_ ?_).post (fun _ h hc => ?_)
    fun _ _ hx => hx
  · intro h ch e t _ hs hexec
    refine keeps_of_respond hs ?_ hexec
    cases hl : h.link v.vtepName with
    | none =>
      rw [Host.respond_linkAdd (v := v.vxlan) hl]
      exact Bare.encodes (v := v) hv.1 ⟨_, Host.link_set_self h _, rfl, rfl⟩
    | some l =>
      rw [Host.respond_linkAdd_exists (v := v.vxlan) hl]
      exact hs
  · intro h ch e t _ hb hexec
    refine keeps_of_respond (hb.encodes hv.1) ?_ hexec
    obtain ⟨l, hl, hhw, haddrs⟩ := hb
    rw [Host.respond_linkSetUp hl]
    refine Bare.encodes (v := v) hv.1 ⟨{ l with up := true }, ?_, hhw, haddrs⟩
    rw [← Host.name_of_link hl]
    exact Host.link_set_self _ { l with up := true }
  · -- the address may have been added although the call has failed
    intro h ch e t _ hb hexec
    refine keeps_of_respond (hb.encodes hv.1) ?_ hexec
    obtain ⟨l, hl, hhw, haddrs⟩ := hb
    rw [Host.respond_addrAdd hl (by rw [haddrs]; exact List.not_mem_nil)]
    refine (hv.presents hfaithful (hP lease hlease)
      (l := { l with addrs := l.addrs ++ [v.addr] }) ?_ hhw (by rw [haddrs]; rfl)).encodes hlease
    rw [← Host.name_of_link hl]
    exact Host.link_set_self _ { l with addrs := l.addrs ++ [v.addr] }
  · obtain ⟨l, hl, hhw, -, haddrs⟩ := hc
    exact hv.presents hfaithful (hP lease hlease) hl hhw haddrs

theorem encodes_deleteVTEP :
    Triple Host.exec allowed (Encodes P cfg) (deleteVTEP cfg.vtepName) (fun _ => Encodes P cfg)
      fun _ => Encodes P cfg := by
  refine Triple.bind (reads_ask (.linkByName _) rfl _ _ _) fun _ => ?_
  have hdel : ∀ (ch : HostChoice) (h : Host), Encodes P cfg h →
      Encodes P cfg (Host.respond ch h (.linkDel cfg.vtepName)).2 := by
    intro ch h hs
    rw [Host.respond]
    cases h.link cfg.vtepName with
    | none => exact hs
    | some l =>
      refine encodes_of_unaddressed fun l' hl' => ?_
      simp [Host.link, Table.get_erase] at hl'
  exact .request (fun h ch a t _ hs hexec => keeps_of_respond hs (hdel ch h hs) hexec)
    fun h ch e t _ hs hexec => keeps_of_respond hs (hdel ch h hs) hexec

end Calls

/-- What a start hands to the poller and to the health check describes the VTEP. -/
structure Ready (cfg : Config) (running : Running) (h : Host) : Prop where
  presents : Presents cfg running.lease h
  overlayNetwork : ∃ ip, parseCIDR cfg.overlayNetwork = .ok (ip, running.overlayNetwork)
  localSubnet : ∃ ip, parseCIDR running.lease.overlaySubnet = .ok (ip, running.localSubnet)
  vtep : ∃ l, h.link cfg.vtepName = some l ∧ running.localVTEP = ⟨l.index, l.name⟩ ∧
    running.networkInfo = ⟨running.lease.overlaySubnet, l.mtu⟩

section Start

variable {P : Lease → Prop} {cfg : Config} (hfaithful : Faithful cfg)
  (hP : ∀ l, P l → Granted cfg l)

include hfaithful hP

theorem encodes_acquireLease :
    Triple Host.exec (HostChoice.Answers P cfg) (Encodes P cfg) (acquireLease cfg)
      (fun lease h => P lease ∧ Presents cfg lease h) fun _ => Encodes P cfg := by
  refine Triple.bind triple_requestLease_answers fun lease => ?_
  split_ifs with hport
  · exact .throw fun h hs => hs.2
  refine Triple.bind (Triple.wrap ((triple_create_reads cfg lease).onError fun _ _ hx => hx.2))
    fun v => ?_
  refine Triple.bind (Q := fun _ h => P lease ∧ Presents cfg lease h)
    (Triple.wrap (.of_states fun h hs => ?_)) fun _ => .pure fun _ hs => hs
  exact ((encodes_createVTEP hfaithful hP hs.2.1 hs.1).of_state hs.2.2).post
    (fun _ _ hp => ⟨hs.2.1, hp⟩) fun _ _ hx => hx

theorem encodes_replaceLease (refusal : String) :
    Triple Host.exec (HostChoice.Answers P cfg) (Encodes P cfg) (replaceLease cfg refusal)
      (fun lease h => P lease ∧ Presents cfg lease h) fun _ => Encodes P cfg := by
  refine Triple.bind (reads_ask (.readAll _) rfl _ _ _) fun containers => ?_
  split_ifs
  · exact .throw fun _ hs => hs
  · exact Triple.bind (Triple.wrap encodes_deleteVTEP) fun _ => encodes_acquireLease hfaithful hP

theorem encodes_checkLease (overlayNetwork : IPNet) (lease : Lease) :
    Triple Host.exec (HostChoice.Answers P cfg) (fun h => P lease ∧ Presents cfg lease h)
      (checkLease cfg overlayNetwork lease) (fun lease h => P lease ∧ Presents cfg lease h)
      fun _ => Encodes P cfg := by
  have hparsed : Triple Host.exec (HostChoice.Answers P cfg)
      (fun h => P lease ∧ Presents cfg lease h)
      (parsed "parse local subnet CIDR: " (parseCIDR lease.overlaySubnet))
      (fun _ h => P lease ∧ Presents cfg lease h) fun _ => Encodes P cfg :=
    (triple_parsed _ _).post (fun _ _ hq => hq.2) fun _ _ hx => hx.2.2.encodes hx.2.1
  refine Triple.bind hparsed fun subnet => ?_
  split_ifs
  · exact .pure fun _ hs => hs
  · exact (encodes_replaceLease hfaithful hP _).mono (fun _ hs => hs.2.encodes hs.1)
      (fun _ _ hq => hq) fun _ _ hx => hx

theorem encodes_renewLease (lease : Lease) :
    Triple Host.exec (HostChoice.Answers P cfg) (fun h => P lease ∧ Presents cfg lease h)
      (renewLease cfg lease) (fun lease h => P lease ∧ Presents cfg lease h)
      fun _ => Encodes P cfg := by
  refine Triple.bind ((Reads.attempt (reads_ask (.renewSubnetLease lease) rfl _) _ _).onError
    fun _ _ hx => hx.2.encodes hx.1) fun renewed => ?_
  cases renewed with
  | ok _ => exact .pure fun _ hs => hs
  | error _ =>
    exact (encodes_replaceLease hfaithful hP _).mono (fun _ hs => hs.2.encodes hs.1)
      (fun _ _ hq => hq) fun _ _ hx => hx

theorem encodes_establishLease (overlayNetwork : IPNet) :
    Triple Host.exec (HostChoice.Answers P cfg) (Encodes P cfg) (establishLease cfg overlayNetwork)
      (fun lease h => P lease ∧ Presents cfg lease h) fun _ => Encodes P cfg := by
  refine Triple.bind (Q := Fallible.Ends (fun lease h => P lease ∧ Presents cfg lease h)
    fun _ => Encodes P cfg) (Triple.attempt encodes_discover) fun discovered => ?_
  cases discovered with
  | error e => exact encodes_acquireLease hfaithful hP
  | ok lease =>
    exact Triple.bind (encodes_checkLease hfaithful hP overlayNetwork lease) fun lease =>
      encodes_renewLease hfaithful hP lease

/-- A start leaves a VTEP with a granted lease or with none, and a start that succeeds leaves its
own lease there. -/
theorem encodes_start :
    Triple Host.exec (HostChoice.Answers P cfg) (Encodes P cfg) (start cfg)
      (fun running h => P running.lease ∧ Ready cfg running h) fun _ => Encodes P cfg := by
  refine Triple.bind ((triple_parsed _ _).onError fun _ _ hx => hx.2) fun overlayNetwork => ?_
  refine Triple.bind (Q := fun lease h => (P lease ∧ Presents cfg lease h) ∧
    parseCIDR cfg.overlayNetwork = .ok overlayNetwork) (.of_states fun h hs => ?_) fun lease => ?_
  · exact ((encodes_establishLease hfaithful hP overlayNetwork.2).of_state hs.2).post
      (fun _ _ hq => ⟨hq, hs.1⟩) fun _ _ hx => hx
  have herr : ∀ h,
      (P lease ∧ Presents cfg lease h) ∧ parseCIDR cfg.overlayNetwork = .ok overlayNetwork →
      Encodes P cfg h := fun h hs => hs.1.2.encodes hs.1.1
  refine Triple.bind (Q := fun info h => (∃ l, h.link cfg.vtepName = some l ∧
    info = ⟨lease.overlaySubnet, l.mtu⟩) ∧ (P lease ∧ Presents cfg lease h) ∧
    parseCIDR cfg.overlayNetwork = .ok overlayNetwork) (Triple.wrap ?_) fun networkInfo => ?_
  · refine Triple.bind (Triple.wrap ((triple_getVTEPState_reads _).onError fun _ h hs => herr h hs))
      fun st => .pure fun h hst => ?_
    obtain ⟨⟨l, addr, hl, -, rfl⟩, hs⟩ := hst
    exact ⟨⟨l, hl, rfl⟩, hs⟩
  refine Triple.bind ((triple_parsed _ _).onError fun _ h hx => herr h hx.2.2) fun localSubnet => ?_
  refine Triple.bind (Q := fun iface h => P lease ∧ Ready cfg
    ⟨lease, overlayNetwork.2, localSubnet.2, iface, networkInfo⟩ h) (.request ?_ ?_) fun iface =>
      .pure fun _ hs => hs
  · rintro h ch iface t - ⟨hsubnet, ⟨l, hl, rfl⟩, ⟨hlease, hpres⟩, hoverlay⟩ hexec
    have hres := Host.exec_ok hexec
    rw [Host.respond, hl] at hres
    cases hres
    exact ⟨hlease, hpres, ⟨_, hoverlay⟩, ⟨_, hsubnet⟩, l, hl, rfl, rfl⟩
  · intro h ch e t _ hs hexec
    refine keeps_of_respond (herr h hs.2.2) ?_ hexec
    rw [respond_isRead rfl]
    exact herr h hs.2.2

end Start

/-- The daemon asks for leases of its own cell, and renews leases that it has reason to. -/
def Own (P : Lease → Prop) (cfg : Config) : HostCall → Prop
  | .acquireSubnetLease u => u = cfg.underlayIP ∧ cfg.singleIPOnly = false
  | .acquireSingleOverlayIPLease u => u = cfg.underlayIP ∧ cfg.singleIPOnly = true
  | .renewSubnetLease l => P l
  | _ => True

section Calls

variable (P : Lease → Prop) (cfg : Config)

theorem own_ask {q : HostCall} (hq : Own P cfg q) (context : String) :
    Only (Own P cfg) (ask q context) := .request hq _

theorem own_discover : Only (Own P cfg) (discoverLocalLease cfg) := by
  refine Only.bind (Only.wrap ?_ _) fun _ => .lift _ _
  refine Only.bind (.request trivial _) fun link => Only.bind (.request trivial _) fun addrs => ?_
  cases addrs with
  | nil => exact .lift _ _
  | cons addr rest => exact .lift _ _

theorem own_scanInterfaces (toFind : IP) (ifaces : List Interface) :
    Only (Own P cfg) (scanInterfaces toFind ifaces) := by
  induction ifaces with
  | nil => exact .lift _ _
  | cons iface rest ih =>
    refine Only.bind (.request trivial _) fun addrs => Only.bind (.lift _ _) fun found => ?_
    cases found with
    | true => exact .lift _ _
    | false => exact ih

theorem own_create (lease : Lease) : Only (Own P cfg) (create cfg lease) := by
  rw [create]
  split_ifs
  · exact .lift _ _
  · exact .lift _ _
  cases parseIP cfg.underlayIP with
  | none => exact .lift _ _
  | some underlayIP =>
    have hiface : Only (Own P cfg) (underlayInterface cfg underlayIP) := by
      rw [underlayInterface]
      split_ifs
      · exact .request trivial _
      · refine Only.wrap ?_ _
        exact Only.bind (.request trivial _)
          fun ifaces => own_scanInterfaces P cfg underlayIP ifaces
    refine Only.bind hiface fun iface =>
      Only.bind (.lift _ _) fun _ => Only.bind (.lift _ _) fun _ =>
      Only.bind (.lift _ _) fun network => ?_
    dsimp only
    split_ifs
    · exact .lift _ _
    · exact .lift _ _

theorem own_acquireLease : Only (Own P cfg) (acquireLease cfg) := by
  have hrequest : Only (Own P cfg) (requestLease cfg) := by
    rw [requestLease]
    split_ifs with hsingle
    · exact own_ask P cfg (q := .acquireSingleOverlayIPLease _) ⟨rfl, hsingle⟩ _
    · exact own_ask P cfg (q := .acquireSubnetLease _) ⟨rfl, Bool.eq_false_iff.mpr hsingle⟩ _
  refine Only.bind hrequest fun lease => ?_
  split_ifs
  · exact .lift _ _
  refine Only.bind (Only.wrap (own_create P cfg lease) _) fun v => ?_
  refine Only.bind (Only.wrap ?_ _) fun _ => .lift _ _
  exact Only.bind (.request trivial _) fun _ => Only.bind (.request trivial _) fun _ =>
    .request trivial _

theorem own_replaceLease (refusal : String) : Only (Own P cfg) (replaceLease cfg refusal) := by
  refine Only.bind (.request trivial _) fun containers => ?_
  split_ifs
  · exact .lift _ _
  refine Only.bind (Only.wrap ?_ _) fun _ => own_acquireLease P cfg
  exact Only.bind (.request trivial _) fun _ => .request trivial _

theorem own_checkLease (overlayNetwork : IPNet) (lease : Lease) :
    Only (Own P cfg) (checkLease cfg overlayNetwork lease) := by
  refine Only.bind (.lift _ _) fun subnet => ?_
  split_ifs
  · exact .lift _ _
  · exact own_replaceLease P cfg _

theorem own_getNetworkInfo (lease : Lease) : Only (Own P cfg) (getNetworkInfo cfg lease) := by
  refine Only.bind (Only.wrap ?_ _) fun _ => .lift _ _
  refine Only.bind (.request trivial _) fun link => Only.bind (.request trivial _) fun addrs => ?_
  cases addrs with
  | nil => exact .lift _ _
  | cons addr rest => exact .lift _ _

variable {P cfg}

theorem asks_start (hfaithful : Faithful cfg) (hP : ∀ l, P l → Granted cfg l) {h : Host}
    (hs : Encodes P cfg h) :
    (start cfg).run.Asks Host.exec (HostChoice.Answers P cfg) (Own P cfg) h := by
  refine Fallible.asks_bind ((Only.lift _ _).asks h)
    ((triple_parsed _ _).onError fun _ _ hx => hx) hs fun overlayNetwork h hs => ?_
  refine Fallible.asks_bind ?_ (encodes_establishLease hfaithful hP overlayNetwork.2) hs.2
    fun lease h _ => Only.asks ?_ h
  · refine Fallible.asks_attempt ((own_discover P cfg).asks h) encodes_discover hs.2
      fun discovered h hs => ?_
    cases discovered with
    | error e => exact (own_acquireLease P cfg).asks h
    | ok lease =>
      refine Fallible.asks_bind ((own_checkLease P cfg _ lease).asks h)
        (encodes_checkLease hfaithful hP _ lease) hs fun lease h hs => Only.asks ?_ h
      refine Only.bind (Only.attempt (own_ask P cfg (q := .renewSubnetLease lease) hs.1 _))
        fun renewed => ?_
      cases renewed with
      | ok _ => exact .lift _ _
      | error _ => exact own_replaceLease P cfg _
  · exact Only.bind (Only.wrap (own_getNetworkInfo P cfg lease) _) fun _ =>
      Only.bind (.lift _ _) fun _ =>
      Only.bind (.request trivial _) fun _ => .lift _ _

end Calls

def Acknowledges (lease : Lease) : (Sigma fun q => Except String (HostAnswer q)) → Prop
  | ⟨.acquireSubnetLease _, res⟩ => res = .ok lease
  | ⟨.acquireSingleOverlayIPLease _, res⟩ => res = .ok lease
  | ⟨.renewSubnetLease l, res⟩ => l = lease ∧ res = .ok ()
  | _ => False

section Acknowledged

variable (cfg : Config) {history : List (Sigma fun q => Except String (HostAnswer q))}

theorem acknowledged_acquireLease :
    Attains (fun later lease => ∃ e ∈ later, Acknowledges lease e) history (acquireLease cfg) := by
  have hrequest : Attains (fun later lease => ∃ e ∈ later, Acknowledges lease e) history
      (requestLease cfg) := by
    rw [requestLease]
    split_ifs
    · refine .request fun lease => ⟨_, List.mem_append_right _ (List.mem_singleton_self _), ?_⟩
      exact rfl
    · refine .request fun lease => ⟨_, List.mem_append_right _ (List.mem_singleton_self _), ?_⟩
      exact rfl
  refine hrequest.bind fun lease later hack => ?_
  obtain ⟨e, he, hack⟩ := hack
  split_ifs
  · exact .throw
  refine (Attains.keeps _ he).bind fun v later he => (Attains.keeps _ he).bind fun _ later he => ?_
  exact .pure ⟨e, he, hack⟩

theorem acknowledged_replaceLease (refusal : String) :
    Attains (fun later lease => ∃ e ∈ later, Acknowledges lease e) history
      (replaceLease cfg refusal) := by
  refine (Attains.any _).bind fun containers later _ => ?_
  split_ifs
  · exact .throw
  · exact (Attains.any _).bind fun _ later _ => acknowledged_acquireLease cfg

theorem acknowledged_renewLease (lease : Lease) :
    Attains (fun later lease => ∃ e ∈ later, Acknowledges lease e) history
      (renewLease cfg lease) := by
  rw [renewLease, Attains, Fallible.run_attempt_bind]
  intro reply
  cases reply with
  | error e => exact acknowledged_replaceLease cfg _
  | ok _ =>
    intro lease' hok
    cases hok
    exact ⟨_, List.mem_append_right _ (List.mem_singleton_self _), rfl, rfl⟩

/-- No daemon runs on a lease that the controller has not confirmed to this very start. -/
theorem acknowledged_start :
    Attains (fun later running => ∃ e ∈ later, Acknowledges running.lease e) history
      (start cfg) := by
  have hlease : ∀ (net : IPNet) (history : List (Sigma fun q => Except String (HostAnswer q))),
      Attains (fun later lease => ∃ e ∈ later, Acknowledges lease e) history
        (establishLease cfg net) := by
    intro net history
    refine .attempt fun discovered later => ?_
    cases discovered with
    | error e => exact acknowledged_acquireLease cfg
    | ok lease => exact (Attains.any _).bind fun lease later _ => acknowledged_renewLease cfg lease
  refine (Attains.any _).bind fun overlayNetwork later _ =>
    (hlease _ _).bind fun lease later hack => ?_
  obtain ⟨e, he, hack⟩ := hack
  refine (Attains.keeps _ he).bind fun info later he => (Attains.keeps _ he).bind fun _ later he =>
    (Attains.keeps _ he).bind fun _ later he => ?_
  exact .pure ⟨e, he, hack⟩

end Acknowledged

end Silk.Daemon
