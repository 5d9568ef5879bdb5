import Silk.CniKernel

/-!
# A failed ADD and the DEL after it

Whatever fails, ADD leaves the veth pair in one of four stages: not created,
created on the host, moved into the container under its temporary name, or
renamed there. DEL looks for the final name in the container only, so it removes
the pair in the last stage and leaves it on the host in the two before.
-/

namespace Silk.Cni

open GoJson GoNet LinkOperations Common Resumption
open Datastore (Failure context)

def Still (ns : Namespace) (c : NetCall) : Prop := Kernel.places (.net ns c) = false

section Still

variable (ns : Namespace)

theorem still_issue {c : NetCall} (err : GoString → Failure) (h : Still ns c := by exact rfl) :
    Fallible.Only (Still ns) (issue c err) := .request h err

theorem still_readHardwareAddr (deviceName : GoString) :
    Fallible.Only (Still ns) (readHardwareAddr deviceName) :=
  .bind (still_issue ns _) fun _ => .lift _ _

theorem still_retry (deviceName : GoString) (link : Link) (hardware : HardwareAddr) (i : ℕ)
    (got : String) : Fallible.Only (Still ns) (retry deviceName link hardware i got) := by
  induction i generalizing got with
  | zero => exact .lift _ _
  | succ i ih =>
    rw [retry]
    split_ifs
    · exact .lift _ _
    · exact .bind (still_issue ns _) fun _ => .bind (still_readHardwareAddr ns deviceName) ih

theorem still_configure (deviceName : GoString) (link : Link) (loc peer : DualAddress) :
    Fallible.Only (Still ns) (configure deviceName link loc peer) := by
  have hstatic : Fallible.Only (Still ns) (staticNeighborNoARP link peer.ip peer.hardware) :=
    .bind (still_issue ns _) fun _ => still_issue ns _
  have hpoint : Fallible.Only (Still ns) (setPointToPointAddress link loc.ip peer.ip) :=
    .bind (still_issue ns _) fun _ => still_issue ns _
  have hipv6 : Fallible.Only (Still ns) (disableIPv6 deviceName) := still_issue ns _
  have hfilter : Fallible.Only (Still ns) (enableReversePathFiltering deviceName) :=
    still_issue ns _
  exact .bind hipv6.attempt fun _ => .bind (hstatic.wrap _) fun _ => .bind (hpoint.wrap _) fun _ =>
    .bind (hfilter.wrap _) fun _ => still_issue ns _

theorem still_basicSetup (deviceName : GoString) (loc peer : DualAddress) :
    Fallible.Only (Still ns) (basicSetup deviceName loc peer) := by
  refine .bind (still_issue ns _) fun link => .bind (still_readHardwareAddr ns deviceName)
    fun got => .bind (still_retry ns _ _ _ _ _) fun last => ?_
  split_ifs
  · exact .lift _ _
  · exact still_configure ns deviceName link loc peer

theorem still_routeAddAll (sourceIP : IP) (routes : List Route) :
    Fallible.Only (Still ns) (routeAddAll sourceIP routes) := by
  induction routes with
  | nil => exact .lift _ _
  | cons r routes ih => exact .bind (still_issue ns _) fun _ => ih

end Still

theorem still_inNamespace {α : Type} {p : NetProgram α} {ns : Namespace}
    (h : Fallible.Only (Still ns) p) :
    Fallible.Only (fun c => Kernel.places c = false) (inNamespace ns p) :=
  .bind (.request (by exact rfl) _) fun _ => h.embed

theorem still_hostSetup (cfg : Config) :
    Fallible.Only (fun c => Kernel.places c = false) (Host.setup cfg) := by
  have hforward : Fallible.Only (Still .host) enableIPv4Forwarding := still_issue .host _
  exact still_inNamespace (.bind ((still_basicSetup .host _ _ _).wrap _) fun _ => hforward.wrap _)

theorem still_setUpRenamed (cfg : Config) :
    Fallible.Only (Still .container) (setUpRenamed cfg) :=
  .bind ((still_basicSetup .container _ _ _).wrap _) fun _ =>
    (still_routeAddAll .container _ _).wrap _

theorem still_record (float64 : Number → Option Number) (req : Datastore.Request) :
    Fallible.Only (fun c => Kernel.places c = false) (record float64 req) :=
  .embed (.of_forall (fun _ => rfl) _)

theorem still_prepare (args : CmdArgs) (netConf : NetConf) :
    Fallible.Only (fun c => Kernel.places c = false) (prepare args netConf) := by
  refine (outside_prepare args netConf).mono fun c hc => ?_
  cases c with
  | net ns c => cases hc
  | _ => rfl

section Stages

variable (k₀ : Kernel) (host temporary ifName : GoString)

def movedEnd : Device := ⟨k₀.next + 1, some k₀.next⟩

def createdAt : Placement :=
  (k₀.devices.put .host host (some ⟨k₀.next, some (k₀.next + 1)⟩)).put .host temporary
    (some (movedEnd k₀))

def movedAt : Placement :=
  (createdAt k₀ host temporary).relocate .host temporary .container temporary

def renamedAt : Placement :=
  (movedAt k₀ host temporary).relocate .container temporary .container ifName

inductive Stage where
  | untouched | created | moved | renamed

def Stage.Holds (k : Kernel) : Stage → Prop
  | .untouched => k₀.Same k
  | .created => k.devices = createdAt k₀ host temporary ∧ k.changes = k₀.changes ++ [.added]
  | .moved => k.devices = movedAt k₀ host temporary ∧ k.changes = k₀.changes ++ [.added, .moved]
  | .renamed => k.devices = renamedAt k₀ host temporary ifName ∧
      k.changes = k₀.changes ++ [.added, .moved, .renamed]

structure Vacant : Prop where
  host_free : k₀.devices .host host = none
  temporary_free : k₀.devices .host temporary = none

structure Names (cfg : Config) : Prop where
  host_eq : cfg.host.deviceName = host
  temporary_eq : cfg.container.temporaryDeviceName = temporary
  ifName_eq : cfg.container.deviceName = ifName

end Stages

section Adding

variable {k₀ : Kernel} {host temporary ifName : GoString} {allowed : KernelChoice → Prop}

theorem Stage.Holds.same {stage : Stage} {k k' : Kernel}
    (h : stage.Holds k₀ host temporary ifName k) (hsame : k.Same k') :
    stage.Holds k₀ host temporary ifName k' := by
  obtain ⟨hdevices, hnext, hchanges⟩ := hsame
  cases stage with
  | untouched => exact ⟨hdevices.trans h.1, hnext.trans h.2.1, hchanges.trans h.2.2⟩
  | created => exact ⟨hdevices.trans h.1, hchanges.trans h.2⟩
  | moved => exact ⟨hdevices.trans h.1, hchanges.trans h.2⟩
  | renamed => exact ⟨hdevices.trans h.1, hchanges.trans h.2⟩

theorem triple_still {ε α : Type} {p : CniProgram ε α}
    (hp : Fallible.Only (fun c => Kernel.places c = false) p) (stage : Stage) :
    Fallible.Triple Kernel.exec allowed (stage.Holds k₀ host temporary ifName) p
      (fun _ => stage.Holds k₀ host temporary ifName)
      fun _ => stage.Holds k₀ host temporary ifName :=
  hp.keeps fun ch k _ _ hc h => h.same (Kernel.exec_same hc ch k)

def Staged (k₀ : Kernel) (host temporary ifName : GoString) (k : Kernel) : Prop :=
  ∃ stage : Stage, stage.Holds k₀ host temporary ifName k

theorem triple_lookup (stage : Stage) {ns : Namespace} {name : GoString} {err : GoString → Failure}
    {d : Device}
    (hd : ∀ k, stage.Holds k₀ host temporary ifName k → k.devices ns name = some d) :
    Fallible.Triple ((netlinkIn ns).restrict Kernel.exec) allowed
      (stage.Holds k₀ host temporary ifName) (issue (.linkByName name) err)
      (fun link k => stage.Holds k₀ host temporary ifName k ∧ link.name = name ∧
        link.index = d.index)
      fun _ => Staged k₀ host temporary ifName := by
  refine Fallible.Triple.request (fun k ch link t _ hk hexec => ?_) fun k ch e t _ hk hexec => ?_
  · obtain ⟨rfl, d', hd', rfl⟩ := Kernel.linkByName_ok (Kernel.outcome_ok hexec)
    rw [hd _ hk] at hd'
    cases hd'
    exact ⟨hk, rfl, rfl⟩
  · rcases Kernel.outcome_error hexec with rfl | ⟨a, ha⟩
    · exact ⟨stage, hk⟩
    · rw [(Kernel.linkByName_ok ha).1]
      exact ⟨stage, hk⟩

theorem placed {change : Change} {k t : Kernel} {ns ns' : Namespace} {link : Link}
    {name' : GoString} {a : Unit} (h : k.relocate change ns link ns' name' = .ok (a, t)) :
    t.devices = k.devices.relocate ns link.name ns' name' ∧ t.changes = k.changes ++ [change] := by
  rw [Kernel.relocate] at h
  split_ifs at h
  cases h
  exact ⟨rfl, rfl⟩

theorem triple_step (before after : Stage) {ns : Namespace} {c : NetCall} {err : GoString → Failure}
    {P : Kernel → Prop} {res : Kernel → Except GoString (NetAnswer c × Kernel)}
    (hexec : ∀ ch k, Kernel.exec ch k (.net ns c) = k.outcome ch.fault (res k))
    (hP : ∀ k, P k → before.Holds k₀ host temporary ifName k)
    (hstep : ∀ k a t, P k → res k = .ok (a, t) → after.Holds k₀ host temporary ifName t) :
    Fallible.Triple ((netlinkIn ns).restrict Kernel.exec) allowed P (issue c err)
      (fun _ => after.Holds k₀ host temporary ifName) fun _ => Staged k₀ host temporary ifName := by
  refine Fallible.Triple.request (fun k ch a t _ hk ht => ?_) fun k ch e t _ hk ht => ?_
  · have ht : Kernel.exec ch k (.net ns c) = (.ok a, t) := ht
    rw [hexec] at ht
    exact hstep k a t hk (Kernel.outcome_ok ht)
  · have ht : Kernel.exec ch k (.net ns c) = (.error e, t) := ht
    rw [hexec] at ht
    rcases Kernel.outcome_error ht with rfl | ⟨a, ha⟩
    · exact ⟨before, hP _ hk⟩
    · exact ⟨after, hstep k a t hk ha⟩

theorem createdAt_host (h : host ≠ temporary) :
    createdAt k₀ host temporary .host host = some ⟨k₀.next, some (k₀.next + 1)⟩ := by
  rw [createdAt, Placement.put_of_ne (Or.inr h), Placement.put_self]

theorem createdAt_temporary :
    createdAt k₀ host temporary .host temporary = some (movedEnd k₀) := by
  rw [createdAt, Placement.put_self]

theorem createdAt_container (name : GoString) :
    createdAt k₀ host temporary .container name = k₀.devices .container name := by
  rw [createdAt, Placement.put_of_ne (Or.inl (by decide)), Placement.put_of_ne (Or.inl (by decide))]

theorem movedAt_host (h : host ≠ temporary) :
    movedAt k₀ host temporary .host host = some ⟨k₀.next, some (k₀.next + 1)⟩ := by
  rw [movedAt, Placement.relocate, Placement.put_of_ne (Or.inl (by decide)),
    Placement.put_of_ne (Or.inr h), createdAt_host h]

theorem movedAt_temporary : movedAt k₀ host temporary .host temporary = none := by
  rw [movedAt, Placement.relocate, Placement.put_of_ne (Or.inl (by decide)), Placement.put_self]

theorem movedAt_container :
    movedAt k₀ host temporary .container temporary = some (movedEnd k₀) := by
  rw [movedAt, Placement.relocate, Placement.put_self, createdAt_temporary]

theorem movedAt_container_of_ne {name : GoString} (h : name ≠ temporary) :
    movedAt k₀ host temporary .container name = k₀.devices .container name := by
  rw [movedAt, Placement.relocate, Placement.put_of_ne (Or.inr h),
    Placement.put_of_ne (Or.inl (by decide)), createdAt_container]

theorem renamedAt_host (name : GoString) :
    renamedAt k₀ host temporary ifName .host name = movedAt k₀ host temporary .host name := by
  rw [renamedAt, Placement.relocate, Placement.put_of_ne (Or.inl (by decide)),
    Placement.put_of_ne (Or.inl (by decide))]

theorem renamedAt_container :
    renamedAt k₀ host temporary ifName .container ifName = some (movedEnd k₀) := by
  rw [renamedAt, Placement.relocate, Placement.put_self, movedAt_container]

theorem triple_enter {α : Type} {ns : Namespace} {p : NetProgram α} {stage : Stage}
    {Q : α → Kernel → Prop}
    (hp : Fallible.Triple ((netlinkIn ns).restrict Kernel.exec) allowed
      (stage.Holds k₀ host temporary ifName) p Q fun _ => Staged k₀ host temporary ifName) :
    Fallible.Triple Kernel.exec allowed (stage.Holds k₀ host temporary ifName) (inNamespace ns p) Q
      fun _ => Staged k₀ host temporary ifName := by
  have henter : Fallible.Triple Kernel.exec allowed (stage.Holds k₀ host temporary ifName)
      (ask (.enter ns) Failure.error) (fun _ => stage.Holds k₀ host temporary ifName)
      fun _ => Staged k₀ host temporary ifName :=
    (triple_still (.request (by exact rfl) _) stage).onError fun _ _ h => ⟨stage, h⟩
  exact henter.bind fun _ => hp.embed

theorem triple_createPair {cfg : Config} (hcfg : Names host temporary ifName cfg) :
    Fallible.Triple ((netlinkIn .host).restrict Kernel.exec) allowed
      (Stage.untouched.Holds k₀ host temporary ifName) (createPair cfg)
      (fun _ => Stage.moved.Holds k₀ host temporary ifName)
      fun _ => Staged k₀ host temporary ifName := by
  refine Fallible.Triple.bind (Q := fun _ => Stage.created.Holds k₀ host temporary ifName) ?_
    fun _ => Fallible.Triple.bind (triple_lookup .created (d := movedEnd k₀) ?_)
    fun link => ?_
  · refine triple_step .untouched .created (fun _ _ => rfl) (fun _ h => h) fun k a t hk hres => ?_
    rw [Kernel.linkAdd] at hres
    split_ifs at hres
    cases hres
    obtain ⟨hdevices, hnext, hchanges⟩ := hk
    simp only [Stage.Holds, createdAt, movedEnd, Kernel.addPair, Config.veth, hdevices, hnext,
      hchanges, hcfg.host_eq, hcfg.temporary_eq, and_self]
  · intro k hk
    rw [hk.1, hcfg.temporary_eq, createdAt_temporary]
  · refine triple_step .created .moved (fun _ _ => rfl) (fun _ h => h.1) fun k a t hk hres => ?_
    obtain ⟨⟨hdevices, hchanges⟩, hname, -⟩ := hk
    obtain ⟨htdevices, htchanges⟩ := placed hres
    rw [hdevices, hname, hcfg.temporary_eq] at htdevices
    rw [hchanges, List.append_assoc] at htchanges
    exact ⟨htdevices, htchanges⟩

theorem triple_renameLink {cfg : Config} (hcfg : Names host temporary ifName cfg) :
    Fallible.Triple ((netlinkIn .container).restrict Kernel.exec) allowed
      (Stage.moved.Holds k₀ host temporary ifName)
      (renameLink cfg.container.temporaryDeviceName cfg.container.deviceName)
      (fun _ => Stage.renamed.Holds k₀ host temporary ifName)
      fun _ => Staged k₀ host temporary ifName := by
  refine Fallible.Triple.bind (triple_lookup .moved (d := movedEnd k₀) ?_)
    fun link => ?_
  · intro k hk
    rw [hk.1, hcfg.temporary_eq, movedAt_container]
  · refine triple_step .moved .renamed (fun _ _ => rfl) (fun _ h => h.1) fun k a t hk hres => ?_
    obtain ⟨⟨hdevices, hchanges⟩, hname, -⟩ := hk
    obtain ⟨htdevices, htchanges⟩ := placed hres
    rw [hdevices, hname, hcfg.temporary_eq, hcfg.ifName_eq] at htdevices
    rw [hchanges, List.append_assoc] at htchanges
    exact ⟨htdevices, htchanges⟩

theorem triple_setUpContainer {cfg : Config} (hcfg : Names host temporary ifName cfg) :
    Fallible.Triple ((netlinkIn .container).restrict Kernel.exec) allowed
      (Stage.moved.Holds k₀ host temporary ifName) (setUpContainer cfg)
      (fun _ => Stage.renamed.Holds k₀ host temporary ifName)
      fun _ => Staged k₀ host temporary ifName := by
  refine Fallible.Triple.bind (Fallible.Triple.wrap (triple_renameLink hcfg)) fun _ => ?_
  refine ((still_setUpRenamed cfg).keeps fun ch k c _ hc h => ?_).onError fun _ _ h => ⟨.renamed, h⟩
  exact Stage.Holds.same h (Kernel.exec_same hc ch k)

def Assigns (ip : IP) (ch : KernelChoice) : Prop :=
  ∀ ips first, ch.reply .newResultFromResult = .ok ips → ips.head? = some first → first = ip

theorem triple_names {args : CmdArgs} {netConf : NetConf} {ip : IP} {P : Kernel → Prop}
    (hhost : Role.host.deviceName ip = .ok host)
    (htemporary : Role.temporaryContainer.deviceName ip = .ok temporary) :
    Fallible.Triple Kernel.exec (Assigns ip) P (prepare args netConf)
      (fun cfg _ => Names host temporary args.ifName cfg) fun _ _ => True := by
  have hresult : Fallible.Triple Kernel.exec (Assigns ip) (fun _ => True)
      (ask .newResultFromResult fun err =>
        CmdError.plain (ascii "convert result to current CNI version: " ++ err))
      (fun ips _ => ∀ first, ips.head? = some first → first = ip) fun _ _ => True := by
    refine Fallible.Triple.request (fun k ch ips t hch _ hexec => ?_) fun _ _ _ _ _ _ _ => trivial
    exact fun first hfirst => hch ips first (congrArg Prod.fst hexec) hfirst
  refine Fallible.Triple.bind (.any _) fun networkInfo => Fallible.Triple.bind (.any _) fun ipam =>
    Fallible.Triple.bind (.any _) fun _ => hresult.bind fun ips => Fallible.Triple.wrap ?_
  refine Fallible.Triple.of_states fun k hfirst => ?_
  refine (triple_create args ips networkInfo.mtu).post (fun cfg _ h => ?_) fun _ _ h => h
  obtain ⟨first, hhead, hcfg⟩ := h
  obtain rfl := hfirst first hhead
  obtain ⟨hname, hname', hifName, -⟩ := configFor_ok hcfg
  rw [hname] at hhost
  rw [hname'] at htemporary
  exact ⟨Except.ok.inj hhost, Except.ok.inj htemporary, hifName⟩

theorem triple_cmdAdd (float64 : Number → Option Number) {args : CmdArgs} {ip : IP}
    (hhost : Role.host.deviceName ip = .ok host)
    (htemporary : Role.temporaryContainer.deviceName ip = .ok temporary) :
    Fallible.Triple Kernel.exec (Assigns ip) (Stage.untouched.Holds k₀ host temporary args.ifName)
      (cmdAdd float64 args) (fun _ => Stage.renamed.Holds k₀ host temporary args.ifName)
      fun _ => Staged k₀ host temporary args.ifName := by
  have hstill : ∀ {ε α : Type} {p : CniProgram ε α} (stage : Stage),
      Fallible.Only (fun c => Kernel.places c = false) p →
      Fallible.Triple Kernel.exec (Assigns ip) (stage.Holds k₀ host temporary args.ifName) p
        (fun _ => stage.Holds k₀ host temporary args.ifName)
        fun _ => Staged k₀ host temporary args.ifName := fun stage hp =>
    (triple_still hp stage).onError fun _ _ h => ⟨stage, h⟩
  refine Fallible.Triple.bind (hstill .untouched (.lift _ _)) fun netConf => ?_
  refine Fallible.Triple.bind
    (Q := fun cfg k => Stage.untouched.Holds k₀ host temporary args.ifName k ∧
      Names host temporary args.ifName cfg) ?_ fun cfg => ?_
  · exact ((hstill .untouched (still_prepare args netConf)).and
      (triple_names hhost htemporary)).onError fun _ _ h => h.1
  refine Fallible.Triple.assuming fun hcfg => ?_
  refine Fallible.Triple.bind (Fallible.Triple.wrap (triple_enter (triple_createPair hcfg)))
    fun _ => ?_
  refine Fallible.Triple.bind (hstill .moved ((still_hostSetup cfg).wrap _)) fun _ => ?_
  refine Fallible.Triple.bind (Fallible.Triple.wrap (triple_enter (triple_setUpContainer hcfg)))
    fun _ => ?_
  exact Fallible.Triple.bind (hstill .renamed ((still_record float64 _).wrap _)) fun _ =>
    hstill .renamed (.request (by exact rfl) _)

end Adding

def Succeeds (ch : KernelChoice) : Prop := ch.fault = none ∧ ∀ c, ∃ a, ch.reply c = .ok a

def deletedFrom (p : Placement) (ifName : GoString) : Placement :=
  match p .container ifName with
  | none => p
  | some d => p.remove d.index

section Deleting

variable {k : Kernel} {p : Placement} {ifName name : GoString}

theorem deletedFrom_none (h : p .host name = none) : deletedFrom p ifName .host name = none := by
  rw [deletedFrom]
  cases p .container ifName with
  | none => exact h
  | some d => simp [Placement.remove, h]

theorem deletedFrom_peer {d d' : Device} (hd : p .container ifName = some d)
    (hd' : p .host name = some d') (hpeer : d'.peer = some d.index) :
    deletedFrom p ifName .host name = none := by
  rw [deletedFrom, hd]
  simp [Placement.remove, hd', hpeer]

theorem deletedFrom_other {d' : Device} (hd' : p .host name = some d')
    (hother : ∀ d, p .container ifName = some d → d'.index ≠ d.index ∧ d'.peer ≠ some d.index) :
    deletedFrom p ifName .host name = some d' := by
  rw [deletedFrom]
  cases hd : p .container ifName with
  | none => exact hd'
  | some d => simp [Placement.remove, hd', hother d hd]

theorem triple_succeeds {ε : Type} {c : Call} {err : GoString → ε} {P : Kernel → Prop}
    (hexec : ∀ ch k, Kernel.exec ch k c = (ch.reply c, k)) :
    Fallible.Triple Kernel.exec Succeeds P (ask c err) (fun _ => P) fun _ _ => False := by
  refine Fallible.Triple.request (fun k ch a t _ hk ht => ?_) fun k ch e t hch _ ht => ?_
  · rw [hexec] at ht
    rw [← (Prod.mk.inj ht).2]
    exact hk
  · rw [hexec] at ht
    obtain ⟨a, ha⟩ := hch.2 c
    rw [ha] at ht
    cases ht

theorem triple_find (ifName : GoString) :
    Fallible.Triple ((netlinkIn .container).restrict Kernel.exec) Succeeds (· = k)
      (issue (.linkByName ifName) Failure.error)
      (fun link k' => k' = k ∧ ∃ d, k.devices .container ifName = some d ∧ link.name = ifName ∧
        link.index = d.index)
      fun _ k' => k' = k ∧ k.devices .container ifName = none := by
  refine Fallible.Triple.request (fun k' ch link t hch hk hexec => ?_)
    fun k' ch e t hch hk hexec => ?_
  · obtain rfl := hk
    obtain ⟨rfl, d, hd, rfl⟩ := Kernel.linkByName_ok (Kernel.outcome_ok hexec)
    exact ⟨rfl, d, hd, rfl, rfl⟩
  · obtain rfl := hk
    have hexec : Kernel.outcome k' ch.fault (k'.linkByName .container ifName) = (.error e, t) :=
      hexec
    rw [hch.1, Kernel.linkByName] at hexec
    cases hd : k'.devices .container ifName with
    | none =>
      rw [hd] at hexec
      cases hexec
      exact ⟨rfl, rfl⟩
    | some d =>
      rw [hd] at hexec
      cases hexec

theorem triple_linkDel {link : Link} {d : Device} (hd : k.devices .container link.name = some d)
    (hindex : link.index = d.index) :
    Fallible.Triple ((netlinkIn .container).restrict Kernel.exec) Succeeds (· = k)
      (issue (.linkDel link) Failure.error)
      (fun _ k' => k'.devices = deletedFrom k.devices link.name) fun _ _ => False := by
  have hdel : k.linkDel .container link = .ok ((), k.delete d.index) := by
    rw [Kernel.linkDel, if_pos, hindex]
    rw [Kernel.found, hd, Option.any_some, hindex]
    exact decide_eq_true rfl
  have hexec : ∀ ch, Succeeds ch →
      Kernel.exec ch k (.net .container (.linkDel link)) = (.ok (), k.delete d.index) := by
    intro ch hch
    change k.outcome ch.fault (k.linkDel .container link) = _
    rw [hch.1, hdel]
    rfl
  refine Fallible.Triple.request (fun k' ch a t hch hk ht => ?_) fun k' ch e t hch hk ht => ?_
  · obtain rfl := hk
    rw [← (Prod.mk.inj ((hexec ch hch).symm.trans ht)).2, deletedFrom, hd]
    rfl
  · obtain rfl := hk
    cases (hexec ch hch).symm.trans ht

theorem triple_deleteLinkByName (ifName : GoString) :
    Fallible.Triple ((netlinkIn .container).restrict Kernel.exec) Succeeds (· = k)
      (deleteLinkByName ifName) (fun _ k' => k'.devices = deletedFrom k.devices ifName)
      fun _ _ => False := by
  refine Fallible.Triple.bind (Q := fun res k' => k' = k ∧ (∀ link, res = .ok link →
      ∃ d, k.devices .container ifName = some d ∧ link.name = ifName ∧ link.index = d.index) ∧
      ∀ e, res = .error e → k.devices .container ifName = none) ?_ fun res => ?_
  · refine Fallible.Triple.attempt ((triple_find ifName).post (fun link k' h => ?_)
      fun e k' h => ?_)
    · refine ⟨h.1, fun link' hlink => ?_, fun e he => ?_⟩
      · cases hlink
        exact h.2
      · cases he
    · refine ⟨h.1, fun link hlink => ?_, fun _ _ => h.2⟩
      cases hlink
  · cases res with
    | error e =>
      refine Fallible.Triple.pure fun k' h => ?_
      rw [h.1, deletedFrom, h.2.2 e rfl]
    | ok link =>
      refine Fallible.Triple.of_states fun k' h => ?_
      obtain ⟨rfl, hlink, -⟩ := h
      obtain ⟨d, hd, hname, hindex⟩ := hlink link rfl
      rw [← hname] at hd ⊢
      exact triple_linkDel hd hindex

theorem triple_cmdDel (float64 : Number → Option Number) {args : CmdArgs} {netConf : NetConf}
    (hconf : args.stdin = .ok netConf) :
    Fallible.Triple Kernel.exec Succeeds (· = k) (cmdDel float64 args)
      (fun _ k' => k'.devices = deletedFrom k.devices args.ifName) fun _ _ => False := by
  refine Fallible.Triple.bind (Q := fun _ => (· = k)) ?_ fun _ => ?_
  · rw [hconf]
    exact .pure fun _ h => h
  refine Fallible.Triple.bind (Q := fun _ => (· = k)) ?_ fun _ => ?_
  · exact .attempt ((triple_succeeds fun _ _ => rfl).onError fun _ _ h => h.elim)
  refine Fallible.Triple.bind (Q := fun res k' => k' = k ∧ res = .ok ()) ?_ fun res => ?_
  · exact .attempt ((triple_succeeds fun _ _ => rfl).post (fun _ _ h => ⟨h, rfl⟩)
      fun _ _ h => h.elim)
  refine Fallible.Triple.assuming fun hres => ?_
  rw [hres]
  have henter : Fallible.Triple Kernel.exec Succeeds (· = k) (Container.teardown args.ifName)
      (fun _ k' => k'.devices = deletedFrom k.devices args.ifName) fun _ _ => False :=
    (triple_succeeds fun _ _ => rfl).bind fun _ =>
      Fallible.Triple.embed (Fallible.Triple.wrap (triple_deleteLinkByName args.ifName))
  refine Fallible.Triple.bind (Fallible.Triple.wrap henter) fun _ => ?_
  refine Fallible.Triple.bind
    (Q := fun _ k' => k'.devices = deletedFrom k.devices args.ifName) ?_ fun _ => .pure fun _ h => h
  refine Fallible.Triple.attempt ((still_record float64 _).keeps fun ch k' c _ hc h => ?_)
  exact (Kernel.exec_same hc ch k').1.trans h

end Deleting

section Cleaning

variable {k₀ k : Kernel} {host temporary ifName : GoString}

def Cleaned (host temporary : GoString) (p : Placement) : Prop :=
  p .host host = none ∧ p .host temporary = none

/-- The pair DEL can find: none was created, or its end has the name DEL looks for. -/
def Findable (temporary ifName : GoString) (changes : List Change) : Prop :=
  .added ∉ changes ∨ .renamed ∈ changes ∨ (ifName = temporary ∧ .moved ∈ changes)

theorem not_cleaned_older (k₀ : Kernel) {p : Placement}
    (hhost : p .host host = some ⟨k₀.next, some (k₀.next + 1)⟩)
    (hcontainer : p .container ifName = k₀.devices .container ifName) :
    ¬ Cleaned host temporary (deletedFrom p ifName) := by
  have hkept := deletedFrom_other hhost fun d (hd : p .container ifName = some d) => by
    have hlt := k₀.fresh _ _ _ (hcontainer.symm.trans hd)
    refine ⟨(Nat.ne_of_lt hlt).symm, fun h => ?_⟩
    have hindex := Option.some.inj h
    omega
  rintro ⟨hnone, -⟩
  cases hkept.symm.trans hnone

theorem cleaned_moved {p : Placement}
    (hhost : p .host host = some ⟨k₀.next, some (k₀.next + 1)⟩)
    (htemporary : p .host temporary = none)
    (hcontainer : p .container ifName = some (movedEnd k₀)) :
    Cleaned host temporary (deletedFrom p ifName) :=
  ⟨deletedFrom_peer hcontainer hhost rfl, deletedFrom_none htemporary⟩

theorem Stage.Holds.cleaned_iff {stage : Stage} (h : stage.Holds k₀ host temporary ifName k)
    (hne : host ≠ temporary) (hvacant : Vacant k₀ host temporary) (hlog : k₀.changes = []) :
    Cleaned host temporary (deletedFrom k.devices ifName) ↔
      Findable temporary ifName k.changes := by
  cases stage with
  | untouched =>
    obtain ⟨hdevices, -, hchanges⟩ := h
    rw [Findable, hchanges, hlog, hdevices]
    refine iff_of_true ?_ (Or.inl List.not_mem_nil)
    exact ⟨deletedFrom_none hvacant.host_free, deletedFrom_none hvacant.temporary_free⟩
  | created =>
    obtain ⟨hdevices, hchanges⟩ := h
    rw [Findable, hchanges, hlog, hdevices]
    refine iff_of_false ?_ (by simp)
    exact not_cleaned_older k₀ (createdAt_host hne) (createdAt_container ifName)
  | moved =>
    obtain ⟨hdevices, hchanges⟩ := h
    rw [Findable, hchanges, hlog, hdevices]
    by_cases hname : ifName = temporary
    · refine iff_of_true ?_ (by simp [hname])
      rw [hname]
      exact cleaned_moved (movedAt_host hne) movedAt_temporary movedAt_container
    · refine iff_of_false ?_ (by simp [hname])
      exact not_cleaned_older k₀ (movedAt_host hne) (movedAt_container_of_ne hname)
  | renamed =>
    obtain ⟨hdevices, hchanges⟩ := h
    rw [Findable, hchanges, hlog, hdevices]
    refine iff_of_true ?_ (by simp)
    refine cleaned_moved ?_ ?_ renamedAt_container
    · rw [renamedAt_host, movedAt_host hne]
    · rw [renamedAt_host, movedAt_temporary]

theorem Cleaned.linkAdd (h : Cleaned host temporary k.devices) (hne : host ≠ temporary)
    {veth : Veth} (hname : veth.name = host) (hpeer : veth.peerName = temporary) :
    ∃ k', k.linkAdd .host veth = .ok ((), k') := by
  refine ⟨k.addPair .host veth, ?_⟩
  rw [Kernel.linkAdd, if_pos]
  rw [hname, hpeer, h.1, h.2]
  exact ⟨hne, rfl, rfl⟩

end Cleaning

def allGranted : KernelChoice := ⟨none, fun c => .ok (sampleAnswer c)⟩

theorem succeeds_allGranted : Succeeds allGranted := ⟨rfl, fun c => ⟨sampleAnswer c, rfl⟩⟩

/-- DEL cleans up after ADD, which may have failed at any of its calls, exactly when no pair was
created or the end in the container already has its final name. -/
theorem failed_add_cleaned_iff (float64 : Number → Option Number) {args : CmdArgs}
    {netConf : NetConf} (hconf : args.stdin = .ok netConf) {ip : IP} {host temporary : GoString}
    (hhost : Role.host.deviceName ip = .ok host)
    (htemporary : Role.temporaryContainer.deviceName ip = .ok temporary) {k₀ k : Kernel}
    (hvacant : Vacant k₀ host temporary) (hlog : k₀.changes = []) {res : Except CmdError Unit}
    (hadd : (cmdAdd float64 args).run.Runs Kernel.exec (Assigns ip) k₀ res k) :
    (∀ res' k', (cmdDel float64 args).run.Runs Kernel.exec Succeeds k res' k' →
      res' = .ok () ∧ k'.devices .host host = none ∧ k'.devices .host temporary = none ∧
        ∀ veth, veth.name = host → veth.peerName = temporary →
          ∃ k'', k'.linkAdd .host veth = .ok ((), k'')) ↔
      Findable temporary args.ifName k.changes := by
  have hstaged : Staged k₀ host temporary args.ifName k := by
    have hend := triple_cmdAdd float64 hhost htemporary _ res k (Kernel.Same.refl k₀) hadd
    cases res with
    | error e => exact hend
    | ok a => exact ⟨.renamed, hend⟩
  obtain ⟨stage, hstage⟩ := hstaged
  have hroles : Role.host ≠ Role.temporaryContainer := nofun
  have hne : host ≠ temporary := deviceName_ne hroles hhost htemporary
  have hcleaned := hstage.cleaned_iff hne hvacant hlog
  constructor
  · intro h
    have hrun : (cmdDel float64 args).run.Runs Kernel.exec Succeeds k _ _ :=
      Program.runs_runWith succeeds_allGranted _ k
    obtain ⟨a, -, hdevices⟩ := (triple_cmdDel float64 hconf).ok rfl hrun
    obtain ⟨-, hnone, hnone', -⟩ := h _ _ hrun
    rw [hdevices] at hnone hnone'
    exact hcleaned.mp ⟨hnone, hnone'⟩
  · intro h res' k' hdel
    obtain ⟨a, rfl, hdevices⟩ := (triple_cmdDel float64 hconf).ok rfl hdel
    have hclean : Cleaned host temporary k'.devices := hdevices ▸ hcleaned.mpr h
    exact ⟨rfl, hclean.1, hclean.2, fun veth => hclean.linkAdd hne⟩

def bareKernel : Kernel := ⟨fun _ _ => none, fun _ => [], 1, [], fun _ _ _ h => nomatch h⟩

def withoutForwarding : KernelChoice where
  fault := none
  reply
    | .net _ (.sysctl name _) =>
      if name = ascii "net.ipv4.ip_forward" then .error (ascii "permission denied") else .ok ()
    | c => .ok (sampleAnswer c)

def failedAdd : Except CmdError Unit × Kernel :=
  (cmdAdd some sampleArgs).run.runWith Kernel.exec withoutForwarding bareKernel

/-- The end in the container still has its temporary name, so DEL does not find it, reports
success, and the host keeps its end. -/
theorem forwarding_failure_leaves_device :
    failedAdd.1 = .error (.typed "set up host" (ascii "enabling packet forwarding on host: " ++
      (ascii "enabling IPv4 forwarding: " ++ ascii "permission denied"))) ∧
      ((cmdDel some sampleArgs).run.runWith Kernel.exec allGranted failedAdd.2).1 = .ok () ∧
      ((cmdDel some sampleArgs).run.runWith Kernel.exec allGranted failedAdd.2).2.devices .host
        (ascii "s-010255030005") = some ⟨1, some 2⟩ :=
  ⟨rfl, rfl, rfl⟩

def withoutDatastore : KernelChoice where
  fault := none
  reply
    | .file .openLocked => .error (ascii "no space left on device")
    | c => .ok (sampleAnswer c)

def unrecordedAdd : Except CmdError Unit × Kernel :=
  (cmdAdd some sampleArgs).run.runWith Kernel.exec withoutDatastore bareKernel

theorem failed_add_cleaned_unrecorded :
    unrecordedAdd.1 = .error (.typed "write container metadata"
      (ascii "open lock: " ++ ascii "no space left on device")) ∧
      (((cmdDel some sampleArgs).run.runWith Kernel.exec allGranted unrecordedAdd.2).2.devices .host
        (ascii "s-010255030005")).isNone := by
  have hassigns : Assigns [10, 255, 30, 5] withoutDatastore := by
    intro ips first hips hfirst
    cases hips
    cases hfirst
    rfl
  have hvacant : Vacant bareKernel (ascii "s-010255030005") (ascii "c-010255030005") :=
    ⟨rfl, rfl⟩
  have hadd : (cmdAdd some sampleArgs).run.Runs Kernel.exec (Assigns [10, 255, 30, 5]) bareKernel
      unrecordedAdd.1 unrecordedAdd.2 := Program.runs_runWith hassigns _ _
  have hfindable : Findable (ascii "c-010255030005") sampleArgs.ifName unrecordedAdd.2.changes :=
    Or.inr (Or.inl (by decide))
  have hdel := (failed_add_cleaned_iff some rfl rfl rfl hvacant rfl hadd).mpr hfindable _ _
    (Program.runs_runWith succeeds_allGranted _ _)
  refine ⟨rfl, ?_⟩
  rw [hdel.2.1]
  rfl

end Silk.Cni
