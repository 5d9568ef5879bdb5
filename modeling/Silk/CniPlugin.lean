import Mathlib.Data.List.DropRight
import Silk.CniFlannel
import Silk.CniLinks
import Silk.CniNames
import Silk.ResumptionEmbedding

/-!
# ADD and DEL of the CNI plugin

`cmdAdd` asks for the network, runs the IPAM plugin, creates the veth pair, moves
one end into the container and sets both ends up, and records the container in
the datastore. `cmdDel` releases the address and deletes the end in the
container; it goes on, or returns without an error, after most failures.
-/

namespace Silk.Cni

open GoJson GoNet Resumption
open Datastore (Failure FileAnswer FileCall context serve)

inductive Namespace where
  | host | container
deriving DecidableEq

structure NetConf where
  cniVersion : GoString
  name : GoString
  dataDir : GoString
  subnetFile : GoString
  mtu : ℤ
  daemonPort : ℤ

/-- `stdin` is what `json.Unmarshal` makes of the data on the standard input. -/
structure CmdArgs where
  netns : GoString
  ifName : GoString
  stdin : Except GoString NetConf

structure IPAMConfig where
  name : GoString
  subnet : IPNet
  dataDir : GoString

structure Interface where
  name : GoString
  mac : String
  sandbox : GoString

structure CNIResult where
  host : Interface
  container : Interface
  address : IPNet
  gateway : IP
  routes : List Route

inductive Call where
  | readFile (path : GoString)
  | daemonInfo (port : ℤ)
  | delegateAdd (ipam : IPAMConfig)
  | newResultFromResult
  | delegateDel (ipam : Option IPAMConfig)
  | getNS (path : GoString)
  | enter (ns : Namespace)
  | net (ns : Namespace) (c : NetCall)
  | file (c : FileCall)
  | printResult (result : CNIResult) (cniVersion : GoString)

abbrev Answer : Call → Type
  | .readFile _ => GoString
  | .daemonInfo _ => NetworkInfo
  | .newResultFromResult => List IP
  | .net _ c => NetAnswer c
  | .file c => FileAnswer c
  | .delegateAdd _ | .delegateDel _ | .getNS _ | .enter _ | .printResult _ _ => Unit

abbrev CniProgram (ε : Type) : Type → Type := Fallible Call Answer GoString ε

def ask {ε : Type} (c : Call) (err : GoString → ε) : CniProgram ε (Answer c) :=
  Fallible.request c err

def netlinkIn (ns : Namespace) : Embedding NetCall (fun c => Except GoString (NetAnswer c)) Call
    (fun c => Except GoString (Answer c)) :=
  ⟨.net ns, fun _ r => r⟩

def datastore : Embedding FileCall (fun c => Except GoString (FileAnswer c)) Call
    (fun c => Except GoString (Answer c)) :=
  ⟨.file, fun _ r => r⟩

/-- `NetNS.Do`: switch to the namespace, which may fail, and run there. -/
def inNamespace {α : Type} (ns : Namespace) (p : NetProgram α) : CniProgram Failure α := do
  ask (.enter ns) .error
  Fallible.embed (netlinkIn ns) p

def text (s : GoString) : String := String.ofList (s.map fun b => Char.ofNat b.toNat)

def getNetInfo (netConf : NetConf) : CniProgram Failure NetworkInfo :=
  if netConf.subnetFile ≠ [] then do
    let fileContents ← ask (.readFile netConf.subnetFile) .error
    Fallible.lift ((Flannel.get fileContents).mapError .error)
  else ask (.daemonInfo netConf.daemonPort) (context "json client do: ")

def discover (netConf : NetConf) : CniProgram Failure NetworkInfo := do
  let info ← Fallible.wrap (within (ascii "get netinfo: ")) (getNetInfo netConf)
  pure (if netConf.mtu ≠ 0 then ⟨info.overlaySubnet, netConf.mtu⟩ else info)

def getNetworkInfo (netConf : NetConf) : CniProgram Failure NetworkInfo :=
  if netConf.mtu < 0 then throw (.error (ascii "invalid config: MTU: less than min"))
  else discover netConf

def generateConfig (subnet network dataDirPath : GoString) : Except Failure IPAMConfig :=
  match parseCIDR (text subnet) with
  | .error err => .error (context "invalid subnet: " (ascii err))
  | .ok (ip, net) => .ok ⟨network, ⟨ip, net.mask⟩, dataDirPath⟩

structure ContainerConfig where
  deviceName : GoString
  temporaryDeviceName : GoString
  namespacePath : GoString
  address : DualAddress
  mtu : ℤ
  routes : List Route

structure HostConfig where
  deviceName : GoString
  address : DualAddress

structure Config where
  container : ContainerConfig
  host : HostConfig

def hostIP : IP := [169, 254, 0, 1]

def defaultRoute : Route := ⟨⟨ipv4 0 0 0 0, cidrMask 0 32⟩, hostIP⟩

def configFor (args : CmdArgs) (ip : IP) (mtu : ℤ) : Except Failure Config := do
  let temporary ← (DeviceNameGenerator.generateTemporaryForContainer ip).mapError
    (context "generating temporary container device name: ")
  let hardware ← (HardwareAddressGenerator.generateForContainer ip).mapError
    fun err => context "generating container veth hardware address: " (ascii err)
  let hostName ← (DeviceNameGenerator.generateForHost ip).mapError
    (context "generating host device name: ")
  let hostHardware ← (HardwareAddressGenerator.generateForHost ip).mapError
    fun err => context "generating host veth hardware address: " (ascii err)
  pure ⟨⟨args.ifName, temporary, args.netns, ⟨hardware, ip⟩, mtu, [defaultRoute]⟩,
    ⟨hostName, ⟨hostHardware, hostIP⟩⟩⟩

def firstConfig (args : CmdArgs) (mtu : ℤ) : List IP → Except Failure Config
  | [] => .error (.error (ascii "no IP address in IPAM result"))
  | ip :: _ => configFor args ip mtu

def create (args : CmdArgs) (ips : List IP) (mtu : ℤ) : CniProgram Failure Config :=
  if args.ifName = [] then throw (.error (ascii "IfName cannot be empty"))
  else if 15 < args.ifName.length then
    throw (.error (ascii "IfName cannot be longer than 15 characters"))
  else do
    ask (.getNS args.netns) (context "getting container namespace: ")
    Fallible.lift (firstConfig args mtu ips)

namespace Config

def veth (cfg : Config) : Veth :=
  ⟨cfg.host.deviceName, cfg.container.mtu, cfg.host.address.hardware,
    cfg.container.temporaryDeviceName, cfg.container.address.hardware⟩

def asCNIResult (cfg : Config) : CNIResult :=
  ⟨⟨cfg.host.deviceName, hardwareAddrString cfg.host.address.hardware, []⟩,
    ⟨cfg.container.deviceName, hardwareAddrString cfg.container.address.hardware,
      cfg.container.namespacePath⟩,
    LinkOperations.singleAddress cfg.container.address.ip, cfg.host.address.ip,
    cfg.container.routes⟩

end Config

open LinkOperations Common

def createPair (cfg : Config) : NetProgram Unit := do
  issue (.linkAdd cfg.veth) (context "creating veth pair: ")
  let containerVeth ← issue (.linkByName cfg.container.temporaryDeviceName) fun err =>
    .error (ascii "failed to find newly-created veth device " ++
      quoted cfg.container.temporaryDeviceName ++ ascii ": " ++ err)
  issue (.linkSetNsFd containerVeth) (context "failed to move veth to container namespace: ")

def VethPairCreator.create (cfg : Config) : CniProgram Failure Unit :=
  inNamespace .host (createPair cfg)

def setUpHost (cfg : Config) : NetProgram Unit := do
  Fallible.wrap (within (ascii "setting up device in host: "))
    (basicSetup cfg.host.deviceName cfg.host.address cfg.container.address)
  Fallible.wrap (within (ascii "enabling packet forwarding on host: ")) enableIPv4Forwarding

def Host.setup (cfg : Config) : CniProgram Failure Unit := inNamespace .host (setUpHost cfg)

def setUpRenamed (cfg : Config) : NetProgram Unit := do
  Fallible.wrap (within (ascii "setting up device in container: "))
    (basicSetup cfg.container.deviceName cfg.container.address cfg.host.address)
  Fallible.wrap (within (ascii "adding route in container: "))
    (routeAddAll cfg.container.address.ip cfg.container.routes)

def setUpContainer (cfg : Config) : NetProgram Unit := do
  Fallible.wrap (within (ascii "renaming link in container: "))
    (renameLink cfg.container.temporaryDeviceName cfg.container.deviceName)
  setUpRenamed cfg

def Container.setup (cfg : Config) : CniProgram Failure Unit :=
  inNamespace .container (setUpContainer cfg)

def Container.teardown (deviceName : GoString) : CniProgram Failure Unit :=
  inNamespace .container
    (Fallible.wrap (within (ascii "deleting link: ")) (deleteLinkByName deviceName))

def base (path : GoString) : GoString :=
  if path = [] then ascii "."
  else
    let last := (path.rdropWhile (· = 0x2f)).rtakeWhile (· ≠ 0x2f)
    if last = [] then ascii "/" else last

inductive CmdError where
  | typed (msg : String) (details : GoString)
  | plain (err : GoString)
  | panic (err : GoString)

def typedError (msg : String) : Failure → CmdError
  | .error err => .typed msg err
  | .panic err => .panic err

section Commands

variable (float64 : Number → Option Number)

def record (req : Datastore.Request) : CniProgram Failure Datastore.Answer :=
  Fallible.embed datastore (serve float64 req)

def prepare (args : CmdArgs) (netConf : NetConf) : CniProgram CmdError Config := do
  let networkInfo ← Fallible.wrap (typedError "discover network info") (getNetworkInfo netConf)
  let ipamConfig ← Fallible.lift
    ((generateConfig networkInfo.overlaySubnet netConf.name netConf.dataDir).mapError
      (typedError "generate ipam config"))
  ask (.delegateAdd ipamConfig) (.typed "run ipam plugin")
  let cniResult ← ask .newResultFromResult fun err =>
    .plain (ascii "convert result to current CNI version: " ++ err)
  Fallible.wrap (typedError "create config") (create args cniResult networkInfo.mtu)

def cmdAdd (args : CmdArgs) : CniProgram CmdError Unit := do
  let netConf ← Fallible.lift (args.stdin.mapError .plain)
  let cfg ← prepare args netConf
  Fallible.wrap (typedError "create veth pair") (VethPairCreator.create cfg)
  Fallible.wrap (typedError "set up host") (Host.setup cfg)
  Fallible.wrap (typedError "set up container") (Container.setup cfg)
  let _ ← Fallible.wrap (typedError "write container metadata")
    (record float64 (.add (base args.netns) (ascii (ipString cfg.container.address.ip)) none))
  ask (.printResult cfg.asCNIResult netConf.cniVersion) .plain

def deleteIn (args : CmdArgs) : CniProgram CmdError Unit := do
  Fallible.wrap (typedError "teardown failed") (Container.teardown args.ifName)
  let _ ← Fallible.attempt (record float64 (.delete (base args.netns)))
  pure ()

def ifPresent (p : CniProgram CmdError Unit) : Except GoString Unit → CniProgram CmdError Unit
  | .error _ => pure ()
  | .ok () => p

def cmdDel (args : CmdArgs) : CniProgram CmdError Unit := do
  let netConf ← Fallible.lift (args.stdin.mapError .plain)
  let ipamConfig := (generateConfig (ascii "0.0.0.0/0") netConf.name netConf.dataDir).toOption
  let _ ← Fallible.attempt
    (ask (.delegateDel ipamConfig) id : CniProgram GoString Unit)
  let containerNS ← Fallible.attempt
    (ask (.getNS args.netns) id : CniProgram GoString Unit)
  ifPresent (deleteIn float64 args) containerNS

end Commands

def Call.outside : Call → Bool
  | .net _ _ | .file _ => false
  | _ => true

theorem outside_getNetworkInfo (netConf : NetConf) :
    Fallible.Only (fun c => c.outside) (getNetworkInfo netConf) := by
  have hinfo : Fallible.Only (fun c => c.outside) (getNetInfo netConf) := by
    rw [getNetInfo]
    split_ifs
    · exact .bind (.request (by exact rfl) _) fun _ => .lift _ _
    · exact .request (by exact rfl) _
  rw [getNetworkInfo]
  split_ifs
  · exact .lift _ _
  · exact .bind (hinfo.wrap _) fun _ => .lift _ _

theorem outside_create (args : CmdArgs) (ips : List IP) (mtu : ℤ) :
    Fallible.Only (fun c => c.outside) (create args ips mtu) := by
  rw [create]
  split_ifs
  · exact .lift _ _
  · exact .lift _ _
  · exact .bind (.request (by exact rfl) _) fun _ => .lift _ _

theorem outside_prepare (args : CmdArgs) (netConf : NetConf) :
    Fallible.Only (fun c => c.outside) (prepare args netConf) :=
  .bind ((outside_getNetworkInfo netConf).wrap _) fun _ => .bind (.lift _ _) fun _ =>
    .bind (.request (by exact rfl) _) fun _ => .bind (.request (by exact rfl) _) fun _ =>
      (outside_create args _ _).wrap _

theorem configFor_ok {args : CmdArgs} {ip : IP} {mtu : ℤ} {cfg : Config}
    (h : configFor args ip mtu = .ok cfg) :
    Role.host.deviceName ip = .ok cfg.host.deviceName ∧
      Role.temporaryContainer.deviceName ip = .ok cfg.container.temporaryDeviceName ∧
      cfg.container.deviceName = args.ifName ∧ cfg.container.address.ip = ip := by
  rw [Role.deviceName, Role.deviceName]
  rw [configFor] at h
  generalize DeviceNameGenerator.generateTemporaryForContainer ip = temporary at h ⊢
  generalize HardwareAddressGenerator.generateForContainer ip = hardware at h
  generalize DeviceNameGenerator.generateForHost ip = hostName at h ⊢
  generalize HardwareAddressGenerator.generateForHost ip = hostHardware at h
  rcases temporary with err | temporary
  · cases h
  rcases hardware with err | hardware
  · cases h
  rcases hostName with err | hostName
  · cases h
  rcases hostHardware with err | hostHardware
  · cases h
  cases h
  exact ⟨rfl, rfl, rfl, rfl⟩

section Results

variable {σ Choice : Type} {exec : Choice → σ → (c : Call) → Except GoString (Answer c) × σ}
  {allowed : Choice → Prop} {P : σ → Prop}

theorem triple_create (args : CmdArgs) (ips : List IP) (mtu : ℤ) :
    Fallible.Triple exec allowed P (create args ips mtu)
      (fun cfg _ => ∃ ip, ips.head? = some ip ∧ configFor args ip mtu = .ok cfg)
      fun _ _ => True := by
  rw [create]
  split_ifs
  · exact .throw fun _ _ => trivial
  · exact .throw fun _ _ => trivial
  · refine Fallible.Triple.bind (.any _) fun _ => Fallible.Triple.lift _ fun _ _ => ?_
    cases ips with
    | nil => trivial
    | cons ip rest =>
      cases hcfg : firstConfig args mtu (ip :: rest) with
      | error err => trivial
      | ok cfg => exact ⟨ip, rfl, hcfg⟩

theorem triple_prepare (args : CmdArgs) (netConf : NetConf) :
    Fallible.Triple exec allowed P (prepare args netConf)
      (fun cfg _ => ∃ ip mtu, configFor args ip mtu = .ok cfg) fun _ _ => True := by
  refine Fallible.Triple.bind (.any _) fun networkInfo => Fallible.Triple.bind (.any _) fun _ =>
    Fallible.Triple.bind (.any _) fun _ => Fallible.Triple.bind (.any _) fun ips => ?_
  refine Fallible.Triple.wrap ((triple_create args ips networkInfo.mtu).post (fun cfg _ h => ?_)
    fun _ _ h => h)
  obtain ⟨ip, -, hcfg⟩ := h
  exact ⟨ip, _, hcfg⟩

end Results

def sampleArgs : CmdArgs :=
  ⟨ascii "/var/vcap/data/garden-cni/container-netns/abc", ascii "eth0",
    .ok ⟨ascii "0.3.1", ascii "cni-wrapper", ascii "/var/vcap/data/host-local", [], 0, 23954⟩⟩

def sampleAnswer : (c : Call) → Answer c
  | .readFile _ => []
  | .daemonInfo _ => ⟨ascii "10.255.30.0/24", 1450⟩
  | .newResultFromResult => [[10, 255, 30, 5]]
  | .net .host (.linkByName name) => ⟨name, 1, [0xaa, 0xaa, 10, 255, 30, 5]⟩
  | .net .container (.linkByName name) => ⟨name, 2, [0xee, 0xee, 10, 255, 30, 5]⟩
  | .net _ (.parseAddr _) => ⟨singleAddress [10, 255, 30, 5], none⟩
  | .net _ (.linkAdd _) | .net _ (.linkSetNsFd _) | .net _ (.linkSetHardwareAddr _ _)
  | .net _ (.linkSetARPOff _) | .net _ (.linkSetName _ _) | .net _ (.linkSetUp _)
  | .net _ (.linkDel _) | .net _ (.neighAddPermanentIPv4 _ _ _) | .net _ (.addrAddScopeLink _ _)
  | .net _ (.routeAdd _ _) | .net _ (.sysctl _ _) => ()
  | .file .read => ⟨[], none⟩
  | .file .openLocked | .file (.seek _) | .file (.truncate _) | .file (.write _)
  | .file .close => ()
  | .delegateAdd _ | .delegateDel _ | .getNS _ | .enter _ | .printResult _ _ => ()

end Silk.Cni
