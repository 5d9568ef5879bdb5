import Mathlib.Data.Set.Function
import Silk.CniPlugin
import Silk.DatastoreRefinement
import Silk.GoNetRoundTrip

/-!
# The metadata of the containers on a host

ADD and DEL run one after the other, each for the network namespace at some
path, and every call other than those on the datastore's file replies anything.
The handle of a container is the last component of the path. The handles in the
datastore are those of the containers whose last successful command was an ADD,
as long as distinct containers have distinct handles, ADD can print its result
and DEL can open the namespace.
-/

namespace Silk.Cni

open GoJson GoNet Resumption
open Datastore (Container Containers Disk Represents Request)

abbrev Replies := (c : Call) → Except GoString (Answer c)

/-- The datastore's file, whose operations do not fail. -/
def onDisk (replies : Replies) (d : Disk) : (c : Call) → Except GoString (Answer c) × Disk
  | .file c => Disk.exec none d c
  | c => (replies c, d)

inductive Invocation where
  | add (args : CmdArgs)
  | del (args : CmdArgs)

def Invocation.netns : Invocation → GoString
  | .add args | .del args => args.netns

def Invocation.command (float64 : Number → Option Number) : Invocation → CniProgram CmdError Unit
  | .add args => cmdAdd float64 args
  | .del args => cmdDel float64 args

structure Report where
  invocation : Invocation
  result : Except CmdError Unit

def lastSuccess (reports : List Report) (netns : GoString) : Option Invocation :=
  (reports.reverse.find? fun r => r.invocation.netns = netns && r.result.isOk).map
    Report.invocation

def live (reports : List Report) : Set GoString :=
  {netns | ∃ args, lastSuccess reports netns = some (.add args)}

structure Environment where
  accepts : List Report → Invocation → Prop
  allowed : List Report → Invocation → Replies → Prop

inductive Session (float64 : Number → Option Number) (env : Environment) (d₀ : Disk) :
    List Report → Disk → Prop where
  | nil : Session float64 env d₀ [] d₀
  | snoc {reports : List Report} {d t : Disk} {inv : Invocation} {res : Except CmdError Unit} :
      Session float64 env d₀ reports d → env.accepts reports inv →
      (inv.command float64).run.Runs onDisk (env.allowed reports inv) d res t →
      Session float64 env d₀ (reports ++ [⟨inv, res⟩]) t

def anything : Environment := ⟨fun _ _ => True, fun _ _ _ => True⟩

/-- The handle is valid UTF-8 and not that of another container. ADD prints its result, unless the
container has been added before, and DEL opens the namespace of a container that has been added. -/
def dependable : Environment where
  accepts reports inv := ValidUTF8 (base inv.netns) ∧
    ∀ other ∈ live reports, base other = base inv.netns → other = inv.netns
  allowed reports inv replies :=
    match inv with
    | .add args => args.netns ∈ live reports ∨
        ∀ result cniVersion, (replies (.printResult result cniVersion)).isOk
    | .del args => args.netns ∉ live reports ∨ (replies (.getNS args.netns)).isOk

section Live

variable (reports : List Report)

theorem lastSuccess_append (r : Report) (netns : GoString) :
    lastSuccess (reports ++ [r]) netns =
      if r.invocation.netns = netns ∧ r.result.isOk then some r.invocation
      else lastSuccess reports netns := by
  rw [lastSuccess, List.reverse_append, List.reverse_singleton, List.singleton_append,
    List.find?_cons]
  by_cases h : r.invocation.netns = netns ∧ r.result.isOk
  · simp [h]
  · have hfalse : (decide (r.invocation.netns = netns) && r.result.isOk) = false := by simpa using h
    rw [if_neg h, hfalse, lastSuccess]

theorem live_nil : live [] = ∅ := by
  ext netns
  simp [live, lastSuccess]

theorem live_error (inv : Invocation) (e : CmdError) :
    live (reports ++ [⟨inv, .error e⟩]) = live reports := by
  ext netns
  simp [live, lastSuccess_append, Except.isOk, Except.toBool]

theorem live_add (args : CmdArgs) :
    live (reports ++ [⟨.add args, .ok ()⟩]) = insert args.netns (live reports) := by
  ext netns
  by_cases h : args.netns = netns
  · simp [live, lastSuccess_append, Invocation.netns, Except.isOk, Except.toBool, h]
  · simp [live, lastSuccess_append, Invocation.netns, h, Ne.symm h]

theorem live_del (args : CmdArgs) :
    live (reports ++ [⟨.del args, .ok ()⟩]) = live reports \ {args.netns} := by
  ext netns
  by_cases h : args.netns = netns
  · simp [live, lastSuccess_append, Invocation.netns, Except.isOk, Except.toBool, h]
  · simp [live, lastSuccess_append, Invocation.netns, h, Ne.symm h]

end Live

theorem base_ne_nil (path : GoString) : base path ≠ [] := by
  rw [base]
  split_ifs with hempty
  · decide
  · dsimp only
    split_ifs with hlast
    · decide
    · exact hlast

theorem validUTF8_ipString {ip a : IP} (h : to4 ip = some a) : ValidUTF8 (ascii (ipString ip)) := by
  have hip : ip ≠ [] := by
    rintro rfl
    cases h
  rw [ipString, if_neg hip, h, ascii, String.toList_ofList, ← List.append_nil (List.map _ _)]
  refine ValidUTF8.append_ascii (fun b hb => ?_) (by decide)
  obtain ⟨c, hc, rfl⟩ := List.mem_map.mp hb
  rcases dotted_chars a hc with hdigit | rfl
  · have hle : c.toNat ≤ 57 := by
      simp only [Char.isDigit, Bool.and_eq_true, decide_eq_true_eq] at hdigit
      exact hdigit.2
    rw [UInt8.lt_iff_toNat_lt, UInt8.toNat_ofNat']
    exact Nat.lt_of_le_of_lt (Nat.mod_le _ _) (Nat.lt_of_le_of_lt hle (by decide))
  · decide

section Correspondence

variable {α β γ : Type} [DecidableEq β] {f : α → β} {s : Set α} {m : β → Option γ}

def keys (m : β → Option γ) : Set β := {b | m b ≠ none}

theorem keys_update_some (b : β) (c : γ) :
    keys (Function.update m b (some c)) = insert b (keys m) := by
  ext b'
  by_cases h : b' = b
  · simp [keys, h]
  · simp [keys, h]

theorem keys_update_none (b : β) : keys (Function.update m b none) = keys m \ {b} := by
  ext b'
  by_cases h : b' = b
  · simp [keys, h]
  · simp [keys, h]

theorem bijOn_insert (h : Set.BijOn f s (keys m)) {a : α} (ha : ∀ a' ∈ s, f a' = f a → a' = a)
    (c : γ) : Set.BijOn f (insert a s) (keys (Function.update m (f a) (some c))) := by
  rw [keys_update_some]
  by_cases hmem : a ∈ s
  · rw [Set.insert_eq_of_mem hmem, Set.insert_eq_of_mem (h.mapsTo hmem)]
    exact h
  · refine h.insert fun hkey => hmem ?_
    obtain ⟨a', ha', heq⟩ := h.surjOn hkey
    exact ha a' ha' heq ▸ ha'

theorem bijOn_erase (h : Set.BijOn f s (keys m)) {a : α} (ha : ∀ a' ∈ s, f a' = f a → a' = a) :
    Set.BijOn f (s \ {a}) (keys (Function.update m (f a) none)) := by
  rw [keys_update_none]
  by_cases hmem : a ∈ s
  · exact h.sdiff_singleton hmem
  · have hkey : f a ∉ keys m := by
      intro hkey
      obtain ⟨a', ha', heq⟩ := h.surjOn hkey
      exact hmem (ha a' ha' heq ▸ ha')
    rw [Set.sdiff_singleton_eq_self hmem, Set.sdiff_singleton_eq_self hkey]
    exact h

end Correspondence

section Commands

variable {float64 : Number → Option Number} {allowed : Replies → Prop} {m : Containers}

theorem triple_elsewhere {ε α : Type} {p : CniProgram ε α} {P : Disk → Prop}
    (hp : Fallible.Only (fun c => ∀ f, c ≠ .file f) p) :
    Fallible.Triple onDisk allowed P p (fun _ => P) fun _ => P := by
  refine hp.keeps fun replies d c _ hc hd => ?_
  cases c with
  | file f => exact absurd rfl (hc f)
  | _ => exact hd

theorem triple_before {ε α : Type} {p : CniProgram ε α} {P R : Disk → Prop}
    (hp : Fallible.Only (fun c => ∀ f, c ≠ .file f) p) :
    Fallible.Triple onDisk allowed P p (fun _ => P) fun _ t => P t ∨ R t :=
  (triple_elsewhere hp).onError fun _ _ => Or.inl

theorem elsewhere_inNamespace {α : Type} (ns : Namespace) (p : NetProgram α) :
    Fallible.Only (fun c => ∀ f, c ≠ .file f) (inNamespace ns p) :=
  .bind (.request (by exact nofun) _) fun _ => .embed (.of_forall (fun _ => nofun) _)

theorem elsewhere_prepare (args : CmdArgs) (netConf : NetConf) :
    Fallible.Only (fun c => ∀ f, c ≠ .file f) (prepare args netConf) := by
  refine (outside_prepare args netConf).mono fun c hc f hf => ?_
  rw [hf] at hc
  cases hc

theorem runs_record {req : Request} (hplain : req.Plain) {s t : Disk}
    {res : Except Datastore.Failure Datastore.Answer} (hs : Represents float64 s m)
    (hr : (record float64 req).run.Runs onDisk allowed s res t) :
    Represents float64 t (Request.apply m req) ∧
      (req.rejection = none → Request.Answers m req res) := by
  have hserve := Program.runs_embed.mp hr
  refine Datastore.runs_represents hplain hs (Program.Runs.transfer ?_ hserve)
  exact fun _ _ _ _ => ⟨none, rfl, rfl⟩

theorem triple_record_add {handle ip : GoString} (hhandle : ValidUTF8 handle) (hip : ValidUTF8 ip) :
    Fallible.Triple onDisk allowed (Represents float64 · m) (record float64 (.add handle ip none))
      (fun _ t => Represents float64 t (Function.update m handle (some ⟨handle, ip, none⟩)))
      fun _ t => Represents float64 t m := by
  intro s res t hs hr
  have hplain : Request.Plain (.add handle ip none) := ⟨hhandle, hip, nofun⟩
  obtain ⟨hrep, hanswers⟩ := runs_record hplain hs hr
  rw [Request.apply] at hrep
  split_ifs at hrep with hrej
  · rw [show res = .ok .added from hanswers hrej]
    exact hrep
  · obtain ⟨err, herr⟩ := Option.ne_none_iff_exists'.mp hrej
    have hserve := Program.runs_embed.mp hr
    rw [Datastore.serve_rejected herr] at hserve
    obtain ⟨rfl, -⟩ := hserve
    exact hrep

theorem triple_record_delete {handle : GoString} (hhandle : ValidUTF8 handle) (hne : handle ≠ []) :
    Fallible.Triple onDisk allowed (Represents float64 · m) (record float64 (.delete handle))
      (fun _ t => Represents float64 t (Function.update m handle none)) fun _ _ => False := by
  intro s res t hs hr
  have hplain : Request.Plain (.delete handle) := hhandle
  obtain ⟨hrep, hanswers⟩ := runs_record hplain hs hr
  have hrej : Request.rejection (.delete handle) = none := if_neg hne
  rw [Request.apply, if_pos hrej] at hrep
  rw [show res = _ from hanswers hrej]
  exact hrep

theorem configFor_address {args : CmdArgs} {ip : IP} {mtu : ℤ} {cfg : Config}
    (h : configFor args ip mtu = .ok cfg) : ∃ a, to4 cfg.container.address.ip = some a := by
  obtain ⟨hname, -, -, hip⟩ := configFor_ok h
  rw [hip]
  exact Role.to4_of_deviceName hname

theorem triple_add {args : CmdArgs} (hhandle : ValidUTF8 (base args.netns)) :
    Fallible.Triple onDisk allowed (Represents float64 · m) (cmdAdd float64 args)
      (fun _ t => ∃ c, Represents float64 t (Function.update m (base args.netns) (some c)))
      fun _ t => Represents float64 t m ∨
        (∃ replies, allowed replies ∧
          ∃ result cniVersion, (replies (.printResult result cniVersion)).isOk = false) ∧
        ∃ c, Represents float64 t (Function.update m (base args.netns) (some c)) := by
  refine Fallible.Triple.bind (triple_before (.lift _ _)) fun netConf => ?_
  refine Fallible.Triple.bind (Q := fun cfg t => Represents float64 t m ∧
    ∃ a, to4 cfg.container.address.ip = some a) ?_ fun cfg => ?_
  · refine ((triple_elsewhere (elsewhere_prepare args netConf)).and
      (triple_prepare args netConf)).post (fun cfg _ h => ⟨h.1, ?_⟩) fun _ _ h => Or.inl h.1
    obtain ⟨ip, mtu, hcfg⟩ := h.2
    exact configFor_address hcfg
  refine Fallible.Triple.assuming fun ⟨a, ha⟩ => ?_
  refine Fallible.Triple.bind (triple_before ((elsewhere_inNamespace _ _).wrap _)) fun _ => ?_
  refine Fallible.Triple.bind (triple_before ((elsewhere_inNamespace _ _).wrap _)) fun _ => ?_
  refine Fallible.Triple.bind (triple_before ((elsewhere_inNamespace _ _).wrap _)) fun _ => ?_
  refine Fallible.Triple.bind (Fallible.Triple.wrap
    ((triple_record_add hhandle (validUTF8_ipString ha)).onError fun _ _ => Or.inl)) fun _ => ?_
  refine Fallible.Triple.request (fun d replies a t _ hd hexec => ?_)
    fun d replies e t hreplies hd hexec => ?_
  · obtain ⟨-, rfl⟩ := Prod.mk.inj hexec
    exact ⟨_, hd⟩
  · obtain ⟨hfail, rfl⟩ := Prod.mk.inj hexec
    have hbad : (replies (.printResult cfg.asCNIResult netConf.cniVersion)).isOk = false := by
      rw [hfail]
      rfl
    exact Or.inr ⟨⟨replies, hreplies, _, _, hbad⟩, _, hd⟩

theorem triple_del {args : CmdArgs} (hhandle : ValidUTF8 (base args.netns)) :
    Fallible.Triple onDisk allowed (Represents float64 · m) (cmdDel float64 args)
      (fun _ t => Represents float64 t (Function.update m (base args.netns) none) ∨
        (∃ replies, allowed replies ∧ (replies (.getNS args.netns)).isOk = false) ∧
          Represents float64 t m)
      fun _ t => Represents float64 t m := by
  refine Fallible.Triple.bind (triple_elsewhere (.lift _ _)) fun netConf => ?_
  refine Fallible.Triple.bind (Q := fun _ t => Represents float64 t m) ?_ fun _ => ?_
  · exact .attempt (triple_elsewhere (.request (by exact nofun) _))
  refine Fallible.Triple.bind (Q := fun res t => Represents float64 t m ∧ (res = .ok () ∨
    ∃ replies, allowed replies ∧ (replies (.getNS args.netns)).isOk = false)) ?_ fun res => ?_
  · refine .attempt (Fallible.Triple.request (fun d replies a t _ hd hexec => ?_)
      fun d replies e t hreplies hd hexec => ?_)
    · obtain ⟨-, rfl⟩ := Prod.mk.inj hexec
      exact ⟨hd, Or.inl rfl⟩
    · obtain ⟨hfail, rfl⟩ := Prod.mk.inj hexec
      refine ⟨hd, Or.inr ⟨replies, hreplies, ?_⟩⟩
      rw [hfail]
      rfl
  cases res with
  | error err =>
    refine Fallible.Triple.pure fun t h => Or.inr ⟨?_, h.1⟩
    rcases h.2 with hok | hfail
    · cases hok
    · exact hfail
  | ok a =>
    refine Fallible.Triple.mono (P := (Represents float64 · m)) ?_ (fun _ h => h.1)
      (fun _ _ => Or.inl) fun _ _ h => h
    refine Fallible.Triple.bind (triple_elsewhere ((elsewhere_inNamespace _ _).wrap _)) fun _ => ?_
    refine Fallible.Triple.bind
      (Q := fun _ t => Represents float64 t (Function.update m (base args.netns) none)) ?_ fun _ =>
      .pure fun _ h => h
    exact .attempt ((triple_record_delete hhandle (base_ne_nil _)).onError fun _ _ h => h.elim)

end Commands

section Sessions

variable {float64 : Number → Option Number} {reports : List Report} {inv : Invocation}
  {res : Except CmdError Unit} {d t : Disk} {m : Containers}

def Tracks (m : Containers) (inv : Invocation) (added : Set GoString) (m' : Containers) : Prop :=
  Set.BijOn base added (keys m') ∧ ∀ handle, handle ≠ base inv.netns → m' handle = m handle

theorem runs_add {args : CmdArgs} (haccepts : dependable.accepts reports (.add args))
    (hr : (cmdAdd float64 args).run.Runs onDisk (dependable.allowed reports (.add args)) d res t)
    (hd : Represents float64 d m) (htracks : Set.BijOn base (live reports) (keys m)) :
    ∃ m', Represents float64 t m' ∧
      Tracks m (.add args) (live (reports ++ [⟨.add args, res⟩])) m' := by
  obtain ⟨hhandle, hother⟩ := haccepts
  have hend := triple_add hhandle d res t hd hr
  have hadded : ∀ c, Set.BijOn base (insert args.netns (live reports))
      (keys (Function.update m (base args.netns) (some c))) := bijOn_insert htracks hother
  cases res with
  | ok a =>
    obtain ⟨c, hc⟩ := hend
    refine ⟨_, hc, ?_, fun handle h => Function.update_of_ne h _ _⟩
    rw [live_add]
    exact hadded c
  | error e =>
    rw [live_error]
    rcases hend with hsame | ⟨⟨replies, hreplies, result, cniVersion, hfail⟩, c, hc⟩
    · exact ⟨m, hsame, htracks, fun _ _ => rfl⟩
    · refine ⟨_, hc, ?_, fun handle h => Function.update_of_ne h _ _⟩
      rcases hreplies with hmem | hprints
      · rw [← Set.insert_eq_of_mem hmem]
        exact hadded c
      · exact absurd (hprints result cniVersion) (by simp [hfail])

theorem runs_del {args : CmdArgs} (haccepts : dependable.accepts reports (.del args))
    (hr : (cmdDel float64 args).run.Runs onDisk (dependable.allowed reports (.del args)) d res t)
    (hd : Represents float64 d m) (htracks : Set.BijOn base (live reports) (keys m)) :
    ∃ m', Represents float64 t m' ∧
      Tracks m (.del args) (live (reports ++ [⟨.del args, res⟩])) m' := by
  obtain ⟨hhandle, hother⟩ := haccepts
  have hend := triple_del hhandle d res t hd hr
  cases res with
  | error e =>
    rw [live_error]
    exact ⟨m, hend, htracks, fun _ _ => rfl⟩
  | ok a =>
    rw [live_del]
    rcases hend with hgone | ⟨⟨replies, hreplies, hfail⟩, hsame⟩
    · exact ⟨_, hgone, bijOn_erase htracks hother, fun handle h => Function.update_of_ne h _ _⟩
    · refine ⟨m, hsame, ?_, fun _ _ => rfl⟩
      rcases hreplies with hmem | hopens
      · rw [Set.sdiff_singleton_eq_self hmem]
        exact htracks
      · exact absurd hopens (by simp [hfail])

theorem runs_tracks (haccepts : dependable.accepts reports inv)
    (hr : (inv.command float64).run.Runs onDisk (dependable.allowed reports inv) d res t)
    (hd : Represents float64 d m) (htracks : Set.BijOn base (live reports) (keys m)) :
    ∃ m', Represents float64 t m' ∧ Tracks m inv (live (reports ++ [⟨inv, res⟩])) m' := by
  cases inv with
  | add args => exact runs_add haccepts hr hd htracks
  | del args => exact runs_del haccepts hr hd htracks

theorem session_tracks {d₀ : Disk} (hempty : Represents float64 d₀ fun _ => none)
    (hs : Session float64 dependable d₀ reports d) :
    ∃ m, Represents float64 d m ∧ Set.BijOn base (live reports) (keys m) := by
  induction hs with
  | nil =>
    refine ⟨_, hempty, ?_⟩
    rw [live_nil]
    exact Set.bijOn_empty_iff_right.mpr (by simp [keys])
  | snoc _ haccepts hr ih =>
    obtain ⟨m, hm, htracks⟩ := ih
    obtain ⟨m', hm', htracks', -⟩ := runs_tracks haccepts hr hm htracks
    exact ⟨m', hm', htracks'⟩

/-- In every session the handles in the datastore are those of the containers that have been
added; the next command leaves no entry when it is a successful DEL, and never touches that of
another container. -/
theorem metadata_tracks_containers (float64 : Number → Option Number) {d₀ d : Disk}
    (hempty : Represents float64 d₀ fun _ => none) {reports : List Report}
    (hs : Session float64 dependable d₀ reports d) :
    ∃ m, Represents float64 d m ∧ Set.BijOn base (live reports) {handle | m handle ≠ none} ∧
      ∀ inv res t, dependable.accepts reports inv →
        (inv.command float64).run.Runs onDisk (dependable.allowed reports inv) d res t →
        ∃ m', Represents float64 t m' ∧
          Set.BijOn base (live (reports ++ [⟨inv, res⟩])) {handle | m' handle ≠ none} ∧
          (∀ args, inv = .del args → res = .ok () → m' (base args.netns) = none) ∧
          ∀ other, other ≠ inv.netns → other ∈ live reports ∨ base other ≠ base inv.netns →
            m' (base other) = m (base other) := by
  obtain ⟨m, hm, htracks⟩ := session_tracks hempty hs
  refine ⟨m, hm, htracks, fun inv res t haccepts hr => ?_⟩
  obtain ⟨m', hm', htracks', hframe⟩ := runs_tracks haccepts hr hm htracks
  refine ⟨m', hm', htracks', ?_, fun other hne hother => hframe _ ?_⟩
  · rintro args rfl rfl
    by_contra hentry
    -- An entry would be that of another container with this handle.
    obtain ⟨other, hlive, heq⟩ := htracks'.surjOn hentry
    rw [live_del] at hlive
    exact hlive.2 (haccepts.2 other hlive.1 heq)
  · rcases hother with hlive | hbase
    · exact fun heq => hne (haccepts.2 other hlive heq)
    · exact hbase

end Sessions

def missingFile : Disk := ⟨[], 0, false⟩

def granted : Replies := fun c => .ok (sampleAnswer c)

def added : Disk := ((cmdAdd some sampleArgs).run.runWith onDisk granted missingFile).2

theorem runs_granted {allowed : Replies → Prop} (h : allowed granted) :
    (cmdAdd some sampleArgs).run.Runs onDisk allowed missingFile (.ok ()) added := by
  have hok : ((cmdAdd some sampleArgs).run.runWith onDisk granted missingFile).1 = .ok () := rfl
  rw [← hok]
  exact Program.runs_runWith h _ _

def withoutNamespace : Replies
  | .getNS _ => .error (ascii "failed to Statfs: no such file or directory")
  | c => .ok (sampleAnswer c)

theorem vanished_namespace_keeps_entry : ∃ d m,
    Session some anything missingFile [⟨.add sampleArgs, .ok ()⟩, ⟨.del sampleArgs, .ok ()⟩] d ∧
      Represents some d m ∧ m (base sampleArgs.netns) ≠ none ∧
      sampleArgs.netns ∉ live [⟨.add sampleArgs, .ok ()⟩, ⟨.del sampleArgs, .ok ()⟩] := by
  have hdel : (cmdDel some sampleArgs).run.Runs onDisk (fun _ => True) added (.ok ()) added :=
    ⟨granted, trivial, withoutNamespace, trivial, rfl, rfl⟩
  have hadd : (cmdAdd some sampleArgs).run.Runs onDisk (fun _ => True) missingFile (.ok ()) added :=
    runs_granted trivial
  obtain ⟨c, hc⟩ := triple_add (by decide) _ _ _ Datastore.represents_empty hadd
  refine ⟨_, _, .snoc (.snoc .nil trivial hadd) trivial hdel, hc, ?_, ?_⟩
  · simp
  · change sampleArgs.netns ∉ live ([⟨.add sampleArgs, .ok ()⟩] ++ [⟨.del sampleArgs, .ok ()⟩])
    rw [live_del]
    simp

theorem metadata_tracks_added : ∃ m t m', Represents some added m ∧
    m (base sampleArgs.netns) ≠ none ∧
    (cmdDel some sampleArgs).run.Runs onDisk
      (dependable.allowed [⟨.add sampleArgs, .ok ()⟩] (.del sampleArgs)) added (.ok ()) t ∧
    Represents some t m' ∧ m' (base sampleArgs.netns) = none := by
  have hlive : live [⟨.add sampleArgs, .ok ()⟩] = {sampleArgs.netns} := by
    rw [← List.nil_append [_], live_add, live_nil, insert_empty_eq]
  have hs : Session some dependable missingFile [⟨.add sampleArgs, .ok ()⟩] added := by
    refine .snoc .nil ⟨by decide, ?_⟩ (runs_granted (Or.inr fun _ _ => rfl))
    simp [live_nil]
  obtain ⟨m, hm, htracks, hnext⟩ := metadata_tracks_containers some Datastore.represents_empty hs
  rw [hlive] at htracks
  have haccepts : dependable.accepts [⟨.add sampleArgs, .ok ()⟩] (.del sampleArgs) := by
    refine ⟨by decide, fun other hother _ => ?_⟩
    rwa [hlive] at hother
  have hallowed : dependable.allowed [⟨.add sampleArgs, .ok ()⟩] (.del sampleArgs) granted :=
    Or.inr rfl
  have hok : ((cmdDel some sampleArgs).run.runWith onDisk granted added).1 = .ok () := rfl
  have hdel : (cmdDel some sampleArgs).run.Runs onDisk _ added _ _ :=
    Program.runs_runWith hallowed _ _
  rw [hok] at hdel
  obtain ⟨m', hm', -, hgone, -⟩ := hnext (.del sampleArgs) _ _ haccepts hdel
  exact ⟨m, _, m', hm, htracks.mapsTo rfl, hdel, hm', hgone sampleArgs rfl rfl⟩

end Silk.Cni
