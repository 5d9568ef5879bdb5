import Silk.CniPlugin

/-!
# Devices in namespaces

A namespace maps device names to devices. The two ends of a veth pair are each
other's peer, and deleting one end deletes both. A call that fails may have
taken effect or not; the calls that do not place devices reply anything.
-/

namespace Silk.Cni

open GoJson GoNet Resumption
open Datastore (Failure)

structure Device where
  index : ℕ
  peer : Option ℕ

abbrev Placement := Namespace → GoString → Option Device

namespace Placement

def put (p : Placement) (ns : Namespace) (name : GoString) (d : Option Device) : Placement :=
  fun ns' name' => if ns' = ns ∧ name' = name then d else p ns' name'

def remove (p : Placement) (index : ℕ) : Placement :=
  fun ns name => (p ns name).filter fun d => decide (d.index ≠ index ∧ d.peer ≠ some index)

def relocate (p : Placement) (ns : Namespace) (name : GoString) (ns' : Namespace)
    (name' : GoString) : Placement :=
  (p.put ns name none).put ns' name' (p ns name)

variable {p : Placement} {ns ns' : Namespace} {name name' : GoString} {d : Option Device}

@[simp] theorem put_self : p.put ns name d ns name = d := by
  simp [put]

theorem put_of_ne (h : ns' ≠ ns ∨ name' ≠ name) : p.put ns name d ns' name' = p ns' name' := by
  rw [put, if_neg]
  rintro ⟨rfl, rfl⟩
  simp at h

end Placement

inductive Change where
  | added | moved | renamed | deleted
deriving DecidableEq

structure Kernel where
  devices : Placement
  hardware : ℕ → HardwareAddr
  next : ℕ
  changes : List Change
  fresh : ∀ ns name d, devices ns name = some d → d.index < next

namespace Kernel

def linkByName (k : Kernel) (ns : Namespace) (name : GoString) : Except GoString (Link × Kernel) :=
  match k.devices ns name with
  | none => .error (ascii "Link not found")
  | some d => .ok (⟨name, d.index, k.hardware d.index⟩, k)

def addPair (k : Kernel) (ns : Namespace) (veth : Veth) : Kernel where
  devices := (k.devices.put ns veth.name (some ⟨k.next, some (k.next + 1)⟩)).put ns veth.peerName
    (some ⟨k.next + 1, some k.next⟩)
  hardware i :=
    if i = k.next then veth.hardwareAddr
    else if i = k.next + 1 then veth.peerHardwareAddr else k.hardware i
  next := k.next + 2
  changes := k.changes ++ [.added]
  fresh ns' name d hd := by
    simp only [Placement.put] at hd
    split_ifs at hd
    · cases hd
      exact Nat.lt_succ_self _
    · cases hd
      exact Nat.lt_add_of_pos_right Nat.two_pos
    · have hlt := k.fresh _ _ _ hd
      omega

def linkAdd (k : Kernel) (ns : Namespace) (veth : Veth) : Except GoString (Unit × Kernel) :=
  if veth.name ≠ veth.peerName ∧ (k.devices ns veth.name).isNone ∧
      (k.devices ns veth.peerName).isNone
  then .ok ((), k.addPair ns veth)
  else .error (ascii "file exists")

/-- The device a link stands for, if it still is where it was found. -/
def found (k : Kernel) (ns : Namespace) (link : Link) : Bool :=
  (k.devices ns link.name).any fun d => d.index = link.index

def place (k : Kernel) (change : Change) (ns : Namespace) (name : GoString) (ns' : Namespace)
    (name' : GoString) : Kernel where
  devices := k.devices.relocate ns name ns' name'
  hardware := k.hardware
  next := k.next
  changes := k.changes ++ [change]
  fresh ns'' name'' d hd := by
    simp only [Placement.relocate, Placement.put] at hd
    split_ifs at hd
    · exact k.fresh _ _ _ hd
    · exact k.fresh _ _ _ hd

/-- Moving and renaming fail when the name is taken by another device. -/
def relocate (k : Kernel) (change : Change) (ns : Namespace) (link : Link) (ns' : Namespace)
    (name' : GoString) : Except GoString (Unit × Kernel) :=
  if k.found ns link then
    if (ns' = ns ∧ name' = link.name) ∨ (k.devices ns' name').isNone
    then .ok ((), k.place change ns link.name ns' name')
    else .error (ascii "file exists")
  else .error (ascii "no such device")

def linkSetNsFd (k : Kernel) (ns : Namespace) (link : Link) : Except GoString (Unit × Kernel) :=
  k.relocate .moved ns link .container link.name

def linkSetName (k : Kernel) (ns : Namespace) (link : Link) (newName : GoString) :
    Except GoString (Unit × Kernel) :=
  k.relocate .renamed ns link ns newName

def setHardware (k : Kernel) (index : ℕ) (hardwareAddr : HardwareAddr) : Kernel :=
  ⟨k.devices, fun i => if i = index then hardwareAddr else k.hardware i, k.next, k.changes, k.fresh⟩

def linkSetHardwareAddr (k : Kernel) (ns : Namespace) (link : Link) (hardwareAddr : HardwareAddr) :
    Except GoString (Unit × Kernel) :=
  if k.found ns link then .ok ((), k.setHardware link.index hardwareAddr)
  else .error (ascii "no such device")

def delete (k : Kernel) (index : ℕ) : Kernel where
  devices := k.devices.remove index
  hardware := k.hardware
  next := k.next
  changes := k.changes ++ [.deleted]
  fresh ns name d hd := k.fresh ns name d (Option.filter_eq_some_iff.mp hd).1

def linkDel (k : Kernel) (ns : Namespace) (link : Link) : Except GoString (Unit × Kernel) :=
  if k.found ns link then .ok ((), k.delete link.index) else .error (ascii "no such device")

end Kernel

structure Fault where
  text : GoString
  applied : Bool

structure KernelChoice where
  fault : Option Fault
  reply : (c : Call) → Except GoString (Answer c)

namespace Kernel

def outcome {α : Type} (k : Kernel) (fault : Option Fault) (res : Except GoString (α × Kernel)) :
    Except GoString α × Kernel :=
  match fault, res with
  | none, .ok (a, k') => (.ok a, k')
  | none, .error err => (.error err, k)
  | some f, .ok (_, k') => (.error f.text, if f.applied then k' else k)
  | some f, .error _ => (.error f.text, k)

def exec (ch : KernelChoice) (k : Kernel) : (c : Call) → Except GoString (Answer c) × Kernel
  | .net ns (.linkByName name) => k.outcome ch.fault (k.linkByName ns name)
  | .net ns (.linkAdd veth) => k.outcome ch.fault (k.linkAdd ns veth)
  | .net ns (.linkSetNsFd link) => k.outcome ch.fault (k.linkSetNsFd ns link)
  | .net ns (.linkSetName link newName) => k.outcome ch.fault (k.linkSetName ns link newName)
  | .net ns (.linkSetHardwareAddr link hardwareAddr) =>
    k.outcome ch.fault (k.linkSetHardwareAddr ns link hardwareAddr)
  | .net ns (.linkDel link) => k.outcome ch.fault (k.linkDel ns link)
  | c => (ch.reply c, k)

def places : Call → Bool
  | .net _ (.linkAdd _) | .net _ (.linkSetNsFd _) | .net _ (.linkSetName _ _)
  | .net _ (.linkDel _) => true
  | _ => false

def Same (k k' : Kernel) : Prop :=
  k'.devices = k.devices ∧ k'.next = k.next ∧ k'.changes = k.changes

theorem Same.refl (k : Kernel) : Same k k := ⟨rfl, rfl, rfl⟩

theorem outcome_ok {α : Type} {k k' : Kernel} {fault : Option Fault}
    {res : Except GoString (α × Kernel)} {a : α} (h : k.outcome fault res = (.ok a, k')) :
    res = .ok (a, k') := by
  rcases fault with _ | f
  · rcases res with err | ⟨b, t⟩
    · cases h
    · cases h
      rfl
  · rcases res with err | ⟨b, t⟩
    · cases h
    · cases h

theorem outcome_error {α : Type} {k k' : Kernel} {fault : Option Fault}
    {res : Except GoString (α × Kernel)} {err : GoString}
    (h : k.outcome fault res = (.error err, k')) : k' = k ∨ ∃ a, res = .ok (a, k') := by
  rcases fault with _ | f
  · rcases res with err | ⟨b, t⟩
    · cases h
      exact Or.inl rfl
    · cases h
  · rcases res with err | ⟨b, t⟩
    · cases h
      exact Or.inl rfl
    · rw [outcome] at h
      split_ifs at h
      · cases h
        exact Or.inr ⟨b, rfl⟩
      · cases h
        exact Or.inl rfl

theorem outcome_same {α : Type} {k : Kernel} {fault : Option Fault}
    {res : Except GoString (α × Kernel)} (h : ∀ a k', res = .ok (a, k') → Same k k') :
    Same k (k.outcome fault res).2 := by
  rcases hres : k.outcome fault res with ⟨err | a, k'⟩
  · rcases outcome_error hres with rfl | ⟨a, ha⟩
    · exact .refl _
    · exact h a k' ha
  · exact h a k' (outcome_ok hres)

theorem linkByName_ok {k k' : Kernel} {ns : Namespace} {name : GoString} {link : Link}
    (h : k.linkByName ns name = .ok (link, k')) :
    k' = k ∧ ∃ d, k.devices ns name = some d ∧ link = ⟨name, d.index, k.hardware d.index⟩ := by
  rw [linkByName] at h
  cases hd : k.devices ns name with
  | none =>
    rw [hd] at h
    cases h
  | some d =>
    rw [hd] at h
    cases h
    exact ⟨rfl, d, rfl, rfl⟩

theorem exec_same {c : Call} (hc : places c = false) (ch : KernelChoice) (k : Kernel) :
    Same k (exec ch k c).2 := by
  cases c with
  | net ns c =>
    cases c with
    | linkByName name =>
      exact outcome_same fun link k' h => (linkByName_ok h).1 ▸ .refl k
    | linkSetHardwareAddr link hardwareAddr =>
      refine outcome_same fun a k' h => ?_
      rw [linkSetHardwareAddr] at h
      split_ifs at h
      cases h
      exact .refl k
    | linkAdd veth => cases hc
    | linkSetNsFd link => cases hc
    | linkSetName link newName => cases hc
    | linkDel link => cases hc
    | _ => exact .refl k
  | _ => exact .refl k

end Kernel
end Silk.Cni
