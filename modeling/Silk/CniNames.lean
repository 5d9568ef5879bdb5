import Silk.GoJsonText
import Silk.LeaserController

/-!
# Names and hardware addresses of a container's devices

A device name is a letter for the role of the device, a dash, and the four bytes
of the container's address as decimals of fixed width. A hardware address is two
bytes and the last four bytes of the address. Both depend only on the IPv4
address that an `IP` denotes, and determine it.
-/

namespace Silk.Cni

open GoJson GoNet
open Leaser (generateHardwareAddr4)

def zeroPadded (width n : ℕ) : GoString :=
  (List.replicate (width - (decimal n).length) '0' ++ decimal n).map fun c => UInt8.ofNat c.toNat

namespace DeviceNameGenerator

def generate (role : GoString) (containerIP : IP) : Except GoString GoString :=
  match to4 containerIP with
  | none => .error (ascii "generating device name: expecting valid IPv4 address")
  | some i => .ok (role ++ ascii "-" ++ i.flatMap fun b => zeroPadded 3 b.toNat)

def generateForHost (containerIP : IP) : Except GoString GoString :=
  generate (ascii "s") containerIP

def generateTemporaryForContainer (containerIP : IP) : Except GoString GoString :=
  generate (ascii "c") containerIP

def generateForHostIFB (containerIP : IP) : Except GoString GoString :=
  generate (ascii "i") containerIP

end DeviceNameGenerator

namespace HardwareAddressGenerator

def generateForContainer (containerIP : IP) : Except String HardwareAddr :=
  generateHardwareAddr4 containerIP [0xee, 0xee]

def generateForHost (containerIP : IP) : Except String HardwareAddr :=
  generateHardwareAddr4 containerIP [0xaa, 0xaa]

end HardwareAddressGenerator

inductive Role where
  | host
  | temporaryContainer
  | hostIFB

def Role.deviceName : Role → IP → Except GoString GoString
  | .host => DeviceNameGenerator.generateForHost
  | .temporaryContainer => DeviceNameGenerator.generateTemporaryForContainer
  | .hostIFB => DeviceNameGenerator.generateForHostIFB

def Role.letter : Role → UInt8
  | .host => 0x73
  | .temporaryContainer => 0x63
  | .hostIFB => 0x69

theorem Role.letter_injective {r r' : Role} (h : r.letter = r'.letter) : r = r' := by
  cases r <;> cases r' <;> first | rfl | exact absurd h (by decide)

theorem zeroPadded_byte : ∀ n < 256, zeroPadded 3 n =
    [UInt8.ofNat (48 + n / 100), UInt8.ofNat (48 + n / 10 % 10), UInt8.ofNat (48 + n % 10)] := by
  decide +kernel

theorem zeroPadded_length (b : UInt8) : (zeroPadded 3 b.toNat).length = 3 := by
  rw [zeroPadded_byte _ b.toNat_lt]
  rfl

theorem zeroPadded_injective {a b : UInt8} (h : zeroPadded 3 a.toNat = zeroPadded 3 b.toNat) :
    a = b := by
  have ha := a.toNat_lt
  have hb := b.toNat_lt
  rw [zeroPadded_byte _ ha, zeroPadded_byte _ hb] at h
  simp only [List.cons.injEq, and_true, ← UInt8.toNat_inj, UInt8.toNat_ofNat'] at h
  apply UInt8.toNat_inj.mp
  omega

theorem flatMap_zeroPadded_injective {a b : List UInt8} (hlen : a.length = b.length)
    (h : (a.flatMap fun x => zeroPadded 3 x.toNat) = b.flatMap fun x => zeroPadded 3 x.toNat) :
    a = b := by
  have hwidths : (a.map fun x => zeroPadded 3 x.toNat).map List.length =
      (b.map fun x => zeroPadded 3 x.toNat).map List.length := by
    simp only [List.map_map, Function.comp_def, zeroPadded_length, List.map_const', hlen]
  have hblocks := List.eq_iff_flatten_eq.mpr ⟨h, hwidths⟩
  exact List.map_injective_iff.mpr (fun _ _ => zeroPadded_injective) hblocks

theorem Role.deviceName_ok (r : Role) {ip a : IP} (h : to4 ip = some a) :
    r.deviceName ip =
      .ok (r.letter :: 0x2d :: a.flatMap fun b => zeroPadded 3 b.toNat) := by
  cases r <;>
    simp only [Role.deviceName, DeviceNameGenerator.generateForHost,
      DeviceNameGenerator.generateTemporaryForContainer, DeviceNameGenerator.generateForHostIFB,
      DeviceNameGenerator.generate, h] <;> rfl

theorem Role.deviceName_error (r : Role) {ip : IP} (h : to4 ip = none) :
    r.deviceName ip = .error (ascii "generating device name: expecting valid IPv4 address") := by
  cases r <;>
    simp only [Role.deviceName, DeviceNameGenerator.generateForHost,
      DeviceNameGenerator.generateTemporaryForContainer, DeviceNameGenerator.generateForHostIFB,
      DeviceNameGenerator.generate, h]

theorem deviceName_length {a : IP} (h : a.length = 4) (letter : UInt8) :
    (letter :: 0x2d :: a.flatMap fun b => zeroPadded 3 b.toNat).length = 14 := by
  obtain ⟨x, y, z, w, rfl⟩ := List.length_eq_four.mp h
  simp [zeroPadded_length]

theorem deviceName_inj (r r' : Role) {ip ip' a b : IP} (ha : to4 ip = some a)
    (hb : to4 ip' = some b) : r.deviceName ip = r'.deviceName ip' ↔ r = r' ∧ a = b := by
  rw [r.deviceName_ok ha, r'.deviceName_ok hb]
  simp only [Except.ok.injEq, List.cons.injEq, true_and]
  constructor
  · intro h
    refine ⟨Role.letter_injective h.1, ?_⟩
    exact flatMap_zeroPadded_injective ((to4_length ha).trans (to4_length hb).symm) h.2
  · intro h
    rw [h.1, h.2]
    exact ⟨rfl, rfl⟩

theorem Role.to4_of_deviceName {r : Role} {ip : IP} {name : GoString}
    (h : r.deviceName ip = .ok name) : ∃ a, to4 ip = some a := by
  cases h4 : to4 ip with
  | none => cases (r.deviceName_error h4).symm.trans h
  | some a => exact ⟨a, rfl⟩

theorem deviceName_ne {r r' : Role} (hne : r ≠ r') {ip : IP} {name name' : GoString}
    (h : r.deviceName ip = .ok name) (h' : r'.deviceName ip = .ok name') : name ≠ name' := by
  rintro rfl
  obtain ⟨a, ha⟩ := Role.to4_of_deviceName h
  exact hne ((deviceName_inj r r' ha ha).mp (h.trans h'.symm)).1

theorem to4_eq_drop {ip a : IP} (h : to4 ip = some a) : ip.drop (ip.length - 4) = a := by
  rw [to4] at h
  split_ifs at h with h4 h16
  · cases h
    simp [h4]
  · cases h
    rw [h16.1]

theorem generateHardwareAddr4_ok {ip a : IP} (h : to4 ip = some a) {bytes : List UInt8}
    (hbytes : bytes.length = 2) : generateHardwareAddr4 ip bytes = .ok (bytes ++ a) := by
  simp [generateHardwareAddr4, h, hbytes, to4_eq_drop h]

theorem generateHardwareAddr4_inj {ip ip' a b : IP} (ha : to4 ip = some a) (hb : to4 ip' = some b)
    {x y : List UInt8} (hx : x.length = 2) (hy : y.length = 2) :
    generateHardwareAddr4 ip x = generateHardwareAddr4 ip' y ↔ x = y ∧ a = b := by
  rw [generateHardwareAddr4_ok ha hx, generateHardwareAddr4_ok hb hy, Except.ok.injEq]
  constructor
  · exact fun h => List.append_inj h (hx.trans hy.symm)
  · intro h
    rw [h.1, h.2]

/-- Names fit the kernel's 15 bytes and, like hardware addresses, determine the role and the
address; an address that is not IPv4 has neither. -/
theorem names_identify (r r' : Role) {ip ip' a b : IP} (ha : to4 ip = some a)
    (hb : to4 ip' = some b) {x y : List UInt8} (hx : x.length = 2) (hy : y.length = 2) :
    (∃ name, r.deviceName ip = .ok name ∧ name.length ≤ 15) ∧
      (r.deviceName ip = r'.deviceName ip' ↔ r = r' ∧ a = b) ∧
      (∃ mac, generateHardwareAddr4 ip x = .ok mac ∧ mac.length = 6) ∧
      (generateHardwareAddr4 ip x = generateHardwareAddr4 ip' y ↔ x = y ∧ a = b) ∧
      ∀ other, to4 other = none → (∃ err, r.deviceName other = .error err) ∧
        ∃ err, generateHardwareAddr4 other x = .error err := by
  refine ⟨⟨_, r.deviceName_ok ha, ?_⟩, deviceName_inj r r' ha hb,
    ⟨_, generateHardwareAddr4_ok ha hx, ?_⟩, generateHardwareAddr4_inj ha hb hx hy,
    fun other h => ⟨⟨_, r.deviceName_error h⟩, _, if_pos h⟩⟩
  · rw [deviceName_length (to4_length ha)]
    decide
  · rw [List.length_append, hx, to4_length ha]

theorem names_identify_forms :
    (Role.host.deviceName [10, 255, 30, 5] = Role.host.deviceName (ipv4 10 255 30 5)) ∧
      Role.host.deviceName [10, 255, 30, 5] ≠
        Role.temporaryContainer.deviceName (ipv4 10 255 30 5) := by
  have h4 : to4 [10, 255, 30, 5] = some [10, 255, 30, 5] := rfl
  have h16 : to4 (ipv4 10 255 30 5) = some [10, 255, 30, 5] := rfl
  have hlen : [(0xee : UInt8), 0xee].length = 2 := rfl
  constructor
  · exact (names_identify .host .host h4 h16 hlen hlen).2.1.mpr ⟨rfl, rfl⟩
  · intro h
    have hroles := ((names_identify .host .temporaryContainer h4 h16 hlen hlen).2.1.mp h).1
    cases hroles

end Silk.Cni
