import Silk.GoNetRange

/-!
# What a printed address determines

Only IPv4 addresses print in dotted form, so an address that prints like an IPv4
address is that address, in either of its forms. Networks that print alike and
parse are equal. A printed hardware address determines its bytes.
-/

namespace Silk.GoNet

theorem dotted_injective {xs ys : List UInt8} (hx : xs.length = 4) (hy : ys.length = 4)
    (h : dotted xs = dotted ys) : xs = ys := by
  obtain ⟨a, b, c, d, rfl⟩ := List.length_eq_four.mp hx
  obtain ⟨a', b', c', d', rfl⟩ := List.length_eq_four.mp hy
  have hparse := parseIPv4_dotted a b c d
  rw [h, parseIPv4_dotted] at hparse
  exact (Option.some.inj hparse).symm

theorem ipString_of_to4 {x y : IP} (h : to4 x = some y) :
    ipString x = String.ofList (dotted y) := by
  have hne : x ≠ [] := by
    rintro rfl
    cases h
  rw [ipString, if_neg hne, h]

theorem colon_mem_joinGroups (g g' : ℕ) (gs : List ℕ) : ':' ∈ joinGroups (g :: g' :: gs) := by
  simp [joinGroups]

theorem colon_mem_ipv6String {x : IP} (h : x.length = 16) : ':' ∈ ipv6String x := by
  obtain ⟨a, b, c, d, rest, rfl⟩ : ∃ a b c d rest, x = a :: b :: c :: d :: rest := by
    rcases x with _ | ⟨a, _ | ⟨b, _ | ⟨c, _ | ⟨d, rest⟩⟩⟩⟩
    · simp at h
    · simp at h
    · simp at h
    · simp at h
    · exact ⟨a, b, c, d, rest, rfl⟩
  rw [ipv6String]
  split
  · exact colon_mem_joinGroups _ _ _
  · simp

theorem ofList_ne_dotted {s : List Char} {c : Char} (hc : c ∈ s) (hdigit : c.isDigit = false)
    (hdot : c ≠ '.') (bytes : List UInt8) : String.ofList s ≠ String.ofList (dotted bytes) := by
  intro h
  rw [String.ofList_inj.mp h] at hc
  exact dotted_not_mem bytes hdigit hdot hc

theorem ipString_ne_dotted {x : IP} (h : to4 x = none) (bytes : List UInt8) :
    ipString x ≠ String.ofList (dotted bytes) := by
  rw [ipString]
  by_cases hnil : x = []
  · rw [if_pos hnil]
    exact ofList_ne_dotted (s := ['<', 'n', 'i', 'l', '>']) List.mem_cons_self (by decide)
      (by decide) bytes
  rw [if_neg hnil, h]
  dsimp only
  split_ifs with hlen
  · exact ofList_ne_dotted (colon_mem_ipv6String hlen) (by decide) (by decide) bytes
  · exact ofList_ne_dotted List.mem_cons_self (by decide) (by decide) bytes

theorem to4_of_ipString_eq {x y z : IP} (hy : to4 y = some z) (h : ipString x = ipString y) :
    to4 x = some z := by
  rw [ipString_of_to4 hy] at h
  cases hx : to4 x with
  | none => exact absurd h (ipString_ne_dotted hx z)
  | some w =>
    rw [ipString_of_to4 hx] at h
    rw [dotted_injective (to4_length hx) (to4_length hy) (String.ofList_inj.mp h)]

theorem contains_congr {x y z : IP} (hx : to4 x = some z) (hy : to4 y = some z) (n : IPNet) :
    n.contains x = n.contains y := by
  rw [IPNet.contains, IPNet.contains, hx, hy]
  have hlen : x.length = 0 ↔ y.length = 0 := by
    have hxne : x ≠ [] := by
      rintro rfl
      cases hx
    have hyne : y ≠ [] := by
      rintro rfl
      cases hy
    simp [hxne, hyne]
  split
  · simp [hlen]
  · rfl

theorem contains_self {n : IPNet} {x z : IP} {res : IP × IPNet}
    (h : parseCIDR (netString (some n)) = .ok res) (hn : to4 n.ip = some z) (hx : to4 x = some z) :
    n.contains x = true := by
  have hnum : ∃ m, networkNumberAndMask n = some (z, m) := by
    rw [networkNumberAndMask, hn]
    dsimp only
    split_ifs with h4 h16
    · exact ⟨_, rfl⟩
    · exact ⟨_, rfl⟩
    · have hnil : netString (some n) = "<nil>" := by
        simp only [netString, networkNumberAndMask, hn, if_neg h4, if_neg h16]
      rw [hnil] at h
      cases h
  obtain ⟨m, hm⟩ := hnum
  simp [IPNet.contains, hm, hx]

theorem exists_of_length_six {xs : HardwareAddr} (h : xs.length = 6) :
    ∃ a b c d e f, xs = [a, b, c, d, e, f] := by
  rcases xs with _ | ⟨a, _ | ⟨b, xs⟩⟩
  · simp at h
  · simp at h
  · have hlen : xs.length = 4 := by simpa using h
    obtain ⟨c, d, e, f, rfl⟩ := List.length_eq_four.mp hlen
    exact ⟨a, b, c, d, e, f, rfl⟩

theorem parseMAC_of_length {xs : HardwareAddr} (h : xs.length = 6) :
    parseMAC (hardwareAddrString xs) = .ok xs := by
  obtain ⟨a, b, c, d, e, f, rfl⟩ := exists_of_length_six h
  exact parseMAC_hardwareAddrString a b c d e f

theorem digitChar_injective : ∀ m < 16, ∀ n < 16, Nat.digitChar m = Nat.digitChar n → m = n := by
  decide

theorem hexByte_injective {a b : UInt8} (h : hexByte a = hexByte b) : a = b := by
  have ha := byte_le a
  have hb := byte_le b
  simp only [hexByte, List.cons.injEq, and_true] at h
  have h1 := digitChar_injective _ (by omega) _ (by omega) h.1
  have h2 := digitChar_injective _ (by omega) _ (by omega) h.2
  rw [← UInt8.toNat_inj]
  omega

theorem joinBytes_hex_injective {xs ys : List UInt8}
    (h : joinBytes ':' hexByte xs = joinBytes ':' hexByte ys) : xs = ys := by
  induction xs generalizing ys with
  | nil =>
    cases ys with
    | nil => rfl
    | cons y ys => cases ys <;> simp [joinBytes, hexByte] at h
  | cons x xs ih =>
    cases ys with
    | nil => cases xs <;> simp [joinBytes, hexByte] at h
    | cons y ys =>
      cases xs with
      | nil =>
        cases ys with
        | nil => rw [hexByte_injective h]
        | cons y' ys => simp [joinBytes, hexByte] at h
      | cons x' xs =>
        cases ys with
        | nil => simp [joinBytes, hexByte] at h
        | cons y' ys =>
          rw [joinBytes_cons_cons, joinBytes_cons_cons] at h
          obtain ⟨h1, h2⟩ := List.append_inj h rfl
          injection h2 with _ h3
          rw [hexByte_injective h1, ih h3]

theorem hardwareAddrString_injective {xs ys : HardwareAddr}
    (h : hardwareAddrString xs = hardwareAddrString ys) : xs = ys :=
  joinBytes_hex_injective (String.ofList_injective h)

end Silk.GoNet
