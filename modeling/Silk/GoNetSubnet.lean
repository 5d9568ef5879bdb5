import Silk.GoNetRange

/-!
# IPv4 networks as numbers

A parsed IPv4 network is an address below `2 ^ 32` cut off after the first bits.
One such network lies within another when it has at least as many of these bits
and its own address is in the other.
-/

namespace Silk.GoNet

theorem maskSize_cidrMask : ∀ p < 33, maskSize (cidrMask p 32) = (p, 32) := by decide

theorem cidrMask_length_eq {n bits : ℕ} (h : (cidrMask n bits).length = 4) :
    bits = 32 ∧ n ≤ 32 := by
  rw [cidrMask] at h
  split_ifs at h with hb
  rw [not_or, not_and_or, not_not, not_not] at hb
  obtain ⟨rfl | rfl, hn⟩ := hb
  · exact ⟨rfl, by omega⟩
  · simp [maskBytes] at h

theorem parseCIDR_ipv4 {s : String} {ip : IP} {net : IPNet} (h : parseCIDR s = .ok (ip, net))
    (hl : net.mask.length = 4) : ∃ n p : ℕ, n < 2 ^ 32 ∧ p ≤ 32 ∧
      ip = v4InV6Prefix ++ addrBytes n ∧
      net = ⟨List.zipWith (· &&& ·) (addrBytes n) (cidrMask p 32), cidrMask p 32⟩ := by
  rw [parseCIDR] at h
  split_ifs at h with hs
  dsimp only at h
  split at h
  · cases h
  · rename_i bytes hb
    generalize dtoi 0 0 _ = r at h
    split_ifs at h with hc
    injection h with h
    injection h with hip hnet
    subst hnet
    obtain ⟨hbits, hp⟩ := cidrMask_length_eq hl
    have hlen : bytes.length = 4 := by omega
    obtain ⟨a, b, c, d, rfl⟩ := List.length_eq_four.mp hlen
    refine ⟨addrVal [a, b, c, d], r.1, ?_, hp, ?_, ?_⟩
    · have := addrVal_lt [a, b, c, d]
      simpa using this
    · rw [addrBytes_addrVal, ← hip]
      rfl
    · rw [hbits] at hl ⊢
      rw [addrBytes_addrVal, maskIP_as16 a b c d hl]

def IPNet.Within (inner outer : IPNet) : Prop :=
  ∀ x, inner.contains x = true → outer.contains x = true

def ipv4Net (n p : ℕ) : IPNet :=
  ⟨List.zipWith (· &&& ·) (addrBytes n) (cidrMask p 32), cidrMask p 32⟩

@[simp] theorem ipv4Net_mask (n p : ℕ) : (ipv4Net n p).mask = cidrMask p 32 := rfl

theorem parseCIDR_ipv4Net {s : String} {ip : IP} {net : IPNet} (h : parseCIDR s = .ok (ip, net))
    (hl : net.mask.length = 4) : ∃ n p : ℕ, n < 2 ^ 32 ∧ p ≤ 32 ∧ net = ipv4Net n p := by
  obtain ⟨n, p, hn, hp, -, hnet⟩ := parseCIDR_ipv4 h hl
  exact ⟨n, p, hn, hp, hnet⟩

section Subnet

variable {n b p q : ℕ} (hn : n < 2 ^ 32) (hp : p ≤ 32)
include hn hp

theorem contains_ipv4Net (x : IP) : (ipv4Net n p).contains x = true ↔
    ∃ y, to4 x = some y ∧ addrVal y / 2 ^ (32 - p) = n / 2 ^ (32 - p) := by
  have hc := contains_masked n hp x
  rw [addrVal_addrBytes hn] at hc
  exact hc

theorem contains_ipv4Net_addrBytes {a : ℕ} (ha : a < 2 ^ 32) :
    (ipv4Net n p).contains (addrBytes a) = true ↔ a / 2 ^ (32 - p) = n / 2 ^ (32 - p) := by
  rw [contains_ipv4Net hn hp]
  simp [to4_addrBytes, addrVal_addrBytes ha]

omit hp in
theorem ipv4Net_ip (hq : q ≤ 32) :
    (ipv4Net n q).ip = addrBytes (n / 2 ^ (32 - q) * 2 ^ (32 - q)) := by
  have hle : n / 2 ^ (32 - q) * 2 ^ (32 - q) ≤ n := Nat.div_mul_le_self _ _
  apply addrVal_injective
  · rw [ipv4Net, cidrMask_length hq]
    simp [maskBytes_length, addrBytes]
  · rw [ipv4Net, cidrMask_length hq, addrVal_masked 4 q (by omega) rfl, addrVal_addrBytes hn,
      addrVal_addrBytes (hle.trans_lt hn)]

end Subnet

theorem pow_sub_split {p q : ℕ} (hpq : p ≤ q) (hq : q ≤ 32) :
    2 ^ (32 - p) = 2 ^ (32 - q) * 2 ^ (q - p) := by
  rw [← pow_add]
  congr 1
  omega

theorem block_end_le {n q : ℕ} (hn : n < 2 ^ 32) (hq : q ≤ 32) :
    n / 2 ^ (32 - q) * 2 ^ (32 - q) + 2 ^ (32 - q) ≤ 2 ^ 32 := by
  have hsplit : 2 ^ 32 = 2 ^ q * 2 ^ (32 - q) := by
    rw [← pow_add]
    congr 1
    omega
  have hlt : n / 2 ^ (32 - q) < 2 ^ q := by
    rw [Nat.div_lt_iff_lt_mul (by positivity), ← hsplit]
    exact hn
  calc n / 2 ^ (32 - q) * 2 ^ (32 - q) + 2 ^ (32 - q)
      = (n / 2 ^ (32 - q) + 1) * 2 ^ (32 - q) := by ring
    _ ≤ 2 ^ q * 2 ^ (32 - q) := Nat.mul_le_mul_right _ hlt
    _ = 2 ^ 32 := hsplit.symm

theorem within_iff {n b p q : ℕ} (hn : n < 2 ^ 32) (hb : b < 2 ^ 32) (hp : p ≤ 32) (hq : q ≤ 32) :
    (ipv4Net n q).Within (ipv4Net b p) ↔
      p ≤ q ∧ (ipv4Net b p).contains (ipv4Net n q).ip = true := by
  have hend := block_end_le hn hq
  have hpos : 0 < 2 ^ (32 - q) := by positivity
  rw [ipv4Net_ip hn hq, contains_ipv4Net_addrBytes hb hp (by omega)]
  constructor
  · intro h
    have hmem : ∀ a < 2 ^ 32, a / 2 ^ (32 - q) = n / 2 ^ (32 - q) →
        a / 2 ^ (32 - p) = b / 2 ^ (32 - p) := fun a ha haq =>
      (contains_ipv4Net_addrBytes hb hp ha).mp
        (h _ ((contains_ipv4Net_addrBytes hn hq ha).mpr haq))
    have hfirst := hmem _ (by omega) (Nat.mul_div_cancel (n / 2 ^ (32 - q)) hpos)
    refine ⟨?_, hfirst⟩
    by_contra hlt
    -- the block holds its own address and the one that lies a block of the longer prefix behind
    have hsplit := pow_sub_split (show q ≤ p by omega) hp
    have hlong : 0 < 2 ^ (32 - p) := by positivity
    have htwo : 2 ≤ 2 ^ (p - q) := Nat.le_self_pow (by omega) 2
    have hless : 2 ^ (32 - p) < 2 ^ (32 - q) := by
      rw [hsplit]
      nlinarith
    have hsecond := hmem (n / 2 ^ (32 - q) * 2 ^ (32 - q) + 2 ^ (32 - p)) (by omega) (by
      rw [Nat.mul_comm, Nat.mul_add_div hpos, Nat.div_eq_of_lt hless, Nat.add_zero])
    rw [Nat.add_div_right _ hlong, hfirst] at hsecond
    omega
  · rintro ⟨hpq, hfirst⟩ x hx
    obtain ⟨y, hy, hval⟩ := (contains_ipv4Net hn hq x).mp hx
    refine (contains_ipv4Net hb hp x).mpr ⟨y, hy, ?_⟩
    rw [← hfirst, pow_sub_split hpq hq, ← Nat.div_div_eq_div_mul, ← Nat.div_div_eq_div_mul, hval,
      Nat.mul_div_cancel _ hpos]

end Silk.GoNet
