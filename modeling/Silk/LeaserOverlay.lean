import Silk.GoNetSubnet
import Silk.LeaserCIDRPool

/-!
# Pools of a valid overlay configuration

An `Overlay` is an IPv4 network text with a subnet prefix length between the
network's own prefix length and 32. For these the pool loops end, and their
members are the printed networks at fixed offsets from the network address:
blocks `k * 2 ^ (32 - m)` for `0 < k`, single addresses `0 < i < 2 ^ (32 - m)`.
-/

namespace Silk.Leaser

open GoNet

theorem bmod_emod_self (x : ℤ) (n : ℕ) : Int.bmod x n % n = x % n := Int.bmod_emod

theorem goInt_emod (x : ℤ) : goInt x % 2 ^ 32 = x % 2 ^ 32 := by
  have h : goInt x % 2 ^ 64 = x % 2 ^ 64 := bmod_emod_self x (2 ^ 64)
  omega

theorem int32_emod (x : ℤ) : int32 x % 2 ^ 32 = x % 2 ^ 32 := bmod_emod_self x (2 ^ 32)

theorem goInt_of_range {x : ℤ} (h0 : 0 ≤ x) (h : x < 2 ^ 63) : goInt x = x := by
  rw [goInt]
  apply Int.bmod_eq_of_le <;> norm_num <;> omega

theorem or_bytes (a b c d : UInt8) :
    a.toNat <<< 24 ||| b.toNat <<< 16 ||| c.toNat <<< 8 ||| d.toNat = addrVal [a, b, c, d] := by
  have ha := byte_le a
  have hb := byte_le b
  have hc := byte_le c
  have hd := byte_le d
  have h1 : a.toNat <<< 24 ||| b.toNat <<< 16 = (a.toNat * 256 + b.toNat) <<< 16 := by
    rw [show (24 : ℕ) = 8 + 16 by rfl, Nat.shiftLeft_add, ← Nat.shiftLeft_or_distrib,
      ← Nat.shiftLeft_add_eq_or_of_lt (by omega), Nat.shiftLeft_eq a.toNat]
  have h2 : (a.toNat * 256 + b.toNat) <<< 16 ||| c.toNat <<< 8 =
      ((a.toNat * 256 + b.toNat) * 256 + c.toNat) <<< 8 := by
    rw [show (16 : ℕ) = 8 + 8 by rfl, Nat.shiftLeft_add, ← Nat.shiftLeft_or_distrib,
      ← Nat.shiftLeft_add_eq_or_of_lt (by omega), Nat.shiftLeft_eq (a.toNat * 256 + b.toNat) 8]
  rw [h1, h2, ← Nat.shiftLeft_add_eq_or_of_lt (by omega), Nat.shiftLeft_eq]
  simp only [addrVal, List.length_cons, List.length_nil]
  omega

theorem ipToI32_addrBytes {n : ℕ} (hn : n < 2 ^ 32) : ipToI32 (addrBytes n) = int32 n := by
  simp only [ipToI32, to4_addrBytes]
  simp only [addrBytes, or_bytes]
  congr 2
  exact addrVal_addrBytes hn

theorem byteOf_natCast (n : ℕ) : byteOf n = UInt8.ofNat n := by
  rw [byteOf, ← UInt8.toNat_inj, UInt8.toNat_ofNat', UInt8.toNat_ofNat']
  omega

theorem byteOf_congr {x y : ℤ} (h : x % 256 = y % 256) : byteOf x = byteOf y := by
  rw [byteOf, byteOf, h]

theorem i32ToIP_congr {x : ℤ} {n : ℕ} (h : x % 2 ^ 32 = n % 2 ^ 32) :
    i32ToIP x = v4InV6Prefix ++ addrBytes n := by
  have e1 : byteOf (x / 2 ^ 24) = UInt8.ofNat (n / 2 ^ 24) := by
    rw [← byteOf_natCast]
    exact byteOf_congr (by omega)
  have e2 : byteOf (x / 2 ^ 16) = UInt8.ofNat (n / 2 ^ 16) := by
    rw [← byteOf_natCast]
    exact byteOf_congr (by omega)
  have e3 : byteOf (x / 2 ^ 8) = UInt8.ofNat (n / 2 ^ 8) := by
    rw [← byteOf_natCast]
    exact byteOf_congr (by omega)
  have e4 : byteOf x = UInt8.ofNat n := by
    rw [← byteOf_natCast]
    exact byteOf_congr (by omega)
  rw [i32ToIP, e1, e2, e3, e4, ipv4, addrBytes]

theorem ipAdd_addrBytes {n : ℕ} (hn : n < 2 ^ 32) (k : ℤ) :
    ipAdd (addrBytes n) k = v4InV6Prefix ++ addrBytes ((n + k) % 2 ^ 32).toNat := by
  have hv4 : isIPv4 (addrBytes n) = true := rfl
  have hlast : (addrBytes n).drop ((addrBytes n).length - 4) = addrBytes n := rfl
  rw [ipAdd, if_pos hv4, hlast, ipToI32_addrBytes hn]
  apply i32ToIP_congr
  have h1 := int32_emod (goInt (int32 n + k))
  have h2 := goInt_emod (int32 n + k)
  have h3 := int32_emod n
  omega

theorem to4_mapped (n : ℕ) : to4 (v4InV6Prefix ++ addrBytes n) = some (addrBytes n) := rfl

theorem sprintf_cidr (n m : ℕ) :
    ipString (v4InV6Prefix ++ addrBytes n) ++ "/" ++ toString m = cidrText (addrBytes n) m := by
  have hne : v4InV6Prefix ++ addrBytes n ≠ [] := by simp [v4InV6Prefix]
  rw [ipString, if_neg hne, to4_mapped, ← String.toList_inj, cidrText_toList]
  simp [decimal]

theorem sprintf_single (n : ℕ) :
    ipString (v4InV6Prefix ++ addrBytes n) ++ "/32" = cidrText (addrBytes n) 32 := by
  rw [← sprintf_cidr, String.append_assoc]
  rfl

theorem forLoop_insert {bound step : ℤ} (hs : 0 < step) (hb : bound + step < 2 ^ 63)
    (f : ℤ → String) {fuel : ℕ} (h0 : 0 < fuel) {i : ℤ} (hi : 0 ≤ i) (hf : bound - i < fuel)
    (pool : StringSet) :
    ∃ pool', forLoop bound step (fun i p => StringSet.insert p (f i)) fuel i pool = some pool' ∧
      ∀ x, x ∈ pool'.keys ↔
        x ∈ pool.keys ∨ ∃ k : ℕ, i + k * step < bound ∧ x = f (i + k * step) := by
  induction fuel generalizing i pool with
  | zero => exact absurd h0 (lt_irrefl 0)
  | succ fuel ih =>
    rw [forLoop]
    split_ifs with h
    · rw [goInt_of_range (by omega) (by omega)]
      obtain ⟨pool', heq, hmem⟩ := ih (by omega) (i := i + step) (by omega) (by omega)
        (pool.insert (f i))
      refine ⟨pool', heq, fun x => ?_⟩
      rw [hmem, StringSet.mem_insert, or_assoc]
      apply or_congr_right
      constructor
      · intro hx
        rcases hx with hx | ⟨k, hk, hx⟩
        · exact ⟨0, by simpa using h, by simpa using hx⟩
        · refine ⟨k + 1, ?_, ?_⟩
          · push_cast
            linarith
          · rw [hx]
            congr 1
            push_cast
            ring
      · intro hx
        obtain ⟨k, hk, hx⟩ := hx
        cases k with
        | zero => exact Or.inl (by simpa using hx)
        | succ k =>
          refine Or.inr ⟨k, ?_, ?_⟩
          · push_cast at hk
            linarith
          · rw [hx]
            congr 1
            push_cast
            ring
    · refine ⟨pool, rfl, fun x => ?_⟩
      constructor
      · exact Or.inl
      · intro hx
        rcases hx with hx | ⟨k, hk, -⟩
        · exact hx
        · nlinarith

theorem forLoop_multiples {c w : ℕ} (hw : 0 < w) (hw' : w ≤ 2 ^ 32) (hc : c * w ≤ 2 ^ 32)
    (f : ℤ → String) :
    ∃ pool,
      forLoop (c * w : ℕ) w (fun i p => StringSet.insert p (f i)) (2 ^ 64) w .empty = some pool ∧
      ∀ x, x ∈ pool.keys ↔ ∃ k : ℕ, 0 < k ∧ k < c ∧ x = f (k * w : ℕ) := by
  obtain ⟨pool, heq, hmem⟩ := @forLoop_insert (c * w : ℕ) w (by omega) (by omega) f (2 ^ 64)
    (by norm_num) w (by omega) (by omega) .empty
  have hstep : ∀ k : ℕ, (w : ℤ) + k * w = ((k + 1) * w : ℕ) := by
    intro k
    push_cast
    ring
  refine ⟨pool, heq, fun x => ?_⟩
  rw [hmem, or_iff_right (show x ∉ StringSet.empty.keys from List.not_mem_nil)]
  constructor
  · intro h
    obtain ⟨k, hk, hx⟩ := h
    rw [hstep, Nat.cast_lt] at hk
    exact ⟨k + 1, by omega, lt_of_mul_lt_mul_right hk (Nat.zero_le _), by rw [hx, hstep]⟩
  · intro h
    obtain ⟨k, h0, hk, hx⟩ := h
    obtain ⟨j, rfl⟩ : ∃ j, k = j + 1 := ⟨k - 1, by omega⟩
    refine ⟨j, ?_, by rw [hx, hstep]⟩
    rw [hstep, Nat.cast_lt]
    exact Nat.mul_lt_mul_of_pos_right hk hw

theorem subUint_le {p : ℕ} (hp : p ≤ 32) : subUint 32 p = 32 - p := by
  rw [subUint]
  omega

theorem shiftOne_le {k : ℕ} (hk : k ≤ 32) : shiftOne k = 2 ^ k := by
  have hpow : (2 : ℤ) ^ k ≤ 2 ^ 32 := by gcongr; norm_num
  rw [shiftOne, if_pos (by omega), goInt_of_range (by positivity) (by omega)]

theorem goUint_natCast {m : ℕ} (hm : m ≤ 32) : goUint m = m := by
  rw [goUint]
  omega

/-- A network text and subnet prefix length that the controller can serve. -/
structure Overlay where
  subnetRange : String
  subnetMask : ℕ
  ip : IP
  net : IPNet
  parsed : parseCIDR subnetRange = .ok (ip, net)
  isIPv4 : net.mask.length = 4
  prefix_le : (maskSize net.mask).1 ≤ subnetMask
  mask_le : subnetMask ≤ 32

namespace Overlay

def prefixLen (o : Overlay) : ℕ := (maskSize o.net.mask).1

def base (o : Overlay) : ℕ := addrVal o.net.ip

def blockSize (o : Overlay) : ℕ := 2 ^ (32 - o.subnetMask)

def blockCount (o : Overlay) : ℕ := 2 ^ (o.subnetMask - o.prefixLen)

theorem blockSize_pos (o : Overlay) : 0 < o.blockSize := by
  rw [blockSize]
  positivity

theorem prefixLen_le (o : Overlay) : o.prefixLen ≤ 32 := o.prefix_le.trans o.mask_le

theorem networkSize (o : Overlay) : 2 ^ (32 - o.prefixLen) = o.blockCount * o.blockSize := by
  have h1 := o.prefix_le
  have h2 := o.mask_le
  rw [blockCount, blockSize, ← pow_add]
  congr 1
  rw [prefixLen]
  omega

theorem net_eq (o : Overlay) : ∃ q : ℕ, o.base = q * 2 ^ (32 - o.prefixLen) ∧ o.base < 2 ^ 32 ∧
    o.net.ip = addrBytes o.base ∧ o.net.mask = cidrMask o.prefixLen 32 := by
  obtain ⟨n, p, hn, hp, hip, hnet⟩ := parseCIDR_ipv4 o.parsed o.isIPv4
  have hmask : o.net.mask = cidrMask p 32 := by rw [hnet]
  have hpre : o.prefixLen = p := by rw [prefixLen, hmask, maskSize_cidrMask p (by omega)]
  have hbase : o.base = n / 2 ^ (32 - p) * 2 ^ (32 - p) := by
    have hv := addrVal_masked 4 p (by omega) (show (addrBytes n).length = 4 from rfl)
    rw [base, hnet, cidrMask_length hp, hv, addrVal_addrBytes hn]
  have hlt : o.base < 2 ^ 32 := by
    rw [hbase]
    exact (Nat.div_mul_le_self _ _).trans_lt hn
  refine ⟨n / 2 ^ (32 - p), by rw [hpre, hbase], hlt, ?_, by rw [hmask, hpre]⟩
  apply addrVal_injective
  · rw [hnet, cidrMask_length hp]
    simp [maskBytes_length, addrBytes]
  · rw [addrVal_addrBytes hlt]
    rfl

theorem base_lt (o : Overlay) : o.base < 2 ^ 32 := o.net_eq.choose_spec.2.1

theorem ip_eq (o : Overlay) : o.net.ip = addrBytes o.base := o.net_eq.choose_spec.2.2.1

theorem blockSize_dvd_base (o : Overlay) : o.blockSize ∣ o.base := by
  obtain ⟨q, hq, -⟩ := o.net_eq
  rw [hq, o.networkSize, ← mul_assoc]
  exact Dvd.intro_left _ rfl

theorem base_add_lt (o : Overlay) {j : ℕ} (hj : j < o.blockCount * o.blockSize) :
    o.base + j < 2 ^ 32 := by
  obtain ⟨q, hq, hlt, -⟩ := o.net_eq
  have hsplit : 2 ^ 32 = 2 ^ o.prefixLen * 2 ^ (32 - o.prefixLen) := by
    rw [← pow_add]
    congr 1
    have := o.prefixLen_le
    omega
  rw [← o.networkSize] at hj
  rw [hsplit, hq] at hlt
  have hle : (q + 1) * 2 ^ (32 - o.prefixLen) ≤ 2 ^ o.prefixLen * 2 ^ (32 - o.prefixLen) :=
    Nat.mul_le_mul_right _ (lt_of_mul_lt_mul_right hlt (Nat.zero_le _))
  rw [hq, hsplit]
  nlinarith

theorem ipAdd_offset (o : Overlay) {j : ℕ} (hj : j < o.blockCount * o.blockSize) :
    ipAdd o.net.ip j = v4InV6Prefix ++ addrBytes (o.base + j) := by
  have hlt := o.base_add_lt hj
  rw [o.ip_eq, ipAdd_addrBytes o.base_lt]
  congr 2
  omega

theorem blockCount_pos (o : Overlay) : 0 < o.blockCount := by
  rw [blockCount]
  positivity

theorem blockSize_le (o : Overlay) : o.blockSize ≤ o.blockCount * o.blockSize :=
  Nat.le_mul_of_pos_left _ o.blockCount_pos

theorem network_le (o : Overlay) : o.blockCount * o.blockSize ≤ 2 ^ 32 := by
  rw [← o.networkSize]
  exact Nat.pow_le_pow_right (by omega) (by omega)

theorem shiftOne_block (o : Overlay) :
    shiftOne (subUint 32 (goUint o.subnetMask)) = o.blockSize := by
  rw [goUint_natCast o.mask_le, subUint_le o.mask_le, shiftOne_le (by omega)]
  simp [blockSize]

theorem shiftOne_network (o : Overlay) :
    shiftOne (subUint 32 o.prefixLen) = (o.blockCount * o.blockSize : ℕ) := by
  rw [subUint_le o.prefixLen_le, shiftOne_le (by omega), ← o.networkSize]
  simp

theorem generateBlockPool_spec (o : Overlay) :
    ∃ pool, generateBlockPool o.net.ip o.prefixLen (goUint o.subnetMask) = some pool ∧
      ∀ x, x ∈ pool.keys ↔ ∃ k, 0 < k ∧ k < o.blockCount ∧
        x = cidrText (addrBytes (o.base + k * o.blockSize)) o.subnetMask := by
  rw [generateBlockPool, o.shiftOne_block, o.shiftOne_network, goUint_natCast o.mask_le]
  obtain ⟨pool, heq, hmem⟩ := forLoop_multiples o.blockSize_pos
    (o.blockSize_le.trans o.network_le) o.network_le
    (fun i => ipString (ipAdd o.net.ip i) ++ "/" ++ toString o.subnetMask)
  refine ⟨pool, heq, fun x => ?_⟩
  rw [hmem]
  refine exists_congr fun k => and_congr_right fun _ => and_congr_right fun hk => ?_
  rw [o.ipAdd_offset (Nat.mul_lt_mul_of_pos_right hk o.blockSize_pos), sprintf_cidr]

theorem generateSingleIPPool_spec (o : Overlay) :
    ∃ pool, generateSingleIPPool o.net.ip (goUint o.subnetMask) = some pool ∧
      ∀ x, x ∈ pool.keys ↔ ∃ i, 0 < i ∧ i < o.blockSize ∧
        x = cidrText (addrBytes (o.base + i)) 32 := by
  rw [generateSingleIPPool, o.shiftOne_block]
  obtain ⟨pool, heq, hmem⟩ := forLoop_multiples (c := o.blockSize) (w := 1) (by omega) (by omega)
    (by simpa using o.blockSize_le.trans o.network_le)
    (fun i => ipString (ipAdd o.net.ip i) ++ "/32")
  rw [Nat.mul_one, Nat.cast_one] at heq
  refine ⟨pool, heq, fun x => ?_⟩
  rw [hmem]
  refine exists_congr fun i => and_congr_right fun _ => and_congr_right fun hi => ?_
  rw [Nat.mul_one, o.ipAdd_offset (hi.trans_le o.blockSize_le), sprintf_single]

/-- The pool that `NewCIDRPool` builds; `newCIDRPool_eq` shows that it returns. -/
def pool (o : Overlay) : CIDRPool :=
  match newCIDRPool o.subnetRange o.subnetMask with
  | .value pool => pool
  | _ => ⟨.empty, .empty⟩

theorem newCIDRPool_spec (o : Overlay) :
    newCIDRPool o.subnetRange o.subnetMask = .value o.pool ∧
      (∀ x, x ∈ o.pool.blockPool.keys ↔ ∃ k, 0 < k ∧ k < o.blockCount ∧
        x = cidrText (addrBytes (o.base + k * o.blockSize)) o.subnetMask) ∧
      (∀ x, x ∈ o.pool.singlePool.keys ↔ ∃ i, 0 < i ∧ i < o.blockSize ∧
        x = cidrText (addrBytes (o.base + i)) 32) := by
  obtain ⟨bs, hb, hbm⟩ := o.generateBlockPool_spec
  obtain ⟨ss, hs, hsm⟩ := o.generateSingleIPPool_spec
  have hnew : newCIDRPool o.subnetRange o.subnetMask = .value ⟨bs, ss⟩ := by
    rw [prefixLen] at hb
    simp only [newCIDRPool, o.parsed, hb, hs]
  have hpool : o.pool = ⟨bs, ss⟩ := by
    rw [pool]
    rw [hnew]
  rw [hpool]
  exact ⟨hnew, hbm, hsm⟩

theorem newCIDRPool_eq (o : Overlay) : newCIDRPool o.subnetRange o.subnetMask = .value o.pool :=
  o.newCIDRPool_spec.1

theorem mem_blockPool (o : Overlay) {x : String} :
    x ∈ o.pool.blockPool.keys ↔ ∃ k, 0 < k ∧ k < o.blockCount ∧
      x = cidrText (addrBytes (o.base + k * o.blockSize)) o.subnetMask :=
  o.newCIDRPool_spec.2.1 x

theorem mem_singlePool (o : Overlay) {x : String} :
    x ∈ o.pool.singlePool.keys ↔ ∃ i, 0 < i ∧ i < o.blockSize ∧
      x = cidrText (addrBytes (o.base + i)) 32 :=
  o.newCIDRPool_spec.2.2 x

end Overlay

end Silk.Leaser
