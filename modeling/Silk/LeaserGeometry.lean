import Silk.GoNetText
import Silk.LeaserOverlay
import Silk.LeaserController
import Mathlib.Data.Nat.ModEq

/-!
# Geometry of the pools

A slot is an address and prefix length of one pool member. Distinct slots have
distinct addresses, so distinct hardware addresses, and cover disjoint ranges
inside the network: blocks lie on different multiples of the block size and
single addresses lie below the first block.
-/

namespace Silk.Leaser

open GoNet Controller

def macOf (x : UInt8) (a : ℕ) : String := hardwareAddrString ([x, x] ++ addrBytes a)

def macText (a : ℕ) : String := macOf 0xee a

theorem generateForVTEP_ok {x : IP} {hw : HardwareAddr} (h : generateForVTEP x = .ok hw) :
    ∃ z, to4 x = some z ∧ hw = [0xee, 0xee] ++ z := by
  rw [generateForVTEP, generateHardwareAddr4] at h
  split_ifs at h with hnone
  obtain ⟨z, hz⟩ := Option.ne_none_iff_exists'.mp hnone
  refine ⟨z, hz, ?_⟩
  cases h
  rw [to4] at hz
  split_ifs at hz with h4 h16
  · cases hz
    rw [h4, Nat.sub_self, List.drop_zero]
  · cases hz
    rw [h16.1]

theorem generateForVTEP_mapped (a : ℕ) :
    generateForVTEP (v4InV6Prefix ++ addrBytes a) = .ok ([0xee, 0xee] ++ addrBytes a) := by
  have hdrop : (v4InV6Prefix ++ addrBytes a).drop ((v4InV6Prefix ++ addrBytes a).length - 4) =
      addrBytes a := rfl
  rw [generateForVTEP, generateHardwareAddr4, to4_mapped, if_neg (by simp), if_neg (by simp), hdrop]

theorem parseCIDR_slot {a w : ℕ} (hw : w ≤ 32) :
    ∃ net, parseCIDR (cidrText (addrBytes a) w) = .ok (v4InV6Prefix ++ addrBytes a, net) :=
  ⟨_, parseCIDR_cidrText _ _ _ _ hw⟩

theorem cidrText_injective {a b v w : ℕ} (ha : a < 2 ^ 32) (hb : b < 2 ^ 32) (hv : v ≤ 32)
    (hw : w ≤ 32) (h : cidrText (addrBytes a) v = cidrText (addrBytes b) w) : a = b ∧ v = w := by
  have hpa := parseCIDR_cidrText (UInt8.ofNat (a / 2 ^ 24)) (UInt8.ofNat (a / 2 ^ 16))
    (UInt8.ofNat (a / 2 ^ 8)) (UInt8.ofNat a) hv
  have hpb := parseCIDR_cidrText (UInt8.ofNat (b / 2 ^ 24)) (UInt8.ofNat (b / 2 ^ 16))
    (UInt8.ofNat (b / 2 ^ 8)) (UInt8.ofNat b) hw
  rw [addrBytes, addrBytes] at h
  rw [h, hpb] at hpa
  injection hpa with hpair
  injection hpair with hip hnet
  injection hnet with _ hmask
  constructor
  · have hbytes : addrBytes b = addrBytes a := List.append_cancel_left hip
    rw [← addrVal_addrBytes ha, ← addrVal_addrBytes hb, hbytes]
  · have hsize := congrArg (fun m => (maskSize m).1) hmask
    simpa only [maskSize_cidrMask v (by omega), maskSize_cidrMask w (by omega)] using hsize.symm

theorem macOf_injective {x y : UInt8} {a b : ℕ} (ha : a < 2 ^ 32) (hb : b < 2 ^ 32)
    (h : macOf x a = macOf y b) : x = y ∧ a = b := by
  have hlist : [x, x] ++ addrBytes a = [y, y] ++ addrBytes b :=
    hardwareAddrString_injective h
  obtain ⟨hxy, hbytes⟩ := List.append_inj hlist rfl
  refine ⟨(List.cons.inj hxy).1, ?_⟩
  rw [← addrVal_addrBytes ha, ← addrVal_addrBytes hb, hbytes]

theorem parseMAC_macOf (x : UInt8) (a : ℕ) : ∃ hw, parseMAC (macOf x a) = .ok hw :=
  ⟨_, parseMAC_hardwareAddrString _ _ _ _ _ _⟩

theorem macOf_length (x : UInt8) (a : ℕ) : (macOf x a).length = 17 := by
  rw [macOf, hardwareAddrString, String.length_ofList]
  rfl

theorem decimal_eq_32 : ∀ w < 33, decimal w = ['3', '2'] ↔ w = 32 := by decide

theorem likeSingleIP_cidrText (bytes : List UInt8) {w : ℕ} (hw : w ≤ 32) :
    likeSingleIP (cidrText bytes w) = true ↔ w = 32 := by
  rw [likeSingleIP, List.isSuffixOf_iff_suffix, cidrText_toList, ← decimal_eq_32 w (by omega)]
  have hslash : '/' ∉ decimal w := by
    intro h
    have hdigit := decimal_isDigit h
    simp at hdigit
  constructor
  · intro h
    obtain ⟨t, ht⟩ := h
    exact (append_sep_inj (by decide) hslash ht).symm
  · intro h
    rw [h]
    exact List.suffix_append _ _

/-- Address and prefix length of a member of one of the two pools. -/
def Overlay.Slot (o : Overlay) (a w : ℕ) : Prop :=
  (w = o.subnetMask ∧ ∃ k, 0 < k ∧ k < o.blockCount ∧ a = o.base + k * o.blockSize) ∨
    (w = 32 ∧ ∃ i, 0 < i ∧ i < o.blockSize ∧ a = o.base + i)

namespace Overlay

variable {o : Overlay} {a b v w : ℕ}

theorem isMember_iff {s : String} :
    o.pool.isMember s = true ↔ ∃ a w, o.Slot a w ∧ s = cidrText (addrBytes a) w := by
  simp only [CIDRPool.isMember, Bool.or_eq_true, decide_eq_true_eq, o.mem_blockPool,
    o.mem_singlePool]
  constructor
  · intro h
    rcases h with ⟨k, h0, hk, hs⟩ | ⟨i, h0, hi, hs⟩
    · exact ⟨_, _, Or.inl ⟨rfl, k, h0, hk, rfl⟩, hs⟩
    · exact ⟨_, _, Or.inr ⟨rfl, i, h0, hi, rfl⟩, hs⟩
  · intro h
    obtain ⟨a, w, hslot, hs⟩ := h
    rcases hslot with ⟨rfl, k, h0, hk, rfl⟩ | ⟨rfl, i, h0, hi, rfl⟩
    · exact Or.inl ⟨k, h0, hk, hs⟩
    · exact Or.inr ⟨i, h0, hi, hs⟩

theorem Slot.le (h : o.Slot a w) : w ≤ 32 := by
  rcases h with ⟨rfl, -⟩ | ⟨rfl, -⟩
  · exact o.mask_le
  · exact le_rfl

theorem Slot.prefixLen_le (h : o.Slot a w) : o.prefixLen ≤ w := by
  rcases h with ⟨rfl, -⟩ | ⟨rfl, -⟩
  · exact o.prefix_le
  · exact o.prefixLen_le

theorem Slot.offset (h : o.Slot a w) : ∃ j, a = o.base + j ∧ j < o.blockCount * o.blockSize := by
  rcases h with ⟨-, k, -, hk, rfl⟩ | ⟨-, i, -, hi, rfl⟩
  · exact ⟨_, rfl, Nat.mul_lt_mul_of_pos_right hk o.blockSize_pos⟩
  · exact ⟨_, rfl, hi.trans_le o.blockSize_le⟩

theorem Slot.lt (h : o.Slot a w) : a < 2 ^ 32 := by
  obtain ⟨j, rfl, hj⟩ := h.offset
  exact o.base_add_lt hj

theorem Slot.ne_base (h : o.Slot a w) : a ≠ o.base := by
  rcases h with ⟨-, k, h0, -, rfl⟩ | ⟨-, i, h0, -, rfl⟩
  · have hpos := Nat.mul_pos h0 o.blockSize_pos
    omega
  · omega

theorem base_add_div (o : Overlay) (j : ℕ) :
    (o.base + j) / o.blockSize = o.base / o.blockSize + j / o.blockSize :=
  Nat.add_div_of_dvd_right o.blockSize_dvd_base

theorem div_block (o : Overlay) (k : ℕ) :
    (o.base + k * o.blockSize) / o.blockSize = o.base / o.blockSize + k := by
  rw [base_add_div, Nat.mul_div_cancel _ o.blockSize_pos]

theorem div_single (o : Overlay) {i : ℕ} (hi : i < o.blockSize) :
    (o.base + i) / o.blockSize = o.base / o.blockSize := by
  rw [base_add_div, Nat.div_eq_of_lt hi, Nat.add_zero]

theorem Slot.eq_of_common (ha : o.Slot a v) (hb : o.Slot b w) {y : ℕ}
    (hya : y / 2 ^ (32 - v) = a / 2 ^ (32 - v)) (hyb : y / 2 ^ (32 - w) = b / 2 ^ (32 - w)) :
    a = b ∧ v = w := by
  rcases ha with ⟨rfl, k, h0, hk, rfl⟩ | ⟨rfl, i, h0, hi, rfl⟩ <;>
    rcases hb with ⟨rfl, l, g0, hl, rfl⟩ | ⟨rfl, j, g0, hj, rfl⟩
  · change y / o.blockSize = _ at hya
    change y / o.blockSize = _ at hyb
    rw [hya] at hyb
    change _ / o.blockSize = _ / o.blockSize at hyb
    rw [div_block, div_block] at hyb
    obtain rfl : k = l := by omega
    exact ⟨rfl, rfl⟩
  · rw [Nat.sub_self, pow_zero, Nat.div_one, Nat.div_one] at hyb
    change y / o.blockSize = _ / o.blockSize at hya
    rw [hyb, div_single o hj, div_block] at hya
    omega
  · rw [Nat.sub_self, pow_zero, Nat.div_one, Nat.div_one] at hya
    change y / o.blockSize = _ / o.blockSize at hyb
    rw [hya, div_single o hi, div_block] at hyb
    omega
  · rw [Nat.sub_self, pow_zero, Nat.div_one, Nat.div_one] at hya hyb
    exact ⟨by omega, rfl⟩

theorem Slot.eq_of_addr (ha : o.Slot a v) (hb : o.Slot a w) : v = w :=
  (ha.eq_of_common hb (y := a) rfl rfl).2

theorem Slot.rangesDisjoint (ha : o.Slot a v) (hb : o.Slot b w) (hne : a ≠ b) :
    rangesDisjoint (cidrText (addrBytes a) v) (cidrText (addrBytes b) w) := by
  intro x hx
  obtain ⟨y, hy, hya⟩ := (covers_cidrText ha.lt ha.le x).mp hx.1
  obtain ⟨z, hz, hzb⟩ := (covers_cidrText hb.lt hb.le x).mp hx.2
  rw [hy] at hz
  cases hz
  exact hne (ha.eq_of_common hb hya hzb).1

theorem net_contains_iff (o : Overlay) (x : IP) : o.net.contains x = true ↔
    ∃ y, to4 x = some y ∧ addrVal y / 2 ^ (32 - o.prefixLen) = o.base / 2 ^ (32 - o.prefixLen) := by
  obtain ⟨n, p, hn, hp, hip, hnet⟩ := parseCIDR_ipv4 o.parsed o.isIPv4
  have hpre : o.prefixLen = p := by rw [prefixLen, hnet, maskSize_cidrMask p (by omega)]
  have hbase : o.base = n / 2 ^ (32 - p) * 2 ^ (32 - p) := by
    have hv := addrVal_masked 4 p (by omega) (show (addrBytes n).length = 4 from rfl)
    rw [base, hnet, cidrMask_length hp, hv, addrVal_addrBytes hn]
  rw [hnet, contains_masked n hp, addrVal_addrBytes hn, hpre, hbase,
    Nat.mul_div_cancel _ (by positivity)]

theorem Slot.inside (h : o.Slot a w) {x : IP} (hx : covers (cidrText (addrBytes a) w) x) :
    o.net.contains x = true := by
  obtain ⟨y, hy, hya⟩ := (covers_cidrText h.lt h.le x).mp hx
  refine (o.net_contains_iff x).mpr ⟨y, hy, ?_⟩
  obtain ⟨q, hq, -⟩ := o.net_eq
  obtain ⟨j, hj, hlt⟩ := h.offset
  rw [← o.networkSize] at hlt
  have hsplit : 2 ^ (32 - o.prefixLen) = 2 ^ (32 - w) * 2 ^ (w - o.prefixLen) := by
    have hw := h.prefixLen_le
    have hle := h.le
    rw [← pow_add]
    congr 1
    omega
  have hbase : a / 2 ^ (32 - o.prefixLen) = o.base / 2 ^ (32 - o.prefixLen) := by
    rw [hj, hq, Nat.mul_comm q, Nat.mul_add_div (by positivity), Nat.div_eq_of_lt hlt,
      Nat.mul_div_cancel_left _ (by positivity), Nat.add_zero]
  rw [← hbase, hsplit, ← Nat.div_div_eq_div_mul, ← Nat.div_div_eq_div_mul, hya]

end Overlay

end Silk.Leaser
