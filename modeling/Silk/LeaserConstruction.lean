import Silk.LeaserGeometry

/-!
# What `NewCIDRPool` builds

For a subnet prefix length between the prefix length of the network and 32 the
block pool holds the subnets of the network but the first, and the single-IP
pool the addresses of the first subnet but its network address. Their members
print differently, so the sizes are the numbers of subnets and addresses, and
no two of them share an address.
-/

namespace Silk.Leaser

open GoNet

theorem StringSet.size_eq {s : StringSet} {c : ℕ} {f : ℕ → String}
    (hinj : ∀ i j, i < c → j < c → f i = f j → i = j)
    (hmem : ∀ x, x ∈ s.keys ↔ ∃ k, 0 < k ∧ k < c ∧ x = f k) : s.size = c - 1 := by
  have hperm : s.keys.Perm ((List.range' 1 (c - 1)).map f) := by
    refine (List.perm_ext_iff_of_nodup s.nodup ?_).mpr fun x => ?_
    · refine List.Nodup.map_on (fun i hi j hj => hinj i j ?_ ?_) List.nodup_range'
      · have := List.mem_range'_1.mp hi
        omega
      · have := List.mem_range'_1.mp hj
        omega
    · simp only [hmem, List.mem_map, List.mem_range'_1]
      constructor
      · rintro ⟨k, h0, hk, rfl⟩
        exact ⟨k, by omega, rfl⟩
      · rintro ⟨k, hk, rfl⟩
        exact ⟨k, by omega, by omega, rfl⟩
  rw [StringSet.size, hperm.length_eq, List.length_map, List.length_range']

namespace Overlay

variable (o : Overlay)

theorem blockPool_slot {s : String} (hs : s ∈ o.pool.blockPool.keys) :
    ∃ a, o.Slot a o.subnetMask ∧ o.base + o.blockSize ≤ a ∧
      s = cidrText (addrBytes a) o.subnetMask := by
  obtain ⟨k, h0, hk, rfl⟩ := o.mem_blockPool.mp hs
  refine ⟨_, Or.inl ⟨rfl, k, h0, hk, rfl⟩, ?_, rfl⟩
  exact Nat.add_le_add_left (Nat.le_mul_of_pos_left _ h0) _

theorem singlePool_slot {s : String} (hs : s ∈ o.pool.singlePool.keys) :
    ∃ a, o.Slot a 32 ∧ a < o.base + o.blockSize ∧ s = cidrText (addrBytes a) 32 := by
  obtain ⟨i, h0, hi, rfl⟩ := o.mem_singlePool.mp hs
  exact ⟨_, Or.inr ⟨rfl, i, h0, hi, rfl⟩, by omega, rfl⟩

theorem blockPool_size : o.pool.blockPoolSize = 2 ^ (o.subnetMask - o.prefixLen) - 1 := by
  refine StringSet.size_eq (fun i j hi hj h => ?_) fun x => o.mem_blockPool
  have hlt : ∀ k < o.blockCount, o.base + k * o.blockSize < 2 ^ 32 := fun k hk =>
    o.base_add_lt (Nat.mul_lt_mul_of_pos_right hk o.blockSize_pos)
  have haddr := (cidrText_injective (hlt i hi) (hlt j hj) o.mask_le o.mask_le h).1
  exact Nat.eq_of_mul_eq_mul_right o.blockSize_pos (Nat.add_left_cancel haddr)

theorem singlePool_size : o.pool.singleIPPoolSize = 2 ^ (32 - o.subnetMask) - 1 := by
  refine StringSet.size_eq (fun i j hi hj h => ?_) fun x => o.mem_singlePool
  have hlt : ∀ k < o.blockSize, o.base + k < 2 ^ 32 := fun k hk =>
    o.base_add_lt (hk.trans_le o.blockSize_le)
  exact Nat.add_left_cancel (cidrText_injective (hlt i hi) (hlt j hj) le_rfl le_rfl h).1

theorem mem_blockPool_iff {s : String} : s ∈ o.pool.blockPool.keys ↔
    ∃ a, o.base < a ∧ a < o.base + 2 ^ (32 - o.prefixLen) ∧ 2 ^ (32 - o.subnetMask) ∣ a ∧
      s = cidrText (addrBytes a) o.subnetMask := by
  rw [o.mem_blockPool, o.networkSize]
  constructor
  · rintro ⟨k, h0, hk, rfl⟩
    have hpos := Nat.mul_pos h0 o.blockSize_pos
    have hlt := Nat.mul_lt_mul_of_pos_right hk o.blockSize_pos
    exact ⟨o.base + k * o.blockSize, by omega, by omega,
      Nat.dvd_add o.blockSize_dvd_base (Nat.dvd_mul_left _ _), rfl⟩
  · rintro ⟨a, hlow, hhigh, hdvd, rfl⟩
    obtain ⟨k, hk⟩ : o.blockSize ∣ a - o.base := Nat.dvd_sub hdvd o.blockSize_dvd_base
    rw [Nat.mul_comm] at hk
    have hk0 : 0 < k := by
      rw [Nat.pos_iff_ne_zero]
      rintro rfl
      omega
    have hkc : k * o.blockSize < o.blockCount * o.blockSize := by omega
    refine ⟨k, hk0, lt_of_mul_lt_mul_right hkc (Nat.zero_le _), ?_⟩
    rw [← hk, Nat.add_sub_cancel' hlow.le]

theorem mem_singlePool_iff {s : String} : s ∈ o.pool.singlePool.keys ↔
    ∃ a, o.base < a ∧ a < o.base + 2 ^ (32 - o.subnetMask) ∧ s = cidrText (addrBytes a) 32 := by
  rw [o.mem_singlePool]
  constructor
  · rintro ⟨i, h0, hi, rfl⟩
    exact ⟨_, by omega, Nat.add_lt_add_left hi _, rfl⟩
  · rintro ⟨a, hlow, hhigh, rfl⟩
    have hi : a - o.base < o.blockSize := by
      rw [blockSize]
      omega
    refine ⟨a - o.base, by omega, hi, ?_⟩
    rw [Nat.add_sub_cancel' hlow.le]

theorem pools_disjoint :
    (o.pool.blockPool.keys ++ o.pool.singlePool.keys).Pairwise rangesDisjoint := by
  refine List.pairwise_append.mpr ⟨?_, ?_, fun s hs t ht => ?_⟩
  · refine o.pool.blockPool.nodup.imp_of_mem fun {s t} hs ht hne => ?_
    obtain ⟨a, ha, -, rfl⟩ := o.blockPool_slot hs
    obtain ⟨b, hb, -, rfl⟩ := o.blockPool_slot ht
    exact ha.rangesDisjoint hb fun hab => hne (by rw [hab])
  · refine o.pool.singlePool.nodup.imp_of_mem fun {s t} hs ht hne => ?_
    obtain ⟨a, ha, -, rfl⟩ := o.singlePool_slot hs
    obtain ⟨b, hb, -, rfl⟩ := o.singlePool_slot ht
    exact ha.rangesDisjoint hb fun hab => hne (by rw [hab])
  · obtain ⟨a, ha, hlow, rfl⟩ := o.blockPool_slot hs
    obtain ⟨b, hb, hhigh, rfl⟩ := o.singlePool_slot ht
    exact ha.rangesDisjoint hb (by omega)

theorem pools_inside {s : String} (hs : s ∈ o.pool.blockPool.keys ++ o.pool.singlePool.keys) :
    ∃ a net, parseCIDR s = .ok (a, net) ∧ net.Within o.net := by
  have hslot : ∃ a w, o.Slot a w ∧ s = cidrText (addrBytes a) w := by
    rcases List.mem_append.mp hs with hs | hs
    · obtain ⟨a, ha, -, hs⟩ := o.blockPool_slot hs
      exact ⟨a, _, ha, hs⟩
    · obtain ⟨a, ha, -, hs⟩ := o.singlePool_slot hs
      exact ⟨a, _, ha, hs⟩
  obtain ⟨a, w, ha, rfl⟩ := hslot
  obtain ⟨net, hparse⟩ := parseCIDR_slot ha.le (a := a)
  exact ⟨_, net, hparse, fun x hx => ha.inside ⟨_, net, hparse, hx⟩⟩

end Overlay

theorem pool_construction_exact (o : Overlay) :
    ∃ pool, newCIDRPool o.subnetRange o.subnetMask = .value pool ∧
      (∀ s, s ∈ pool.blockPool.keys ↔ ∃ a, addrVal o.net.ip < a ∧
        a < addrVal o.net.ip + 2 ^ (32 - o.prefixLen) ∧ 2 ^ (32 - o.subnetMask) ∣ a ∧
        s = cidrText (addrBytes a) o.subnetMask) ∧
      (∀ s, s ∈ pool.singlePool.keys ↔ ∃ a, addrVal o.net.ip < a ∧
        a < addrVal o.net.ip + 2 ^ (32 - o.subnetMask) ∧ s = cidrText (addrBytes a) 32) ∧
      pool.blockPoolSize = 2 ^ (o.subnetMask - o.prefixLen) - 1 ∧
      pool.singleIPPoolSize = 2 ^ (32 - o.subnetMask) - 1 ∧
      (pool.blockPool.keys ++ pool.singlePool.keys).Pairwise rangesDisjoint ∧
      ∀ s ∈ pool.blockPool.keys ++ pool.singlePool.keys,
        ∃ a net, parseCIDR s = .ok (a, net) ∧ net.Within o.net :=
  ⟨o.pool, o.newCIDRPool_eq, fun _ => o.mem_blockPool_iff, fun _ => o.mem_singlePool_iff,
    o.blockPool_size, o.singlePool_size, o.pools_disjoint, fun _ => o.pools_inside⟩

end Silk.Leaser
