import Silk.ControllerConfig
import Silk.LeaserConstruction

/-!
# Every subnet prefix length the configuration admits

The configuration only has to give a nonzero prefix length. Above 32 and below
-31 the block size is shifted out to zero, at -31 it is the smallest integer;
the loop over the blocks then never ends. Between these and the prefix length of
the network no block fits, and the loop over the single addresses leaves the
network unless that is the whole address space.
-/

namespace Silk.Leaser

open GoNet Controller

theorem forLoop_diverges {β : Type} {bound step : ℤ} {body : ℤ → β → β} {I : ℤ → Prop}
    (h : ∀ i, I i → i < bound ∧ I (goInt (i + step))) {i : ℤ} (hi : I i) (fuel : ℕ) (acc : β) :
    forLoop bound step body fuel i acc = none := by
  induction fuel generalizing i acc with
  | zero => rfl
  | succ fuel ih =>
    obtain ⟨hlt, hnext⟩ := h i hi
    rw [forLoop, if_pos hlt, ih hnext]

theorem subUint_goUint (m : ℤ) : (subUint 32 (goUint m) : ℤ) = (32 - m) % 2 ^ 64 := by
  rw [subUint, goUint]
  omega

theorem blockSize_of_le {m : ℤ} (hlow : -30 ≤ m) (hhigh : m ≤ 32) :
    shiftOne (subUint 32 (goUint m)) = 2 ^ (32 - m).toNat := by
  have hshift : subUint 32 (goUint m) = (32 - m).toNat := by
    have h := subUint_goUint m
    omega
  have hpow : (2 : ℤ) ^ (32 - m).toNat ≤ 2 ^ 62 :=
    pow_le_pow_right₀ (by norm_num) (by omega)
  rw [hshift, shiftOne, if_pos (by omega), goInt_of_range (by positivity) (by omega)]

theorem blockSize_overflows : shiftOne (subUint 32 (goUint (-31))) = -2 ^ 63 := by
  have hshift : subUint 32 (goUint (-31)) = 63 := by
    have h := subUint_goUint (-31)
    omega
  rw [hshift]
  rfl

theorem blockSize_vanishes {m : ℤ} (hrange : -2 ^ 63 ≤ m ∧ m < 2 ^ 63) (hm : m < -31 ∨ 32 < m) :
    shiftOne (subUint 32 (goUint m)) = 0 := by
  have hshift : ¬ subUint 32 (goUint m) < 64 := by
    have h := subUint_goUint m
    omega
  rw [shiftOne, if_neg hshift]

section Loops

variable {p : ℕ} (hp : p ≤ 32)
include hp

theorem shiftOne_network : shiftOne (subUint 32 p) = 2 ^ (32 - p) := by
  rw [subUint_le hp, shiftOne_le (by omega)]

theorem generateBlockPool_diverges (ipStart : IP) {m : ℤ} (hrange : -2 ^ 63 ≤ m ∧ m < 2 ^ 63)
    (hm : m < -30 ∨ 32 < m) : generateBlockPool ipStart p (goUint m) = none := by
  have hpos : (0 : ℤ) < 2 ^ (32 - p) := by positivity
  rw [generateBlockPool, shiftOne_network hp]
  by_cases hmin : m = -31
  · rw [hmin, blockSize_overflows]
    refine forLoop_diverges (I := fun i => i = -2 ^ 63 ∨ i = 0) (fun i hi => ?_) (Or.inl rfl) _ _
    rcases hi with rfl | rfl
    · exact ⟨by linarith, Or.inr rfl⟩
    · exact ⟨hpos, Or.inl rfl⟩
  · rw [blockSize_vanishes hrange (by omega)]
    refine forLoop_diverges (I := fun i => i = 0) (fun i hi => ?_) rfl _ _
    rw [hi]
    exact ⟨hpos, rfl⟩

theorem generateBlockPool_empty (ipStart : IP) {m : ℤ} (hlow : -30 ≤ m) (hm : m < p) :
    ∃ pool, generateBlockPool ipStart p (goUint m) = some pool ∧ ∀ x, x ∉ pool.keys := by
  have hsize : (2 : ℤ) ^ (32 - p) ≤ 2 ^ (32 - m).toNat :=
    pow_le_pow_right₀ (by norm_num) (by omega)
  have hmax : (2 : ℤ) ^ (32 - m).toNat ≤ 2 ^ 62 := pow_le_pow_right₀ (by norm_num) (by omega)
  have hnet : (2 : ℤ) ^ (32 - p) ≤ 2 ^ 32 := pow_le_pow_right₀ (by norm_num) (by omega)
  have hpos : (0 : ℤ) < 2 ^ (32 - m).toNat := by positivity
  rw [generateBlockPool, shiftOne_network hp, blockSize_of_le hlow (by omega)]
  obtain ⟨pool, heq, hmem⟩ := forLoop_insert hpos
    (show (2 : ℤ) ^ (32 - p) + 2 ^ (32 - m).toNat < 2 ^ 63 by omega)
    (fun i => ipString (ipAdd ipStart i) ++ "/" ++ toString (goUint m))
    (show 0 < 2 ^ 64 by norm_num) hpos.le (by omega) .empty
  refine ⟨pool, heq, fun x hx => ?_⟩
  rcases (hmem x).mp hx with hx | ⟨k, hk, -⟩
  · exact absurd hx List.not_mem_nil
  · have hk0 : (0 : ℤ) ≤ k * 2 ^ (32 - m).toNat := by positivity
    omega

end Loops

theorem generateSingleIPPool_wraps {b : ℕ} (hb : b < 2 ^ 32) {m : ℤ} (hlow : -30 ≤ m)
    (hhigh : m ≤ 32) :
    ∃ pool, generateSingleIPPool (addrBytes b) (goUint m) = some pool ∧
      ∀ x, x ∈ pool.keys ↔ ∃ k : ℕ, 0 < k ∧ k < 2 ^ (32 - m).toNat ∧
        x = cidrText (addrBytes ((b + k) % 2 ^ 32)) 32 := by
  have hmax : (2 : ℤ) ^ (32 - m).toNat ≤ 2 ^ 62 := pow_le_pow_right₀ (by norm_num) (by omega)
  rw [generateSingleIPPool, blockSize_of_le hlow hhigh]
  obtain ⟨pool, heq, hmem⟩ := forLoop_insert (show (0 : ℤ) < 1 by norm_num)
    (show (2 : ℤ) ^ (32 - m).toNat + 1 < 2 ^ 63 by omega)
    (fun i => ipString (ipAdd (addrBytes b) i) ++ "/32") (show 0 < 2 ^ 64 by norm_num)
    (show (0 : ℤ) ≤ 1 by norm_num) (by omega) .empty
  have htext : ∀ k : ℕ, ipString (ipAdd (addrBytes b) k) ++ "/32" =
      cidrText (addrBytes ((b + k) % 2 ^ 32)) 32 := by
    intro k
    have hval : ((b + k : ℤ) % 2 ^ 32).toNat = (b + k) % 2 ^ 32 := by omega
    rw [ipAdd_addrBytes hb, sprintf_single, hval]
  refine ⟨pool, heq, fun x => ?_⟩
  rw [hmem, or_iff_right (show x ∉ StringSet.empty.keys from List.not_mem_nil)]
  constructor
  · rintro ⟨k, hk, rfl⟩
    refine ⟨k + 1, by omega, ?_, ?_⟩
    · zify
      omega
    · rw [← htext]
      congr 3
      push_cast
      ring
  · rintro ⟨k, h0, hk, rfl⟩
    obtain ⟨j, rfl⟩ : ∃ j, k = j + 1 := ⟨k - 1, by omega⟩
    refine ⟨j, ?_, ?_⟩
    · zify at hk
      omega
    · rw [← htext]
      congr 3
      push_cast
      ring

def CIDRPool.Inside (pool : CIDRPool) (net : IPNet) : Prop :=
  ∀ s ∈ pool.blockPool.keys ++ pool.singlePool.keys,
    ∃ a member, parseCIDR s = .ok (a, member) ∧ member.Within net

theorem single_within_iff {a b p : ℕ} (ha : a < 2 ^ 32) (hb : b < 2 ^ 32) (hp : p ≤ 32) :
    (∃ ip member, parseCIDR (cidrText (addrBytes a) 32) = .ok (ip, member) ∧
      member.Within (ipv4Net b p)) ↔ a / 2 ^ (32 - p) = b / 2 ^ (32 - p) := by
  have hparse : parseCIDR (cidrText (addrBytes a) 32) =
      .ok (v4InV6Prefix ++ addrBytes a, ipv4Net a 32) := parseCIDR_cidrText _ _ _ _ le_rfl
  have hself : (ipv4Net a 32).ip = addrBytes a := by
    rw [ipv4Net_ip ha le_rfl, Nat.sub_self, pow_zero, Nat.div_one, Nat.mul_one]
  have hiff : (ipv4Net a 32).Within (ipv4Net b p) ↔ a / 2 ^ (32 - p) = b / 2 ^ (32 - p) := by
    rw [within_iff ha hb hp le_rfl, hself, contains_ipv4Net_addrBytes hb hp ha]
    exact and_iff_right hp
  rw [← hiff, hparse]
  constructor
  · rintro ⟨ip, member, h, hwithin⟩
    cases h
    exact hwithin
  · exact fun hwithin => ⟨_, _, rfl, hwithin⟩

theorem next_network_ne {b p : ℕ} (hb : b < 2 ^ 32) (hp : 0 < p) (hp' : p ≤ 32)
    (hdvd : 2 ^ (32 - p) ∣ b) :
    (b + 2 ^ (32 - p)) % 2 ^ 32 / 2 ^ (32 - p) ≠ b / 2 ^ (32 - p) := by
  obtain ⟨q, rfl⟩ := hdvd
  have hpos : 0 < 2 ^ (32 - p) := by positivity
  have hsplit : 2 ^ 32 = 2 ^ (32 - p) * 2 ^ p := by
    rw [← pow_add]
    congr 1
    omega
  have hq : q < 2 ^ p := by
    rw [hsplit] at hb
    exact lt_of_mul_lt_mul_left hb (Nat.zero_le _)
  have htwo : 2 ≤ 2 ^ p := Nat.le_self_pow (by omega) 2
  rw [← Nat.mul_succ, hsplit, Nat.mul_mod_mul_left, Nat.mul_div_cancel_left _ hpos,
    Nat.mul_div_cancel_left _ hpos]
  by_cases hlast : q + 1 = 2 ^ p
  · rw [Nat.succ_eq_add_one, hlast, Nat.mod_self]
    omega
  · rw [Nat.mod_eq_of_lt (by omega)]
    omega

section Network

variable {s : String} {ip : IP} {n p : ℕ} (hp : p ≤ 32)
  (hparse : parseCIDR s = .ok (ip, ipv4Net n p))
include hp hparse

theorem newCIDRPool_of_parsed {m : ℤ} {blockPool singlePool : StringSet}
    (hblock : generateBlockPool (ipv4Net n p).ip p (goUint m) = some blockPool)
    (hsingle : generateSingleIPPool (ipv4Net n p).ip (goUint m) = some singlePool) :
    newCIDRPool s m = .value ⟨blockPool, singlePool⟩ := by
  simp only [newCIDRPool, hparse, ipv4Net_mask, maskSize_cidrMask p (by omega), hblock, hsingle]

theorem newCIDRPool_diverges {m : ℤ} (hrange : -2 ^ 63 ≤ m ∧ m < 2 ^ 63) (hm : m < -30 ∨ 32 < m) :
    newCIDRPool s m = .diverges := by
  simp only [newCIDRPool, hparse, ipv4Net_mask, maskSize_cidrMask p (by omega),
    generateBlockPool_diverges hp _ hrange hm]

/-- A block larger than the network: there is no block, and the addresses run over the end of the
network unless it is the whole address space. -/
theorem newCIDRPool_wide (hn : n < 2 ^ 32) {m : ℤ} (hlow : -30 ≤ m) (hm : m < p) :
    ∃ pool, newCIDRPool s m = .value pool ∧ (pool.Inside (ipv4Net n p) ↔ p = 0) := by
  have hpos : 0 < 2 ^ (32 - p) := by positivity
  have hle : n / 2 ^ (32 - p) * 2 ^ (32 - p) ≤ n := Nat.div_mul_le_self _ _
  have hip := ipv4Net_ip hn hp
  generalize hb : n / 2 ^ (32 - p) * 2 ^ (32 - p) = b at hip hle
  have hblt : b < 2 ^ 32 := by omega
  have hquot : b / 2 ^ (32 - p) = n / 2 ^ (32 - p) := by
    rw [← hb, Nat.mul_div_cancel _ hpos]
  obtain ⟨blocks, hblocks, hnone⟩ := generateBlockPool_empty hp (addrBytes b) hlow hm
  obtain ⟨singles, hsingles, hmem⟩ := generateSingleIPPool_wraps hblt hlow (by omega)
  rw [← hip] at hblocks hsingles
  refine ⟨_, newCIDRPool_of_parsed hp hparse hblocks hsingles, ?_⟩
  constructor
  · intro hinside
    by_contra hp0
    have hless : 2 ^ (32 - p) < 2 ^ (32 - m).toNat :=
      Nat.pow_lt_pow_right (by norm_num) (by omega)
    have hnext := hinside _ (List.mem_append_right _ ((hmem _).mpr ⟨_, hpos, hless, rfl⟩))
    rw [single_within_iff (Nat.mod_lt _ (by norm_num)) hn hp, ← hquot] at hnext
    exact next_network_ne hblt (by omega) hp (hb ▸ Nat.dvd_mul_left _ _) hnext
  · rintro rfl x hx
    rcases List.mem_append.mp hx with hx | hx
    · exact absurd hx (hnone x)
    · obtain ⟨k, -, -, rfl⟩ := (hmem x).mp hx
      have hlt : (b + k) % 2 ^ 32 < 2 ^ 32 := Nat.mod_lt _ (by norm_num)
      rw [single_within_iff hlt hn hp, Nat.sub_zero, Nat.div_eq_of_lt hlt, Nat.div_eq_of_lt hn]

end Network

/-- The pools are built and lie within the network exactly for prefix lengths from that of the
network to 32, and, when the network is the whole address space, from -30 to -1. -/
theorem admitted_pools_inside_iff (cfg : Config) {ip : IP} {net : IPNet}
    (hparse : parseCIDR cfg.network = .ok (ip, net)) (hv4 : net.mask.length = 4) :
    (∃ pool, newCIDRPool cfg.network cfg.subnetPrefixLength.toInt = .value pool ∧
      pool.Inside net) ↔
      ((maskSize net.mask).1 ≤ cfg.subnetPrefixLength.toInt ∧ cfg.subnetPrefixLength.toInt ≤ 32) ∨
      ((maskSize net.mask).1 = 0 ∧ -30 ≤ cfg.subnetPrefixLength.toInt ∧
        cfg.subnetPrefixLength.toInt < 0) := by
  have hrange : -2 ^ 63 ≤ cfg.subnetPrefixLength.toInt ∧ cfg.subnetPrefixLength.toInt < 2 ^ 63 :=
    ⟨cfg.subnetPrefixLength.le_toInt, cfg.subnetPrefixLength.toInt_lt⟩
  generalize cfg.subnetPrefixLength.toInt = m at hrange
  obtain ⟨n, p, hn, hp, rfl⟩ := parseCIDR_ipv4Net hparse hv4
  have hsize : (maskSize (ipv4Net n p).mask).1 = p := by
    rw [ipv4Net_mask, maskSize_cidrMask p (by omega)]
  rw [hsize]
  by_cases hdiv : m < -30 ∨ 32 < m
  · rw [newCIDRPool_diverges hp hparse hrange hdiv]
    constructor
    · rintro ⟨pool, hpool, -⟩
      cases hpool
    · omega
  by_cases hwide : m < p
  · obtain ⟨pool, hpool, hinside⟩ := newCIDRPool_wide hp hparse hn (by omega) hwide
    rw [hpool]
    constructor
    · rintro ⟨pool', hpool', hinside'⟩
      cases hpool'
      have hp0 := hinside.mp hinside'
      omega
    · intro hcond
      exact ⟨pool, rfl, hinside.mpr (by omega)⟩
  · obtain ⟨k, rfl⟩ : ∃ k : ℕ, m = k := ⟨m.toNat, by omega⟩
    let o : Overlay := ⟨cfg.network, k, ip, ipv4Net n p, hparse, hv4, by omega, by omega⟩
    constructor
    · omega
    · intro _
      exact ⟨o.pool, o.newCIDRPool_eq, fun s hs => o.pools_inside hs⟩

def configWith (network : String) (subnetPrefixLength : Int64) : Config where
  debugServerPort := 1
  listenHost := "127.0.0.1"
  listenPort := 2
  caCertFile := "ca.crt"
  serverCertFile := "server.crt"
  serverKeyFile := "server.key"
  network := network
  subnetPrefixLength := subnetPrefixLength
  database := ⟨"mysql", "root", "127.0.0.1", 3306, 5⟩
  leaseExpirationSeconds := 60
  metronPort := 3
  healthCheckPort := 4
  metricsEmitSeconds := 1
  stalenessThresholdSeconds := 5
  logPrefix := "cfnetworking"
  maxIdleConnections := 0
  maxOpenConnections := 0
  maxConnectionsLifetimeSeconds := 0

theorem admitted_pools_inside_usual :
    ∃ pool net, parseCIDR "10.255.0.0/16" = .ok (ipv4 10 255 0 0, net) ∧
      newCIDRPool "10.255.0.0/16" 24 = .value pool ∧ pool.Inside net := by
  have hparse : parseCIDR (configWith "10.255.0.0/16" 24).network =
      .ok (ipv4 10 255 0 0, ⟨[10, 255, 0, 0], [255, 255, 0, 0]⟩) := rfl
  obtain ⟨pool, hpool, hinside⟩ := (admitted_pools_inside_iff _ hparse rfl).mpr
    (Or.inl (by decide))
  exact ⟨pool, _, rfl, hpool, hinside⟩

/-- Both configurations are accepted. With prefix length 33 the pool is never built; with prefix
length 8 it offers 11.0.0.0/32 in the network 10.255.0.0/16. -/
theorem admitted_pools_fail :
    (configWith "10.255.0.0/16" 33).read = .ok (configWith "10.255.0.0/16" 33) ∧
    newCIDRPool "10.255.0.0/16" 33 = .diverges ∧
    (configWith "10.255.0.0/16" 8).read = .ok (configWith "10.255.0.0/16" 8) ∧
    ∃ pool, newCIDRPool "10.255.0.0/16" 8 = .value pool ∧ "11.0.0.0/32" ∈ pool.singlePool.keys ∧
      ¬ covers "10.255.0.0/16" (ipv4 11 0 0 0) := by
  have hparse : parseCIDR "10.255.0.0/16" =
      .ok (ipv4 10 255 0 0, ipv4Net (addrVal [10, 255, 0, 0]) 16) := rfl
  have hip : (ipv4Net (addrVal [10, 255, 0, 0]) 16).ip = addrBytes (addrVal [10, 255, 0, 0]) := rfl
  refine ⟨rfl, newCIDRPool_diverges (by decide) hparse (by decide) (by decide), rfl, ?_⟩
  obtain ⟨blocks, hblocks, -⟩ := generateBlockPool_empty (p := 16) (by decide)
    (addrBytes (addrVal [10, 255, 0, 0])) (m := 8) (by decide) (by decide)
  obtain ⟨singles, hsingles, hmem⟩ := generateSingleIPPool_wraps
    (b := addrVal [10, 255, 0, 0]) (by decide) (m := 8) (by decide) (by decide)
  rw [← hip] at hblocks hsingles
  refine ⟨_, newCIDRPool_of_parsed (by decide) hparse hblocks hsingles,
    (hmem _).mpr ⟨2 ^ 16, by decide, by decide, by decide⟩, ?_⟩
  rintro ⟨ip, net, hp, hc⟩
  cases hp
  cases hc

end Silk.Leaser
