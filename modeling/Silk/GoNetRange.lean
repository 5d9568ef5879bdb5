import Silk.GoNetRoundTrip
import Mathlib.Data.Nat.Basic
import Mathlib.Tactic.Ring
import Mathlib.Tactic.Linarith

/-!
# Address ranges of parsed networks

Bytes are read as a big-endian number, and comparing addresses under a mask is
comparing quotients by a power of two. The range of a network text is the set
of addresses its parsed network contains; for a printed IPv4 network this is one
aligned interval.
-/

namespace Silk.GoNet

def addrVal : List UInt8 → ℕ
  | [] => 0
  | b :: bs => b.toNat * 256 ^ bs.length + addrVal bs

def addrBytes (n : ℕ) : List UInt8 :=
  [UInt8.ofNat (n / 2 ^ 24), UInt8.ofNat (n / 2 ^ 16), UInt8.ofNat (n / 2 ^ 8), UInt8.ofNat n]

theorem addrVal_lt (bs : List UInt8) : addrVal bs < 256 ^ bs.length := by
  induction bs with
  | nil => simp [addrVal]
  | cons b bs ih =>
    have hb := byte_le b
    simp only [addrVal, List.length_cons, pow_succ]
    nlinarith

theorem addrVal_addrBytes {n : ℕ} (h : n < 2 ^ 32) : addrVal (addrBytes n) = n := by
  simp only [addrBytes, addrVal, List.length_cons, List.length_nil, UInt8.toNat_ofNat']
  omega

theorem addrBytes_addrVal {a b c d : UInt8} : addrBytes (addrVal [a, b, c, d]) = [a, b, c, d] := by
  have ha := byte_le a
  have hb := byte_le b
  have hc := byte_le c
  have hd := byte_le d
  simp only [addrBytes, addrVal, List.length_cons, List.length_nil, List.cons.injEq,
    ← UInt8.toNat_inj, UInt8.toNat_ofNat', and_true]
  omega

theorem maskByte_and : ∀ k < 9, ∀ n < 256,
    (UInt8.ofNat n &&& maskByte k).toNat = n / 2 ^ (8 - k) * 2 ^ (8 - k) := by
  decide +kernel

theorem maskByte_sat {k : ℕ} (h : 8 ≤ k) : maskByte k = maskByte 8 := by
  simp [maskByte, h]

theorem and_maskByte_toNat (b : UInt8) (k : ℕ) :
    (b &&& maskByte k).toNat = b.toNat / 2 ^ (8 - k) * 2 ^ (8 - k) := by
  rcases Nat.lt_or_ge k 9 with h | h
  · simpa using maskByte_and k h b.toNat b.toNat_lt
  · rw [maskByte_sat (by omega), show 8 - k = 0 by omega]
    simpa using maskByte_and 8 (by omega) b.toNat b.toNat_lt

theorem and_maskByte_eq_iff (b c : UInt8) (k : ℕ) :
    b &&& maskByte k = c &&& maskByte k ↔ b.toNat / 2 ^ (8 - k) = c.toNat / 2 ^ (8 - k) := by
  rw [← UInt8.toNat_inj, and_maskByte_toNat, and_maskByte_toNat]
  exact Nat.mul_left_inj (by positivity)

theorem and_maskByte_idem (b : UInt8) (k : ℕ) :
    (b &&& maskByte k) &&& maskByte k = b &&& maskByte k := by
  rw [and_maskByte_eq_iff, and_maskByte_toNat, Nat.mul_div_cancel _ (by positivity)]

theorem maskBytes_length (l k : ℕ) : (maskBytes l k).length = l := by
  induction l generalizing k with
  | zero => rfl
  | succ l ih => rw [maskBytes, List.length_cons, ih]

theorem mask_idem (l k : ℕ) (xs : List UInt8) :
    List.zipWith (· &&& ·) (List.zipWith (· &&& ·) xs (maskBytes l k)) (maskBytes l k) =
      List.zipWith (· &&& ·) xs (maskBytes l k) := by
  induction xs generalizing l k with
  | nil => simp
  | cons x xs ih =>
    cases l with
    | zero => simp [maskBytes]
    | succ l => simp only [maskBytes, List.zipWith_cons_cons, and_maskByte_idem, ih]

theorem div_head {q r D m : ℕ} (hD : 0 < D) (hr : r < m * D) :
    (q * (m * D) + r) / D = q * m + r / D ∧ r / D < m := by
  constructor
  · rw [← mul_assoc, Nat.mul_comm (q * m) D, Nat.mul_add_div hD]
  · exact (Nat.div_lt_iff_lt_mul hD).mpr hr

theorem digit_eq_iff {a b x y m : ℕ} (hx : x < m) (hy : y < m) :
    a * m + x = b * m + y ↔ a = b ∧ x = y := by
  constructor
  · intro h
    have ha : (a * m + x) / m = a := by
      rw [Nat.mul_comm, Nat.mul_add_div (by omega), Nat.div_eq_of_lt hx, Nat.add_zero]
    have hb : (b * m + y) / m = b := by
      rw [Nat.mul_comm, Nat.mul_add_div (by omega), Nat.div_eq_of_lt hy, Nat.add_zero]
    have hab : a = b := by rw [← ha, h, hb]
    subst hab
    exact ⟨rfl, by omega⟩
  · rintro ⟨rfl, rfl⟩
    rfl

theorem addrVal_injective {xs ys : List UInt8} (hl : xs.length = ys.length)
    (h : addrVal xs = addrVal ys) : xs = ys := by
  induction xs generalizing ys with
  | nil => exact (List.length_eq_zero_iff.mp hl.symm).symm
  | cons x xs ih =>
    cases ys with
    | nil => cases hl
    | cons y ys =>
      simp only [List.length_cons, Nat.add_right_cancel_iff] at hl
      have hx := addrVal_lt xs
      have hy := addrVal_lt ys
      simp only [addrVal, hl] at h hx
      obtain ⟨h1, h2⟩ := (digit_eq_iff hx hy).mp h
      rw [UInt8.toNat_inj.mp h1, ih hl h2]

theorem addrVal_masked (l k : ℕ) (hk : k ≤ 8 * l) {xs : List UInt8} (hx : xs.length = l) :
    addrVal (List.zipWith (· &&& ·) xs (maskBytes l k)) =
      addrVal xs / 2 ^ (8 * l - k) * 2 ^ (8 * l - k) := by
  induction l generalizing k xs with
  | zero => simp [List.length_eq_zero_iff.mp hx, addrVal]
  | succ l ih =>
    obtain ⟨x, xs, rfl⟩ := List.exists_cons_of_length_eq_add_one hx
    simp only [List.length_cons, Nat.add_right_cancel_iff] at hx
    have hv := addrVal_lt xs
    have hpow : (256 : ℕ) ^ l = 2 ^ (8 * l) := by rw [pow_mul]; norm_num
    have hlen : (List.zipWith (· &&& ·) xs (maskBytes l (k - 8))).length = l := by
      simp [maskBytes_length, hx]
    simp only [maskBytes, List.zipWith_cons_cons, addrVal, hlen, hx, and_maskByte_toNat,
      ih (k - 8) (by omega) hx]
    rw [hx] at hv
    rw [hpow] at hv ⊢
    rcases Nat.lt_or_ge k 8 with h | h
    · have hsplit : 2 ^ (8 * (l + 1) - k) = 2 ^ (8 * l) * 2 ^ (8 - k) := by
        rw [← pow_add]
        congr 1
        omega
      rw [show k - 8 = 0 by omega, Nat.sub_zero, Nat.div_eq_of_lt hv, hsplit,
        ← Nat.div_div_eq_div_mul, Nat.mul_comm x.toNat, Nat.mul_add_div (by positivity),
        Nat.div_eq_of_lt hv, Nat.zero_mul, Nat.add_zero, Nat.add_zero]
      ring
    · have hsplit : 2 ^ (8 * l) = 2 ^ (k - 8) * 2 ^ (8 * (l + 1) - k) := by
        rw [← pow_add]
        congr 1
        omega
      rw [hsplit] at hv
      rw [show 8 * l - (k - 8) = 8 * (l + 1) - k by omega, show 8 - k = 0 by omega, pow_zero,
        Nat.div_one, hsplit, (div_head (q := x.toNat) (by positivity) hv).1]
      ring

theorem mask_eq_iff (l k : ℕ) (hk : k ≤ 8 * l) {xs ys : List UInt8}
    (hx : xs.length = l) (hy : ys.length = l) :
    List.zipWith (· &&& ·) xs (maskBytes l k) = List.zipWith (· &&& ·) ys (maskBytes l k) ↔
      addrVal xs / 2 ^ (8 * l - k) = addrVal ys / 2 ^ (8 * l - k) := by
  constructor
  · intro h
    have hv := congrArg addrVal h
    rw [addrVal_masked l k hk hx, addrVal_masked l k hk hy] at hv
    exact Nat.eq_of_mul_eq_mul_right (by positivity) hv
  · intro h
    apply addrVal_injective
    · simp [hx, hy]
    · rw [addrVal_masked l k hk hx, addrVal_masked l k hk hy, h]

def covers (subnet : String) (x : IP) : Prop :=
  ∃ ip net, parseCIDR subnet = .ok (ip, net) ∧ net.contains x = true

def rangesDisjoint (s t : String) : Prop := ∀ x, ¬ (covers s x ∧ covers t x)

theorem rangesDisjoint_symm {s t : String} (h : rangesDisjoint s t) : rangesDisjoint t s :=
  fun x hx => h x ⟨hx.2, hx.1⟩

theorem to4_length {x y : IP} (h : to4 x = some y) : y.length = 4 := by
  rw [to4] at h
  split_ifs at h with h1 h2
  · cases h
    exact h1
  · cases h
    simp [h2.1]

theorem to4_addrBytes (n : ℕ) : to4 (addrBytes n) = some (addrBytes n) := rfl

theorem cidrMask_length {m : ℕ} (hm : m ≤ 32) : cidrMask m 32 = maskBytes 4 m := by
  rw [cidrMask, if_neg (by omega)]

theorem contains_masked (n : ℕ) {m : ℕ} (hm : m ≤ 32) (x : IP) :
    (IPNet.contains
      ⟨List.zipWith (· &&& ·) (addrBytes n) (cidrMask m 32), cidrMask m 32⟩ x = true) ↔
      ∃ y, to4 x = some y ∧
        addrVal y / 2 ^ (32 - m) = addrVal (addrBytes n) / 2 ^ (32 - m) := by
  have hl4 : ∀ xs : List UInt8, xs.length = 4 →
      (List.zipWith (· &&& ·) xs (maskBytes 4 m)).length = 4 := by
    intro xs hxs
    simp [maskBytes, hxs]
  have hnum : networkNumberAndMask
      ⟨List.zipWith (· &&& ·) (addrBytes n) (maskBytes 4 m), maskBytes 4 m⟩ =
      some (List.zipWith (· &&& ·) (addrBytes n) (maskBytes 4 m), maskBytes 4 m) := by
    simp only [networkNumberAndMask, to4, hl4 _ (show (addrBytes n).length = 4 from rfl), if_true]
    simp [maskBytes]
  rw [cidrMask_length hm]
  simp only [IPNet.contains, hnum, mask_idem, Bool.and_eq_true, decide_eq_true_eq,
    hl4 _ (show (addrBytes n).length = 4 from rfl)]
  constructor
  · rintro ⟨hlen, heq⟩
    have h4 : to4 x = some ((to4 x).getD x) := by
      cases hx : to4 x with
      | some y => rfl
      | none =>
        rw [hx, Option.getD_none] at hlen
        simp [to4, hlen] at hx
    exact ⟨_, h4, ((mask_eq_iff 4 m hm rfl hlen).mp heq).symm⟩
  · rintro ⟨y, hy, hval⟩
    rw [hy, Option.getD_some]
    exact ⟨to4_length hy, (mask_eq_iff 4 m hm rfl (to4_length hy)).mpr hval.symm⟩

/-- The range of a printed IPv4 network is the aligned block of its address. -/
theorem covers_cidrText {n m : ℕ} (hn : n < 2 ^ 32) (hm : m ≤ 32) (x : IP) :
    covers (cidrText (addrBytes n) m) x ↔
      ∃ y, to4 x = some y ∧ addrVal y / 2 ^ (32 - m) = n / 2 ^ (32 - m) := by
  have hp := parseCIDR_cidrText (UInt8.ofNat (n / 2 ^ 24)) (UInt8.ofNat (n / 2 ^ 16))
    (UInt8.ofNat (n / 2 ^ 8)) (UInt8.ofNat n) hm
  have hc := contains_masked n hm x
  rw [addrVal_addrBytes hn] at hc
  rw [← hc]
  constructor
  · rintro ⟨ip, net, hpar, hcon⟩
    rw [addrBytes, hp] at hpar
    cases hpar
    exact hcon
  · intro hcon
    exact ⟨_, _, hp, hcon⟩

theorem rangesDisjoint_cidrText {a b m : ℕ} (ha : a < 2 ^ 32) (hb : b < 2 ^ 32) (hm : m ≤ 32)
    (hne : a / 2 ^ (32 - m) ≠ b / 2 ^ (32 - m)) :
    rangesDisjoint (cidrText (addrBytes a) m) (cidrText (addrBytes b) m) := by
  rintro x ⟨hx, hx'⟩
  obtain ⟨y, hy, hval⟩ := (covers_cidrText ha hm x).mp hx
  obtain ⟨y', hy', hval'⟩ := (covers_cidrText hb hm x).mp hx'
  rw [hy] at hy'
  cases hy'
  exact hne (hval.symm.trans hval')

end Silk.GoNet
