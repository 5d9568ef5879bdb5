import Silk.GoNetParse
import Mathlib.Data.Nat.Digits.Defs
import Mathlib.Tactic.IntervalCases

/-!
# Printed IPv4 networks and hardware addresses parse back

The text of a dotted address followed by a prefix length is read by `parseCIDR`
as that address and prefix length. The digit loops are followed one printed
field at a time, with the text after the field kept arbitrary; injectivity of
the printed form is then a consequence of the parser being a function. The same
holds of six bytes printed as a hardware address.
-/

namespace Silk.GoNet

theorem parseIPv4Loop_digit {d val digLen : ℕ} (hd : d < 10) (hz : ¬ (digLen = 1 ∧ val = 0))
    (hv : val * 10 + d ≤ 255) (fields : List UInt8) (start : Bool) (rest : List Char) :
    parseIPv4Loop fields val digLen start (Nat.digitChar d :: rest) =
      parseIPv4Loop fields (val * 10 + d) (digLen + 1) false rest := by
  have hdig : (Nat.digitChar d).isDigit = true := by simp [hd]
  have hval : (Nat.digitChar d).toNat - '0'.toNat = d := Nat.toNat_digitChar_sub_48_of_lt_ten hd
  rw [parseIPv4Loop, if_pos hdig, if_neg hz, hval, if_neg (by omega)]

theorem parseIPv4Loop_decimal {b : ℕ} (hb : b ≤ 255) (fields : List UInt8) (rest : List Char) :
    ∃ k, parseIPv4Loop fields 0 0 true (decimal b ++ rest) =
      parseIPv4Loop fields b k false rest := by
  rcases Nat.lt_or_ge b 10 with h1 | h1
  · refine ⟨1, ?_⟩
    rw [decimal, Nat.toDigits_of_lt_base h1, List.singleton_append,
      parseIPv4Loop_digit h1 (by omega) (by omega)]
    simp
  rcases Nat.lt_or_ge b 100 with h2 | h2
  · refine ⟨2, ?_⟩
    rw [decimal, Nat.toDigits_of_base_le (by omega) h1, Nat.toDigits_of_lt_base (by omega)]
    simp only [List.cons_append, List.nil_append]
    rw [parseIPv4Loop_digit (by omega) (by omega) (by omega),
      parseIPv4Loop_digit (by omega) (by omega) (by omega)]
    congr 1
    omega
  · refine ⟨3, ?_⟩
    rw [decimal, Nat.toDigits_of_base_le (by omega) h1,
      Nat.toDigits_of_base_le (by omega) (by omega), Nat.toDigits_of_lt_base (by omega)]
    simp only [List.cons_append, List.nil_append]
    rw [parseIPv4Loop_digit (by omega) (by omega) (by omega),
      parseIPv4Loop_digit (by omega) (by omega) (by omega),
      parseIPv4Loop_digit (by omega) (by omega) (by omega)]
    congr 1
    omega

theorem parseIPv4Loop_dot {fields : List UInt8} (hf : fields.length < 3) (b : UInt8) (k : ℕ)
    {rest : List Char} (hr : rest ≠ []) :
    parseIPv4Loop fields b.toNat k false ('.' :: rest) =
      parseIPv4Loop (fields ++ [b]) 0 0 true rest := by
  have hdot : ('.' : Char).isDigit = false := by decide
  have hlen : fields.length ≠ 3 := by omega
  simp [parseIPv4Loop, hdot, hr, hlen]

theorem byte_le (b : UInt8) : b.toNat ≤ 255 := Nat.le_of_lt_succ b.toNat_lt

theorem decimal_ne_nil (n : ℕ) : decimal n ≠ [] := Nat.toDigits_ne_nil

theorem parseIPv4_field {fields : List UInt8} (hf : fields.length < 3) (b : UInt8)
    {rest : List Char} (hr : rest ≠ []) :
    parseIPv4Loop fields 0 0 true (decimal b.toNat ++ '.' :: rest) =
      parseIPv4Loop (fields ++ [b]) 0 0 true rest := by
  obtain ⟨k, hk⟩ := parseIPv4Loop_decimal (byte_le b) fields ('.' :: rest)
  rw [hk, parseIPv4Loop_dot hf b k hr]

theorem parseIPv4_dotted (a b c d : UInt8) :
    parseIPv4 (dotted [a, b, c, d]) = some [a, b, c, d] := by
  have hne : ∀ (x : UInt8) (l : List Char), decimal x.toNat ++ l ≠ [] := by
    intro x l h
    exact decimal_ne_nil _ (List.append_eq_nil_iff.mp h).1
  obtain ⟨k, hk⟩ := parseIPv4Loop_decimal (byte_le d) [a, b, c] []
  rw [List.append_nil] at hk
  simp only [parseIPv4, dotted, joinBytes]
  rw [parseIPv4_field (by simp) a (hne _ _), parseIPv4_field (by simp) b (hne _ _),
    parseIPv4_field (by simp) c (decimal_ne_nil _)]
  simp only [List.nil_append, List.cons_append]
  rw [hk]
  simp [parseIPv4Loop]

theorem joinBytes_cons_cons (sep : Char) (print : UInt8 → List Char) (a b : UInt8)
    (bs : List UInt8) :
    joinBytes sep print (a :: b :: bs) = print a ++ sep :: joinBytes sep print (b :: bs) := rfl

theorem decimal_isDigit {n : ℕ} {c : Char} (h : c ∈ decimal n) : c.isDigit = true :=
  Nat.isDigit_of_mem_toDigits (by decide) (by decide) h

theorem dotted_chars (bytes : List UInt8) {c : Char} (h : c ∈ dotted bytes) :
    c.isDigit = true ∨ c = '.' := by
  rw [dotted] at h
  induction bytes with
  | nil => simp [joinBytes] at h
  | cons b bs ih =>
    cases bs with
    | nil => exact Or.inl (decimal_isDigit h)
    | cons b' bs =>
      rw [joinBytes_cons_cons, List.mem_append, List.mem_cons] at h
      rcases h with h | h | h
      · exact Or.inl (decimal_isDigit h)
      · exact Or.inr h
      · exact ih h

theorem dotted_not_mem (bytes : List UInt8) {c : Char} (h : c.isDigit = false) (hc : c ≠ '.') :
    c ∉ dotted bytes := by
  intro hm
  rcases dotted_chars bytes hm with hd | hd
  · rw [h] at hd
    exact Bool.false_ne_true hd
  · exact hc hd

theorem parseAddr_dotted (a b c d : UInt8) :
    parseAddr (dotted [a, b, c, d]) = some [a, b, c, d] := by
  have hp : '%' ∉ dotted [a, b, c, d] := dotted_not_mem _ (by decide) (by decide)
  have hfind : (dotted [a, b, c, d]).find? (fun c => c = '.' ∨ c = ':') = some '.' := by
    have hnone : (decimal a.toNat).find? (fun c => c = '.' || c = ':') = none := by
      rw [List.find?_eq_none]
      intro x hx
      have hd := decimal_isDigit hx
      have h1 : x ≠ '.' := by rintro rfl; revert hd; decide
      have h2 : x ≠ ':' := by rintro rfl; revert hd; decide
      simp [h1, h2]
    simp [dotted, joinBytes, List.find?_append, hnone]
  rw [parseAddr, if_neg hp, hfind]
  exact parseIPv4_dotted a b c d

def IsDotted (s : String) : Prop := ∃ a b c d : UInt8, s = String.ofList (dotted [a, b, c, d])

theorem IsDotted.parseIP_eq {s : String} (h : IsDotted s) :
    ∃ a b c d, parseIP s = some (ipv4 a b c d) := by
  obtain ⟨a, b, c, d, rfl⟩ := h
  refine ⟨a, b, c, d, ?_⟩
  rw [parseIP, String.toList_ofList, parseAddr_dotted]
  rfl

theorem IsDotted.to4_ne_none {s : String} (h : IsDotted s) : (parseIP s).bind to4 ≠ none := by
  obtain ⟨a, b, c, d, hp⟩ := h.parseIP_eq
  rw [hp]
  simp [ipv4, to4, v4InV6Prefix]

theorem dtoi_digit {d n i : ℕ} (hd : d < 10) (hn : n * 10 + d < 0xFFFFFF) (rest : List Char) :
    dtoi n i (Nat.digitChar d :: rest) = dtoi (n * 10 + d) (i + 1) rest := by
  have hdig : (Nat.digitChar d).isDigit = true := by simp [hd]
  have hval : (Nat.digitChar d).toNat - '0'.toNat = d := Nat.toNat_digitChar_sub_48_of_lt_ten hd
  rw [dtoi, if_pos hdig, hval, if_neg (by omega)]

theorem dtoi_decimal {m : ℕ} (hm : m < 100) :
    dtoi 0 0 (decimal m) = (m, (decimal m).length, true) := by
  rcases Nat.lt_or_ge m 10 with h | h
  · rw [decimal, Nat.toDigits_of_lt_base h, dtoi_digit h (by omega)]
    simp [dtoi]
  · rw [decimal, Nat.toDigits_of_base_le (by omega) h, Nat.toDigits_of_lt_base (by omega)]
    simp only [List.cons_append, List.nil_append]
    rw [dtoi_digit (by omega) (by omega), dtoi_digit (by omega) (by omega)]
    simp only [dtoi, List.length_cons, List.length_nil]
    rw [if_neg (by omega)]
    congr 1
    omega

/-- The text that `fmt` prints for `%s/%d` of a four-byte address and a number. -/
def cidrText (bytes : List UInt8) (m : ℕ) : String :=
  String.ofList (dotted bytes ++ '/' :: decimal m)

theorem cidrText_toList (bytes : List UInt8) (m : ℕ) :
    (cidrText bytes m).toList = dotted bytes ++ '/' :: decimal m := String.toList_ofList

theorem decimal_length_le {n e : ℕ} (he : 0 < e) (hn : n < 10 ^ e) : (decimal n).length ≤ e :=
  Nat.toDigitsCore_length 10 _ n e he hn

theorem dotted_length_le (a b c d : UInt8) : (dotted [a, b, c, d]).length ≤ 15 := by
  have h : ∀ x : UInt8, (decimal x.toNat).length ≤ 3 := by
    intro x
    have hx := byte_le x
    exact decimal_length_le (by norm_num) (by omega)
  have ha := h a
  have hb := h b
  have hc := h c
  have hd := h d
  simp only [dotted, joinBytes, List.length_append, List.length_cons]
  omega

theorem IsDotted.length_le {s : String} (h : IsDotted s) : s.length ≤ 15 := by
  obtain ⟨a, b, c, d, rfl⟩ := h
  rw [String.length_ofList]
  exact dotted_length_le a b c d

theorem cidrText_length_le (a b c d : UInt8) {m : ℕ} (hm : m ≤ 32) :
    (cidrText [a, b, c, d] m).length ≤ 18 := by
  have h1 := dotted_length_le a b c d
  have h2 : (decimal m).length ≤ 2 := decimal_length_le (by norm_num) (by omega)
  rw [← String.length_toList, cidrText_toList, List.length_append, List.length_cons]
  omega

theorem takeWhile_after {sep : Char} (l : List Char) {r : List Char} (hr : sep ∉ r) :
    ((l ++ sep :: r).reverse.takeWhile (· ≠ sep)).reverse = r := by
  have hall : ∀ x ∈ r.reverse, decide (x ≠ sep) = true := by
    intro x hx
    rw [decide_eq_true_eq]
    intro he
    exact hr (he ▸ List.mem_reverse.mp hx)
  rw [List.reverse_append, List.reverse_cons, List.append_assoc, List.takeWhile_append_of_pos hall]
  simp

theorem append_sep_inj {sep : Char} {l₁ l₂ r₁ r₂ : List Char} (h₁ : sep ∉ r₁) (h₂ : sep ∉ r₂)
    (h : l₁ ++ sep :: r₁ = l₂ ++ sep :: r₂) : r₁ = r₂ := by
  rw [← takeWhile_after l₁ h₁, h, takeWhile_after l₂ h₂]

theorem maskIP_as16 (a b c d : UInt8) {m : IPMask} (hm : m.length = 4) :
    maskIP (as16 [a, b, c, d]) m = List.zipWith (· &&& ·) [a, b, c, d] m := by
  simp [as16, maskIP, v4InV6Prefix, hm]

theorem parseCIDR_cidrText (a b c d : UInt8) {m : ℕ} (hm : m ≤ 32) :
    parseCIDR (cidrText [a, b, c, d] m) =
      .ok (ipv4 a b c d, ⟨List.zipWith (· &&& ·) [a, b, c, d] (cidrMask m 32), cidrMask m 32⟩) := by
  have hs : '/' ∉ dotted [a, b, c, d] := dotted_not_mem _ (by decide) (by decide)
  have hall : ∀ x ∈ dotted [a, b, c, d], decide (x ≠ '/') = true := by
    intro x hx
    simp only [decide_eq_true_eq]
    rintro rfl
    exact hs hx
  have hmask : (cidrMask m 32).length = 4 := by
    interval_cases m <;> rfl
  rw [parseCIDR, cidrText_toList, if_neg (by simp)]
  simp only [List.takeWhile_append_of_pos hall, List.dropWhile_append_of_pos hall]
  simp only [ne_eq, not_true_eq_false, decide_false, Bool.false_eq_true, not_false_eq_true,
    List.takeWhile_cons_of_neg, List.append_nil, List.dropWhile_cons_of_neg, List.drop_succ_cons,
    List.drop_zero, parseAddr_dotted, dtoi_decimal (show m < 100 by omega), List.length_cons,
    List.length_nil]
  rw [if_neg (by simp; omega)]
  exact congrArg (fun ip => Except.ok (_, IPNet.mk ip _)) (maskIP_as16 a b c d hmask)

theorem hexValue_digitChar : ∀ n < 16, hexValue (Nat.digitChar n) = some n := by decide

theorem xtoi2_hexByte {sep : Char} (b : UInt8) {rest : List Char} (h : rest.head?.all (· = sep)) :
    xtoi2 sep (hexByte b ++ rest) = some b := by
  have hb := byte_le b
  have hrest : rest.head?.any (· ≠ sep) = false := by
    cases rest with
    | nil => rfl
    | cons c rest => simpa using h
  simp only [hexByte, List.cons_append, List.nil_append, xtoi2, hrest, Bool.false_eq_true, if_false,
    hexValue_digitChar _ (show b.toNat / 16 < 16 by omega),
    hexValue_digitChar _ (show b.toNat % 16 < 16 by omega), Option.some.injEq]
  rw [Nat.div_add_mod' b.toNat 16, UInt8.ofNat_toNat]

theorem macPairs_joinBytes (sep : Char) (bs : List UInt8) :
    macPairs sep bs.length (joinBytes sep hexByte bs) = some bs := by
  induction bs with
  | nil => rfl
  | cons b bs ih =>
    cases bs with
    | nil =>
      have hb : xtoi2 sep (hexByte b ++ []) = some b := xtoi2_hexByte b rfl
      rw [List.append_nil] at hb
      simp only [List.length_cons, List.length_nil, macPairs, joinBytes, hb]
    | cons b' bs =>
      have hdrop : (hexByte b ++ sep :: joinBytes sep hexByte (b' :: bs)).drop 3 =
          joinBytes sep hexByte (b' :: bs) := rfl
      rw [joinBytes_cons_cons, List.length_cons, macPairs, xtoi2_hexByte b (by simp), hdrop, ih]

theorem parseMAC_hardwareAddrString (a b c d e f : UInt8) :
    parseMAC (hardwareAddrString [a, b, c, d, e, f]) = .ok [a, b, c, d, e, f] := by
  have hlen : (joinBytes ':' hexByte [a, b, c, d, e, f]).length = 17 := rfl
  have hsep : (joinBytes ':' hexByte [a, b, c, d, e, f])[2]? = some ':' := rfl
  have hpairs : macPairs ':' 6 (joinBytes ':' hexByte [a, b, c, d, e, f]) = some _ :=
    macPairs_joinBytes ':' [a, b, c, d, e, f]
  rw [parseMAC, hardwareAddrString, String.toList_ofList]
  simp only [hsep, hlen]
  simp [hpairs, macLength]

end Silk.GoNet
