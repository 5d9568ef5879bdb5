import Mathlib.Data.Nat.Digits.Lemmas
import Silk.GoJsonRecord

/-!
# Integers in the Go `json` package

An integer is printed in decimals without leading zeros. It is read from a number
without fraction and exponent whose value fits into 64 bits.
-/

namespace Silk.GoJson

def digitByte (d : ℕ) : UInt8 := UInt8.ofNat (0x30 + d)

def numeral (n : ℕ) : List UInt8 :=
  if n = 0 then [0x30] else (Nat.digits 10 n).reverse.map digitByte

def appendInt (n : ℤ) : List UInt8 := if n < 0 then 0x2d :: numeral n.natAbs else numeral n.natAbs

def digitsValue (digits : List UInt8) : ℕ :=
  digits.foldl (fun n c => n * 10 + (c.toNat - 0x30)) 0

def FitsInt64 (n : ℤ) : Prop := -2 ^ 63 ≤ n ∧ n < 2 ^ 63

instance (n : ℤ) : Decidable (FitsInt64 n) := inferInstanceAs (Decidable (_ ∧ _))

/-- `strconv.ParseInt` with base 10 and 64 bits, of a number that needs no plus sign. -/
def parseInt (lit : List UInt8) : Option ℤ :=
  let negative := lit.head? = some 0x2d
  let digits := if negative then lit.tail else lit
  let n : ℤ := if negative then -digitsValue digits else digitsValue digits
  if digits ≠ [] ∧ digits.all NumberState.isDigit ∧ FitsInt64 n then some n else none

section Decimal

theorem digitByte_toNat {d : ℕ} (h : d < 10) : (digitByte d).toNat = 0x30 + d := by
  rw [digitByte, UInt8.toNat_ofNat', Nat.mod_eq_of_lt (by omega)]

theorem isDigit_digitByte {d : ℕ} (h : d < 10) : NumberState.isDigit (digitByte d) = true := by
  simp only [NumberState.isDigit, Bool.and_eq_true, decide_eq_true_eq, UInt8.le_iff_toNat_le,
    digitByte_toNat h]
  constructor
  · exact Nat.le_add_right _ _
  · change 0x30 + d ≤ 0x39
    omega

theorem isDigit_of_mem_numeral {n : ℕ} {c : UInt8} (h : c ∈ numeral n) :
    NumberState.isDigit c = true := by
  rw [numeral] at h
  split_ifs at h
  · rw [List.mem_singleton.mp h]
    rfl
  · obtain ⟨d, hd, rfl⟩ := List.mem_map.mp h
    exact isDigit_digitByte (Nat.digits_lt_base (by decide) (List.mem_reverse.mp hd))

theorem numeral_cases (n : ℕ) : numeral n = [0x30] ∨
    ∃ c rest, numeral n = c :: rest ∧ c ≠ 0x30 ∧ NumberState.isDigit c = true := by
  by_cases hn : n = 0
  · rw [numeral, if_pos hn]
    exact Or.inl rfl
  · right
    have hne : Nat.digits 10 n ≠ [] := Nat.digits_ne_nil_iff_ne_zero.mpr hn
    have hlast : (Nat.digits 10 n).getLast hne < 10 :=
      Nat.digits_lt_base (by decide) (List.getLast_mem hne)
    have hpos := Nat.getLast_digit_ne_zero 10 hn
    refine ⟨digitByte ((Nat.digits 10 n).getLast hne),
      (Nat.digits 10 n).dropLast.reverse.map digitByte, ?_, ?_, isDigit_digitByte hlast⟩
    · rw [numeral, if_neg hn]
      conv_lhs => rw [← List.dropLast_append_getLast hne]
      rw [List.reverse_append, List.map_append]
      rfl
    · intro hzero
      have hnat := congrArg UInt8.toNat hzero
      rw [digitByte_toNat hlast] at hnat
      change 0x30 + (Nat.digits 10 n).getLast hne = 0x30 at hnat
      omega

theorem digitsValue_digits {ds : List ℕ} (h : ∀ d ∈ ds, d < 10) :
    digitsValue (ds.reverse.map digitByte) = Nat.ofDigits 10 ds := by
  induction ds with
  | nil => rfl
  | cons d ds ih =>
    obtain ⟨hd, hds⟩ := List.forall_mem_cons.mp h
    have ih := ih hds
    rw [digitsValue] at ih ⊢
    rw [List.reverse_cons, List.map_append, List.foldl_append, ih, List.map_singleton,
      List.foldl_cons, List.foldl_nil, digitByte_toNat hd, Nat.ofDigits_cons]
    omega

theorem digitsValue_numeral (n : ℕ) : digitsValue (numeral n) = n := by
  rw [numeral]
  split_ifs with hn
  · rw [hn]
    rfl
  · rw [digitsValue_digits fun d hd => Nat.digits_lt_base (by decide) hd, Nat.ofDigits_digits]

theorem foldlM_digits {ds : List UInt8} (h : ∀ c ∈ ds, NumberState.isDigit c = true) :
    ds.foldlM NumberState.step .digits = some .digits := by
  induction ds with
  | nil => rfl
  | cons c ds ih =>
    obtain ⟨hc, hds⟩ := List.forall_mem_cons.mp h
    rw [List.foldlM_cons, NumberState.step, if_pos hc]
    exact ih hds

theorem foldlM_numeral {s : NumberState} (h : ∀ b, NumberState.isDigit b = true →
    s.step b = NumberState.leadingDigit b) (n : ℕ) :
    ((numeral n).foldlM NumberState.step s).any (·.accepts) = true := by
  rcases numeral_cases n with hzero | ⟨c, rest, hcons, hne, hdigit⟩
  · rw [hzero, List.foldlM_cons, h _ rfl]
    rfl
  · have hrest : ∀ b ∈ rest, NumberState.isDigit b = true := fun b hb =>
      isDigit_of_mem_numeral (hcons ▸ List.mem_cons_of_mem c hb)
    rw [hcons, List.foldlM_cons, h c hdigit, NumberState.leadingDigit, if_neg hne, if_pos hdigit]
    change ((rest.foldlM NumberState.step .digits).any (·.accepts)) = true
    rw [foldlM_digits hrest]
    rfl

end Decimal

theorem isNumber_appendInt (n : ℤ) : isNumber (appendInt n) = true := by
  rw [isNumber, appendInt]
  split_ifs
  · rw [List.foldlM_cons]
    exact foldlM_numeral (s := .minus) (fun _ _ => rfl) _
  · refine foldlM_numeral (s := .start) (fun b hb => ?_) _
    rw [NumberState.step, if_neg]
    rintro rfl
    cases hb

/-- What was printed is read back, unless it does not fit. -/
theorem parseInt_appendInt (n : ℤ) :
    parseInt (appendInt n) = if FitsInt64 n then some n else none := by
  have hnil : numeral n.natAbs ≠ [] := by
    rcases numeral_cases n.natAbs with hzero | ⟨c, rest, hcons, -⟩
    · rw [hzero]
      exact List.cons_ne_nil _ _
    · rw [hcons]
      exact List.cons_ne_nil _ _
  have hall : (numeral n.natAbs).all NumberState.isDigit = true :=
    List.all_eq_true.mpr fun c hc => isDigit_of_mem_numeral hc
  by_cases hneg : n < 0
  · have hvalue : -((digitsValue (numeral n.natAbs) : ℕ) : ℤ) = n := by
      rw [digitsValue_numeral]
      omega
    rw [appendInt, if_pos hneg, parseInt]
    simp only [List.head?_cons, if_true, List.tail_cons, hvalue, hnil, hall, ne_eq,
      not_false_eq_true, true_and]
  · have hhead : (numeral n.natAbs).head? ≠ some 0x2d := by
      intro hhead
      have hdigit := isDigit_of_mem_numeral (List.mem_of_head? hhead)
      cases hdigit
    have hvalue : ((digitsValue (numeral n.natAbs) : ℕ) : ℤ) = n := by
      rw [digitsValue_numeral]
      omega
    rw [appendInt, if_neg hneg, parseInt]
    simp only [if_neg hhead, hvalue, hnil, hall, ne_eq, not_false_eq_true, true_and]

def Field.int {α : Type} (name : String) (get : α → ℤ) (put : ℤ → α → α) : Field α where
  name := ascii name
  get x := .number ⟨appendInt (get x), isNumber_appendInt _⟩
  set
    | .number n, x => (parseInt n.1).map fun v => put v x
    | .null, x => some x
    | _, _ => none

example : appendInt (-1450) = ascii "-1450" := by decide

end Silk.GoJson
