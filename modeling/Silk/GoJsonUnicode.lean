import Silk.GoJsonText

/-!
# Go strings that hold text

A text is kept in a Go string as its UTF-8 bytes. Those bytes are valid, so the
encoder leaves nothing out and the decoder gives the text back.
-/

namespace Silk.GoJson

def utf8 (s : String) : GoString := s.toList.flatMap fun c => encodeRune c.toNat

def leadBits (a : UInt8) : ℕ :=
  if a < 0x80 then a.toNat
  else if a ≤ 0xdf then a.toNat - 0xc0
  else if a ≤ 0xef then a.toNat - 0xe0
  else a.toNat - 0xf0

def decodeRune : List UInt8 → ℕ
  | [] => 0xfffd
  | a :: rest => rest.foldl (fun v b => 64 * v + (b.toNat - 0x80)) (leadBits a)

/-- The text of a Go string; a byte that starts no sequence is read as the replacement
character. -/
def ofUTF8 (s : GoString) : String :=
  String.ofList ((runes 0 s).map fun r => Char.ofNat (decodeRune (r.getD replacement)))

def IsScalar (v : ℕ) : Prop := v < 0xd800 ∨ 0xdfff < v ∧ v < 0x110000

theorem isScalar_toNat (c : Char) : IsScalar c.toNat := c.valid

theorem isRune_encodeRune {v : ℕ} (hv : IsScalar v) : isRune (encodeRune v) = true := by
  rw [IsScalar] at hv
  rw [encodeRune]
  split_ifs with h1 h2 h3
  · simp [isRune, UInt8.lt_iff_toNat_lt]
    omega
  · simp [isRune, isTail, UInt8.le_iff_toNat_le]
    omega
  · simp [isRune, isTail, UInt8.le_iff_toNat_le, ← UInt8.toNat_inj]
    split_ifs <;> simp <;> omega
  · simp [isRune, isTail, UInt8.le_iff_toNat_le, ← UInt8.toNat_inj]
    split_ifs <;> simp <;> omega

theorem decodeRune_encodeRune {v : ℕ} (hv : IsScalar v) : decodeRune (encodeRune v) = v := by
  rw [IsScalar] at hv
  rw [encodeRune]
  split_ifs with h1 h2 h3
  all_goals
    simp only [decodeRune, leadBits, List.foldl_cons, List.foldl_nil, UInt8.lt_iff_toNat_lt,
      UInt8.le_iff_toNat_le, UInt8.toNat_ofNat']
    split_ifs <;> simp only [UInt8.reduceToNat] at * <;> omega

theorem runes_utf8 (s : String) :
    runes 0 (utf8 s) = s.toList.map fun c => some (encodeRune c.toNat) := by
  rw [utf8]
  induction s.toList with
  | nil => rfl
  | cons c cs ih =>
    rw [List.flatMap_cons, runes_append (isRune_encodeRune (isScalar_toNat c)), ih]
    rfl

theorem validUTF8_utf8 (s : String) : ValidUTF8 (utf8 s) := by
  rw [ValidUTF8, runes_utf8]
  simp

theorem ofUTF8_utf8 (s : String) : ofUTF8 (utf8 s) = s := by
  rw [ofUTF8, runes_utf8, List.map_map]
  have hchar : ∀ c : Char, Char.ofNat (decodeRune (encodeRune c.toNat)) = c := fun c => by
    rw [decodeRune_encodeRune (isScalar_toNat c), Char.ofNat_toNat]
  simp only [Function.comp_def, Option.getD_some, hchar, List.map_id']
  exact String.ofList_toList

theorem utf8_append (s t : String) : utf8 (s ++ t) = utf8 s ++ utf8 t := by
  simp [utf8]

theorem utf8_ascii {s : String} (h : ∀ c ∈ s.toList, c.toNat < 0x80) : utf8 s = ascii s := by
  rw [utf8, ascii]
  generalize s.toList = cs at h
  induction cs with
  | nil => rfl
  | cons c cs ih =>
    rw [List.forall_mem_cons] at h
    rw [List.flatMap_cons, List.map_cons, ih h.2, encodeRune, if_pos h.1]
    rfl

def isPlain (c : Char) : Bool := 0x20 ≤ c.toNat && c ≠ '"' && c ≠ '\\'

def Plain (s : String) : Prop := s.toList.all isPlain = true

theorem feed_encodeRune {c : Char} (h : isPlain c = true) :
    (Quoted.plain none).feed (encodeRune c.toNat) = some (encodeRune c.toNat, .plain none) := by
  have hrune := isRune_encodeRune (isScalar_toNat c)
  simp only [isPlain, Bool.and_eq_true, decide_eq_true_eq] at h
  by_cases hascii : c.toNat < 0x80
  · have hne : ∀ d : Char, c ≠ d → c.toNat ≠ d.toNat := fun d hcd heq => hcd (Char.toNat_inj.mp heq)
    have hquote := hne '"' h.1.2
    have hback := hne '\\' h.2
    have hstep : (Quoted.plain none).step (UInt8.ofNat c.toNat) =
        some ([UInt8.ofNat c.toNat], .plain none) := by
      simp only [Quoted.step, backslash, quote, lone, UInt8.lt_iff_toNat_lt, ← UInt8.toNat_inj,
        UInt8.toNat_ofNat']
      rw [if_neg (by simp at hback ⊢; omega), if_neg (by simp at hquote ⊢; omega)]
      rfl
    rw [encodeRune, if_pos hascii, Quoted.feed, hstep]
    rfl
  · refine feed_high ?_
    rw [encodeRune, if_neg hascii] at hrune ⊢
    split_ifs at hrune ⊢ with h2 h3
    all_goals exact high_of_isRune hrune

theorem unquote_utf8 {s : String} (h : Plain s) :
    (Quoted.plain none).feed (utf8 s) = some (utf8 s, .plain none) ∧
      unquote (utf8 s) = some (utf8 s) := by
  have hfeed : (Quoted.plain none).feed (utf8 s) = some (utf8 s, .plain none) := by
    rw [Plain] at h
    rw [utf8]
    generalize s.toList = cs at h
    induction cs with
    | nil => rfl
    | cons c cs ih =>
      rw [List.all_cons, Bool.and_eq_true] at h
      rw [List.flatMap_cons, Quoted.feed_append (feed_encodeRune h.1), ih h.2]
      rfl
  refine ⟨hfeed, ?_⟩
  rw [unquote, sanitize_eq (validUTF8_utf8 s), hfeed]
  exact congrArg some (List.append_nil _)

end Silk.GoJson
