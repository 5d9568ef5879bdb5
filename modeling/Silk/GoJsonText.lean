import Mathlib.Data.Nat.Notation
import Mathlib.Data.List.Basic
import Mathlib.Order.Defs.LinearOrder

/-!
# Strings in the Go `json` package

A Go string is a sequence of bytes. The encoder walks over its UTF-8 sequences
and escapes quotes, control characters, the HTML characters and the two line
separators; a byte that starts no sequence becomes the replacement character.
The decoder undoes the escapes. On valid UTF-8 it gives the string back.
-/

namespace Silk.GoJson

abbrev GoString := List UInt8

instance instLinearOrderUInt8 : LinearOrder UInt8 where
  le_refl := UInt8.le_refl
  le_trans _ _ _ := UInt8.le_trans
  le_antisymm _ _ := UInt8.le_antisymm
  le_total := UInt8.le_total
  lt_iff_le_not_ge a b := by
    rw [UInt8.not_le]
    exact ⟨fun h => ⟨UInt8.le_of_lt h, h⟩, And.right⟩
  toDecidableLE := inferInstance
  toDecidableLT := inferInstance
  toDecidableEq := inferInstance

def ascii (s : String) : GoString := s.toList.map fun c => UInt8.ofNat c.toNat

def quote : UInt8 := 0x22
def backslash : UInt8 := 0x5c
def replacement : List UInt8 := [0xef, 0xbf, 0xbd]

def isTail (b : UInt8) : Bool := 0x80 ≤ b && b ≤ 0xbf

def isRune : List UInt8 → Bool
  | [a] => a < 0x80
  | [a, b] => 0xc2 ≤ a && a ≤ 0xdf && isTail b
  | [a, b, c] =>
    0xe0 ≤ a && a ≤ 0xef && (if a = 0xe0 then 0xa0 else 0x80) ≤ b &&
      b ≤ (if a = 0xed then 0x9f else 0xbf) && isTail c
  | [a, b, c, d] =>
    0xf0 ≤ a && a ≤ 0xf4 && (if a = 0xf0 then 0x90 else 0x80) ≤ b &&
      b ≤ (if a = 0xf4 then 0x8f else 0xbf) && isTail c && isTail d
  | _ => false

def firstRune (s : List UInt8) : Option (List UInt8) := ([1, 2, 3, 4].map s.take).find? isRune

/-- The sequences of a text; `none` stands for a byte that starts none. The first argument counts
the bytes that belong to the sequence before. -/
def runes : ℕ → List UInt8 → List (Option (List UInt8))
  | _, [] => []
  | skip + 1, _ :: rest => runes skip rest
  | 0, b :: rest =>
    match firstRune (b :: rest) with
    | some r => some r :: runes (r.length - 1) rest
    | none => none :: runes 0 rest

def ValidUTF8 (s : GoString) : Prop := none ∉ runes 0 s

instance (s : GoString) : Decidable (ValidUTF8 s) := inferInstanceAs (Decidable (¬ _))

def sanitize (s : GoString) : GoString := (runes 0 s).flatMap fun r => r.getD replacement

theorem firstRune_spec {s r : List UInt8} (h : firstRune s = some r) :
    isRune r = true ∧ r <+: s := by
  refine ⟨List.find?_some h, ?_⟩
  obtain ⟨n, -, rfl⟩ := List.mem_map.mp (List.mem_of_find?_eq_some h)
  exact List.take_prefix n s

def leadLength (a : UInt8) : ℕ :=
  if a < 0x80 then 1 else if a ≤ 0xdf then 2 else if a ≤ 0xef then 3 else 4

theorem length_of_isRune {a : UInt8} {r : List UInt8} (h : isRune (a :: r) = true) :
    (a :: r).length = leadLength a := by
  unfold isRune at h
  split at h
  all_goals grind [leadLength]

theorem firstRune_append {r : List UInt8} (h : isRune r = true) (t : List UInt8) :
    firstRune (r ++ t) = some r := by
  cases r with
  | nil => cases h
  | cons a r =>
    have hlen := length_of_isRune h
    cases hfirst : firstRune (a :: r ++ t) with
    | none =>
      have hmem : a :: r ∈ [1, 2, 3, 4].map (a :: r ++ t).take := by
        refine List.mem_map.mpr ⟨(a :: r).length, ?_, List.take_left⟩
        rw [hlen, leadLength]
        grind
      exact absurd h (List.find?_eq_none.mp hfirst _ hmem)
    | some r' =>
      obtain ⟨hr', hpre⟩ := firstRune_spec hfirst
      cases r' with
      | nil => cases hr'
      | cons b r' =>
        obtain rfl : b = a := (List.cons_prefix_cons.mp hpre).1
        have hlen' := length_of_isRune hr'
        have hle := List.prefix_of_prefix_length_le hpre (List.prefix_append _ t) (by omega)
        rw [hle.eq_of_length (by omega)]

theorem runes_skip (r t : List UInt8) : runes r.length (r ++ t) = runes 0 t := by
  induction r with
  | nil => rfl
  | cons b r ih => exact ih

theorem runes_append {r : List UInt8} (h : isRune r = true) (t : List UInt8) :
    runes 0 (r ++ t) = some r :: runes 0 t := by
  have hfirst := firstRune_append h t
  cases r with
  | nil => cases h
  | cons b r =>
    rw [List.cons_append] at hfirst ⊢
    rw [runes, hfirst]
    exact congrArg _ (runes_skip r t)

theorem isRune_of_mem_runes {k : ℕ} {s r : List UInt8} (h : some r ∈ runes k s) :
    isRune r = true := by
  induction s generalizing k with
  | nil => simp [runes] at h
  | cons b rest ih =>
    cases k with
    | succ k => exact ih h
    | zero =>
      rw [runes] at h
      split at h
      · rename_i r' hr'
        rcases List.mem_cons.mp h with h | h
        · cases h
          exact (firstRune_spec hr').1
        · exact ih h
      · exact ih (List.mem_of_ne_of_mem (by simp) h)

theorem flatMap_runes {k : ℕ} {s : List UInt8} (h : none ∉ runes k s) :
    ((runes k s).flatMap fun r => r.getD replacement) = s.drop k := by
  induction s generalizing k with
  | nil => simp [runes]
  | cons b rest ih =>
    cases k with
    | succ k => exact ih h
    | zero =>
      rw [runes] at h ⊢
      split at h
      · rename_i r hr
        obtain ⟨hrune, t, ht⟩ := firstRune_spec hr
        rw [List.mem_cons, not_or] at h
        rw [List.flatMap_cons, ih h.2]
        cases r with
        | nil => cases hrune
        | cons c r =>
          injection ht with hc ht
          simp [hc, ← ht]
      · exact absurd List.mem_cons_self h

theorem sanitize_eq {s : GoString} (h : ValidUTF8 s) : sanitize s = s := flatMap_runes h

theorem ValidUTF8.append_rune {r : List UInt8} (hr : isRune r = true) {t : GoString}
    (ht : ValidUTF8 t) : ValidUTF8 (r ++ t) := by
  rw [ValidUTF8, runes_append hr, List.mem_cons, not_or]
  exact ⟨nofun, ht⟩

theorem ValidUTF8.append_ascii {l : List UInt8} (hl : ∀ b ∈ l, b < 0x80) {t : GoString}
    (ht : ValidUTF8 t) : ValidUTF8 (l ++ t) := by
  induction l with
  | nil => exact ht
  | cons b l ih =>
    have hb : isRune [b] = true := by simpa [isRune] using hl b List.mem_cons_self
    exact (ih fun c hc => hl c (List.mem_cons_of_mem b hc)).append_rune hb

def encodeRune (v : ℕ) : List UInt8 :=
  if v < 0x80 then [UInt8.ofNat v]
  else if v < 0x800 then [UInt8.ofNat (0xc0 + v / 64), UInt8.ofNat (0x80 + v % 64)]
  else if v < 0x10000 then
    [UInt8.ofNat (0xe0 + v / 4096), UInt8.ofNat (0x80 + v / 64 % 64), UInt8.ofNat (0x80 + v % 64)]
  else
    [UInt8.ofNat (0xf0 + v / 262144), UInt8.ofNat (0x80 + v / 4096 % 64),
      UInt8.ofNat (0x80 + v / 64 % 64), UInt8.ofNat (0x80 + v % 64)]

def hexLower (n : ℕ) : UInt8 := UInt8.ofNat (if n < 10 then 0x30 + n else 0x61 + (n - 10))

def hexDigit (b : UInt8) : Option ℕ :=
  if 0x30 ≤ b ∧ b ≤ 0x39 then some (b.toNat - 0x30)
  else if 0x61 ≤ b ∧ b ≤ 0x66 then some (b.toNat - 0x61 + 10)
  else if 0x41 ≤ b ∧ b ≤ 0x46 then some (b.toNat - 0x41 + 10)
  else none

def unicodeEscape (v : ℕ) : List UInt8 :=
  [backslash, 0x75, hexLower (v / 4096 % 16), hexLower (v / 256 % 16), hexLower (v / 16 % 16),
    hexLower (v % 16)]

def escapeASCII (b : UInt8) : List UInt8 :=
  if b = quote ∨ b = backslash then [backslash, b]
  else if b = 0x0a then [backslash, 0x6e]
  else if b = 0x0d then [backslash, 0x72]
  else if b = 0x09 then [backslash, 0x74]
  else if b < 0x20 ∨ b = 0x3c ∨ b = 0x3e ∨ b = 0x26 then unicodeEscape b.toNat
  else [b]

def escapeRune : Option (List UInt8) → List UInt8
  | none => unicodeEscape 0xfffd
  | some [b] => escapeASCII b
  | some r =>
    if r = [0xe2, 0x80, 0xa8] then unicodeEscape 0x2028
    else if r = [0xe2, 0x80, 0xa9] then unicodeEscape 0x2029
    else r

def escape (s : GoString) : List UInt8 := (runes 0 s).flatMap escapeRune

def simpleEscape (b : UInt8) : Option UInt8 :=
  if b = quote ∨ b = backslash ∨ b = 0x2f then some b
  else if b = 0x62 then some 0x08
  else if b = 0x66 then some 0x0c
  else if b = 0x6e then some 0x0a
  else if b = 0x72 then some 0x0d
  else if b = 0x74 then some 0x09
  else none

def lone (high : Option ℕ) : List UInt8 := if high = none then [] else replacement

/-- What an escaped code unit adds, given the high surrogate before it, and the high surrogate
it leaves open. -/
def codeUnit (high : Option ℕ) (v : ℕ) : List UInt8 × Option ℕ :=
  if 0xdc00 ≤ v ∧ v < 0xe000 then
    match high with
    | some h => (encodeRune (0x10000 + (h - 0xd800) * 1024 + (v - 0xdc00)), none)
    | none => (replacement, none)
  else if 0xd800 ≤ v ∧ v < 0xdc00 then (lone high, some v)
  else (lone high ++ encodeRune v, none)

inductive Quoted where
  | plain (high : Option ℕ)
  | escaped (high : Option ℕ)
  | hex (left value : ℕ) (high : Option ℕ)

namespace Quoted

def step : Quoted → UInt8 → Option (List UInt8 × Quoted)
  | .plain high, b =>
    if b = backslash then some ([], .escaped high)
    else if b < 0x20 ∨ b = quote then none
    else some (lone high ++ [b], .plain none)
  | .escaped high, b =>
    if b = 0x75 then some ([], .hex 3 0 high)
    else (simpleEscape b).map fun c => (lone high ++ [c], .plain none)
  | .hex left value high, b =>
    (hexDigit b).map fun d =>
      match left with
      | 0 => ((codeUnit high (value * 16 + d)).1, .plain (codeUnit high (value * 16 + d)).2)
      | left + 1 => ([], .hex left (value * 16 + d) high)

def feed (q : Quoted) : List UInt8 → Option (List UInt8 × Quoted)
  | [] => some ([], q)
  | b :: rest =>
    (q.step b).bind fun first => (first.2.feed rest).map fun last => (first.1 ++ last.1, last.2)

def finish : List UInt8 × Quoted → Option GoString
  | (s, .plain high) => some (s ++ lone high)
  | _ => none

theorem feed_append {q q' : Quoted} {l s : List UInt8} (h : q.feed l = some (s, q'))
    (t : List UInt8) :
    q.feed (l ++ t) = (q'.feed t).map fun last => (s ++ last.1, last.2) := by
  induction l generalizing q s with
  | nil =>
    cases h
    simp
  | cons b l ih =>
    obtain ⟨⟨o, q₁⟩, hstep, h⟩ := Option.bind_eq_some_iff.mp h
    obtain ⟨⟨s₁, q₂⟩, hfeed, h⟩ := Option.map_eq_some_iff.mp h
    cases h
    rw [List.cons_append, feed, hstep, Option.bind_some, ih hfeed, Option.map_map]
    simp [Function.comp_def]

end Quoted

def unquote (raw : List UInt8) : Option GoString :=
  ((Quoted.plain none).feed (sanitize raw)).bind Quoted.finish

theorem hexLower_ascii : ∀ n < 16, hexLower n < 0x80 := by decide

theorem hexDigit_hexLower : ∀ n < 16, hexDigit (hexLower n) = some n := by decide

theorem ascii_unicodeEscape (v : ℕ) : ∀ b ∈ unicodeEscape v, b < 0x80 := by
  intro b hb
  simp only [unicodeEscape, List.mem_cons, List.not_mem_nil, or_false] at hb
  rcases hb with rfl | rfl | rfl | rfl | rfl | rfl
  · decide
  · decide
  all_goals exact hexLower_ascii _ (Nat.mod_lt _ (by decide))

theorem feed_unicodeEscape {v : ℕ} (hv : v < 0xd800 ∨ 0xe000 ≤ v) (hlt : v < 0x10000) :
    (Quoted.plain none).feed (unicodeEscape v) = some (encodeRune v, .plain none) := by
  have hdigit : ∀ n, hexDigit (hexLower (n % 16)) = some (n % 16) := fun n =>
    hexDigit_hexLower _ (Nat.mod_lt n (by decide))
  have hvalue :
      ((v / 4096 % 16 * 16 + v / 256 % 16) * 16 + v / 16 % 16) * 16 + v % 16 = v := by omega
  have hunit : codeUnit none v = (encodeRune v, none) := by
    rw [codeUnit, if_neg (by omega), if_neg (by omega)]
    rfl
  simp [unicodeEscape, Quoted.feed, Quoted.step, hdigit, hvalue, hunit]

theorem ascii_escapeASCII {b : UInt8} (hb : b < 0x80) : ∀ c ∈ escapeASCII b, c < 0x80 := by
  rw [escapeASCII]
  split_ifs
  · simp [backslash, hb]
  · simp [backslash]
  · simp [backslash]
  · simp [backslash]
  · exact ascii_unicodeEscape _
  · simpa using hb

theorem feed_escapeASCII {b : UInt8} (hb : b < 0x80) :
    (Quoted.plain none).feed (escapeASCII b) = some ([b], .plain none) := by
  have hlt : b.toNat < 0x80 := UInt8.lt_iff_toNat_lt.mp hb
  rw [escapeASCII]
  split_ifs with hq hn hr ht hc
  · rcases hq with rfl | rfl
    · rfl
    · rfl
  · rw [hn]
    rfl
  · rw [hr]
    rfl
  · rw [ht]
    rfl
  · rw [feed_unicodeEscape (by omega) (by omega), encodeRune, if_pos hlt, UInt8.ofNat_toNat]
  · rw [not_or] at hq hc
    simp [Quoted.feed, Quoted.step, hq, hc.1, lone]

theorem high_of_isRune {a b : UInt8} {r : List UInt8} (h : isRune (a :: b :: r) = true) :
    ∀ c ∈ a :: b :: r, 0x80 ≤ c := by
  unfold isRune at h
  split at h
  all_goals grind [isTail]

theorem feed_high {r : List UInt8} (h : ∀ c ∈ r, 0x80 ≤ c) :
    (Quoted.plain none).feed r = some (r, .plain none) := by
  induction r with
  | nil => rfl
  | cons c r ih =>
    have hc := h c List.mem_cons_self
    have hstep : (Quoted.plain none).step c = some ([c], .plain none) := by
      grind [Quoted.step, backslash, quote, lone]
    rw [Quoted.feed, hstep, Option.bind_some, ih fun d hd => h d (List.mem_cons_of_mem c hd)]
    rfl

theorem escapeRune_cases {r : List UInt8} (h : isRune r = true) :
    (∃ b, r = [b] ∧ b < 0x80 ∧ escapeRune (some r) = escapeASCII b) ∨
      (∃ v, r = encodeRune v ∧ v < 0xd800 ∧ escapeRune (some r) = unicodeEscape v) ∨
      (∀ c ∈ r, 0x80 ≤ c) ∧ escapeRune (some r) = r := by
  cases r with
  | nil => cases h
  | cons a r =>
    cases r with
    | nil => exact Or.inl ⟨a, rfl, by simpa [isRune] using h, rfl⟩
    | cons b r =>
      right
      rw [escapeRune]
      split_ifs with h₁ h₂
      · exact Or.inl ⟨0x2028, h₁, by decide, rfl⟩
      · exact Or.inl ⟨0x2029, h₂, by decide, rfl⟩
      · exact Or.inr ⟨high_of_isRune h, rfl⟩
      · exact nofun

section Escape

variable {rs : List (Option (List UInt8))} (hrs : ∀ r, some r ∈ rs → isRune r = true)
include hrs

theorem valid_escapeRunes : ValidUTF8 (rs.flatMap escapeRune) := by
  induction rs with
  | nil => exact nofun
  | cons x rs ih =>
    have hrest := ih fun r hr => hrs r (List.mem_cons_of_mem x hr)
    rw [List.flatMap_cons]
    cases x with
    | none => exact hrest.append_ascii (ascii_unicodeEscape _)
    | some r =>
      have hr := hrs r List.mem_cons_self
      rcases escapeRune_cases hr with ⟨b, -, hb, he⟩ | ⟨v, -, -, he⟩ | ⟨-, he⟩
      · rw [he]
        exact hrest.append_ascii (ascii_escapeASCII hb)
      · rw [he]
        exact hrest.append_ascii (ascii_unicodeEscape v)
      · rw [he]
        exact hrest.append_rune hr

theorem feed_escapeRunes : (Quoted.plain none).feed (rs.flatMap escapeRune) =
    some (rs.flatMap fun r => r.getD replacement, .plain none) := by
  induction rs with
  | nil => rfl
  | cons x rs ih =>
    have hx : (Quoted.plain none).feed (escapeRune x) =
        some (x.getD replacement, .plain none) := by
      cases x with
      | none => exact feed_unicodeEscape (by decide) (by decide)
      | some r =>
        rcases escapeRune_cases (hrs r List.mem_cons_self) with
          ⟨b, rfl, hb, he⟩ | ⟨v, rfl, hv, he⟩ | ⟨hhigh, he⟩
        · rw [he]
          exact feed_escapeASCII hb
        · rw [he]
          exact feed_unicodeEscape (Or.inl hv) (by omega)
        · rw [he]
          exact feed_high hhigh
    rw [List.flatMap_cons, Quoted.feed_append hx, ih fun r hr => hrs r (List.mem_cons_of_mem x hr)]
    rfl

end Escape

theorem feed_escape (s : GoString) :
    (Quoted.plain none).feed (escape s) = some (sanitize s, .plain none) :=
  feed_escapeRunes fun _ => isRune_of_mem_runes

/-- Reading back what was written replaces the bytes that are not UTF-8, and nothing else. -/
theorem unquote_escape (s : GoString) : unquote (escape s) = some (sanitize s) := by
  have hvalid : ValidUTF8 (escape s) := valid_escapeRunes fun _ => isRune_of_mem_runes
  rw [unquote, sanitize_eq hvalid, feed_escape]
  exact congrArg some (List.append_nil _)

example : unquote (escape [0x3c, 0x0a, 0xc3, 0xa9, 0xff]) =
    some [0x3c, 0x0a, 0xc3, 0xa9, 0xef, 0xbf, 0xbd] := by decide

end Silk.GoJson
