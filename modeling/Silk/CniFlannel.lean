import Mathlib.Algebra.Order.Ring.Nat
import Mathlib.Data.List.Induction
import Silk.GoJsonText
import Silk.Lines

/-!
# The flannel subnet file

`Flannel.Get` searches the whole file for two unanchored patterns. Each finds
the longest value behind the first key that has a value of the right form, be
this key at the start of a line or not and be the value at the end of its line
or not.
-/

namespace Silk.Cni

open GoJson RegExp

structure NetworkInfo where
  overlaySubnet : GoString
  mtu : ℤ
deriving DecidableEq

def isDigit (c : UInt8) : Bool := 0x30 ≤ c && c ≤ 0x39

namespace Flannel

def subnetKey : GoString := ascii "FLANNEL_SUBNET="
def mtuKey : GoString := ascii "FLANNEL_MTU="

/-- `(?:[0-9]{1,3}\.){3}[0-9]{1,3}/[0-9]{1,2}` -/
def subnetValue : RegExp UInt8 :=
  .seq (.times 3 0 (.seq (.times 1 2 (.one isDigit)) (lit (ascii "."))))
    (.seq (.times 1 2 (.one isDigit)) (.seq (lit (ascii "/")) (.times 1 1 (.one isDigit))))

/-- `[0-9]{1,5}` -/
def mtuValue : RegExp UInt8 := .times 1 4 (.one isDigit)

def flannelSubnetRegex : RegExp UInt8 := .seq (lit subnetKey) (.group subnetValue)
def flannelMTURegex : RegExp UInt8 := .seq (lit mtuKey) (.group mtuValue)

def numeralValue (digits : GoString) : ℕ := digits.foldl (fun n c => n * 10 + (c.toNat - 0x30)) 0

def numError (s : GoString) (err : String) : GoString :=
  ascii "strconv.Atoi: parsing \"" ++ s ++ ascii "\": " ++ ascii err

def atoi (s : GoString) : Except GoString ℤ :=
  let negative := s.head? = some 0x2d
  let digits := if negative ∨ s.head? = some 0x2b then s.tail else s
  let n : ℤ := if negative then -numeralValue digits else numeralValue digits
  if digits = [] ∨ digits.any (fun c => !isDigit c) then .error (numError s "invalid syntax")
  else if n < -2 ^ 63 ∨ 2 ^ 63 ≤ n then .error (numError s "value out of range")
  else .ok n

/-- `Get` behind the reading of the file. -/
def get (fileContents : GoString) : Except GoString NetworkInfo :=
  match flannelSubnetRegex.findSubmatch fileContents with
  | none => .error (ascii "unable to parse flannel subnet file")
  | some subnet =>
    match flannelMTURegex.findSubmatch fileContents with
    | none => .error (ascii "unable to parse MTU from subnet file")
    | some digits =>
      match atoi digits with
      | .error err => .error err
      | .ok mtu => .ok ⟨subnet, mtu⟩

def Digits (least most : ℕ) (t : GoString) : Prop :=
  least ≤ t.length ∧ t.length ≤ most ∧ ∀ c ∈ t, isDigit c = true

def SubnetForm (t : GoString) : Prop :=
  ∃ a b c d e, Digits 1 3 a ∧ Digits 1 3 b ∧ Digits 1 3 c ∧ Digits 1 3 d ∧ Digits 1 2 e ∧
    t = a ++ ascii "." ++ b ++ ascii "." ++ c ++ ascii "." ++ d ++ ascii "/" ++ e

def Entry (key : GoString) (form : GoString → Prop) (t : GoString) : Prop :=
  ∃ u, t = key ++ u ∧ form u

/-- The longest value of a form behind the first key that has such a value. -/
def FirstValue (key : GoString) (form : GoString → Prop) (fileContents value : GoString) : Prop :=
  FirstLongest (Entry key form) fileContents (key ++ value)

theorem FirstValue.form_value {key : GoString} {form : GoString → Prop}
    {fileContents value : GoString} (h : FirstValue key form fileContents value) : form value := by
  obtain ⟨before, after, hfound⟩ := h
  obtain ⟨u, heq, hu⟩ := hfound.taken
  rwa [List.append_cancel_left heq]

theorem accepts_digits {least more : ℕ} {t : GoString} {g : Option GoString} :
    (times least more (one isDigit)).Accepts t g ↔ Digits least (least + more) t ∧ g = none :=
  accepts_run

theorem accepts_dotted {t : GoString} {g : Option GoString} :
    (RegExp.seq (.times 1 2 (.one isDigit)) (lit (ascii "."))).Accepts t g ↔
      (∃ u, Digits 1 3 u ∧ t = u ++ ascii ".") ∧ g = none := by
  rw [Accepts]
  constructor
  · rintro ⟨u, _, _, _, hu, hdot, rfl, rfl⟩
    obtain ⟨hdigits, rfl⟩ := accepts_digits.mp hu
    obtain ⟨rfl, rfl⟩ := accepts_lit.mp hdot
    exact ⟨⟨u, hdigits, rfl⟩, rfl⟩
  · rintro ⟨⟨u, hu, rfl⟩, rfl⟩
    exact ⟨u, none, ascii ".", none, accepts_digits.mpr ⟨hu, rfl⟩, accepts_lit.mpr ⟨rfl, rfl⟩,
      rfl, rfl⟩

theorem accepts_three {r : RegExp UInt8} {t : GoString} :
    (∃ g, (times 3 0 r).Accepts t g) ↔
      ∃ x y z g₁ g₂ g₃, r.Accepts x g₁ ∧ r.Accepts y g₂ ∧ r.Accepts z g₃ ∧ t = x ++ y ++ z := by
  constructor
  · rintro ⟨_, n, hle, hge, hpow⟩
    obtain rfl : n = 3 := by omega
    obtain ⟨x, g₁, _, _, hx, ⟨y, g₂, _, _, hy, ⟨z, g₃, _, _, hz, ⟨rfl, rfl⟩, rfl, -⟩, rfl, -⟩,
      rfl, -⟩ := hpow
    exact ⟨x, y, z, g₁, g₂, g₃, hx, hy, hz, by simp⟩
  · rintro ⟨x, y, z, g₁, g₂, g₃, hx, hy, hz, rfl⟩
    exact ⟨_, 3, le_rfl, le_rfl, x, g₁, _, _, hx, ⟨y, g₂, _, _, hy, ⟨z, g₃, [], none, hz,
      ⟨rfl, rfl⟩, rfl, rfl⟩, rfl, rfl⟩, by simp, rfl⟩

theorem accepts_subnetValue {t : GoString} : (∃ g, subnetValue.Accepts t g) ↔ SubnetForm t := by
  constructor
  · rintro ⟨_, x, g, _, _, hx, ⟨d, _, _, _, hd, ⟨_, _, e, _, hslash, he, rfl, rfl⟩, rfl, rfl⟩,
      rfl, rfl⟩
    obtain ⟨_, _, _, _, _, _, hfirst, hsecond, hthird, rfl⟩ := accepts_three.mp ⟨g, hx⟩
    obtain ⟨⟨a, ha, rfl⟩, -⟩ := accepts_dotted.mp hfirst
    obtain ⟨⟨b, hb, rfl⟩, -⟩ := accepts_dotted.mp hsecond
    obtain ⟨⟨c, hc, rfl⟩, -⟩ := accepts_dotted.mp hthird
    obtain ⟨rfl, -⟩ := accepts_lit.mp hslash
    exact ⟨a, b, c, d, e, ha, hb, hc, (accepts_digits.mp hd).1, (accepts_digits.mp he).1,
      by simp⟩
  · rintro ⟨a, b, c, d, e, ha, hb, hc, hd, he, rfl⟩
    obtain ⟨g, hg⟩ := accepts_three.mpr ⟨_, _, _, none, none, none,
      accepts_dotted.mpr ⟨⟨a, ha, rfl⟩, rfl⟩, accepts_dotted.mpr ⟨⟨b, hb, rfl⟩, rfl⟩,
      accepts_dotted.mpr ⟨⟨c, hc, rfl⟩, rfl⟩, rfl⟩
    exact ⟨_, _, g, _, _, hg, ⟨d, none, _, _, accepts_digits.mpr ⟨hd, rfl⟩,
      ⟨ascii "/", none, e, none, accepts_lit.mpr ⟨rfl, rfl⟩,
        accepts_digits.mpr ⟨he, rfl⟩, rfl, rfl⟩,
      rfl, rfl⟩, by simp, rfl⟩

theorem longest_subnetValue : subnetValue.Longest := by
  have hdotted : (RegExp.seq (.times 1 2 (.one isDigit)) (lit (ascii "."))).Deterministic :=
    .seq (forcedBy_delimiter (.lit 0x2e []) (by decide) 1 2) (.lit _)
  have hslash : (times 1 2 (one isDigit)).ForcedBy
      (.seq (lit (ascii "/")) (.times 1 1 (.one isDigit))) :=
    forcedBy_delimiter ((StartsWith.lit 0x2f []).seq _) (by decide) 1 2
  exact .seq ((hdotted.exactly 3).forcedBy _)
    (.seq hslash (.seq ((Deterministic.lit _).forcedBy _) (.run 1 1)))

theorem findSubmatch_subnet {fileContents s : GoString} :
    flannelSubnetRegex.findSubmatch fileContents = some s ↔
      FirstValue subnetKey SubnetForm fileContents s := by
  rw [flannelSubnetRegex, findSubmatch_eq_some longest_subnetValue, FirstValue]
  have hform : Keyed subnetKey subnetValue = Entry subnetKey SubnetForm := by
    funext t
    simp only [Keyed, Entry, exists_and_left, accepts_subnetValue]
  rw [hform]

theorem findSubmatch_mtu {fileContents t : GoString} :
    flannelMTURegex.findSubmatch fileContents = some t ↔
      FirstValue mtuKey (Digits 1 5) fileContents t := by
  have hlongest : mtuValue.Longest := .run 1 4
  rw [flannelMTURegex, findSubmatch_eq_some hlongest, FirstValue]
  have hform : Keyed mtuKey mtuValue = Entry mtuKey (Digits 1 5) := by
    funext t
    simp only [Keyed, Entry, mtuValue, accepts_digits, exists_and_left, exists_eq, and_true]
  rw [hform]

theorem numeralValue_append (t : GoString) (c : UInt8) :
    numeralValue (t ++ [c]) = numeralValue t * 10 + (c.toNat - 0x30) := by
  simp [numeralValue]

theorem isDigit_le {c : UInt8} (h : isDigit c = true) : c.toNat ≤ 0x39 := by
  simp only [isDigit, Bool.and_eq_true, decide_eq_true_eq] at h
  exact h.2

theorem numeralValue_lt {t : GoString} (h : ∀ c ∈ t, isDigit c = true) :
    numeralValue t < 10 ^ t.length := by
  induction t using List.reverseRecOn with
  | nil => decide
  | append_singleton t c ih =>
    have hprefix := ih fun d hd => h d (List.mem_append_left _ hd)
    have hc := isDigit_le (h c (by simp))
    rw [numeralValue_append, List.length_append, List.length_singleton, Nat.pow_succ]
    omega

theorem atoi_digits {t : GoString} (h : Digits 1 5 t) : atoi t = .ok (numeralValue t : ℤ) := by
  obtain ⟨hleast, hmost, hall⟩ := h
  have hne : t ≠ [] := List.ne_nil_of_length_pos hleast
  have hsign : ∀ c, isDigit c = false → t.head? ≠ some c := by
    intro c hc hhead
    rw [hall c (List.mem_of_head? hhead)] at hc
    cases hc
  have hany : t.any (fun c => !isDigit c) = false := by
    simpa using hall
  have hlt : numeralValue t < 10 ^ 5 :=
    (numeralValue_lt hall).trans_le (Nat.pow_le_pow_right (by decide) hmost)
  have hrange : ¬ ((numeralValue t : ℤ) < -2 ^ 63 ∨ 2 ^ 63 ≤ (numeralValue t : ℤ)) := by omega
  simp only [atoi, hsign 0x2d (by decide), hsign 0x2b (by decide), or_self, if_false, hne, hany,
    Bool.false_eq_true, hrange]

theorem get_eq_ok {fileContents s : GoString} {n : ℤ} :
    get fileContents = .ok ⟨s, n⟩ ↔ FirstValue subnetKey SubnetForm fileContents s ∧
      ∃ t, FirstValue mtuKey (Digits 1 5) fileContents t ∧ n = numeralValue t := by
  have hform : ∀ {t}, FirstValue mtuKey (Digits 1 5) fileContents t → Digits 1 5 t :=
    FirstValue.form_value
  rw [get, ← findSubmatch_subnet]
  simp only [← findSubmatch_mtu] at hform ⊢
  cases flannelSubnetRegex.findSubmatch fileContents with
  | none => simp
  | some subnet =>
    cases hmtu : flannelMTURegex.findSubmatch fileContents with
    | none => simp
    | some digits =>
      simp only [atoi_digits (hform hmtu), Except.ok.injEq, NetworkInfo.mk.injEq, Option.some.injEq,
        exists_eq_left']
      constructor
      · exact fun h => ⟨h.1, h.2.symm⟩
      · exact fun h => ⟨h.1, h.2.symm⟩

def newline : UInt8 := 0x0a

def HasLines (fileContents : GoString) (info : NetworkInfo) : Prop :=
  subnetKey ++ info.overlaySubnet ∈ lines newline fileContents ∧
    ∃ t, t ≠ [] ∧ (∀ c ∈ t, isDigit c = true) ∧ (numeralValue t : ℤ) = info.mtu ∧
      mtuKey ++ t ∈ lines newline fileContents

def HasEntry (key : GoString) (form : GoString → Prop) (fileContents : GoString) : Prop :=
  ∃ line ∈ lines newline fileContents, Entry key form line

/-- What is returned stands on lines of its own. A file is rejected in which the value of a key is
malformed or too long wherever the key starts a line, or no line starts with the key. And a
returned value is neither cut off nor taken from another key or a comment: the first line in which
the key has a value is exactly the key and this value. -/
structure NotMisread (fileContents : GoString) : Prop where
  stands : ∀ info, get fileContents = .ok info → HasLines fileContents info
  rejected : ¬ HasEntry subnetKey SubnetForm fileContents ∨
    ¬ HasEntry mtuKey (Digits 1 5) fileContents → ∃ err, get fileContents = .error err
  whole : ∀ info, get fileContents = .ok info →
    FirstLine newline (Bears (Entry subnetKey SubnetForm)) fileContents
      (subnetKey ++ info.overlaySubnet) ∧
    ∃ t, Digits 1 5 t ∧ (numeralValue t : ℤ) = info.mtu ∧
      FirstLine newline (Bears (Entry mtuKey (Digits 1 5))) fileContents (mtuKey ++ t)

/-- The first place where a key has a value is at the start of a line, and the longest value there
ends the line. -/
def Alone (key : GoString) (form : GoString → Prop) (fileContents : GoString) : Prop :=
  ∀ before value after, FoundAt (Entry key form) fileContents before (key ++ value) after →
    StartsLine newline before ∧ EndsLine newline after

theorem not_mem_of_digits {least most : ℕ} {t : GoString} (h : Digits least most t) :
    newline ∉ t := by
  intro hmem
  have hdigit := h.2.2 _ hmem
  exact absurd hdigit (by decide)

theorem not_mem_of_subnetForm {t : GoString} (h : SubnetForm t) : newline ∉ t := by
  obtain ⟨a, b, c, d, e, ha, hb, hc, hd, he, rfl⟩ := h
  have hdot : newline ∉ ascii "." := by decide
  have hslash : newline ∉ ascii "/" := by decide
  simp only [List.mem_append, not_or]
  exact ⟨⟨⟨⟨⟨⟨⟨⟨not_mem_of_digits ha, hdot⟩, not_mem_of_digits hb⟩, hdot⟩, not_mem_of_digits hc⟩,
    hdot⟩, not_mem_of_digits hd⟩, hslash⟩, not_mem_of_digits he⟩

structure Inline (key : GoString) (form : GoString → Prop) : Prop where
  key_ne : key ≠ []
  not_mem_key : newline ∉ key
  not_mem_value : ∀ u, form u → newline ∉ u

theorem inline_subnet : Inline subnetKey SubnetForm :=
  ⟨by decide, by decide, fun _ => not_mem_of_subnetForm⟩

theorem inline_mtu : Inline mtuKey (Digits 1 5) :=
  ⟨by decide, by decide, fun _ => not_mem_of_digits⟩

section Inline

variable {key : GoString} {form : GoString → Prop} {fileContents value : GoString}

theorem Inline.not_mem (h : Inline key form) (t : GoString) (ht : Entry key form t) :
    newline ∉ t := by
  obtain ⟨u, rfl, hu⟩ := ht
  rw [List.mem_append, not_or]
  exact ⟨h.not_mem_key, h.not_mem_value u hu⟩

theorem Inline.ne_nil (h : Inline key form) (t : GoString) (ht : Entry key form t) : t ≠ [] := by
  obtain ⟨u, rfl, -⟩ := ht
  exact fun hnil => h.key_ne (List.append_eq_nil_iff.mp hnil).1

theorem FirstValue.firstLine (hinline : Inline key form)
    (h : FirstValue key form fileContents value) (halone : Alone key form fileContents) :
    FirstLine newline (Bears (Entry key form)) fileContents (key ++ value) := by
  obtain ⟨before, after, hfound⟩ := h
  exact (hfound.firstLine_iff hinline.not_mem hinline.ne_nil).mpr (halone _ _ _ hfound)

theorem alone_of_firstLine (hinline : Inline key form)
    (h : FirstLine newline (Bears (Entry key form)) fileContents (key ++ value))
    (hvalue : form value) :
    Alone key form fileContents := by
  intro before value' after hfound
  have heq := hfound.eq_of_firstLine hinline.not_mem hinline.ne_nil h ⟨value, rfl, hvalue⟩
  rw [heq] at h
  exact (hfound.firstLine_iff hinline.not_mem hinline.ne_nil).mp h

end Inline

/-- A file is not misread exactly when, if both keys have a value somewhere, the first value of each
key stands alone. -/
theorem file_not_misread_iff (fileContents : GoString) :
    NotMisread fileContents ↔
      ((∃ s, FirstValue subnetKey SubnetForm fileContents s) →
        (∃ t, FirstValue mtuKey (Digits 1 5) fileContents t) →
        Alone subnetKey SubnetForm fileContents ∧ Alone mtuKey (Digits 1 5) fileContents) := by
  constructor
  · rintro h ⟨s, hs⟩ ⟨t, ht⟩
    obtain ⟨hsubnet, t', hform, -, hmtu⟩ := h.whole _ (get_eq_ok.mpr ⟨hs, t, ht, rfl⟩)
    exact ⟨alone_of_firstLine inline_subnet hsubnet hs.form_value,
      alone_of_firstLine inline_mtu hmtu hform⟩
  · intro h
    have hwhole : ∀ info, get fileContents = .ok info →
        SubnetForm info.overlaySubnet ∧ FirstLine newline (Bears (Entry subnetKey SubnetForm))
          fileContents (subnetKey ++ info.overlaySubnet) ∧
        ∃ t, Digits 1 5 t ∧ (numeralValue t : ℤ) = info.mtu ∧
          FirstLine newline (Bears (Entry mtuKey (Digits 1 5))) fileContents (mtuKey ++ t) := by
      rintro ⟨s, n⟩ hget
      obtain ⟨hs, t, ht, rfl⟩ := get_eq_ok.mp hget
      obtain ⟨hsubnet, hmtu⟩ := h ⟨s, hs⟩ ⟨t, ht⟩
      exact ⟨hs.form_value, hs.firstLine inline_subnet hsubnet, t, ht.form_value, rfl,
        ht.firstLine inline_mtu hmtu⟩
    refine ⟨fun info hget => ?_, fun hnone => ?_, fun info hget => (hwhole info hget).2⟩
    · obtain ⟨-, hsubnet, t, hform, hvalue, hmtu⟩ := hwhole info hget
      exact ⟨hsubnet.mem, t, List.ne_nil_of_length_pos hform.1, hform.2.2, hvalue, hmtu.mem⟩
    · cases hget : get fileContents with
      | error err => exact ⟨err, rfl⟩
      | ok info =>
        obtain ⟨hs, hsubnet, t, hform, -, hmtu⟩ := hwhole info hget
        rcases hnone with hnone | hnone
        · exact absurd ⟨_, hsubnet.mem, _, rfl, hs⟩ hnone
        · exact absurd ⟨_, hmtu.mem, _, rfl, hform⟩ hnone

def longMTU : GoString := ascii "FLANNEL_SUBNET=10.255.19.1/24\nFLANNEL_MTU=123456\n"

theorem long_mtu_truncated :
    get longMTU = .ok ⟨ascii "10.255.19.1/24", 12345⟩ ∧
      ¬ HasLines longMTU ⟨ascii "10.255.19.1/24", 12345⟩ := by
  refine ⟨rfl, ?_⟩
  rintro ⟨-, t, -, -, hvalue, hline⟩
  have hlines : lines newline longMTU =
      [subnetKey ++ ascii "10.255.19.1/24", mtuKey ++ ascii "123456", []] := by decide
  rw [hlines] at hline
  simp only [List.mem_cons, List.not_mem_nil, or_false] at hline
  rcases hline with hline | hline | hline
  · cases hline
  · rw [List.append_cancel_left hline] at hvalue
    exact absurd hvalue (by decide)
  · cases hline

end Flannel
end Silk.Cni
