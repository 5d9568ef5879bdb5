import Mathlib.Data.List.Basic
import Mathlib.Data.Nat.Notation
import Mathlib.Tactic.IntervalCases

/-!
# Addresses, masks and networks of the Go `net` package

An `IP` is the byte slice of the package, four or sixteen bytes long; the nil
slice is the empty list. Four-byte and IPv4-mapped sixteen-byte forms denote
the same address, and `to4` is the only place where they are told apart.
`IPNet.contains` follows the package in comparing masked bytes of equal length
only, so an IPv6 network never contains an IPv4 address.
-/

namespace Silk.GoNet

abbrev IP := List UInt8
abbrev IPMask := List UInt8
abbrev HardwareAddr := List UInt8

structure IPNet where
  ip : IP
  mask : IPMask
deriving DecidableEq, Repr

def v4InV6Prefix : List UInt8 := [0, 0, 0, 0, 0, 0, 0, 0, 0, 0, 0xff, 0xff]

def to4 (ip : IP) : Option IP :=
  if ip.length = 4 then some ip
  else if ip.length = 16 ∧ ip.take 12 = v4InV6Prefix then some (ip.drop 12)
  else none

def ipv4 (a b c d : UInt8) : IP := v4InV6Prefix ++ [a, b, c, d]

def maskByte (n : ℕ) : UInt8 := if 8 ≤ n then 0xff else ~~~(0xff >>> UInt8.ofNat n)

def maskBytes : ℕ → ℕ → IPMask
  | 0, _ => []
  | l + 1, n => maskByte n :: maskBytes l (n - 8)

def cidrMask (ones bits : ℕ) : IPMask :=
  if (bits ≠ 32 ∧ bits ≠ 128) ∨ bits < ones then [] else maskBytes (bits / 8) ones

/-- Shift the leading ones out of a byte: their number and what is left. -/
def shiftOnes : ℕ → UInt8 → ℕ × UInt8
  | 0, v => (0, v)
  | fuel + 1, v =>
    if v &&& 0x80 ≠ 0 then ((shiftOnes fuel (v <<< 1)).1 + 1, (shiftOnes fuel (v <<< 1)).2)
    else (0, v)

def simpleMaskLength : IPMask → Option ℕ
  | [] => some 0
  | v :: rest =>
    if v = 0xff then (simpleMaskLength rest).map (· + 8)
    else if (shiftOnes 8 v).2 = 0 ∧ rest.all (· = 0) then some (shiftOnes 8 v).1 else none

def maskSize (m : IPMask) : ℕ × ℕ :=
  match simpleMaskLength m with
  | some ones => (ones, m.length * 8)
  | none => (0, 0)

def maskIP (ip : IP) (mask : IPMask) : IP :=
  let mask := if mask.length = 16 ∧ ip.length = 4 ∧ (mask.take 12).all (· = 0xff) then mask.drop 12
    else mask
  let ip := if mask.length = 4 ∧ ip.length = 16 ∧ ip.take 12 = v4InV6Prefix then ip.drop 12 else ip
  if ip.length ≠ mask.length then [] else List.zipWith (· &&& ·) ip mask

def networkNumberAndMask (n : IPNet) : Option (IP × IPMask) :=
  match to4 n.ip with
  | some ip =>
    if n.mask.length = 4 then some (ip, n.mask)
    else if n.mask.length = 16 then some (ip, n.mask.drop 12)
    else none
  | none => if n.ip.length = 16 ∧ n.mask.length = 16 then some (n.ip, n.mask) else none

def IPNet.contains (n : IPNet) (ip : IP) : Bool :=
  match networkNumberAndMask n with
  | none => ip.length = 0
  | some (nn, m) =>
    let ip := (to4 ip).getD ip
    decide (ip.length = nn.length) &&
      decide (List.zipWith (· &&& ·) nn m = List.zipWith (· &&& ·) ip m)

end Silk.GoNet
