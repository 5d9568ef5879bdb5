import Silk.GoNetAddress

/-!
# Parsing and printing of the Go `net` package

`ParseIP`, `ParseCIDR` and `ParseMAC` over the whole grammar they accept: dotted
addresses without leading zeros, IPv6 groups with one ellipsis and an optional
dotted tail, prefix lengths with leading zeros, and hardware addresses of six,
eight or twenty bytes in colon, hyphen or dot form. Zones are rejected by both
callers of the address parser, so a percent sign fails here already.
-/

namespace Silk.GoNet

def hexValue (c : Char) : Option ℕ :=
  if '0' ≤ c ∧ c ≤ '9' then some (c.toNat - '0'.toNat)
  else if 'a' ≤ c ∧ c ≤ 'f' then some (c.toNat - 'a'.toNat + 10)
  else if 'A' ≤ c ∧ c ≤ 'F' then some (c.toNat - 'A'.toNat + 10)
  else none

/-- The scan of `netip.parseIPv4`. `start` holds before the first digit of a field. -/
def parseIPv4Loop (fields : List UInt8) (val digLen : ℕ) (start : Bool) :
    List Char → Option (List UInt8)
  | [] => if fields.length < 3 then none else some (fields ++ [UInt8.ofNat val])
  | c :: rest =>
    if c.isDigit then
      if digLen = 1 ∧ val = 0 then none
      else if 255 < val * 10 + (c.toNat - '0'.toNat) then none
      else parseIPv4Loop fields (val * 10 + (c.toNat - '0'.toNat)) (digLen + 1) false rest
    else if c = '.' then
      if start ∨ rest = [] then none
      else if fields.length = 3 then none
      else parseIPv4Loop (fields ++ [UInt8.ofNat val]) 0 0 true rest
    else none

def parseIPv4 (s : List Char) : Option (List UInt8) := parseIPv4Loop [] 0 0 true s

def hexFold (digits : List Char) : ℕ :=
  digits.foldl (fun acc c => acc * 16 + (hexValue c).getD 0) 0

structure IPv6State where
  bytes : List UInt8
  ellipsis : Option ℕ
  rest : List Char

/-- The group loop of `netip.parseIPv6`; the first argument counts the groups
that still fit, so the write position is `bytes.length`. -/
def parseIPv6Loop : ℕ → IPv6State → Option IPv6State
  | 0, st => some st
  | groups + 1, st =>
    let digits := st.rest.takeWhile fun c => (hexValue c).isSome
    let tail := st.rest.dropWhile fun c => (hexValue c).isSome
    let bytes :=
      st.bytes ++ [UInt8.ofNat (hexFold digits / 256), UInt8.ofNat (hexFold digits % 256)]
    if digits.length = 0 ∨ 4 < digits.length then none
    else match tail with
      | [] => some ⟨bytes, st.ellipsis, []⟩
      | '.' :: _ =>
        if (st.ellipsis = none ∧ st.bytes.length ≠ 12) ∨ 16 < st.bytes.length + 4 then none
        else (parseIPv4 st.rest).map fun fields => ⟨st.bytes ++ fields, st.ellipsis, []⟩
      | [':'] => none
      | ':' :: ':' :: rest =>
        if st.ellipsis ≠ none then none
        else if rest = [] then some ⟨bytes, some bytes.length, []⟩
        else parseIPv6Loop groups ⟨bytes, some bytes.length, rest⟩
      | ':' :: rest => parseIPv6Loop groups ⟨bytes, st.ellipsis, rest⟩
      | _ => none

def parseIPv6 (s : List Char) : Option (List UInt8) :=
  let start : IPv6State := match s with
    | ':' :: ':' :: rest => ⟨[], some 0, rest⟩
    | _ => ⟨[], none, s⟩
  if start.ellipsis ≠ none ∧ start.rest = [] then some (List.replicate 16 0)
  else match parseIPv6Loop 8 start with
    | none => none
    | some st =>
      if st.rest ≠ [] then none
      else if st.bytes.length < 16 then
        st.ellipsis.map fun e =>
          st.bytes.take e ++ List.replicate (16 - st.bytes.length) 0 ++ st.bytes.drop e
      else if st.ellipsis ≠ none then none
      else some st.bytes

/-- `netip.ParseAddr` without zones; four or sixteen bytes. -/
def parseAddr (s : List Char) : Option (List UInt8) :=
  if '%' ∈ s then none
  else match s.find? fun c => c = '.' ∨ c = ':' with
    | some '.' => parseIPv4 s
    | some ':' => parseIPv6 s
    | _ => none

def as16 (addr : List UInt8) : IP :=
  if addr.length = 4 then v4InV6Prefix ++ addr else addr

def parseIP (s : String) : Option IP := (parseAddr s.toList).map as16

def dtoi (n i : ℕ) : List Char → ℕ × ℕ × Bool
  | [] => if i = 0 then (0, 0, false) else (n, i, true)
  | c :: rest =>
    if c.isDigit then
      if 0xFFFFFF ≤ n * 10 + (c.toNat - '0'.toNat) then (0xFFFFFF, i, false)
      else dtoi (n * 10 + (c.toNat - '0'.toNat)) (i + 1) rest
    else if i = 0 then (0, 0, false) else (n, i, true)

def cidrError (s : String) : String := "invalid CIDR address: " ++ s

def parseCIDR (s : String) : Except String (IP × IPNet) :=
  if '/' ∉ s.toList then .error (cidrError s)
  else
    let addr := s.toList.takeWhile (· ≠ '/')
    let mask := (s.toList.dropWhile (· ≠ '/')).drop 1
    match parseAddr addr with
    | none => .error (cidrError s)
    | some bytes =>
      let (n, i, ok) := dtoi 0 0 mask
      if ok = false ∨ i ≠ mask.length ∨ 8 * bytes.length < n then .error (cidrError s)
      else
        let m := cidrMask n (8 * bytes.length)
        .ok (as16 bytes, ⟨maskIP (as16 bytes) m, m⟩)

def xtoi2 (e : Char) : List Char → Option UInt8
  | a :: b :: rest =>
    if rest.head?.any (· ≠ e) then none
    else match hexValue a, hexValue b with
      | some x, some y => some (UInt8.ofNat (x * 16 + y))
      | _, _ => none
  | _ => none

def macPairs (sep : Char) : ℕ → List Char → Option HardwareAddr
  | 0, _ => some []
  | n + 1, s =>
    match xtoi2 sep s, macPairs sep n (s.drop 3) with
    | some b, some bs => some (b :: bs)
    | _, _ => none

def macQuads : ℕ → List Char → Option HardwareAddr
  | 0, _ => some []
  | n + 1, s =>
    match xtoi2 '\x00' (s.take 2), xtoi2 '.' (s.drop 2), macQuads n (s.drop 5) with
    | some b, some c, some bs => some (b :: c :: bs)
    | _, _, _ => none

def macError (s : String) : String := "address " ++ s ++ ": invalid MAC address"

def macLength (n : ℕ) : Bool := n = 6 || n = 8 || n = 20

def parseMAC (s : String) : Except String HardwareAddr :=
  let cs := s.toList
  let hw :=
    if cs.length < 14 then none
    else if cs[2]? = some ':' ∨ cs[2]? = some '-' then
      if (cs.length + 1) % 3 ≠ 0 ∨ macLength ((cs.length + 1) / 3) = false then none
      else macPairs (cs[2]?.getD ':') ((cs.length + 1) / 3) cs
    else if cs[4]? = some '.' then
      if (cs.length + 1) % 5 ≠ 0 ∨ macLength (2 * (cs.length + 1) / 5) = false then none
      else macQuads ((cs.length + 1) / 5) cs
    else none
  match hw with
  | some hw => .ok hw
  | none => .error (macError s)

def hexByte (b : UInt8) : List Char := [Nat.digitChar (b.toNat / 16), Nat.digitChar (b.toNat % 16)]

def joinBytes (sep : Char) (print : UInt8 → List Char) : List UInt8 → List Char
  | [] => []
  | [b] => print b
  | b :: bs => print b ++ sep :: joinBytes sep print bs

def hardwareAddrString (hw : HardwareAddr) : String := String.ofList (joinBytes ':' hexByte hw)

def decimal (n : ℕ) : List Char := Nat.toDigits 10 n

def dotted (bytes : List UInt8) : List Char := joinBytes '.' (fun b => decimal b.toNat) bytes

def groups : List UInt8 → List ℕ
  | a :: b :: rest => (a.toNat * 256 + b.toNat) :: groups rest
  | _ => []

def joinGroups : List ℕ → List Char
  | [] => []
  | [g] => Nat.toDigits 16 g
  | g :: gs => Nat.toDigits 16 g ++ ':' :: joinGroups gs

def zeroSpan (gs : List ℕ) : Option (ℕ × ℕ) :=
  (List.range gs.length).foldl (fun best i =>
    let l := ((gs.drop i).takeWhile (· = 0)).length
    if 2 ≤ l ∧ best.elim 0 (fun b => b.2 - b.1) < l then some (i, i + l) else best) none

def ipv6String (ip : IP) : List Char :=
  match zeroSpan (groups ip) with
  | none => joinGroups (groups ip)
  | some (a, b) => joinGroups ((groups ip).take a) ++ ':' :: ':' :: joinGroups ((groups ip).drop b)

def ipString (ip : IP) : String :=
  if ip = [] then "<nil>"
  else match to4 ip with
    | some bytes => String.ofList (dotted bytes)
    | none =>
      if ip.length = 16 then String.ofList (ipv6String ip)
      else String.ofList ('?' :: ip.flatMap hexByte)

/-- `IPNet.String`; a nil network prints like one that is malformed. -/
def netString : Option IPNet → String
  | none => "<nil>"
  | some n =>
    match networkNumberAndMask n with
    | none => "<nil>"
    | some (nn, m) =>
      match simpleMaskLength m with
      | some l => ipString nn ++ String.ofList ('/' :: decimal l)
      | none => ipString nn ++ String.ofList ('/' :: m.flatMap hexByte)

end Silk.GoNet
