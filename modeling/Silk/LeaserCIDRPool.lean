import Silk.GoNetRange
import Mathlib.Data.Int.DivMod
import Mathlib.Data.List.Nodup

/-!
# The CIDR pool of the lease controller

`NewCIDRPool` splits the overlay network into blocks and hands the first block
out address by address. Go's `int` is an integer kept in 64 bits by `goInt`,
`uint` arithmetic is taken modulo `2 ^ 64`, and a shift by 64 or more gives
zero. A loop of the source runs on fuel; `2 ^ 64` rounds exhaust the values of
its counter, so a loop that is still running then never ends.

`netaddr.IPAdd` adds in 32 bits for IPv4 addresses and with a carry between two
64-bit halves otherwise.
-/

namespace Silk.Leaser

open GoNet

def goInt (x : ℤ) : ℤ := Int.bmod x (2 ^ 64)

def int32 (x : ℤ) : ℤ := Int.bmod x (2 ^ 32)

def goUint (x : ℤ) : ℕ := (x % 2 ^ 64).toNat

def subUint (a b : ℕ) : ℕ := (a + 2 ^ 64 - b % 2 ^ 64) % 2 ^ 64

def shiftOne (k : ℕ) : ℤ := if k < 64 then goInt (2 ^ k) else 0

def isIPv4 (ip : IP) : Bool := ip.length = 4 || ip.take 12 = v4InV6Prefix

def ipToI32 (ip : IP) : ℤ :=
  match to4 ip with
  | some [a, b, c, d] => int32 ↑(a.toNat <<< 24 ||| b.toNat <<< 16 ||| c.toNat <<< 8 ||| d.toNat)
  | _ => 0

def byteOf (a : ℤ) : UInt8 := UInt8.ofNat (a % 256).toNat

def i32ToIP (a : ℤ) : IP :=
  ipv4 (byteOf (a / 2 ^ 24)) (byteOf (a / 2 ^ 16)) (byteOf (a / 2 ^ 8)) (byteOf a)

def u64ToIP (a : ℕ) : List UInt8 :=
  [byteOf (a / 2 ^ 56), byteOf (a / 2 ^ 48), byteOf (a / 2 ^ 40), byteOf (a / 2 ^ 32),
    byteOf (a / 2 ^ 24), byteOf (a / 2 ^ 16), byteOf (a / 2 ^ 8), byteOf a]

def ipAdd (ip : IP) (offset : ℤ) : IP :=
  if isIPv4 ip then i32ToIP (int32 (goInt (ipToI32 (ip.drop (ip.length - 4)) + offset)))
  else
    let a := addrVal (ip.take 8)
    let b := addrVal (ip.drop 8)
    let o := goUint offset
    let a := if 2 ^ 64 - 1 - b < o then (a + 1) % 2 ^ 64 else a
    let a := if offset < 0 then (a + (2 ^ 64 - 1)) % 2 ^ 64 else a
    u64ToIP a ++ u64ToIP ((b + o) % 2 ^ 64)

structure StringSet where
  keys : List String
  nodup : keys.Nodup

namespace StringSet

def empty : StringSet := ⟨[], .nil⟩

def insert (s : StringSet) (k : String) : StringSet :=
  if h : k ∈ s.keys then s else ⟨s.keys ++ [k], by simpa using s.nodup.concat h⟩

def delete (s : StringSet) (k : String) : StringSet :=
  ⟨s.keys.filter (· ≠ k), s.nodup.filter _⟩

def size (s : StringSet) : ℕ := s.keys.length

theorem mem_insert {s : StringSet} {k x : String} :
    x ∈ (s.insert k).keys ↔ x ∈ s.keys ∨ x = k := by
  rw [insert]
  split_ifs with h
  · constructor
    · exact Or.inl
    · intro hx
      rcases hx with hx | hx
      · exact hx
      · rw [hx]
        exact h
  · simp

theorem mem_delete {s : StringSet} {k x : String} :
    x ∈ (s.delete k).keys ↔ x ∈ s.keys ∧ x ≠ k := by
  simp [delete]

theorem mem_deleteAll {s : StringSet} {ks : List String} {x : String} :
    x ∈ (ks.foldl delete s).keys ↔ x ∈ s.keys ∧ x ∉ ks := by
  induction ks generalizing s with
  | nil => simp
  | cons k ks ih =>
    rw [List.foldl_cons, ih, mem_delete, List.mem_cons, not_or, and_assoc]

end StringSet

inductive Outcome (α : Type) where
  | value (a : α)
  | panic (message : String)
  | diverges

/-- `for i := start; i < bound; i += step`, folding the body over an accumulator. -/
def forLoop {β : Type} (bound step : ℤ) (body : ℤ → β → β) : ℕ → ℤ → β → Option β
  | 0, _, _ => none
  | fuel + 1, i, acc =>
    if i < bound then forLoop bound step body fuel (goInt (i + step)) (body i acc) else some acc

structure CIDRPool where
  blockPool : StringSet
  singlePool : StringSet

def generateBlockPool (ipStart : IP) (cidrMask cidrMaskBlock : ℕ) : Option StringSet :=
  let fullRange := shiftOne (subUint 32 cidrMask)
  let blockSize := shiftOne (subUint 32 cidrMaskBlock)
  forLoop fullRange blockSize
    (fun i pool => pool.insert (ipString (ipAdd ipStart i) ++ "/" ++ toString cidrMaskBlock))
    (2 ^ 64) blockSize .empty

def generateSingleIPPool (ipStart : IP) (cidrMaskBlock : ℕ) : Option StringSet :=
  let blockSize := shiftOne (subUint 32 cidrMaskBlock)
  forLoop blockSize 1 (fun i pool => pool.insert (ipString (ipAdd ipStart i) ++ "/32"))
    (2 ^ 64) 1 .empty

def newCIDRPool (subnetRange : String) (subnetMask : ℤ) : Outcome CIDRPool :=
  match parseCIDR subnetRange with
  | .error err => .panic err
  | .ok (_, ipCIDR) =>
    let cidrMask := (maskSize ipCIDR.mask).1
    match generateBlockPool ipCIDR.ip cidrMask (goUint subnetMask),
        generateSingleIPPool ipCIDR.ip (goUint subnetMask) with
    | some blockPool, some singlePool => .value ⟨blockPool, singlePool⟩
    | _, _ => .diverges

/-- One draw of `mathRand` together with one map iteration order. -/
structure Draw where
  order : StringSet → List String
  order_perm : ∀ s, (order s).Perm s.keys
  intn : ℕ → ℕ
  intn_lt : ∀ n, 0 < n → intn n < n

def Draw.first : Draw := ⟨StringSet.keys, fun _ => .refl _, fun _ => 0, fun _ h => h⟩

def selectNth (i : ℕ) : ℕ → List String → String
  | _, [] => ""
  | n, subnet :: rest => if i = n then subnet else selectNth i (n + 1) rest

def getAvailable (draw : Draw) (taken : List String) (pool : StringSet) : String :=
  let available := taken.foldl StringSet.delete pool
  if available.size = 0 then ""
  else selectNth (draw.intn available.size) 0 (draw.order available)

namespace CIDRPool

def blockPoolSize (c : CIDRPool) : ℕ := c.blockPool.size

def singleIPPoolSize (c : CIDRPool) : ℕ := c.singlePool.size

def getAvailableBlock (c : CIDRPool) (draw : Draw) (taken : List String) : String :=
  getAvailable draw taken c.blockPool

def getAvailableSingleIP (c : CIDRPool) (draw : Draw) (taken : List String) : String :=
  getAvailable draw taken c.singlePool

def isMember (c : CIDRPool) (subnet : String) : Bool :=
  subnet ∈ c.blockPool.keys || subnet ∈ c.singlePool.keys

end CIDRPool

theorem forLoop_invariant {β : Type} {bound step : ℤ} {body : ℤ → β → β} {I : β → Prop}
    (hbody : ∀ i acc, I acc → I (body i acc)) {fuel : ℕ} {i : ℤ} {acc acc' : β} (hI : I acc)
    (h : forLoop bound step body fuel i acc = some acc') : I acc' := by
  induction fuel generalizing i acc with
  | zero => cases h
  | succ fuel ih =>
    rw [forLoop] at h
    split_ifs at h
    · exact ih (hbody i acc hI) h
    · cases h
      exact hI

theorem slash_append_ne (a b : String) : a ++ "/" ++ b ≠ "" := by
  intro h
  have hnil := congrArg String.toList h
  simp at hnil

theorem empty_not_mem_insert {pool : StringSet} {k : String} (hk : k ≠ "") (h : "" ∉ pool.keys) :
    "" ∉ (pool.insert k).keys := by
  intro hmem
  rcases StringSet.mem_insert.mp hmem with hmem | hmem
  · exact h hmem
  · exact hk hmem.symm

theorem empty_not_mem_newCIDRPool {subnetRange : String} {subnetMask : ℤ} {pool : CIDRPool}
    (h : newCIDRPool subnetRange subnetMask = .value pool) :
    "" ∉ pool.blockPool.keys ∧ "" ∉ pool.singlePool.keys := by
  rw [newCIDRPool] at h
  split at h
  · cases h
  · dsimp only at h
    split at h
    · rename_i hblock hsingle
      cases h
      constructor
      · exact forLoop_invariant (I := fun pool : StringSet => "" ∉ pool.keys)
          (fun i pool => empty_not_mem_insert (slash_append_ne _ _)) List.not_mem_nil hblock
      · exact forLoop_invariant (I := fun pool : StringSet => "" ∉ pool.keys)
          (fun i pool => empty_not_mem_insert fun h => slash_append_ne _ "32"
            (by rw [String.append_assoc]; exact h)) List.not_mem_nil hsingle
    · cases h

theorem selectNth_eq {i n : ℕ} {l : List String} (hn : n ≤ i) :
    selectNth i n l = (l[i - n]?).getD "" := by
  induction l generalizing n with
  | nil => simp [selectNth]
  | cons s rest ih =>
    rw [selectNth]
    split_ifs with h
    · simp [h]
    · rw [ih (by omega), show i - n = i - (n + 1) + 1 by omega, List.getElem?_cons_succ]

/-- The fall-through after the selection loop is unreachable: a draw below the
number of available subnets always meets its index. -/
theorem getAvailable_spec (draw : Draw) (taken : List String) (pool : StringSet) :
    ((∀ x ∈ pool.keys, x ∈ taken) ∧ getAvailable draw taken pool = "") ∨
      (getAvailable draw taken pool ∈ pool.keys ∧ getAvailable draw taken pool ∉ taken) := by
  have hmem : ∀ x, x ∈ (taken.foldl StringSet.delete pool).keys ↔ x ∈ pool.keys ∧ x ∉ taken :=
    fun x => StringSet.mem_deleteAll
  rw [getAvailable]
  generalize taken.foldl StringSet.delete pool = available at hmem
  split_ifs with h
  · left
    refine ⟨fun x hx => ?_, rfl⟩
    by_contra hn
    have hk := (hmem x).mpr ⟨hx, hn⟩
    rw [List.length_eq_zero_iff.mp h] at hk
    exact List.not_mem_nil hk
  · right
    have hlt := draw.intn_lt available.size (Nat.pos_of_ne_zero h)
    have hlen : draw.intn available.size < (draw.order available).length := by
      rw [(draw.order_perm available).length_eq]
      exact hlt
    rw [selectNth_eq (Nat.zero_le _), Nat.sub_zero, List.getElem?_eq_getElem hlen, Option.getD_some]
    exact (hmem _).mp ((draw.order_perm available).mem_iff.mp (List.getElem_mem hlen))

theorem getAvailable_surjective {taken : List String} {pool : StringSet} {x : String}
    (hx : x ∈ pool.keys) (ht : x ∉ taken) : ∃ draw : Draw, getAvailable draw taken pool = x := by
  have hmem : x ∈ (taken.foldl StringSet.delete pool).keys := StringSet.mem_deleteAll.mpr ⟨hx, ht⟩
  obtain ⟨i, hi, hget⟩ := List.getElem_of_mem hmem
  refine ⟨⟨StringSet.keys, fun _ => .refl _, fun n => if i < n then i else 0, ?_⟩, ?_⟩
  · intro n hn
    split_ifs with h
    · exact h
    · exact hn
  · rw [getAvailable]
    have hne : (taken.foldl StringSet.delete pool).size ≠ 0 := by
      rw [StringSet.size]
      omega
    have hlt : i < (taken.foldl StringSet.delete pool).size := hi
    simp only [hne, if_false, hlt, if_true]
    rw [selectNth_eq (Nat.zero_le _), Nat.sub_zero, List.getElem?_eq_getElem hi, hget,
      Option.getD_some]

end Silk.Leaser
