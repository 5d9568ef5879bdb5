import Mathlib.Data.Nat.Digits.Defs
import Silk.GoJsonRoundTrip
import Silk.GoJsonUnicode

/-!
# Records in the Go `json` package

`Marshal` prints a structure as an object with one member for each field.
`Unmarshal` reads one value with only blanks behind it and hands each member to
the field of that name, or else to the first field with the name in other
letters; members of no field are ignored, and `null` leaves a field as it is.
Sender and receiver may use different records. What the receiver reads is what
the sender meant when its fields give the members of the sender back.
-/

namespace Silk.GoJson

mutual

def Value.Clean : Value → Prop
  | .string s => ValidUTF8 s
  | .array items => CleanItems items
  | .object members => CleanMembers members
  | .unsupported _ => False
  | .null | .bool _ | .number _ => True

def CleanItems : List Value → Prop
  | [] => True
  | v :: rest => v.Clean ∧ CleanItems rest

def CleanMembers : List (GoString × Value) → Prop
  | [] => True
  | (k, v) :: rest => (ValidUTF8 k ∧ v.Clean) ∧ CleanMembers rest

end

theorem cleanItems_iff {items : List Value} : CleanItems items ↔ ∀ v ∈ items, v.Clean := by
  induction items with
  | nil => simp [CleanItems]
  | cons v items ih => rw [CleanItems, ih, List.forall_mem_cons]

theorem cleanMembers_iff {members : List (GoString × Value)} :
    CleanMembers members ↔ ∀ m ∈ members, ValidUTF8 m.1 ∧ m.2.Clean := by
  induction members with
  | nil => simp [CleanMembers]
  | cons m members ih => rw [CleanMembers, ih, List.forall_mem_cons]

theorem printItems_ok {items : List Value} (h : ∀ v ∈ items, ∃ text, v.print = .ok text) :
    ∃ text, printItems items = .ok text := by
  induction items with
  | nil => exact ⟨[], rfl⟩
  | cons v items ih =>
    obtain ⟨⟨head, hhead⟩, hitems⟩ := List.forall_mem_cons.mp h
    obtain ⟨tail, htail⟩ := ih hitems
    refine ⟨0x2c :: (head ++ tail), ?_⟩
    rw [printItems, hhead, htail]
    rfl

theorem print_array_ok {items : List Value} (h : ∀ v ∈ items, ∃ text, v.print = .ok text) :
    ∃ text, (Value.array items).print = .ok text := by
  cases items with
  | nil => exact ⟨_, rfl⟩
  | cons v items =>
    obtain ⟨⟨head, hhead⟩, hitems⟩ := List.forall_mem_cons.mp h
    obtain ⟨tail, htail⟩ := printItems_ok hitems
    refine ⟨0x5b :: (head ++ tail ++ [0x5d]), ?_⟩
    rw [Value.print, hhead, htail]
    rfl

theorem rereadItems_eq {items : List Value} (h : ∀ v ∈ items, v.reread = v) :
    rereadItems items = items := by
  induction items with
  | nil => rfl
  | cons v items ih =>
    obtain ⟨hv, hitems⟩ := List.forall_mem_cons.mp h
    rw [rereadItems, hv, ih hitems]

theorem depthItems_le {items : List Value} {n : ℕ} (h : ∀ v ∈ items, v.depth ≤ n) :
    depthItems items ≤ n := by
  induction items with
  | nil => exact Nat.zero_le n
  | cons v items ih =>
    obtain ⟨hv, hitems⟩ := List.forall_mem_cons.mp h
    exact Nat.max_le.mpr ⟨hv, ih hitems⟩

theorem Value.Clean.print {v : Value} (h : v.Clean) : ∃ text, v.print = .ok text := by
  induction v using Value.induction with
  | null => exact ⟨_, rfl⟩
  | bool b =>
    cases b
    · exact ⟨_, rfl⟩
    · exact ⟨_, rfl⟩
  | number n => exact ⟨_, rfl⟩
  | string s => exact ⟨_, rfl⟩
  | array items ih => exact print_array_ok fun v hv => ih v hv (cleanItems_iff.mp h v hv)
  | object members ih => exact print_object_ok fun m hm => ih m hm (cleanMembers_iff.mp h m hm).2
  | unsupported reason => exact h.elim

theorem Value.Clean.reread {v : Value} (h : v.Clean) : v.reread = v := by
  induction v using Value.induction with
  | null | bool | number => rfl
  | string s => rw [Value.reread, sanitize_eq h]
  | array items ih =>
    rw [Value.reread, rereadItems_eq fun v hv => ih v hv (cleanItems_iff.mp h v hv)]
  | object members ih =>
    have hmembers := cleanMembers_iff.mp h
    rw [Value.reread, rereadMembers_eq fun m hm => ⟨(hmembers m hm).1, ih m hm (hmembers m hm).2⟩]
  | unsupported reason => exact h.elim

def parse (bytes : List UInt8) : Except DecodeError Value :=
  match run maxNestingDepth .start bytes with
  | .value v rest => if rest.all isSpace then .ok v else .error .invalid
  | .bad => .error .invalid
  | .more s =>
    match step maxNestingDepth s 0x20 with
    | .ended v => .ok v
    | _ => .error .unexpectedEOF

theorem parse_print {members : List (GoString × Value)} {text : List UInt8}
    (hclean : CleanMembers members) (hdepth : depthMembers members < maxNestingDepth)
    (h : (Value.object members).print = .ok text) : parse text = .ok (.object members) := by
  have hle : (Value.object members).depth ≤ maxNestingDepth := by
    rw [Value.depth]
    omega
  have hrun := run_print_object h hle []
  have hreread : (Value.object (rereadMembers members)) = .object members :=
    Value.Clean.reread (v := .object members) hclean
  rw [List.append_nil] at hrun
  rw [parse, hrun]
  exact congrArg Except.ok hreread

/-- A field of a structure: its name, the value printed for it, and what a value that was read
under its name makes of the structure. -/
structure Field (α : Type) where
  name : GoString
  get : α → Value
  set : Value → α → Option α

structure Record (α : Type) where
  fields : List (Field α)
  zero : α

/-- Names without their case. Two letters outside ASCII fold to ASCII letters: the Kelvin sign and
the long s. -/
def fold : GoString → GoString
  | 0xe2 :: 0x84 :: 0xaa :: rest => 0x4b :: fold rest
  | 0xc5 :: 0xbf :: rest => 0x53 :: fold rest
  | b :: rest => (if 0x61 ≤ b ∧ b ≤ 0x7a then b - 0x20 else b) :: fold rest
  | [] => []

namespace Record

variable {α β : Type}

def field (r : Record α) (key : GoString) : Option (Field α) :=
  (r.fields.find? fun f => f.name = key).or (r.fields.find? fun f => fold f.name = fold key)

def setMember (r : Record α) (x : α) (m : GoString × Value) : Option α :=
  match r.field m.1 with
  | some f => f.set m.2 x
  | none => some x

def fill (r : Record α) (x : α) : Value → Option α
  | .null => some x
  | .object members => members.foldlM r.setMember x
  | _ => none

def members (r : Record α) (x : α) : List (GoString × Value) :=
  r.fields.map fun f => (f.name, f.get x)

def marshal (r : Record α) (x : α) : Except GoString (List UInt8) :=
  (Value.object (r.members x)).print

def unmarshal (r : Record α) (bytes : List UInt8) : Except DecodeError α := do
  match r.fill r.zero (← parse bytes) with
  | some x => return x
  | none => throw .unmarshalType

structure Sends (r : Record α) (x : α) : Prop where
  clean : ∀ f ∈ r.fields, ValidUTF8 f.name ∧ (f.get x).Clean
  depth : ∀ f ∈ r.fields, (f.get x).depth < maxNestingDepth

theorem unmarshal_members {s : Record α} {r : Record β} {x : α} (hs : s.Sends x) :
    ∃ text, s.marshal x = .ok text ∧ r.unmarshal text =
      ((s.members x).foldlM r.setMember r.zero).elim (.error .unmarshalType) .ok := by
  have hclean : CleanMembers (s.members x) := by
    refine cleanMembers_iff.mpr fun m hm => ?_
    obtain ⟨f, hf, rfl⟩ := List.mem_map.mp hm
    exact hs.clean f hf
  have hdepth : depthMembers (s.members x) ≤ maxNestingDepth - 1 := by
    refine depthMembers_le fun m hm => ?_
    obtain ⟨f, hf, rfl⟩ := List.mem_map.mp hm
    exact Nat.le_sub_one_of_lt (hs.depth f hf)
  obtain ⟨text, htext⟩ := Value.Clean.print (v := .object (s.members x)) hclean
  refine ⟨text, htext, ?_⟩
  have hparse : parse text = .ok (.object (s.members x)) :=
    parse_print hclean (Nat.lt_of_le_of_lt hdepth (by decide)) htext
  rw [unmarshal, hparse]
  simp only [bind, Except.bind, fill]
  cases (s.members x).foldlM r.setMember r.zero with
  | none => rfl
  | some y => rfl

theorem unmarshal_marshal {s : Record α} {r : Record β} {x : α} {y : β} (hs : s.Sends x)
    (hr : (s.members x).foldlM r.setMember r.zero = some y) :
    ∃ text, s.marshal x = .ok text ∧ r.unmarshal text = .ok y := by
  obtain ⟨text, hmarshal, hunmarshal⟩ := unmarshal_members (r := r) hs
  rw [hr] at hunmarshal
  exact ⟨text, hmarshal, hunmarshal⟩

end Record

namespace Field

variable {α β : Type}

def text (name : String) (get : α → String) (put : String → α → α) : Field α where
  name := ascii name
  get x := .string (utf8 (get x))
  set
    | .string s, x => some (put (ofUTF8 s) x)
    | .null, x => some x
    | _, _ => none

def flag (name : String) (get : α → Bool) (put : Bool → α → α) : Field α where
  name := ascii name
  get x := .bool (get x)
  set
    | .bool b, x => some (put b x)
    | .null, x => some x
    | _, _ => none

/-- An item of a slice is read into the item that is there, or else into an empty one. -/
def fillItems (r : Record β) : List β → List Value → Option (List β)
  | _, [] => some []
  | old, v :: rest => do
    let head ← r.fill (old.headD r.zero) v
    let tail ← fillItems r old.tail rest
    return head :: tail

def slice (name : String) (r : Record β) (get : α → List β) (put : List β → α → α) : Field α where
  name := ascii name
  get x := .array ((get x).map fun y => .object (r.members y))
  set
    | .array items, x => (fillItems r (get x) items).map fun ys => put ys x
    | .null, x => some (put [] x)
    | _, _ => none

theorem fillItems_members {s r : Record β}
    (h : ∀ y, (s.members y).foldlM r.setMember r.zero = some y) (ys : List β) :
    fillItems r [] (ys.map fun y => .object (s.members y)) = some ys := by
  induction ys with
  | nil => rfl
  | cons y ys ih =>
    rw [List.map_cons, fillItems, List.headD_nil, Record.fill, h y]
    simp only [List.tail_nil, ih]
    rfl

end Field

end Silk.GoJson
