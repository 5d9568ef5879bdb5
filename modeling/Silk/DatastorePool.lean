import Silk.GoJsonRoundTrip
import Silk.SortedMap
import Mathlib.Data.List.Lex

/-!
# Containers and their JSON form

The datastore keeps a map from handles to containers as one JSON object. The
decoder fills the fields it knows, ignores the others, and turns the metadata
into generic values; the number type of these is not modelled, only that a
literal is read as some literal or is out of range.
-/

namespace Silk.Datastore

open GoJson

abbrev Metadata := Option (SortedMap GoString Value)

structure Container where
  handle : GoString
  ip : GoString
  metadata : Metadata

def Container.zero : Container := ⟨[], [], none⟩

abbrev Pool := Option (SortedMap GoString Container)

def Pool.contents (pool : Pool) : SortedMap GoString Container := pool.getD .empty

def metadataValue : Metadata → Value
  | none => .null
  | some m => .object m.entries

def Container.value (c : Container) : Value :=
  .object [(ascii "handle", .string c.handle), (ascii "ip", .string c.ip),
    (ascii "metadata", metadataValue c.metadata)]

def Pool.value : Pool → Value
  | none => .null
  | some m => .object (m.entries.map fun e => (e.1, e.2.value))

def encode (pool : Pool) : Except GoString (List UInt8) := (Pool.value pool).print

inductive Field where
  | handle | ip | metadata

def fields : List (GoString × Field) :=
  [(ascii "handle", .handle), (ascii "ip", .ip), (ascii "metadata", .metadata)]

def equalFold (name key : GoString) : Bool :=
  name.length = key.length && (name.zip key).all fun p => p.1 &&& 0xdf = p.2 &&& 0xdf

/-- The field with exactly this name, or else the first one with the name in another case. -/
def findField (key : GoString) : Option Field :=
  ((fields.find? fun f => f.1 = key).orElse fun _ => fields.find? fun f => equalFold f.1 key).map
    Prod.snd

section Decoding

variable (float64 : Number → Option Number)

mutual

/-- The generic value of a JSON value; later members of an object replace earlier ones. -/
def toInterface : Value → Option Value
  | .number n => (float64 n).map .number
  | .array items => (toInterfaces items).map .array
  | .object members => (intoMap members .empty).map fun m => .object m.entries
  | v => some v

def toInterfaces : List Value → Option (List Value)
  | [] => some []
  | v :: rest => (toInterface v).bind fun v => (toInterfaces rest).map (v :: ·)

def intoMap : List (GoString × Value) → SortedMap GoString Value → Option (SortedMap GoString Value)
  | [], m => some m
  | (k, v) :: rest, m => (toInterface v).bind fun v => intoMap rest (m.insert k v)

end

def setField (c : Container) : Field → Value → Option Container
  | .handle, .string s => some { c with handle := s }
  | .handle, .null => some c
  | .ip, .string s => some { c with ip := s }
  | .ip, .null => some c
  | .metadata, .null => some { c with metadata := none }
  | .metadata, .object members =>
    (intoMap float64 members (c.metadata.getD .empty)).map fun m => { c with metadata := some m }
  | _, _ => none

def setFields (c : Container) : List (GoString × Value) → Option Container
  | [] => some c
  | (k, v) :: rest =>
    match findField k with
    | some f => (setField float64 c f v).bind fun c => setFields c rest
    | none => setFields c rest

def decodeContainer : Value → Option Container
  | .null => some .zero
  | .object members => setFields float64 .zero members
  | _ => none

def intoPool (m : SortedMap GoString Container) :
    List (GoString × Value) → Option (SortedMap GoString Container)
  | [] => some m
  | (k, v) :: rest => (decodeContainer float64 v).bind fun c => intoPool (m.insert k c) rest

def unmarshal : Value → Except DecodeError Pool
  | .null => .ok none
  | .object members =>
    match intoPool float64 .empty members with
    | some m => .ok (some m)
    | none => .error .unmarshalType
  | _ => .error .unmarshalType

def decode (input : Input) : Except DecodeError Pool := readValue input >>= unmarshal float64

end Decoding

structure Container.Plain (c : Container) : Prop where
  handle : ValidUTF8 c.handle
  ip : ValidUTF8 c.ip
  metadata : ∀ m, c.metadata = some m →
    ∀ e ∈ m.entries, ValidUTF8 e.1 ∧ ∃ s, e.2 = .string s ∧ ValidUTF8 s

def PlainPool (m : SortedMap GoString Container) : Prop :=
  ∀ e ∈ m.entries, ValidUTF8 e.1 ∧ e.2.Plain

theorem PlainPool.empty : PlainPool .empty := fun _ he => absurd he List.not_mem_nil

theorem PlainPool.insert {m : SortedMap GoString Container} (h : PlainPool m) {c : Container}
    (hc : c.Plain) : PlainPool (m.insert c.handle c) := by
  intro e he
  rcases Sorted.mem_insertEntry he with rfl | he
  · exact ⟨hc.handle, hc⟩
  · exact h e he

theorem PlainPool.erase {m : SortedMap GoString Container} (h : PlainPool m) (k : GoString) :
    PlainPool (m.erase k) := fun e he => h e (List.mem_filter.mp he).1

structure Readable (v : Value) (depth : ℕ) : Prop where
  print : ∃ text, v.print = .ok text
  depth : v.depth ≤ depth
  reread : v.reread = v

theorem Readable.string {s : GoString} (h : ValidUTF8 s) : Readable (.string s) 0 :=
  ⟨⟨_, rfl⟩, Nat.le_refl 0, by rw [Value.reread, sanitize_eq h]⟩

theorem Readable.mono {v : Value} {m n : ℕ} (h : Readable v m) (hmn : m ≤ n) : Readable v n :=
  ⟨h.print, h.depth.trans hmn, h.reread⟩

theorem Readable.object {members : List (GoString × Value)} {n : ℕ}
    (h : ∀ m ∈ members, ValidUTF8 m.1 ∧ Readable m.2 n) : Readable (.object members) (n + 1) := by
  refine ⟨print_object_ok fun m hm => (h m hm).2.print, ?_, ?_⟩
  · have hle := depthMembers_le fun m hm => (h m hm).2.depth
    rw [Value.depth]
    omega
  · rw [Value.reread, rereadMembers_eq fun m hm => ⟨(h m hm).1, (h m hm).2.reread⟩]

theorem Container.Plain.readable {c : Container} (h : c.Plain) : Readable c.value 2 := by
  have hmetadata : Readable (metadataValue c.metadata) 1 := by
    cases hm : c.metadata with
    | none => exact ⟨⟨_, rfl⟩, Nat.zero_le 1, rfl⟩
    | some m =>
      refine Readable.object fun e he => ?_
      obtain ⟨hk, s, hv, hs⟩ := h.metadata m hm e he
      rw [hv]
      exact ⟨hk, .string hs⟩
  refine Readable.object fun e he => ?_
  simp only [List.mem_cons, List.not_mem_nil, or_false] at he
  rcases he with rfl | rfl | rfl
  · exact ⟨show ValidUTF8 (ascii "handle") by decide, (Readable.string h.handle).mono (by decide)⟩
  · exact ⟨show ValidUTF8 (ascii "ip") by decide, (Readable.string h.ip).mono (by decide)⟩
  · exact ⟨show ValidUTF8 (ascii "metadata") by decide, hmetadata⟩

theorem PlainPool.readable {m : SortedMap GoString Container} (h : PlainPool m) :
    Readable (Pool.value (some m)) 3 := by
  refine Readable.object fun e he => ?_
  obtain ⟨e', he', rfl⟩ := List.mem_map.mp he
  exact ⟨(h e' he').1, (h e' he').2.readable⟩

section Decoding

variable {float64 : Number → Option Number}

theorem intoMap_strings {entries : List (GoString × Value)}
    (h : ∀ e ∈ entries, ∃ s, e.2 = .string s) (m : SortedMap GoString Value) :
    intoMap float64 entries m = some (entries.foldl (fun m e => m.insert e.1 e.2) m) := by
  induction entries generalizing m with
  | nil => rfl
  | cons e entries ih =>
    obtain ⟨⟨s, hs⟩, hrest⟩ := List.forall_mem_cons.mp h
    obtain ⟨k, v⟩ := e
    cases hs
    exact ih hrest (m.insert k (.string s))

theorem Container.Plain.decode {c : Container} (h : c.Plain) :
    decodeContainer float64 c.value = some c := by
  have hfields : setField float64 ⟨c.handle, c.ip, none⟩ .metadata (metadataValue c.metadata) =
      some c := by
    obtain ⟨handle, ip, metadata⟩ := c
    cases metadata with
    | none => rfl
    | some m =>
      have hstrings : ∀ e ∈ m.entries, ∃ s, e.2 = .string s := fun e he =>
        (h.metadata m rfl e he).2.imp fun s hs => hs.1
      simp only [setField, metadataValue, Option.getD_none, intoMap_strings hstrings,
        SortedMap.foldl_insert, Option.map_some]
  calc decodeContainer float64 c.value
      = (setField float64 ⟨c.handle, c.ip, none⟩ .metadata (metadataValue c.metadata)).bind
          fun c => setFields float64 c [] := rfl
    _ = some c := by rw [hfields]; rfl

theorem intoPool_values {entries : List (GoString × Container)} (h : ∀ e ∈ entries, e.2.Plain)
    (m : SortedMap GoString Container) :
    intoPool float64 m (entries.map fun e => (e.1, e.2.value)) =
      some (entries.foldl (fun m e => m.insert e.1 e.2) m) := by
  induction entries generalizing m with
  | nil => rfl
  | cons e entries ih =>
    obtain ⟨he, hrest⟩ := List.forall_mem_cons.mp h
    rw [List.map_cons, intoPool, he.decode, Option.bind_some, ih hrest]
    rfl

/-- The text of a plain pool is read as that pool, whatever stands behind it. -/
theorem PlainPool.decode_encode {m : SortedMap GoString Container} (h : PlainPool m)
    (float64 : Number → Option Number) :
    ∃ text, encode (some m) = .ok text ∧
      ∀ rest failure, decode float64 ⟨text ++ rest, failure⟩ = .ok (some m) := by
  obtain ⟨⟨text, htext⟩, hdepth, hreread⟩ := h.readable
  refine ⟨text, htext, fun rest failure => ?_⟩
  have hvalue : readValue ⟨text ++ rest, failure⟩ = .ok (Pool.value (some m)) := by
    rw [readValue_print htext (hdepth.trans (by decide))]
    exact congrArg _ hreread
  have hpool : intoPool float64 .empty (m.entries.map fun e => (e.1, e.2.value)) = some m := by
    rw [intoPool_values fun e he => (h e he).2, m.foldl_insert]
  rw [decode, hvalue]
  simp only [Pool.value, bind, Except.bind, unmarshal, hpool]

end Decoding

end Silk.Datastore
