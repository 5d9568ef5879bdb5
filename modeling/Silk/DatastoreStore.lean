import Silk.DatastorePool
import Silk.GoNetParse
import Silk.ResumptionPlan

/-!
# The file-backed store

`Add`, `Delete` and `ReadAll` open the store's file, which takes its lock, read
the whole map from it, and write the whole map back: seek to the start, truncate,
encode, write. A fault makes one file operation fail; a failing read or write may
have moved some bytes, a failing truncation may have taken effect.
-/

namespace Silk.Datastore

open GoJson Resumption

/-- The store's file, the offset of the handle that has it open, and its lock. Opening creates
a missing file, so an empty file stands for it. -/
structure Disk where
  bytes : List UInt8
  cursor : ℕ
  locked : Bool

inductive FileCall where
  | openLocked
  | seek (offset : ℕ)
  | read
  | truncate (size : ℕ)
  | write (data : List UInt8)
  | close

/-- A decoder reads until its value is complete or the file ends; these reads are one call. -/
abbrev FileAnswer : FileCall → Type
  | .read => Input
  | .openLocked | .seek _ | .truncate _ | .write _ | .close => Unit

structure FileFault where
  text : GoString
  applied : Bool
  count : ℕ

abbrev FileChoice := Option FileFault

namespace Disk

def resized (bytes : List UInt8) (size : ℕ) : List UInt8 :=
  bytes.take size ++ List.replicate (size - bytes.length) 0

def openLocked (d : Disk) : Disk := ⟨d.bytes, 0, true⟩

def seek (d : Disk) (offset : ℕ) : Disk := ⟨d.bytes, offset, d.locked⟩

def read (d : Disk) (count : ℕ) : Disk := ⟨d.bytes, d.cursor + count, d.locked⟩

def truncate (d : Disk) (size : ℕ) : Disk := ⟨resized d.bytes size, d.cursor, d.locked⟩

def write (d : Disk) (data : List UInt8) : Disk :=
  ⟨resized d.bytes d.cursor ++ data ++ d.bytes.drop (d.cursor + data.length),
    d.cursor + data.length, d.locked⟩

def close (d : Disk) : Disk := ⟨d.bytes, d.cursor, false⟩

def ahead (d : Disk) : List UInt8 := d.bytes.drop d.cursor

def exec (ch : FileChoice) (d : Disk) : (c : FileCall) → Except GoString (FileAnswer c) × Disk
  | .openLocked =>
    match ch with
    | none => (.ok (), d.openLocked)
    | some f => (.error f.text, d)
  | .seek offset =>
    match ch with
    | none => (.ok (), d.seek offset)
    | some f => (.error f.text, if f.applied then d.seek offset else d)
  | .read =>
    match ch with
    | none => (.ok ⟨d.ahead, none⟩, d.read d.ahead.length)
    | some f =>
      (.ok ⟨d.ahead.take f.count, some f.text⟩, d.read (d.ahead.take f.count).length)
  | .truncate size =>
    match ch with
    | none => (.ok (), d.truncate size)
    | some f => (.error f.text, if f.applied then d.truncate size else d)
  | .write data =>
    match ch with
    | none => (.ok (), d.write data)
    | some f => (.error f.text, d.write (data.take f.count))
  | .close =>
    match ch with
    | none => (.ok (), d.close)
    | some f => (.error f.text, d.close)

end Disk

abbrev FileProgram (ε : Type) : Type → Type := Fallible FileCall FileAnswer GoString ε

def issue (c : FileCall) : FileProgram GoString (FileAnswer c) := Fallible.request c id

def decodeErrorText : DecodeError → GoString
  | .eof => ascii "EOF"
  | .unexpectedEOF => ascii "unexpected EOF"
  | .invalid => ascii "invalid character"
  | .read err => err
  | .unmarshalType => ascii "json: cannot unmarshal"

def ignoreEOF : Except DecodeError Pool → Except GoString Pool
  | .ok pool => .ok pool
  | .error .eof => .ok (some .empty)
  | .error e => .error (decodeErrorText e)

def decodeAll (float64 : Number → Option Number) : FileProgram GoString Pool := do
  issue (.seek 0)
  let input ← issue .read
  Fallible.lift (ignoreEOF (decode float64 input))

def encodeAndOverwrite (pool : Pool) : FileProgram GoString Unit := do
  issue (.seek 0)
  issue (.truncate 0)
  let text ← Fallible.lift (encode pool)
  issue (.write (text ++ [0x0a]))

inductive Failure where
  | error (text : GoString)
  | panic (text : GoString)

def context (text : String) (err : GoString) : Failure := .error (ascii text ++ err)

def parseableIP (ip : GoString) : Bool :=
  (GoNet.parseIP (String.ofList (ip.map fun b => Char.ofNat b.toNat))).isSome

def validate (handle ip : GoString) : Option GoString :=
  if handle = [] then some (ascii "invalid handle")
  else if parseableIP ip = false then some (ascii "invalid ip: " ++ ip)
  else none

def withLock {ε α : Type} (opening : GoString → ε) (body : FileProgram ε α) : FileProgram ε α := do
  Fallible.wrap opening (issue .openLocked)
  let res ← Fallible.attempt body
  let _ ← Fallible.attempt (issue .close)
  Fallible.lift res

section Store

variable (float64 : Number → Option Number)

/-- A container is put under its handle; a nil map does not take it. -/
def insertContainer (handle ip : GoString) (metadata : Metadata) : Pool → Except Failure Pool
  | none => .error (.panic (ascii "assignment to entry in nil map"))
  | some m => .ok (some (m.insert handle ⟨handle, ip, metadata⟩))

def add (handle ip : GoString) (metadata : Metadata) : FileProgram Failure Unit :=
  match validate handle ip with
  | some err => throw (.error err)
  | none => withLock (context "open lock: ") do
    let pool ← Fallible.wrap (context "decoding file: ") (decodeAll float64)
    let pool ← Fallible.lift (insertContainer handle ip metadata pool)
    Fallible.wrap (context "encode and overwrite: ") (encodeAndOverwrite pool)

/-- `Delete` returns the container next to its error. -/
structure DeleteFailure where
  deleted : Container
  failure : Failure

def delete (handle : GoString) : FileProgram DeleteFailure Container :=
  if handle = [] then throw ⟨.zero, .error (ascii "invalid handle")⟩
  else withLock (fun err => ⟨.zero, context "open lock: " err⟩) do
    let pool ← Fallible.wrap (fun err => ⟨.zero, context "decoding file: " err⟩) (decodeAll float64)
    let deleted := (pool.contents.get handle).getD .zero
    Fallible.wrap (fun err => ⟨deleted, context "encode and overwrite: " err⟩)
      (encodeAndOverwrite (pool.map (·.erase handle)))
    pure deleted

def readAll : FileProgram Failure Pool :=
  withLock (context "open lock: ")
    (Fallible.wrap (context "decoding file: ") (decodeAll float64))

inductive Request where
  | add (handle ip : GoString) (metadata : Metadata)
  | delete (handle : GoString)
  | readAll

inductive Answer where
  | added
  | deleted (container : Container)
  | all (pool : Pool)

def serve : Request → FileProgram Failure Answer
  | .add handle ip metadata => do
    add float64 handle ip metadata
    pure .added
  | .delete handle => do
    let deleted ← Fallible.wrap DeleteFailure.failure (delete float64 handle)
    pure (.deleted deleted)
  | .readAll => do
    let pool ← readAll float64
    pure (.all pool)

end Store

end Silk.Datastore
