import Silk.GoJsonText

/-!
# The Go `json` encoder and decoder

Values are printed without blanks. The decoder reads one byte at a time: the
arrays and objects that are still open form a stack, and the mode says what may
come next. It stops at the end of the first value and never looks at what
follows.
-/

namespace Silk.GoJson

inductive NumberState where
  | start | minus | zero | digits | point | fraction | exponent | sign | power

namespace NumberState

def isDigit (b : UInt8) : Bool := 0x30 ≤ b && b ≤ 0x39

def leadingDigit (b : UInt8) : Option NumberState :=
  if b = 0x30 then some .zero else if isDigit b then some .digits else none

def exponentMark (b : UInt8) : Option NumberState :=
  if b = 0x65 ∨ b = 0x45 then some .exponent else none

def step : NumberState → UInt8 → Option NumberState
  | .start, b => if b = 0x2d then some .minus else leadingDigit b
  | .minus, b => leadingDigit b
  | .zero, b => if b = 0x2e then some .point else exponentMark b
  | .digits, b =>
    if isDigit b then some .digits else if b = 0x2e then some .point else exponentMark b
  | .point, b => if isDigit b then some .fraction else none
  | .fraction, b => if isDigit b then some .fraction else exponentMark b
  | .exponent, b =>
    if b = 0x2b ∨ b = 0x2d then some .sign else if isDigit b then some .power else none
  | .sign, b | .power, b => if isDigit b then some .power else none

def accepts : NumberState → Bool
  | .zero | .digits | .fraction | .power => true
  | _ => false

end NumberState

def isNumber (lit : List UInt8) : Bool := (lit.foldlM NumberState.step .start).any (·.accepts)

abbrev Number := { lit : List UInt8 // isNumber lit = true }

/-- A value as the encoder sees it. Some Go values have no JSON form. -/
inductive Value where
  | null
  | bool (b : Bool)
  | number (n : Number)
  | string (s : GoString)
  | array (items : List Value)
  | object (members : List (GoString × Value))
  | unsupported (reason : GoString)

theorem Value.induction {P : Value → Prop} (null : P .null) (bool : ∀ b, P (.bool b))
    (number : ∀ n, P (.number n)) (string : ∀ s, P (.string s))
    (array : ∀ items, (∀ v ∈ items, P v) → P (.array items))
    (object : ∀ members, (∀ m ∈ members, P m.2) → P (.object members))
    (unsupported : ∀ reason, P (.unsupported reason)) (v : Value) : P v :=
  @Value.rec P (fun items => ∀ v ∈ items, P v) (fun members => ∀ m ∈ members, P m.2)
    (fun m => P m.2) null bool number string array object unsupported
    (fun _ hv => absurd hv List.not_mem_nil)
    (fun _ _ hv hrest => List.forall_mem_cons.mpr ⟨hv, hrest⟩)
    (fun _ hm => absurd hm List.not_mem_nil)
    (fun _ _ hm hrest => List.forall_mem_cons.mpr ⟨hm, hrest⟩) (fun _ _ hv => hv) v

def printString (s : GoString) : List UInt8 := quote :: (escape s ++ [quote])

mutual

def Value.print : Value → Except GoString (List UInt8)
  | .null => .ok (ascii "null")
  | .bool true => .ok (ascii "true")
  | .bool false => .ok (ascii "false")
  | .number n => .ok n.1
  | .string s => .ok (printString s)
  | .array [] => .ok [0x5b, 0x5d]
  | .array (v :: rest) => do
    let head ← v.print
    let tail ← printItems rest
    return 0x5b :: (head ++ tail ++ [0x5d])
  | .object [] => .ok [0x7b, 0x7d]
  | .object ((k, v) :: rest) => do
    let head ← v.print
    let tail ← printMembers rest
    return 0x7b :: (printString k ++ 0x3a :: head ++ tail ++ [0x7d])
  | .unsupported reason => .error reason

def printItems : List Value → Except GoString (List UInt8)
  | [] => .ok []
  | v :: rest => do
    let head ← v.print
    let tail ← printItems rest
    return 0x2c :: (head ++ tail)

def printMembers : List (GoString × Value) → Except GoString (List UInt8)
  | [] => .ok []
  | (k, v) :: rest => do
    let head ← v.print
    let tail ← printMembers rest
    return 0x2c :: (printString k ++ 0x3a :: head ++ tail)

end

mutual

def Value.depth : Value → ℕ
  | .array items => 1 + depthItems items
  | .object members => 1 + depthMembers members
  | _ => 0

def depthItems : List Value → ℕ
  | [] => 0
  | v :: rest => max v.depth (depthItems rest)

def depthMembers : List (GoString × Value) → ℕ
  | [] => 0
  | (_, v) :: rest => max v.depth (depthMembers rest)

end

mutual

/-- The value a printed value is read as: its strings lose the bytes that are not UTF-8. -/
def Value.reread : Value → Value
  | .string s => .string (sanitize s)
  | .array items => .array (rereadItems items)
  | .object members => .object (rereadMembers members)
  | v => v

def rereadItems : List Value → List Value
  | [] => []
  | v :: rest => v.reread :: rereadItems rest

def rereadMembers : List (GoString × Value) → List (GoString × Value)
  | [] => []
  | (k, v) :: rest => (sanitize k, v.reread) :: rereadMembers rest

end

inductive Frame where
  | array (items : List Value)
  | object (members : List (GoString × Value)) (key : Option GoString)

namespace Frame

def add (v : Value) : Frame → Frame
  | .array items => .array (items ++ [v])
  | .object members (some k) => .object (members ++ [(k, v)]) none
  | .object members none => .object members none

def setKey (k : GoString) : Frame → Frame
  | .array items => .array items
  | .object members _ => .object members (some k)

def value : Frame → Value
  | .array items => .array items
  | .object members _ => .object members

end Frame

inductive Mode where
  | value
  | firstItem
  | firstKey
  | key
  | colon
  | next
  | string (isKey : Bool) (raw : List UInt8) (position : Quoted)
  | literal (left : List UInt8) (v : Value)
  | number (raw : List UInt8) (state : NumberState)
  | ended (v : Value)

structure State where
  frames : List Frame
  mode : Mode

inductive Progress where
  | more (s : State)
  -- the byte was the last one of the value, or the first one after it
  | closed (v : Value)
  | ended (v : Value)
  | bad

def isSpace (b : UInt8) : Bool := b = 0x20 || b = 0x09 || b = 0x0d || b = 0x0a

def deliver (v : Value) : List Frame → State
  | [] => ⟨[], .ended v⟩
  | f :: fs => ⟨f.add v :: fs, .next⟩

def closeFrame (f : Frame) : List Frame → Progress
  | [] => .closed f.value
  | g :: fs => .more (deliver f.value (g :: fs))

section

variable (limit : ℕ)

def openFrame (frames : List Frame) (f : Frame) (mode : Mode) : Progress :=
  if frames.length < limit then .more ⟨f :: frames, mode⟩ else .bad

def beginValue (frames : List Frame) (b : UInt8) : Progress :=
  if b = quote then .more ⟨frames, .string false [] (.plain none)⟩
  else if b = 0x7b then openFrame limit frames (.object [] none) .firstKey
  else if b = 0x5b then openFrame limit frames (.array []) .firstItem
  else if b = 0x74 then .more ⟨frames, .literal (ascii "rue") (.bool true)⟩
  else if b = 0x66 then .more ⟨frames, .literal (ascii "alse") (.bool false)⟩
  else if b = 0x6e then .more ⟨frames, .literal (ascii "ull") .null⟩
  else match NumberState.start.step b with
    | some st => .more ⟨frames, .number [b] st⟩
    | none => .bad

def beginKey (frames : List Frame) (b : UInt8) : Progress :=
  if b = quote then .more ⟨frames, .string true [] (.plain none)⟩ else .bad

def after : State → UInt8 → Progress
  | ⟨_, .ended v⟩, _ => .ended v
  | ⟨.array items :: fs, .next⟩, b =>
    if b = 0x2c then .more ⟨.array items :: fs, .value⟩
    else if b = 0x5d then closeFrame (.array items) fs
    else if isSpace b then .more ⟨.array items :: fs, .next⟩
    else .bad
  | ⟨.object members key :: fs, .next⟩, b =>
    if b = 0x2c then .more ⟨.object members key :: fs, .key⟩
    else if b = 0x7d then closeFrame (.object members key) fs
    else if isSpace b then .more ⟨.object members key :: fs, .next⟩
    else .bad
  | _, _ => .bad

def endString (isKey : Bool) (s : GoString) : List Frame → State
  | f :: fs => if isKey then ⟨f.setKey s :: fs, .colon⟩ else deliver (.string s) (f :: fs)
  | [] => deliver (.string s) []

def goOnString (frames : List Frame) (isKey : Bool) (raw : List UInt8) :
    Option (List UInt8 × Quoted) → Progress
  | some (_, q) => .more ⟨frames, .string isKey raw q⟩
  | none => .bad

def inString (frames : List Frame) (isKey : Bool) (raw : List UInt8) : Quoted → UInt8 → Progress
  | .plain high, b =>
    if b = quote then
      match unquote raw with
      | some s => .more (endString isKey s frames)
      | none => .bad
    else goOnString frames isKey (raw ++ [b]) ((Quoted.plain high).step b)
  | q, b => goOnString frames isKey (raw ++ [b]) (q.step b)

def inNumber (frames : List Frame) (raw : List UInt8) (st : NumberState) (b : UInt8) : Progress :=
  match st.step b with
  | some st => .more ⟨frames, .number (raw ++ [b]) st⟩
  | none => if h : isNumber raw = true then after (deliver (.number ⟨raw, h⟩) frames) b else .bad

def inLiteral (frames : List Frame) (v : Value) (b : UInt8) : List UInt8 → Progress
  | [] => .bad
  | [c] => if b = c then .more (deliver v frames) else .bad
  | c :: left => if b = c then .more ⟨frames, .literal left v⟩ else .bad

def step : State → UInt8 → Progress
  | ⟨frames, .value⟩, b => if isSpace b then .more ⟨frames, .value⟩ else beginValue limit frames b
  | ⟨frames, .firstItem⟩, b =>
    if isSpace b then .more ⟨frames, .firstItem⟩
    else if b = 0x5d then after ⟨frames, .next⟩ b
    else beginValue limit frames b
  | ⟨frames, .firstKey⟩, b =>
    if isSpace b then .more ⟨frames, .firstKey⟩
    else if b = 0x7d then after ⟨frames, .next⟩ b
    else beginKey frames b
  | ⟨frames, .key⟩, b => if isSpace b then .more ⟨frames, .key⟩ else beginKey frames b
  | ⟨frames, .colon⟩, b =>
    if isSpace b then .more ⟨frames, .colon⟩
    else if b = 0x3a then .more ⟨frames, .value⟩
    else .bad
  | ⟨frames, .string isKey raw q⟩, b => inString frames isKey raw q b
  | ⟨frames, .literal left v⟩, b => inLiteral frames v b left
  | ⟨frames, .number raw st⟩, b => inNumber frames raw st b
  | ⟨frames, .next⟩, b => after ⟨frames, .next⟩ b
  | ⟨frames, .ended v⟩, b => after ⟨frames, .ended v⟩ b

inductive Result where
  | value (v : Value) (rest : List UInt8)
  | more (s : State)
  | bad

def run : State → List UInt8 → Result
  | s, [] => .more s
  | s, b :: rest =>
    match step limit s b with
    | .more s => run s rest
    | .closed v => .value v rest
    | .ended v => .value v (b :: rest)
    | .bad => .bad

end

def State.start : State := ⟨[], .value⟩

/-- What a reader gives: bytes, and an error behind them unless the file ends. -/
structure Input where
  bytes : List UInt8
  failure : Option GoString

inductive DecodeError where
  | eof
  | unexpectedEOF
  | invalid
  | read (err : GoString)
  | unmarshalType
deriving DecidableEq

def maxNestingDepth : ℕ := 10000

/-- At the end of the file the scanner gets one more blank. -/
def atEnd (bytes : List UInt8) (s : State) : Except DecodeError Value :=
  match step maxNestingDepth s 0x20 with
  | .ended v => .ok v
  | _ => .error (if bytes.all isSpace then .eof else .unexpectedEOF)

def readValue (input : Input) : Except DecodeError Value :=
  match run maxNestingDepth .start input.bytes with
  | .value v _ => .ok v
  | .bad => .error .invalid
  | .more s =>
    match input.failure with
    | some err => .error (.read err)
    | none => atEnd input.bytes s

end Silk.GoJson
