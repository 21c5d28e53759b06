import EditorTabs.Text.Hex

/-!
# UTF-8

Encoding is the core library's, one to four bytes a character; half of a surrogate pair has no
bytes, and a question mark stands for it. Decoding runs a machine over the bytes: between characters
it reads a lead byte, and inside a character it knows the bounds of the next byte and how many more
are owed. The first ill-formed sequence is reported with its place, its bytes and the reason: a byte
that starts nothing, a wrong byte inside a character (which is no part of the sequence), or the end
of the text inside a character.
-/
namespace EditorTabs.Text.Utf8

/-- The bytes of a code point. Half of a surrogate pair has none of its own, and a question mark
stands for it. -/
def encodePoint : CodePoint → List UInt8
  | .char c => String.utf8EncodeChar c
  | .half _ => [0x3F]

def encode (s : Text) : List UInt8 :=
  s.flatMap encodePoint

inductive Reason where
  | invalidStart
  | invalidContinuation
  | unexpectedEnd
  deriving DecidableEq, Repr

/-- The first ill-formed sequence of a text: where it starts and its bytes. -/
structure Fault where
  start : Nat
  bytes : List UInt8
  reason : Reason
  deriving DecidableEq, Repr

/-- A character that is not complete yet: the position of its lead byte, the bytes so far, the
value so far, the bounds of the next byte, and how many bytes are owed after that one. -/
structure Pending where
  start : Nat
  bytes : List UInt8
  value : Nat
  low : Nat
  high : Nat
  more : Nat

/-- What a byte between characters does. -/
inductive Opening where
  | char (c : CodePoint)
  | pending (p : Pending)
  | invalid

/-- A byte between characters is a character of its own, leads one, or starts nothing. The bounds
of the second byte rule out overlong forms, surrogates and values above the last code point. -/
def opening (pos : Nat) (byte : UInt8) : Opening :=
  let b := byte.toNat
  let lead (value low high more : Nat) : Opening :=
    .pending ⟨pos, [byte], value, low, high, more⟩
  if b < 0x80 then .char (.ofNat b)
  else if b < 0xC2 then .invalid
  else if b < 0xE0 then lead (b - 0xC0) 0x80 0xBF 0
  else if b = 0xE0 then lead 0 0xA0 0xBF 1
  else if b = 0xED then lead 13 0x80 0x9F 1
  else if b < 0xF0 then lead (b - 0xE0) 0x80 0xBF 1
  else if b = 0xF0 then lead 0 0x90 0xBF 2
  else if b < 0xF4 then lead (b - 0xF0) 0x80 0xBF 2
  else if b = 0xF4 then lead 4 0x80 0x8F 2
  else .invalid

def Pending.take? (p : Pending) (byte : UInt8) : Option Opening :=
  if p.low ≤ byte.toNat ∧ byte.toNat ≤ p.high then
    let value := p.value * 64 + byte.toNat % 64
    match p.more with
    | 0 => some (.char (.ofNat value))
    | more + 1 => some (.pending ⟨p.start, p.bytes ++ [byte], value, 0x80, 0xBF, more⟩)
  else none

/-- The characters of the bytes from a position on, or the first ill-formed sequence. -/
def decodeFrom : Nat → Option Pending → List UInt8 → Except Fault Text
  | _, none, [] => .ok []
  | _, some p, [] => .error ⟨p.start, p.bytes, .unexpectedEnd⟩
  | pos, none, byte :: rest =>
    match opening pos byte with
    | .char c => (decodeFrom (pos + 1) none rest).map (c :: ·)
    | .pending p => decodeFrom (pos + 1) (some p) rest
    | .invalid => .error ⟨pos, [byte], .invalidStart⟩
  | pos, some p, byte :: rest =>
    match p.take? byte with
    | some (.char c) => (decodeFrom (pos + 1) none rest).map (c :: ·)
    | some (.pending q) => decodeFrom (pos + 1) (some q) rest
    | some .invalid | none => .error ⟨p.start, p.bytes, .invalidContinuation⟩

def decode (bytes : List UInt8) : Except Fault Text :=
  decodeFrom 0 none bytes

/-- The characters of the well-formed parts of a byte sequence; ill-formed parts are dropped, and
a byte that breaks a character off is read again as the start of the next. -/
def decodeDropping : Option Pending → List UInt8 → Text
  | _, [] => []
  | pending, byte :: rest =>
    match pending.bind (·.take? byte) with
    | some (.char c) => c :: decodeDropping none rest
    | some (.pending q) => decodeDropping (some q) rest
    | some .invalid | none =>
      match opening 0 byte with
      | .char c => c :: decodeDropping none rest
      | .pending q => decodeDropping (some q) rest
      | .invalid => decodeDropping none rest

def Reason.message : Reason → Text
  | .invalidStart => "invalid start byte"
  | .invalidContinuation => "invalid continuation byte"
  | .unexpectedEnd => "unexpected end of data"

/-- The wording of a fault: one byte is shown, of several only the place. -/
def Fault.message (fault : Fault) : Text :=
  let place :=
    match fault.bytes with
    | [byte] =>
      "byte 0x" ++ hexDigits 2 byte.toNat ++ " in position " ++ Text.ofNat fault.start
    | bytes =>
      "bytes in position " ++ Text.ofNat fault.start ++ "-"
        ++ Text.ofNat (fault.start + bytes.length - 1)
  "'utf-8' codec can't decode " ++ place ++ ": " ++ fault.reason.message

end EditorTabs.Text.Utf8
