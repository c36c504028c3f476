import Yuml.Text.Basic

namespace Yuml.Utf8

inductive Fault
  | startByte
  | continuationByte
  | endOfData
  deriving DecidableEq, Repr

def Fault.wording : Fault → Text
  | startByte => "invalid start byte"
  | continuationByte => "invalid continuation byte"
  | endOfData => "unexpected end of data"

structure Malformed where
  fault : Fault
  first : UInt8
  position : Nat
  length : Nat
  deriving DecidableEq, Repr

def hexByte (b : UInt8) : Text :=
  [Nat.digitChar (b.toNat / 16), Nat.digitChar (b.toNat % 16)]

def Malformed.message (e : Malformed) : Text :=
  let place : Text :=
    if e.length = 1 then
      "byte 0x" ++ hexByte e.first ++ " in position " ++ Text.ofNat e.position
    else
      "bytes in position " ++ Text.ofNat e.position ++ "-" ++
        Text.ofNat (e.position + e.length - 1)
  "'utf-8' codec can't decode " ++ place ++ ": " ++ e.fault.wording

/-- A character whose first bytes have been read: `owed` further bytes are due, the next of them
between `low` and `high`; `value` holds the bits read so far, `seen` counts the bytes read. -/
structure Begun where
  first : UInt8
  seen : Nat
  owed : Nat
  low : UInt8
  high : UInt8
  value : Nat
  deriving DecidableEq, Repr

/-- A decoder between two bytes. The first two bytes of a surrogate are held: no third byte makes a
character of them, but they are refused only when it comes or when the data ends. -/
inductive State
  | ready
  | begun (b : Begun)
  | surrogate (first : UInt8)
  deriving DecidableEq, Repr

inductive Outcome
  | character (c : Char)
  | more (s : State)
  | refused (fault : Fault) (first : UInt8) (length : Nat)
  deriving Repr

/-- The first byte of a character tells how many follow. The narrower ranges for the second byte
leave out overlong forms, surrogates and what lies beyond the last code point. -/
def start (b : UInt8) : Outcome :=
  if b < 0x80 then .character (Char.ofNat b.toNat)
  else if b < 0xC2 then .refused .startByte b 1
  else if b < 0xE0 then .more (.begun ⟨b, 1, 1, 0x80, 0xBF, b.toNat - 0xC0⟩)
  else if b = 0xE0 then .more (.begun ⟨b, 1, 2, 0xA0, 0xBF, b.toNat - 0xE0⟩)
  else if b = 0xED then .more (.begun ⟨b, 1, 2, 0x80, 0x9F, b.toNat - 0xE0⟩)
  else if b < 0xF0 then .more (.begun ⟨b, 1, 2, 0x80, 0xBF, b.toNat - 0xE0⟩)
  else if b = 0xF0 then .more (.begun ⟨b, 1, 3, 0x90, 0xBF, b.toNat - 0xF0⟩)
  else if b < 0xF4 then .more (.begun ⟨b, 1, 3, 0x80, 0xBF, b.toNat - 0xF0⟩)
  else if b = 0xF4 then .more (.begun ⟨b, 1, 3, 0x80, 0x8F, b.toNat - 0xF0⟩)
  else .refused .startByte b 1

def Begun.isSurrogate (p : Begun) (b : UInt8) : Bool :=
  p.first = 0xED && p.seen = 1 && 0xA0 ≤ b && b ≤ 0xBF

def Begun.next (p : Begun) (b : UInt8) : Outcome :=
  if p.low ≤ b ∧ b ≤ p.high then
    let value := p.value * 64 + (b.toNat - 0x80)
    if p.owed ≤ 1 then .character (Char.ofNat value)
    else .more (.begun ⟨p.first, p.seen + 1, p.owed - 1, 0x80, 0xBF, value⟩)
  else if p.isSurrogate b then .more (.surrogate p.first)
  else .refused .continuationByte p.first p.seen

def step : State → UInt8 → Outcome
  | .ready, b => start b
  | .begun p, b => p.next b
  | .surrogate first, _ => .refused .continuationByte first 1

def State.kept : State → Nat
  | .ready => 0
  | .begun p => p.seen
  | .surrogate _ => 2

def decodeFrom : State → Nat → List UInt8 → Except Malformed (Text × State)
  | s, _, [] => .ok ([], s)
  | s, position, b :: bs =>
    match step s b with
    | .character c => do
      let (text, rest) ← decodeFrom .ready (position + s.kept + 1) bs
      return (c :: text, rest)
    | .more s' => decodeFrom s' position bs
    | .refused fault first length => .error ⟨fault, first, position, length⟩

def feed (s : State) (chunk : List UInt8) : Except Malformed (Text × State) :=
  decodeFrom s 0 chunk

def finish (s : State) (position : Nat) : Except Malformed Unit :=
  match s with
  | .ready => .ok ()
  | .begun p => .error ⟨.endOfData, p.first, position, p.seen⟩
  | .surrogate first => .error ⟨.continuationByte, first, position, 1⟩

def decode (bytes : List UInt8) : Except Malformed Text := do
  let (text, s) ← decodeFrom .ready 0 bytes
  finish s (bytes.length - s.kept)
  return text

def encodeCode (n : Nat) : List UInt8 :=
  let tail (unit : Nat) : UInt8 := UInt8.ofNat (0x80 + n / unit % 64)
  if n < 0x80 then [UInt8.ofNat n]
  else if n < 0x800 then [UInt8.ofNat (0xC0 + n / 64), tail 1]
  else if n < 0x10000 then [UInt8.ofNat (0xE0 + n / 4096), tail 64, tail 1]
  else [UInt8.ofNat (0xF0 + n / 262144), tail 4096, tail 64, tail 1]

def encodeChar (c : Char) : List UInt8 :=
  encodeCode c.toNat

def encode (s : Text) : List UInt8 :=
  s.flatMap encodeChar

end Yuml.Utf8
