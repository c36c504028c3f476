import Yuml.Text.Utf8

namespace Yuml.Source

def isLineEnd (c : Char) : Bool :=
  c == '\r' || c == '\n'

def lines (s : Text) : List Text :=
  Text.pieces isLineEnd s

inductive Failure
  | malformed (e : Utf8.Malformed)
  | unreadable (reason : Text)
  deriving Repr

inductive Buffer
  | text (s : Text)
  | bytes (bs : List UInt8)
  deriving Repr

def Buffer.decode : Buffer → Except Utf8.Malformed Text
  | .text s => .ok s
  | .bytes bs => Utf8.decode bs

def Buffer.lines (b : Buffer) : Except Utf8.Malformed (List Text) :=
  b.decode.map Source.lines

abbrev Chunk := Buffer

def Chunk.isEmpty : Chunk → Bool
  | .text s => s.isEmpty
  | .bytes bs => bs.isEmpty

/-- A source that arrives in chunks. An empty chunk ends it; when the chunks run out it ends too,
or the next read fails. -/
structure Stream where
  chunks : List Chunk
  failure : Option Text
  deriving Repr

/-- What is carried from one chunk to the next: the line not yet ended and the character not yet
finished. -/
structure Carry where
  line : Text
  bytes : Utf8.State
  deriving Repr

def Carry.empty : Carry := ⟨[], .ready⟩

def splitLast (s : Text) : List Text × Text :=
  ((lines s).dropLast, (lines s).getLastD [])

def Carry.feed (k : Carry) : Chunk → Except Utf8.Malformed (List Text × Carry)
  | .text s =>
    let (done, line) := splitLast (k.line ++ s)
    .ok (done, ⟨line, k.bytes⟩)
  | .bytes bs => do
    let (s, bytes) ← Utf8.feed k.bytes bs
    let (done, line) := splitLast (k.line ++ s)
    return (done, ⟨line, bytes⟩)

def Carry.finish (k : Carry) : Except Utf8.Malformed (List Text) := do
  Utf8.finish k.bytes 0
  return lines k.line

def readFrom (k : Carry) (failure : Option Text) : List Chunk → List Text × Option Failure
  | [] =>
    match failure with
    | some reason => ([], some (.unreadable reason))
    | none => atEnd k
  | c :: cs =>
    if c.isEmpty then atEnd k
    else match k.feed c with
      | .error e => ([], some (.malformed e))
      | .ok (done, k') =>
        let (more, stopped) := readFrom k' failure cs
        (done ++ more, stopped)
where
  atEnd (k : Carry) : List Text × Option Failure :=
    match k.finish with
    | .error e => ([], some (.malformed e))
    | .ok last => (last, none)

def Stream.lines (s : Stream) : List Text × Option Failure :=
  readFrom .empty s.failure s.chunks

def blocks {α : Type} (n : Nat) (xs : List α) : List (List α) :=
  if h : n = 0 ∨ xs = [] then []
  else
    have : (xs.drop n).length < xs.length := by
      have := List.length_pos_iff.mpr (not_or.mp h).2
      have := Nat.pos_of_ne_zero (not_or.mp h).1
      simp only [List.length_drop]
      omega
    xs.take n :: blocks n (xs.drop n)
termination_by xs.length

/-- A buffer as the stream that gives `size` characters or bytes per read; a negative size reads
all at once, and size zero reads nothing. -/
def Buffer.stream (size : Int) : Buffer → Stream
  | .text s =>
    ⟨(if size < 0 then [s] else blocks size.toNat s).map .text, none⟩
  | .bytes bs =>
    ⟨(if size < 0 then [bs] else blocks size.toNat bs).map .bytes, none⟩

def chunkSize : Int := 65536

inductive Input
  | buffer (b : Buffer)
  | stream (s : Stream)
  deriving Repr

def Input.lines : Input → List Text × Option Failure
  | .buffer b =>
    match b.lines with
    | .ok ls => (ls, none)
    | .error e => ([], some (.malformed e))
  | .stream s => s.lines

end Yuml.Source
