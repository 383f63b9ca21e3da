import MiniRudis.Proto.Frame
import MiniRudis.Lib.Stream

/-!
# Decoding

`decode_frame` on a cursor over the bytes of the buffer.  Every index, slice and
subtraction that can panic does so here.  `reserve` says which vectors
`Vec::with_capacity` can allocate; it panics on the others.
-/

namespace MiniRudis

open Lib

abbrev CursorM (α : Type) := Decoder UInt8 Fault α

/-- The error that stands for missing bytes. -/
def incomplete : Fault := .err (.protocol "incomplete")

def index {α : Type} (slice : List α) (i : Nat) : Outcome α :=
  match slice[i]? with
  | some b => .ok b
  | none => panicked

def sliceRange {α : Type} (slice : List α) (start stop : Nat) : Outcome (List α) :=
  if start ≤ stop ∧ stop ≤ slice.length then .ok ((slice.drop start).take (stop - start))
  else panicked

/-! ## Lines -/

/-- The loop of `read_line`, for `n` positions from `i` on. -/
def findCrlf (slice : Bytes) : Nat → Nat → Outcome (Option Nat)
  | 0, _ => .ok none
  | n + 1, i =>
      match index slice i with
      | .error e => .error e
      | .ok b =>
          if b = 13 then
            match index slice (i + 1) with
            | .error e => .error e
            | .ok b => if b = 10 then .ok (some i) else findCrlf slice n (i + 1)
          else findCrlf slice n (i + 1)

def readLine : CursorM String := fun cursor =>
  let start := cursor.pos
  let stop := cursor.data.length
  match findCrlf cursor.data (stop - 1 - start) start with
  | .error e => .error e
  | .ok none => .error incomplete
  | .ok (some i) =>
      match sliceRange cursor.data start i with
      | .error e => .error e
      | .ok line =>
          match fromUtf8 line with
          | some line => .ok (line, { cursor with pos := i + 2 })
          | none => err (.protocol "invalid UTF-8")

/-- `line.parse::<i64>()`, with the error that says what the line should have
been. -/
def readI64 (what : String) : CursorM Int := do
  let line ← readLine
  match parseI64 line with
  | some n => return n
  | none => throw (.err (.protocol ("invalid " ++ what ++ ": " ++ line)))

/-! ## Frames -/

/-- `if !cursor.has_remaining() { return Err(incomplete) }`. -/
def needRemaining : CursorM Unit := fun cursor =>
  if cursor.remaining = 0 then .error incomplete else .ok ((), cursor)

def getU8 : CursorM UInt8 := fun cursor =>
  match index cursor.data cursor.pos with
  | .ok b => .ok (b, { cursor with pos := cursor.pos + 1 })
  | .error e => .error e

def nextByte : CursorM UInt8 := do
  needRemaining
  getU8

def stepBack : CursorM Unit := fun cursor =>
  match subUsize cursor.pos 1 with
  | .ok pos => .ok ((), { cursor with pos := pos })
  | .error e => .error e

def advance (n : Nat) : CursorM Unit := fun cursor =>
  if n ≤ cursor.remaining then .ok ((), { cursor with pos := cursor.pos + n }) else panicked

def readBody (len : Nat) : CursorM Bytes := fun cursor =>
  match addUsize len 2 with
  | .error e => .error e
  | .ok needed =>
      if cursor.remaining < needed then .error incomplete
      else
        match sliceRange cursor.data cursor.pos (cursor.pos + len), advance needed cursor with
        | .ok data, .ok (_, cursor) => .ok (data, cursor)
        | .error e, _ | _, .error e => .error e

/-- A length and what it counts; -1 stands for null. -/
def readCounted (what : String) (body : Nat → CursorM Frame) : CursorM Frame := do
  let len ← readI64 what
  if len = -1 then return .null
  else if len < 0 then throw (.err (.protocol ("invalid " ++ what ++ ": " ++ decimal len)))
  else body len.toNat

def isAsciiWhitespace (b : UInt8) : Bool := b == 32 || b == 9 || b == 10 || b == 12 || b == 13

/-- `split_ascii_whitespace`, on the bytes of the line. -/
def splitAsciiWhitespace (line : Bytes) : List Bytes :=
  (line.splitOnP isAsciiWhitespace).filter (· ≠ [])

def decodeInline : CursorM Frame := do
  let line ← readLine
  let parts := (splitAsciiWhitespace (asBytes line)).map Frame.bulk
  if parts.isEmpty then throw (.err (.protocol "empty inline command"))
  else return .array parts

/-- The branches of `decode_frame`, with itself for the elements of an array. -/
def decodeBranch (reserve : Nat → Bool) (element : CursorM Frame) (byte : UInt8) : CursorM Frame :=
  if byte = 43 then Frame.simple <$> readLine
  else if byte = 45 then Frame.error <$> readLine
  else if byte = 58 then Frame.integer <$> readI64 "integer"
  else if byte = 36 then readCounted "bulk length" fun len => Frame.bulk <$> readBody len
  else if byte = 42 then
    readCounted "array length" fun count =>
      if reserve count then Frame.array <$> element.times count else throw .panicked
  else do
    stepBack
    decodeInline

/-- `decode_frame`, to a depth of nested arrays. -/
def decodeFrame (reserve : Nat → Bool) : Nat → CursorM Frame
  | 0 => throw .panicked
  | depth + 1 => do
      let byte ← nextByte
      decodeBranch reserve (decodeFrame reserve depth) byte

/-- `parse_frame`: the reply, and the buffer from which the bytes of the frame have
been taken.  No frame is nested deeper than it has bytes. -/
def parseFrame (reserve : Nat → Bool) (buf : Bytes) : Outcome (Option Frame) × Bytes :=
  if buf.isEmpty then (.ok none, buf)
  else
    match decodeFrame reserve (buf.length + 1) ⟨buf, 0⟩ with
    | .ok (frame, cursor) =>
        let consumed := cursor.pos
        (.ok (some frame), buf.drop consumed)
    | .error e => if e = incomplete then (.ok none, buf) else (.error e, buf)

def frameToCmdArgs : Frame → Outcome (List Bytes)
  | .array parts => parts.mapM fun
      | .bulk b => .ok b
      | .simple s => .ok (asBytes s)
      | _ => err (.protocol "expected bulk string in command")
  | _ => err (.protocol "expected array frame")

end MiniRudis
