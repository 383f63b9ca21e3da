import MiniRudis.Rust.Text

/-!
# RESP frames

A frame and its bytes on the wire.
-/

namespace MiniRudis

inductive Frame
  | simple (s : String)
  | error (msg : String)
  | integer (n : Int)
  | bulk (data : Bytes)
  | null
  | array (frames : List Frame)

def crlf : Bytes := [13, 10]

namespace Frame

/-! ## Serialization -/

def encodeLine (marker : UInt8) (line : String) : Bytes := marker :: asBytes line ++ crlf

mutual

def encode : Frame → Bytes
  | simple s => encodeLine 43 s
  | error msg => encodeLine 45 msg
  | integer n => encodeLine 58 (decimal n)
  | bulk data => encodeLine 36 (decimal data.length) ++ data ++ crlf
  | null => [36, 45, 49, 13, 10]
  | array frames => encodeLine 42 (decimal frames.length) ++ encodeAll frames

def encodeAll : List Frame → Bytes
  | [] => []
  | f :: frames => encode f ++ encodeAll frames

end

def serialize (f : Frame) : Bytes := f.encode

/-! ## Shorthands -/

def ok : Frame := simple "OK"

def pong : Frame := simple "PONG"

def bulkStr (s : String) : Frame := bulk (asBytes s)

def fromError (e : RedisError) : Frame := error e.text

/-! ## What a frame can hold -/

mutual

/-- The integers are `i64`, the bulks fit into memory, and the vectors could be
reserved. -/
def Storable (reserve : Nat → Bool) : Frame → Prop
  | simple _ | error _ | null => True
  | integer n => InI64 n
  | bulk data => data.length ≤ isizeMax
  | array frames =>
      frames.length ≤ isizeMax ∧ reserve frames.length = true ∧ StorableAll reserve frames

def StorableAll (reserve : Nat → Bool) : List Frame → Prop
  | [] => True
  | f :: frames => Storable reserve f ∧ StorableAll reserve frames

end

mutual

/-- No simple or error string contains CR LF. -/
def LineSafe : Frame → Prop
  | simple s | error s => ¬ crlf <:+: asBytes s
  | integer _ | bulk _ | null => True
  | array frames => LineSafeAll frames

def LineSafeAll : List Frame → Prop
  | [] => True
  | f :: frames => LineSafe f ∧ LineSafeAll frames

end

end Frame

end MiniRudis
