import MiniRudis.Db.Strings

/-!
# The database: hashes
-/

namespace MiniRudis

open Lib

/-! ## The work on a value -/

namespace Hash

def hset (fields : List (String × Bytes)) (h : StrMap Bytes) : Outcome Nat × StrMap Bytes :=
  let (newFields, h) := tally (fun h p => !h.contains p.1) (fun h p => h.insert p.1 p.2) fields h
  (.ok newFields, h)

def hsetnx (field : String) (value : Bytes) (h : StrMap Bytes) : Outcome Bool × StrMap Bytes :=
  if field ∈ h then (.ok false, h) else (.ok true, h.insert field value)

def hdel (fields : List String) (h : StrMap Bytes) : Outcome Nat × StrMap Bytes :=
  let (count, h) :=
    tally (fun h field => h.contains field) (fun h field => h.erase field) fields h
  (.ok count, h)

/-- `hash.entry(field).or_insert("0")`, then `f` on the value. -/
def updateField {α : Type} (field : String) (f : Bytes → Outcome α × Bytes) (h : StrMap Bytes) :
    Outcome α × StrMap Bytes :=
  let (result, v) := f (h[field]?.getD Str.zeroText)
  (result, h.insert field v)

def hincrby (field : String) (delta : Int) : StrMap Bytes → Outcome Int × StrMap Bytes :=
  updateField field (Str.incr delta)

def hincrbyfloat (field : String) (delta : F64) : StrMap Bytes → Outcome F64 × StrMap Bytes :=
  updateField field
    (Str.incrFloatWith (fun r => isNaN r) "ERR resulting score is not a number (NaN)" delta)

end Hash

/-! ## The methods -/

namespace Database

variable (self : Database)

def hset (now : Instant) (db : Nat) (key : String) (fields : List (String × Bytes)) :
    Outcome Nat × Database :=
  self.access now db key (.create hashKind.toKind ∅ (Hash.hset fields))

def hsetnx (now : Instant) (db : Nat) (key field : String) (value : Bytes) :
    Outcome Bool × Database :=
  self.access now db key (.create hashKind.toKind ∅ (Hash.hsetnx field value))

def hget (now : Instant) (db : Nat) (key field : String) : Outcome (Option Bytes) :=
  self.readDb db (LogicalDb.readAs hashKind.toKind none (fun h => .ok h[field]?) now key)

def hmget (now : Instant) (db : Nat) (key : String) (fields : List String) :
    Outcome (List (Option Bytes)) :=
  self.readDb db (LogicalDb.readAs hashKind.toKind (fields.map fun _ => none)
    (fun h => .ok (fields.map fun field => h[field]?)) now key)

def hdel (now : Instant) (db : Nat) (key : String) (fields : List String) :
    Outcome Nat × Database :=
  self.access now db key (.inPlace hashKind 0 (Hash.hdel fields))

def hexists (now : Instant) (db : Nat) (key field : String) : Outcome Bool :=
  self.readDb db (LogicalDb.readAs hashKind.toKind false (fun h => .ok (h.contains field)) now key)

def hgetall (now : Instant) (db : Nat) (key : String) : Outcome (List (String × Bytes)) :=
  self.readDb db (LogicalDb.readAs hashKind.toKind [] (fun h => .ok h.toList) now key)

def hkeys (now : Instant) (db : Nat) (key : String) : Outcome (List String) :=
  self.readDb db (LogicalDb.readAs hashKind.toKind [] (fun h => .ok h.keys) now key)

def hvals (now : Instant) (db : Nat) (key : String) : Outcome (List Bytes) :=
  self.readDb db (LogicalDb.readAs hashKind.toKind [] (fun h => .ok h.values) now key)

def hlen (now : Instant) (db : Nat) (key : String) : Outcome Nat :=
  self.readDb db (LogicalDb.readAs hashKind.toKind 0 (fun h => .ok h.size) now key)

def hincrby (now : Instant) (db : Nat) (key field : String) (delta : Int) :
    Outcome Int × Database :=
  self.access now db key (.create hashKind.toKind ∅ (Hash.hincrby field delta))

def hincrbyfloat (now : Instant) (db : Nat) (key field : String) (delta : F64) :
    Outcome F64 × Database :=
  self.access now db key (.create hashKind.toKind ∅ (Hash.hincrbyfloat field delta))

end Database

end MiniRudis
