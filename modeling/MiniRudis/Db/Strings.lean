import MiniRudis.Db.Database
import MiniRudis.Rust.Float

/-!
# The database: strings

A method that is one access to its key has its work on the value as a function
of its own, here and in the modules on the other types.
-/

namespace MiniRudis

/-! ## The work on a value -/

namespace Str

def append (val : Bytes) (v : Bytes) : Outcome Nat × Bytes :=
  (.ok (v ++ val).length, v ++ val)

def zeroText : Bytes := asBytes "0"

def incr (delta : Int) (v : Bytes) : Outcome Int × Bytes :=
  match (fromUtf8 v).bind parseTrimmedI64 with
  | none => (err .notInteger, v)
  | some n =>
      match checkedAdd n delta with
      | none => (err (.generic "ERR increment or decrement would overflow"), v)
      | some result => (.ok result, asBytes (decimal result))

/-- The body of `str_incr_float` and `hincrbyfloat`, which differ in the results
they refuse and in the message. -/
def incrFloatWith (refused : F64 → Bool) (msg : String) (delta : F64) (v : Bytes) :
    Outcome F64 × Bytes :=
  match (fromUtf8 v).bind fun s => F64.parse (trim s) with
  | none => (err .notFloat, v)
  | some n =>
      let result := n.add delta
      if refused result then (err (.generic msg), v)
      else (.ok result, asBytes (F64.formatFloat result))

def incrFloat : F64 → Bytes → Outcome F64 × Bytes :=
  incrFloatWith (fun r => isNaN r || r.isInfinite) "ERR increment would produce NaN or Infinity"

def sliceInclusive (v : Bytes) (s e : Nat) : Outcome Bytes :=
  if s ≤ e + 1 ∧ e < v.length then .ok ((v.drop s).take (e + 1 - s)) else panicked

def getrange (start stop : Int) (v : Bytes) : Outcome Bytes :=
  let len : Int := v.length
  let s := normalizeIndex start len
  let e := min (normalizeIndex stop len) (max (len - 1) 0).toNat
  if e < s ∨ v.length ≤ s then .ok []
  else do
    let last ← subUsize v.length 1
    sliceInclusive v s (min e last)

/-- `setrange`; `resize` panics beyond the capacity of a vector. -/
def setrange (offset : Nat) (val : Bytes) (v : Bytes) : Outcome Nat × Bytes :=
  let needed := offset + val.length
  if v.length < needed ∧ ¬ CapacityOk 1 needed then (panicked, v)
  else
    let resized := v ++ List.replicate (needed - v.length) 0
    let written := resized.take offset ++ val ++ resized.drop needed
    (.ok written.length, written)

end Str

/-! ## The methods -/

namespace LogicalDb

/-- The end of `str_set` and `str_setxx`. -/
def setWith (now : Instant) (key : String) (value : Bytes) (expire : Option Duration)
    (self : LogicalDb) : Outcome Unit × LogicalDb :=
  let ldb := self.insert key (.str value)
  match expire with
  | none => (.ok (), ldb)
  | some dur => ((ldb.setExpiry now key dur).1.map fun _ => (), (ldb.setExpiry now key dur).2)

def insertPairs (pairs : List (String × Bytes)) (self : LogicalDb) : LogicalDb :=
  pairs.foldl (fun ldb p => ldb.insert p.1 (.str p.2)) self

end LogicalDb

namespace Database

variable (self : Database)

def strGet (now : Instant) (db : Nat) (key : String) : Outcome (Option Bytes) :=
  self.readDb db (LogicalDb.readAs strKind none (fun v => .ok (some v)) now key)

def strSet (now : Instant) (db : Nat) (key : String) (value : Bytes) (expire : Option Duration) :
    Outcome Unit × Database :=
  self.withDb db (LogicalDb.setWith now key value expire)

def strSetnx (now : Instant) (db : Nat) (key : String) (value : Bytes) :
    Outcome Bool × Database :=
  self.withDb db fun ldb =>
    if (ldb.get now key).isSome then (.ok false, ldb)
    else (.ok true, ldb.insert key (.str value))

def strSetxx (now : Instant) (db : Nat) (key : String) (value : Bytes)
    (expire : Option Duration) : Outcome Bool × Database :=
  self.withDb db fun ldb =>
    if (ldb.get now key).isNone then (.ok false, ldb)
    else
      ((ldb.setWith now key value expire).1.map fun _ => true,
        (ldb.setWith now key value expire).2)

def strGetset (now : Instant) (db : Nat) (key : String) (value : Bytes) :
    Outcome (Option Bytes) × Database :=
  match self.strGet now db key with
  | .error e => (.error e, self)
  | .ok old =>
      ((self.strSet now db key value none).1.map fun _ => old,
        (self.strSet now db key value none).2)

def strGetdel (db : Nat) (key : String) : Outcome (Option Bytes) × Database :=
  self.withDb db fun ldb =>
    match ldb.remove key with
    | (none, ldb) => (.ok none, ldb)
    | (some (.str v), ldb) => (.ok (some v), ldb)
    -- put back, without its deadline
    | (some other, ldb) => (err .wrongType, ldb.insert key other)

def strAppend (now : Instant) (db : Nat) (key : String) (val : Bytes) : Outcome Nat × Database :=
  self.access now db key (.create strKind [] (Str.append val))

def strStrlen (now : Instant) (db : Nat) (key : String) : Outcome Nat :=
  self.readDb db (LogicalDb.readAs strKind 0 (fun v => .ok v.length) now key)

def strIncr (now : Instant) (db : Nat) (key : String) (delta : Int) : Outcome Int × Database :=
  self.access now db key (.create strKind Str.zeroText (Str.incr delta))

def strIncrFloat (now : Instant) (db : Nat) (key : String) (delta : F64) :
    Outcome F64 × Database :=
  self.access now db key (.create strKind Str.zeroText (Str.incrFloat delta))

def strGetrange (now : Instant) (db : Nat) (key : String) (start stop : Int) : Outcome Bytes :=
  self.readDb db (LogicalDb.readAs strKind [] (Str.getrange start stop) now key)

def strSetrange (now : Instant) (db : Nat) (key : String) (offset : Nat) (val : Bytes) :
    Outcome Nat × Database :=
  self.access now db key (.create strKind [] (Str.setrange offset val))

def mset (db : Nat) (pairs : List (String × Bytes)) : Outcome Unit × Database :=
  self.withDb db fun ldb => (.ok (), ldb.insertPairs pairs)

def mget (now : Instant) (db : Nat) (keys : List String) : Outcome (List (Option Bytes)) :=
  self.readDb db fun ldb =>
    .ok (keys.map fun key =>
      match ldb.get now key with
      | some (.str v) => some v
      | _ => none)

def msetnx (now : Instant) (db : Nat) (pairs : List (String × Bytes)) : Outcome Bool × Database :=
  self.withDb db fun ldb =>
    if pairs.any fun p => (ldb.get now p.1).isSome then (.ok false, ldb)
    else (.ok true, ldb.insertPairs pairs)

end Database

end MiniRudis
