import MiniRudis.Db.LogicalDb
import MiniRudis.Lib.Tally

/-!
# The database: keys and deadlines

A method takes the clock readings and random choices it makes as arguments, and
returns its result with the database it leaves, also when it fails.
-/

namespace MiniRudis

open Lib

/-- What `choose_multiple` may return: `amount` distinct positions of the items,
or all of them if there are fewer. -/
structure Chooser where
  choose : List String → Nat → List String
  /-- The amounts that it does not panic on, as it may when it allocates its result. -/
  reserves : Nat → Bool
  subperm : ∀ items amount, (choose items amount).Subperm items
  length : ∀ items amount, (choose items amount).length = min amount items.length

/-- What one call reads from outside the program. -/
structure Env where
  now : Instant
  sysNow : SystemTime
  /-- The levels that `random_level` returns, in turn. -/
  levels : Nat → Level
  chooser : Chooser
  /-- The draws of `choose` and `random_range`, reduced where they are used. -/
  draw : Nat → Nat
  /-- The Unicode upper-case table beyond ASCII. -/
  upper : Char → List Char
  /-- The build checks `i64` arithmetic. -/
  overflowChecks : Bool

def Chooser.first : Chooser where
  choose items amount := items.take amount
  reserves amount := CapacityOk 8 amount
  subperm items amount := (List.take_sublist amount items).subperm
  length _ _ := List.length_take

/-- Both clocks at `now`, nodes of one level, the first of every choice. -/
def Env.at (now : Int) : Env where
  now := now
  sysNow := now
  levels _ := randomLevel fun _ => false
  chooser := .first
  draw _ := 0
  upper c := [c]
  overflowChecks := true

structure Database where
  dbs : List LogicalDb

/-! ## Patterns -/

def globMatchBytes : Bytes → Bytes → Bool
  | [], [] => true
  | [], _ :: _ => false
  | p :: ps, [] => if p = 42 then globMatchBytes ps [] else false
  | p :: ps, c :: cs =>
      if p = 42 then globMatchBytes ps (c :: cs) || globMatchBytes (p :: ps) cs
      else if p = 63 ∨ p = c then globMatchBytes ps cs
      else false
termination_by pat s => pat.length + s.length

def globMatch (pattern s : String) : Bool := globMatchBytes (asBytes pattern) (asBytes s)

/-- The instant that lies as far ahead of `now` as `sinceEpoch` ahead of the wall
clock, or `none` for a time that is past.  The source computes it before it looks
the key up. -/
def absoluteDeadline (now : Instant) (sysNow : SystemTime) (sinceEpoch : Duration) :
    Outcome (Option Instant) := do
  let target ← addDuration 0 sinceEpoch
  if target ≤ sysNow then return none
  else
    let exp ← addDuration now (target - sysNow).toNat
    return some exp

namespace LogicalDb

/-- `keys.iter().filter(|k| ldb.remove(k).is_some()).count()`. -/
def removeKeys (keys : List String) (self : LogicalDb) : Nat × LogicalDb :=
  tally (fun ldb key => (ldb.remove key).1.isSome) (fun ldb key => (ldb.remove key).2) keys self

def liveKeys (self : LogicalDb) (now : Instant) : List String :=
  self.data.keys.filter fun key => !self.isExpired now key

/-- The body of `expire` and `pexpire`. -/
def expireIn (now : Instant) (key : String) (amount : Int) (duration : Duration)
    (self : LogicalDb) : Outcome Bool × LogicalDb :=
  if amount < 0 then (.ok (self.remove key).1.isSome, (self.remove key).2)
  else self.setExpiry now key duration

/-- The body of `expireat` and `pexpireat`. -/
def expireAt (now : Instant) (sysNow : SystemTime) (key : String) (sinceEpoch : Duration)
    (self : LogicalDb) : Outcome Bool × LogicalDb :=
  match absoluteDeadline now sysNow sinceEpoch with
  | .error e => (.error e, self)
  | .ok none => (.ok (self.remove key).1.isSome, (self.remove key).2)
  | .ok (some exp) => (.ok (self.setExpiryAt key exp).1, (self.setExpiryAt key exp).2)

end LogicalDb

/-- What `ttl` makes of the milliseconds of `pttl`. -/
def secondsOf (ms : Int) : Int := if 0 ≤ ms then ms / 1000 else ms

namespace Database

def new (dbCount : Nat) : Database := ⟨List.replicate dbCount .empty⟩

variable {α : Type}

def readDb (self : Database) (db : Nat) (f : LogicalDb → Outcome α) : Outcome α :=
  match self.dbs[db]? with
  | some ldb => f ldb
  | none => err .dbIndexOutOfRange

def withDb (self : Database) (db : Nat) (f : LogicalDb → Outcome α × LogicalDb) :
    Outcome α × Database :=
  match self.dbs[db]? with
  | some ldb => ((f ldb).1, { dbs := self.dbs.set db (f ldb).2 })
  | none => (err .dbIndexOutOfRange, self)

/-- A method on one key by one of the access patterns. -/
def access (self : Database) (now : Instant) (db : Nat) (key : String) (a : Access α) :
    Outcome α × Database :=
  self.withDb db (a.run now key)

/-! ## Keys -/

def existsKeys (self : Database) (now : Instant) (db : Nat) (keys : List String) : Outcome Int :=
  self.readDb db fun ldb =>
    .ok ((keys.filter fun key => (ldb.get now key).isSome).length : Nat)

def del (self : Database) (db : Nat) (keys : List String) : Outcome Int × Database :=
  self.withDb db fun ldb => (.ok ((ldb.removeKeys keys).1 : Nat), (ldb.removeKeys keys).2)

def typeOf (self : Database) (now : Instant) (db : Nat) (key : String) : Outcome String :=
  self.readDb db fun ldb =>
    match ldb.get now key with
    | none => .ok "none"
    | some obj => .ok obj.typeName

def rename (self : Database) (db : Nat) (src dst : String) : Outcome Unit × Database :=
  self.withDb db fun ldb =>
    match ldb.remove src with
    | (none, ldb) => (err .noSuchKey, ldb)
    | (some obj, ldb) => (.ok (), ldb.insert dst obj)

def renamenx (self : Database) (now : Instant) (db : Nat) (src dst : String) :
    Outcome Bool × Database :=
  self.withDb db fun ldb =>
    if (ldb.get now dst).isSome then (.ok false, ldb)
    else
      match ldb.remove src with
      | (none, ldb) => (err .noSuchKey, ldb)
      | (some obj, ldb) => (.ok true, ldb.insert dst obj)

def keys (self : Database) (now : Instant) (db : Nat) (pattern : String) : Outcome (List String) :=
  self.readDb db fun ldb => .ok ((ldb.liveKeys now).filter (globMatch pattern))

def dbsize (self : Database) (now : Instant) (db : Nat) : Outcome Nat :=
  self.readDb db fun ldb => .ok (ldb.liveKeys now).length

def flushdb (self : Database) (db : Nat) : Outcome Unit × Database :=
  self.withDb db fun _ => (.ok (), .empty)

def flushall (self : Database) : Database := ⟨self.dbs.map fun _ => .empty⟩

def randomkey (self : Database) (now : Instant) (draw : Nat → Nat) (db : Nat) :
    Outcome (Option String) :=
  self.readDb db fun ldb =>
    let keys := ldb.liveKeys now
    .ok keys[draw 0 % keys.length]?

/-! ## Deadlines -/

def expire (self : Database) (now : Instant) (db : Nat) (key : String) (secs : Int) :
    Outcome Bool × Database :=
  self.withDb db (LogicalDb.expireIn now key secs (Duration.fromSecs secs))

def pexpire (self : Database) (now : Instant) (db : Nat) (key : String) (ms : Int) :
    Outcome Bool × Database :=
  self.withDb db (LogicalDb.expireIn now key ms (Duration.fromMillis ms))

def expireat (self : Database) (now : Instant) (sysNow : SystemTime) (db : Nat) (key : String)
    (tsSecs : Int) : Outcome Bool × Database :=
  self.withDb db (LogicalDb.expireAt now sysNow key (Duration.fromSecs tsSecs))

def pexpireat (self : Database) (now : Instant) (sysNow : SystemTime) (db : Nat) (key : String)
    (tsMs : Int) : Outcome Bool × Database :=
  self.withDb db (LogicalDb.expireAt now sysNow key (Duration.fromMillis tsMs))

def pttl (self : Database) (now : Instant) (db : Nat) (key : String) : Outcome Int :=
  self.readDb db fun ldb => .ok ((ldb.ttlMs now key).getD (-2))

def ttl (self : Database) (now : Instant) (db : Nat) (key : String) : Outcome Int :=
  (self.pttl now db key).map secondsOf

def persist (self : Database) (db : Nat) (key : String) : Outcome Bool × Database :=
  self.withDb db fun ldb => (.ok (ldb.persist key).1, (ldb.persist key).2)

def evictExpired (self : Database) (now : Instant) : Database :=
  ⟨self.dbs.map fun ldb => ldb.evictExpired now⟩

end Database

end MiniRudis
