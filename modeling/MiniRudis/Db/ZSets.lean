import MiniRudis.Db.Database

/-!
# The database: sorted sets
-/

namespace MiniRudis

open Lib

structure ZAddFlags where
  nx : Bool
  xx : Bool
  gt : Bool
  lt : Bool
  ch : Bool
  deriving DecidableEq, Repr

namespace ZSetInner

/-- The tests by which the loop of `zadd` skips a pair. -/
def skips (flags : ZAddFlags) (score : F64) (member : String) (z : ZSetInner) : Bool :=
  flags.nx && z.scores.contains member ||
    flags.xx && !z.scores.contains member ||
    flags.gt && (z.scores[member]?).any (fun old => F64.le score old) ||
    flags.lt && (z.scores[member]?).any (fun old => F64.le old score)

/-- The loop of `zadd` from the pair at index `i` on. -/
def zaddLoop (flags : ZAddFlags) (levels : Nat → Level) :
    Nat → List (F64 × String) → Int → ZSetInner → Outcome Int × ZSetInner
  | _, [], count, z => (.ok count, z)
  | i, (score, member) :: rest, count, z =>
      if isNaN score then (err .scoreNaN, z)
      else if z.skips flags score member then zaddLoop flags levels (i + 1) rest count z
      else
        let (isNew, z) := z.add member score (levels i)
        zaddLoop flags levels (i + 1) rest (if flags.ch || isNew then count + 1 else count) z

def zadd (flags : ZAddFlags) (levels : Nat → Level) (members : List (F64 × String))
    (z : ZSetInner) : Outcome Int × ZSetInner :=
  zaddLoop flags levels 0 members 0 z

def zrem (members : List String) (z : ZSetInner) : Outcome Nat × ZSetInner :=
  let (count, z) :=
    tally (fun z member => (z.remove member).1) (fun z member => (z.remove member).2) members z
  (.ok count, z)

def zincrby (lvl : Level) (delta : F64) (member : String) (z : ZSetInner) :
    Outcome F64 × ZSetInner :=
  let newScore := ((z.scores[member]?).getD F64.zero).add delta
  if isNaN newScore then (err .scoreNaN, z) else (.ok newScore, (z.add member newScore lvl).2)

def zrange (start stop : Int) (rev withscores : Bool) (z : ZSetInner) :
    Outcome (List (String × Option F64)) := do
  let result ← z.rangeByIndex start stop withscores
  return if rev then result.reverse else result

def succeed {α : Type} (r : α × ZSetInner) : Outcome α × ZSetInner := (.ok r.1, r.2)

end ZSetInner

namespace Database

variable (self : Database)

def zadd (now : Instant) (levels : Nat → Level) (db : Nat) (key : String)
    (members : List (F64 × String)) (flags : ZAddFlags) : Outcome Int × Database :=
  self.access now db key (.create zsetKind.toKind .new (ZSetInner.zadd flags levels members))

def zrem (now : Instant) (db : Nat) (key : String) (members : List String) :
    Outcome Nat × Database :=
  self.access now db key (.inPlace zsetKind 0 (ZSetInner.zrem members))

def zscore (now : Instant) (db : Nat) (key member : String) : Outcome (Option F64) :=
  self.readDb db (LogicalDb.readAs zsetKind.toKind none (fun z => .ok (z.score member)) now key)

def zmscore (now : Instant) (db : Nat) (key : String) (members : List String) :
    Outcome (List (Option F64)) :=
  self.readDb db (LogicalDb.readAs zsetKind.toKind (members.map fun _ => none)
    (fun z => .ok (members.map z.score)) now key)

def zincrby (now : Instant) (levels : Nat → Level) (db : Nat) (key : String) (delta : F64)
    (member : String) : Outcome F64 × Database :=
  self.access now db key (.create zsetKind.toKind .new (ZSetInner.zincrby (levels 0) delta member))

def zrank (now : Instant) (db : Nat) (key member : String) : Outcome (Option Nat) :=
  self.readDb db (LogicalDb.readAs zsetKind.toKind none (fun z => .ok (z.rank member)) now key)

def zrevrank (now : Instant) (db : Nat) (key member : String) : Outcome (Option Nat) :=
  self.readDb db (LogicalDb.readAs zsetKind.toKind none (fun z => z.revrank member) now key)

def zcard (now : Instant) (db : Nat) (key : String) : Outcome Nat :=
  self.readDb db (LogicalDb.readAs zsetKind.toKind 0 (fun z => .ok z.len) now key)

def zcount (now : Instant) (db : Nat) (key : String) (min max : ScoreBound) : Outcome Nat :=
  self.readDb db
    (LogicalDb.readAs zsetKind.toKind 0 (fun z => .ok (z.countByScore min max)) now key)

def zrange (now : Instant) (db : Nat) (key : String) (start stop : Int) (rev withscores : Bool) :
    Outcome (List (String × Option F64)) :=
  self.readDb db
    (LogicalDb.readAs zsetKind.toKind [] (ZSetInner.zrange start stop rev withscores) now key)

def zrangebyscore (now : Instant) (db : Nat) (key : String) (min max : ScoreBound)
    (withscores : Bool) (offset : Nat) (count : Option Nat) :
    Outcome (List (String × Option F64)) :=
  self.readDb db (LogicalDb.readAs zsetKind.toKind []
    (fun z => .ok (z.rangeByScore min max withscores offset count)) now key)

def zrevrangebyscore (now : Instant) (db : Nat) (key : String) (max min : ScoreBound)
    (withscores : Bool) (offset : Nat) (count : Option Nat) :
    Outcome (List (String × Option F64)) :=
  self.readDb db (LogicalDb.readAs zsetKind.toKind []
    (fun z => .ok (z.revrangeByScore max min withscores offset count)) now key)

def zremrangebyscore (now : Instant) (db : Nat) (key : String) (min max : ScoreBound) :
    Outcome Nat × Database :=
  self.access now db key
    (.inPlace zsetKind 0 fun z => ZSetInner.succeed (z.removeByScore min max))

def zremrangebyrank (now : Instant) (db : Nat) (key : String) (start stop : Int) :
    Outcome Nat × Database :=
  self.access now db key (.inPlace zsetKind 0 fun z => z.removeByRank start stop)

def zpopmin (now : Instant) (db : Nat) (key : String) (count : Nat) :
    Outcome (List (String × F64)) × Database :=
  self.access now db key (.inPlace zsetKind [] fun z => ZSetInner.succeed (z.popMin count))

def zpopmax (now : Instant) (db : Nat) (key : String) (count : Nat) :
    Outcome (List (String × F64)) × Database :=
  self.access now db key (.inPlace zsetKind [] fun z => ZSetInner.succeed (z.popMax count))

end Database

end MiniRudis
