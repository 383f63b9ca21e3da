import MiniRudis.Db.Database

/-!
# The database: sets
-/

namespace MiniRudis

open Lib

/-! ## The work on a value -/

namespace HashSet

def sadd (members : List String) (s : StrSet) : Outcome Nat × StrSet :=
  let (count, s) :=
    tally (fun s member => !s.contains member) (fun s member => s.insert member) members s
  (.ok count, s)

/-- `for m in members { s.remove(m); }`. -/
def eraseAll (members : List String) (s : StrSet) : StrSet :=
  members.foldl (fun s member => s.erase member) s

def srem (members : List String) (s : StrSet) : Outcome Nat × StrSet :=
  let (count, s) :=
    tally (fun s member => s.contains member) (fun s member => s.erase member) members s
  (.ok count, s)

def spop (chooser : Chooser) (count : Nat) (s : StrSet) : Outcome (List String) × StrSet :=
  if chooser.reserves count then
    let chosen := chooser.choose s.toList count
    (.ok chosen, eraseAll chosen s)
  else (panicked, s)

def elemSize : Nat := 24

/-- `srandmember`; with a negative count, `collect` reserves the whole result. -/
def srandmember (chooser : Chooser) (draw : Nat → Nat) (count : Int) (s : StrSet) :
    Outcome (List String) :=
  if 0 ≤ count then
    if chooser.reserves count.toNat then .ok (chooser.choose s.toList count.toNat) else panicked
  else
    let members := s.toList
    if members.isEmpty then .ok []
    else if CapacityOk elemSize count.natAbs then
      .ok ((List.range count.natAbs).filterMap fun i => members[draw i % members.length]?)
    else panicked

def take (member : String) (s : StrSet) : Outcome Bool × StrSet :=
  if member ∈ s then (.ok true, s.erase member) else (.ok false, s)

def put (member : String) (s : StrSet) : Outcome Bool × StrSet := (.ok true, s.insert member)

def ofList (members : List String) : StrSet := members.foldl (fun s member => s.insert member) ∅

end HashSet

/-! ## The methods -/

namespace LogicalDb

/-- The first step of `smove`.  An emptied source is deleted, but a source that
was empty before stays. -/
def takeMember (src member : String) (self : LogicalDb) : Outcome Bool × LogicalDb :=
  match self.data[src]? with
  | none => (.ok false, self)
  | some (.set s) =>
      match HashSet.take member s with
      | (.ok true, s) =>
          let ldb := self.store src (.set s)
          (.ok true, if s.isEmpty then (ldb.remove src).2 else ldb)
      | (reply, _) => (reply, self)
  | some _ => (err .wrongType, self)

end LogicalDb

namespace Database

variable (self : Database)

def sadd (now : Instant) (db : Nat) (key : String) (members : List String) :
    Outcome Nat × Database :=
  self.access now db key (.create setKind.toKind ∅ (HashSet.sadd members))

def srem (now : Instant) (db : Nat) (key : String) (members : List String) :
    Outcome Nat × Database :=
  self.access now db key (.inPlace setKind 0 (HashSet.srem members))

def smembers (now : Instant) (db : Nat) (key : String) : Outcome (List String) :=
  self.readDb db (LogicalDb.readAs setKind.toKind [] (fun s => .ok s.toList) now key)

def sismember (now : Instant) (db : Nat) (key member : String) : Outcome Bool :=
  self.readDb db (LogicalDb.readAs setKind.toKind false (fun s => .ok (s.contains member)) now key)

def smismember (now : Instant) (db : Nat) (key : String) (members : List String) :
    Outcome (List Bool) :=
  self.readDb db (LogicalDb.readAs setKind.toKind (members.map fun _ => false)
    (fun s => .ok (members.map fun member => s.contains member)) now key)

def scard (now : Instant) (db : Nat) (key : String) : Outcome Nat :=
  self.readDb db (LogicalDb.readAs setKind.toKind 0 (fun s => .ok s.size) now key)

def getSetClone (now : Instant) (db : Nat) (key : String) : Outcome StrSet :=
  self.readDb db (LogicalDb.readAs setKind.toKind ∅ (fun s => .ok s) now key)

def sunion (now : Instant) (db : Nat) (keys : List String) : Outcome (List String) := do
  let sets ← keys.mapM fun key => self.getSetClone now db key
  return (HashSet.ofList (sets.flatMap fun s => s.toList)).toList

def sinter (now : Instant) (db : Nat) (keys : List String) : Outcome (List String) :=
  if keys.isEmpty then .ok []
  else do
    match ← keys.mapM fun key => self.getSetClone now db key with
    -- `split_first().unwrap()`
    | [] => panicked
    | first :: rest => return first.toList.filter fun m => rest.all fun s => s.contains m

def sdiff (now : Instant) (db : Nat) (keys : List String) : Outcome (List String) :=
  match keys with
  | [] => .ok []
  | key :: keys => do
      let first ← self.getSetClone now db key
      let rest ← keys.mapM fun key => self.getSetClone now db key
      return first.toList.filter fun m => !rest.any fun s => s.contains m

/-- The end of the three stores. -/
def storeSet (db : Nat) (dst : String) (result : Outcome (List String)) :
    Outcome Nat × Database :=
  match result with
  | .error e => (.error e, self)
  | .ok members =>
      self.withDb db fun ldb =>
        (.ok members.length, ldb.insert dst (.set (HashSet.ofList members)))

def sunionstore (now : Instant) (db : Nat) (dst : String) (keys : List String) :
    Outcome Nat × Database :=
  self.storeSet db dst (self.sunion now db keys)

def sinterstore (now : Instant) (db : Nat) (dst : String) (keys : List String) :
    Outcome Nat × Database :=
  self.storeSet db dst (self.sinter now db keys)

def sdiffstore (now : Instant) (db : Nat) (dst : String) (keys : List String) :
    Outcome Nat × Database :=
  self.storeSet db dst (self.sdiff now db keys)

def spop (now : Instant) (chooser : Chooser) (db : Nat) (key : String) (count : Nat) :
    Outcome (List String) × Database :=
  self.access now db key (.inPlace setKind [] (HashSet.spop chooser count))

def srandmember (now : Instant) (chooser : Chooser) (draw : Nat → Nat) (db : Nat) (key : String)
    (count : Int) : Outcome (List String) :=
  self.readDb db (LogicalDb.readAs setKind.toKind []
    (HashSet.srandmember chooser draw count) now key)

def smove (now : Instant) (db : Nat) (src dst member : String) : Outcome Bool × Database :=
  match self.withDb db (LogicalDb.takeMember src member) with
  | (.ok true, self) => self.access now db dst (.create setKind.toKind ∅ (HashSet.put member))
  | (reply, self) => (reply, self)

end Database

end MiniRudis
