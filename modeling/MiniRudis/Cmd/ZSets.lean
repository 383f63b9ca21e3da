import MiniRudis.Cmd.Arguments
import MiniRudis.Cmd.Replies

/-!
# Commands: sorted sets
-/

namespace MiniRudis.Cmd

open Lib

/-! ## Parsing -/

/-- The loop over the flags, up to the first argument that is none. -/
def zaddFlags (upper : Char → List Char) : List Bytes → ZAddFlags → ZAddFlags × List Bytes
  | [], flags => (flags, [])
  | arg :: args, flags =>
      match upperText upper arg with
      | "NX" => zaddFlags upper args { flags with nx := true }
      | "XX" => zaddFlags upper args { flags with xx := true }
      | "GT" => zaddFlags upper args { flags with gt := true }
      | "LT" => zaddFlags upper args { flags with lt := true }
      | "CH" => zaddFlags upper args { flags with ch := true }
      | _ => (flags, arg :: args)

def zaddMembers : List Bytes → Outcome (List (F64 × String))
  | score :: member :: rest => do
      let score ← parseF64 score
      let members ← zaddMembers rest
      return (score, fromUtf8Lossy member) :: members
  | _ => .ok []

def parseZadd (env : Env) (args : List Bytes) : Outcome Command :=
  atLeast 3 "ZADD" args do
    let key ← strAt args 0
    let (flags, rest) := zaddFlags env.upper (args.drop 1) ⟨false, false, false, false, false⟩
    if rest.length < 2 ∨ rest.length % 2 ≠ 0 then err (.wrongArity "ZADD")
    else do
      let members ← zaddMembers rest
      if flags.nx && flags.xx || flags.gt && flags.lt then err .syntaxError
      else return .zAdd ⟨key, members, flags⟩

def parseZrem (args : List Bytes) : Outcome Command :=
  atLeast 2 "ZREM" args (oneAndRest .zRem args)

def parseZscore (args : List Bytes) : Outcome Command := exactly 2 "ZSCORE" args (two .zScore args)

def parseZmscore (args : List Bytes) : Outcome Command :=
  atLeast 2 "ZMSCORE" args (oneAndRest .zMScore args)

def parseZincrby (args : List Bytes) : Outcome Command :=
  exactly 3 "ZINCRBY" args do
    let key ← strAt args 0
    let delta ← f64At args 1
    let member ← strAt args 2
    return .zIncrBy key delta member

def parseZrank (args : List Bytes) : Outcome Command := atLeast 2 "ZRANK" args (two .zRank args)

def parseZrevrank (args : List Bytes) : Outcome Command :=
  atLeast 2 "ZREVRANK" args (two .zRevRank args)

def parseZcard (args : List Bytes) : Outcome Command := exactly 1 "ZCARD" args (one .zCard args)

def parseZcount (args : List Bytes) : Outcome Command := exactly 3 "ZCOUNT" args (three .zCount args)

def hasOption (upper : Char → List Char) (opt : String) (args : List Bytes) : Bool :=
  args.any fun arg => upperText upper arg == opt

def parseZrange (env : Env) (args : List Bytes) : Outcome Command :=
  atLeast 3 "ZRANGE" args do
    let key ← strAt args 0
    let start ← i64At args 1 "ZRANGE"
    let stop ← i64At args 2 "ZRANGE"
    let opts ← argsFrom args 3
    return .zRange key start stop (hasOption env.upper "REV" opts)
      (hasOption env.upper "WITHSCORES" opts)

/-- The count of `LIMIT`: a negative one means no limit. -/
def readLimitCount : ValueReader Bytes Fault ZRangeByScoreArgs := fun b => do
  let c ← parseI64 b "ZRANGEBYSCORE"
  return fun a => { a with count := if c < 0 then none else some (asU64 c) }

def readLimitOffset : ValueReader Bytes Fault ZRangeByScoreArgs := fun b => do
  let offset ← parseUsize b "ZRANGEBYSCORE"
  return fun a => { a with offset := offset }

def zrangebyscoreRules : String → Option (OptionRule Bytes Fault ZRangeByScoreArgs)
  | "WITHSCORES" => some (.ofFlag fun a => { a with withscores := true })
  | "LIMIT" => some (.ofValues [readLimitOffset, readLimitCount])
  | _ => none

def parseZrangebyscore (env : Env) (args : List Bytes) (rev : Bool) : Outcome Command :=
  atLeast 3 (if rev then "ZREVRANGEBYSCORE" else "ZRANGEBYSCORE") args do
    let key ← strAt args 0
    -- the reversed form has its bounds the other way round
    let min ← strAt args (if rev then 2 else 1)
    let max ← strAt args (if rev then 1 else 2)
    let a ← readOptions env.upper zrangebyscoreRules (args.drop 3)
      ⟨key, min, max, rev, false, 0, none⟩
    return if rev then .zRevRangeByScore a else .zRangeByScore a

def parseZrevrange (env : Env) (args : List Bytes) : Outcome Command :=
  atLeast 3 "ZREVRANGE" args do
    let key ← strAt args 0
    let start ← i64At args 1 "ZREVRANGE"
    let stop ← i64At args 2 "ZREVRANGE"
    let opts ← argsFrom args 3
    return .zRevRange key start stop (hasOption env.upper "WITHSCORES" opts)

def parseZremrangebyrank (args : List Bytes) : Outcome Command :=
  exactly 3 "ZREMRANGEBYRANK" args (keyRange "ZREMRANGEBYRANK" .zRemRangeByRank args)

def parseZremrangebyscore (args : List Bytes) : Outcome Command :=
  exactly 3 "ZREMRANGEBYSCORE" args (three .zRemRangeByScore args)

def parseZpop (args : List Bytes) (min : Bool) : Outcome Command :=
  atLeast 1 (if min then "ZPOPMIN" else "ZPOPMAX") args do
    let key ← strAt args 0
    let count ← ifSecond args (usizeAt args 1 "ZPOP") 1
    return if min then .zPopMin key count else .zPopMax key count

/-! ## Execution -/

def buildMemberScoreArray (items : List (String × Option F64)) : Frame :=
  .array (items.flatMap fun (member, score) =>
    match score with
    | some s => [.bulkStr member, floatFrame s]
    | none => [.bulkStr member])

def poppedArray (items : List (String × F64)) : Frame :=
  .array (items.flatMap fun (member, score) => [.bulkStr member, floatFrame score])

/-- Read two score bounds and go on, or answer with the first error. -/
def withBounds (first second : String) (k : ScoreBound → ScoreBound → CmdM (Outcome Frame)) :
    CmdM (Outcome Frame) :=
  match ScoreBound.parse first, ScoreBound.parse second with
  | .error e, _ => return reply id (.error e)
  | .ok _, .error e => return reply id (.error e)
  | .ok a, .ok b => k a b

/-- `zset::execute`, with what is done for the scripting commands as `last`. -/
def ZSets.execute (env : Env) (db : Nat) (last : Command → CmdM (Outcome Frame)) :
    Command → CmdM (Outcome Frame)
  | .zAdd args => callTyped env db args.key (.zadd args.members args.flags) .integer
  | .zRem key members => callTyped env db key (.zrem members) countFrame
  | .zScore key member => callTyped env db key (.zscore member) floatOrNull
  | .zMScore key members =>
      callTyped env db key (.zmscore members) fun scores => .array (scores.map floatOrNull)
  | .zIncrBy key delta member => callTyped env db key (.zincrby delta member) floatFrame
  | .zRank key member => callTyped env db key (.zrank member) countOrNull
  | .zRevRank key member => callTyped env db key (.zrevrank member) countOrNull
  | .zCard key => callTyped env db key .zcard countFrame
  | .zCount key min max =>
      withBounds min max fun min max => callTyped env db key (.zcount min max) countFrame
  | .zRange key start stop rev withscores =>
      callTyped env db key (.zrange start stop rev withscores) buildMemberScoreArray
  | .zRangeByScore args =>
      withBounds args.min args.max fun min max =>
        callTyped env db args.key (.zrangebyscore min max args.withscores args.offset args.count)
          buildMemberScoreArray
  | .zRevRangeByScore args =>
      withBounds args.max args.min fun max min =>
        callTyped env db args.key
          (.zrevrangebyscore max min args.withscores args.offset args.count) buildMemberScoreArray
  | .zRevRange key start stop withscores =>
      callTyped env db key (.zrange start stop true withscores) buildMemberScoreArray
  | .zRemRangeByRank key start stop =>
      callTyped env db key (.zremrangebyrank start stop) countFrame
  | .zRemRangeByScore key min max =>
      withBounds min max fun min max => callTyped env db key (.zremrangebyscore min max) countFrame
  | .zPopMin key count => callTyped env db key (.zpopmin count) poppedArray
  | .zPopMax key count => callTyped env db key (.zpopmax count) poppedArray
  | cmd => last cmd

end MiniRudis.Cmd
