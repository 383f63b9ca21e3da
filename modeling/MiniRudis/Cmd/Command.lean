import MiniRudis.Db.Operations

/-!
# Commands

The command enum of `cmd/mod.rs`, and the arguments of the commands that have
options.
-/

namespace MiniRudis

structure SetArgs where
  key : String
  value : Bytes
  expire : Option Duration
  nx : Bool
  xx : Bool
  get : Bool
  keepttl : Bool

structure GetExArgs where
  key : String
  expire : Option Duration
  persist : Bool

/-- `ZAddArgs`, with its five flags as one field. -/
structure ZAddArgs where
  key : String
  members : List (F64 × String)
  flags : ZAddFlags

structure ZRangeByScoreArgs where
  key : String
  min : String
  max : String
  rev : Bool
  withscores : Bool
  offset : Nat
  count : Option Nat

inductive Command
  -- connection and server
  | ping (msg : Option Bytes)
  | echo (msg : Bytes)
  | select (idx : Nat)
  | dbsize
  | flushdb
  | flushall
  | info
  | quit
  -- keys
  | del (keys : List String)
  | existsKeys (keys : List String)
  | type (key : String)
  | rename (src dst : String)
  | renamenx (src dst : String)
  | expire (key : String) (secs : Int)
  | pExpire (key : String) (ms : Int)
  | expireAt (key : String) (ts : Int)
  | pExpireAt (key : String) (ts : Int)
  | ttl (key : String)
  | pttl (key : String)
  | persist (key : String)
  | keys (pattern : String)
  | randomkey
  -- strings
  | set (args : SetArgs)
  | get (key : String)
  | getSet (key : String) (value : Bytes)
  | getDel (key : String)
  | getEx (args : GetExArgs)
  | mset (pairs : List (String × Bytes))
  | mget (keys : List String)
  | msetnx (pairs : List (String × Bytes))
  | setnx (key : String) (value : Bytes)
  | setex (key : String) (secs : Int) (value : Bytes)
  | pSetex (key : String) (ms : Int) (value : Bytes)
  | incr (key : String)
  | incrBy (key : String) (delta : Int)
  | incrByFloat (key : String) (delta : F64)
  | decr (key : String)
  | decrBy (key : String) (delta : Int)
  | append (key : String) (value : Bytes)
  | strlen (key : String)
  | getRange (key : String) (start stop : Int)
  | setRange (key : String) (offset : Nat) (value : Bytes)
  -- lists
  | lPush (key : String) (values : List Bytes)
  | rPush (key : String) (values : List Bytes)
  | lPushX (key : String) (values : List Bytes)
  | rPushX (key : String) (values : List Bytes)
  | lPop (key : String) (count : Nat)
  | rPop (key : String) (count : Nat)
  | lLen (key : String)
  | lRange (key : String) (start stop : Int)
  | lIndex (key : String) (index : Int)
  | lSet (key : String) (index : Int) (value : Bytes)
  | lInsert (key : String) (before : Bool) (pivot value : Bytes)
  | lRem (key : String) (count : Int) (value : Bytes)
  | lTrim (key : String) (start stop : Int)
  | lMove (src dst : String) (srcLeft dstLeft : Bool)
  -- hashes
  | hSet (key : String) (fields : List (String × Bytes))
  | hSetnx (key field : String) (value : Bytes)
  | hGet (key field : String)
  | hMGet (key : String) (fields : List String)
  | hMSet (key : String) (fields : List (String × Bytes))
  | hDel (key : String) (fields : List String)
  | hExists (key field : String)
  | hGetAll (key : String)
  | hKeys (key : String)
  | hVals (key : String)
  | hLen (key : String)
  | hIncrBy (key field : String) (delta : Int)
  | hIncrByFloat (key field : String) (delta : F64)
  -- sets
  | sAdd (key : String) (members : List String)
  | sRem (key : String) (members : List String)
  | sMembers (key : String)
  | sIsMember (key member : String)
  | sMIsMember (key : String) (members : List String)
  | sCard (key : String)
  | sUnion (keys : List String)
  | sInter (keys : List String)
  | sDiff (keys : List String)
  | sUnionStore (dst : String) (keys : List String)
  | sInterStore (dst : String) (keys : List String)
  | sDiffStore (dst : String) (keys : List String)
  | sPop (key : String) (count : Nat)
  | sRandMember (key : String) (count : Int)
  | sMove (src dst member : String)
  -- sorted sets
  | zAdd (args : ZAddArgs)
  | zRem (key : String) (members : List String)
  | zScore (key member : String)
  | zMScore (key : String) (members : List String)
  | zIncrBy (key : String) (delta : F64) (member : String)
  | zRank (key member : String)
  | zRevRank (key member : String)
  | zCard (key : String)
  | zCount (key min max : String)
  | zRange (key : String) (start stop : Int) (rev withscores : Bool)
  | zRangeByScore (args : ZRangeByScoreArgs)
  | zRevRangeByScore (args : ZRangeByScoreArgs)
  | zRevRange (key : String) (start stop : Int) (withscores : Bool)
  | zRemRangeByRank (key : String) (start stop : Int)
  | zRemRangeByScore (key min max : String)
  | zPopMin (key : String) (count : Nat)
  | zPopMax (key : String) (count : Nat)
  -- scripts
  | eval (script : Bytes) (numkeys : Nat) (keys argv : List Bytes)
  | evalSha (sha : Bytes) (numkeys : Nat) (keys argv : List Bytes)
  | scriptLoad (script : Bytes)
  | scriptFlush

namespace Command

def isScripting : Command → Bool
  | eval .. | evalSha .. | scriptLoad _ | scriptFlush => true
  | _ => false

end Command

end MiniRudis
