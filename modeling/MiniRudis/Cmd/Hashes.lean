import MiniRudis.Cmd.Sets

/-!
# Commands: hashes
-/

namespace MiniRudis.Cmd

open Lib

/-! ## Parsing -/

/-- `if args.len() < 3 || args.len().is_multiple_of(2)`, and then a key and pairs. -/
def parseFields (cmd : String) (build : String → List (String × Bytes) → Command)
    (args : List Bytes) : Outcome Command :=
  if args.length < 3 ∨ args.length % 2 = 0 then err (.wrongArity cmd) else keyPairs build args

def parseHset (args : List Bytes) : Outcome Command := parseFields "HSET" .hSet args

def parseHsetnx (args : List Bytes) : Outcome Command :=
  exactly 3 "HSETNX" args do
    let key ← strAt args 0
    let field ← strAt args 1
    let value ← index args 2
    return .hSetnx key field value

def parseHget (args : List Bytes) : Outcome Command := exactly 2 "HGET" args (two .hGet args)

def parseHmget (args : List Bytes) : Outcome Command :=
  atLeast 2 "HMGET" args (oneAndRest .hMGet args)

def parseHmset (args : List Bytes) : Outcome Command := parseFields "HMSET" .hMSet args

def parseHdel (args : List Bytes) : Outcome Command :=
  atLeast 2 "HDEL" args (oneAndRest .hDel args)

def parseHexists (args : List Bytes) : Outcome Command :=
  exactly 2 "HEXISTS" args (two .hExists args)

def parseHgetall (args : List Bytes) : Outcome Command :=
  exactly 1 "HGETALL" args (one .hGetAll args)

def parseHkeys (args : List Bytes) : Outcome Command := exactly 1 "HKEYS" args (one .hKeys args)

def parseHvals (args : List Bytes) : Outcome Command := exactly 1 "HVALS" args (one .hVals args)

def parseHlen (args : List Bytes) : Outcome Command := exactly 1 "HLEN" args (one .hLen args)

def parseHincrby (args : List Bytes) : Outcome Command :=
  exactly 3 "HINCRBY" args do
    let key ← strAt args 0
    let field ← strAt args 1
    let delta ← i64At args 2 "HINCRBY"
    return .hIncrBy key field delta

def parseHincrbyfloat (args : List Bytes) : Outcome Command :=
  exactly 3 "HINCRBYFLOAT" args do
    let key ← strAt args 0
    let field ← strAt args 1
    let delta ← f64At args 2
    return .hIncrByFloat key field delta

/-! ## Execution -/

def pairFrames (pairs : List (String × Bytes)) : Frame :=
  .array (pairs.flatMap fun (field, value) => [.bulkStr field, .bulk value])

def Hashes.execute (env : Env) (db : Nat) (last : Command → CmdM (Outcome Frame)) :
    Command → CmdM (Outcome Frame)
  | .hSet key fields => callTyped env db key (.hset fields) countFrame
  | .hSetnx key field value => callTyped env db key (.hsetnx field value) boolFrame
  | .hGet key field => callTyped env db key (.hget field) bulkOrNull
  | .hMGet key fields => callTyped env db key (.hmget fields) bulkOrNullFrames
  | .hMSet key fields => callTyped env db key (.hset fields) fun _ => .ok
  | .hDel key fields => callTyped env db key (.hdel fields) countFrame
  | .hExists key field => callTyped env db key (.hexists field) boolFrame
  | .hGetAll key => callTyped env db key .hgetall pairFrames
  | .hKeys key => callTyped env db key .hkeys strFrames
  | .hVals key => callTyped env db key .hvals bulkFrames
  | .hLen key => callTyped env db key .hlen countFrame
  | .hIncrBy key field delta => callTyped env db key (.hincrby field delta) .integer
  | .hIncrByFloat key field delta => callTyped env db key (.hincrbyfloat field delta) floatFrame
  | cmd => Sets.execute env db last cmd

end MiniRudis.Cmd
