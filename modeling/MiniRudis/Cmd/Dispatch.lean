import MiniRudis.Cmd.Generic

/-!
# Dispatch

`cmd::parse` looks the upper-cased name up in its table; `cmd::execute` runs the
command on the connection's logical database.
-/

namespace MiniRudis.Cmd

open Lib

/-! ## Parsing -/

def parseEval (args : List Bytes) (isSha : Bool) : Outcome Command :=
  atLeast 2 (if isSha then "EVALSHA" else "EVAL") args do
    let script ← index args 0
    let numkeys ← usizeAt args 1 "EVAL"
    let first ← addUsize 2 numkeys
    if args.length < first then err (.generic "ERR not enough arguments for EVAL")
    else do
      let keys ← sliceRange args 2 first
      let argv ← argsFrom args first
      return if isSha then .evalSha script numkeys keys argv else .eval script numkeys keys argv

def scriptCommand (args : List Bytes) (sub : String) : Outcome Command :=
  match sub with
  | "LOAD" => atLeast 2 "SCRIPT LOAD" args (.scriptLoad <$> index args 1)
  | "FLUSH" => .ok .scriptFlush
  | _ => err (.generic ("ERR unknown SCRIPT subcommand: " ++ sub))

def parseScript (env : Env) (args : List Bytes) : Outcome Command :=
  atLeast 1 "SCRIPT" args do
    let sub ← index args 0
    scriptCommand args (upperText env.upper sub)

/-- The arms of the match in `parse`, but for the scripting commands. -/
def commandTable (env : Env) : List (String × (List Bytes → Outcome Command)) :=
  [("PING", parsePing),
    ("ECHO", parseEcho),
    ("SELECT", parseSelect),
    ("DBSIZE", fun _ => .ok .dbsize),
    ("FLUSHDB", fun _ => .ok .flushdb),
    ("FLUSHALL", fun _ => .ok .flushall),
    ("INFO", fun _ => .ok .info),
    ("QUIT", fun _ => .ok .quit),
    ("DEL", parseDel),
    ("UNLINK", parseDel),
    ("EXISTS", parseExists),
    ("TYPE", parseType),
    ("RENAME", fun rest => parseRename rest false),
    ("RENAMENX", fun rest => parseRename rest true),
    ("EXPIRE", fun rest => parseExpire rest false false),
    ("PEXPIRE", parsePexpire),
    ("EXPIREAT", fun rest => parseExpire rest true false),
    ("PEXPIREAT", parsePexpireat),
    ("TTL", fun rest => parseTtl rest false),
    ("PTTL", fun rest => parseTtl rest true),
    ("PERSIST", parsePersist),
    ("KEYS", parseKeys),
    ("RANDOMKEY", fun _ => .ok .randomkey),
    ("SET", parseSet env),
    ("GET", parseGet),
    ("GETSET", parseGetset),
    ("GETDEL", parseGetdel),
    ("GETEX", parseGetex env),
    ("MSET", parseMset),
    ("MGET", parseMget),
    ("MSETNX", parseMsetnx),
    ("SETNX", parseSetnx),
    ("SETEX", parseSetex),
    ("PSETEX", parsePsetex),
    ("INCR", fun rest => parseIncr rest "INCR"),
    ("INCRBY", parseIncrby),
    ("INCRBYFLOAT", parseIncrbyfloat),
    ("DECR", parseDecr),
    ("DECRBY", parseDecrby),
    ("APPEND", parseAppend),
    ("STRLEN", parseStrlen),
    ("GETRANGE", parseGetrange),
    ("SUBSTR", parseGetrange),
    ("SETRANGE", parseSetrange),
    ("LPUSH", fun rest => parsePush rest true false),
    ("RPUSH", fun rest => parsePush rest false false),
    ("LPUSHX", fun rest => parsePush rest true true),
    ("RPUSHX", fun rest => parsePush rest false true),
    ("LPOP", fun rest => parsePop rest true),
    ("RPOP", fun rest => parsePop rest false),
    ("LLEN", parseLlen),
    ("LRANGE", parseLrange),
    ("LINDEX", parseLindex),
    ("LSET", parseLset),
    ("LINSERT", parseLinsert env),
    ("LREM", parseLrem),
    ("LTRIM", parseLtrim),
    ("LMOVE", parseLmove env),
    ("HSET", parseHset),
    ("HSETNX", parseHsetnx),
    ("HGET", parseHget),
    ("HMGET", parseHmget),
    ("HMSET", parseHmset),
    ("HDEL", parseHdel),
    ("HEXISTS", parseHexists),
    ("HGETALL", parseHgetall),
    ("HKEYS", parseHkeys),
    ("HVALS", parseHvals),
    ("HLEN", parseHlen),
    ("HINCRBY", parseHincrby),
    ("HINCRBYFLOAT", parseHincrbyfloat),
    ("SADD", parseSadd),
    ("SREM", parseSrem),
    ("SMEMBERS", parseSmembers),
    ("SISMEMBER", parseSismember),
    ("SMISMEMBER", parseSmismember),
    ("SCARD", parseScard),
    ("SUNION", parseSunion),
    ("SINTER", parseSinter),
    ("SDIFF", parseSdiff),
    ("SUNIONSTORE", fun rest => parseStore rest "SUNIONSTORE"),
    ("SINTERSTORE", fun rest => parseStore rest "SINTERSTORE"),
    ("SDIFFSTORE", fun rest => parseStore rest "SDIFFSTORE"),
    ("SPOP", parseSpop),
    ("SRANDMEMBER", parseSrandmember),
    ("SMOVE", parseSmove),
    ("ZADD", parseZadd env),
    ("ZREM", parseZrem),
    ("ZSCORE", parseZscore),
    ("ZMSCORE", parseZmscore),
    ("ZINCRBY", parseZincrby),
    ("ZRANK", parseZrank),
    ("ZREVRANK", parseZrevrank),
    ("ZCARD", parseZcard),
    ("ZCOUNT", parseZcount),
    ("ZRANGE", parseZrange env),
    ("ZRANGEBYSCORE", fun rest => parseZrangebyscore env rest false),
    ("ZREVRANGEBYSCORE", fun rest => parseZrangebyscore env rest true),
    ("ZREVRANGE", parseZrevrange env),
    ("ZREMRANGEBYRANK", parseZremrangebyrank),
    ("ZREMRANGEBYSCORE", parseZremrangebyscore),
    ("ZPOPMIN", fun rest => parseZpop rest true),
    ("ZPOPMAX", fun rest => parseZpop rest false)]

def scriptTable (env : Env) : List (String × (List Bytes → Outcome Command)) :=
  [("EVAL", fun rest => parseEval rest false),
    ("EVALSHA", fun rest => parseEval rest true),
    ("SCRIPT", parseScript env)]

def commandName (env : Env) (name : Bytes) : String := upperText env.upper name

def unknownText (env : Env) (name : Bytes) (rest : List Bytes) : String :=
  let shown := (rest.take 3).map fun b => "`" ++ fromUtf8Lossy b ++ "`"
  "ERR unknown command `" ++ commandName env name ++ "`, with args beginning with: " ++
    ", ".intercalate shown

def parse (env : Env) : List Bytes → Outcome Command
  | [] => err (.protocol "empty command")
  | name :: rest =>
      match (commandTable env ++ scriptTable env).lookup (commandName env name) with
      | some parseRest => parseRest rest
      | none => err (.generic (unknownText env name rest))

/-! ## Execution -/

def infoString (os : String) : String :=
  "# Server\r\nredis_version:7.0.0-mini-rudis\r\nredis_mode:standalone\r\nos:" ++ os ++
    "\r\narch_bits:64\r\nexecutable:mini-rudis\r\n# Keyspace\r\n"

/-- `cmd::execute` but for `SELECT`, which is the one command that changes the index. -/
def executeOn (os : String) (env : Env) (db : Nat) (last : Command → CmdM (Outcome Frame)) :
    Command → CmdM (Outcome Frame)
  | .ping none => return .ok .pong
  | .ping (some msg) => return .ok (.bulk msg)
  | .echo msg => return .ok (.bulk msg)
  | .dbsize => call env (.dbsize db) countFrame
  | .flushdb => call env (.flushdb db) okFrame
  | .flushall => call env .flushall okFrame
  | .info => return .ok (.bulkStr (infoString os))
  | .quit => return .ok .ok
  | .del keys => call env (.del db keys) .integer
  | .existsKeys keys => call env (.existsKeys db keys) .integer
  | .type key => call env (.onKey db key .typeOf) .simple
  | .rename src dst => call env (.rename db src dst) okFrame
  | .renamenx src dst => call env (.renamenx db src dst) boolFrame
  | .expire key secs => call env (.onKey db key (.expire secs)) boolFrame
  | .pExpire key ms => call env (.onKey db key (.pexpire ms)) boolFrame
  | .expireAt key ts => call env (.onKey db key (.expireat ts)) boolFrame
  | .pExpireAt key ts => call env (.onKey db key (.pexpireat ts)) boolFrame
  | .ttl key => call env (.onKey db key .ttl) .integer
  | .pttl key => call env (.onKey db key .pttl) .integer
  | .persist key => call env (.onKey db key .persist) boolFrame
  | .keys pattern => call env (.keys db pattern) strFrames
  | .randomkey => call env (.randomkey db) strOrNull
  | cmd => Strings.execute env db last cmd

/-- `cmd::execute`: the frame and the connection's index. -/
def execute (os : String) (env : Env) (db : Nat) (last : Command → CmdM (Outcome Frame))
    (cmd : Command) : CmdM (Outcome Frame × Nat) :=
  match cmd with
  | .select idx =>
      if 16 ≤ idx then return (.ok (.fromError .dbIndexOutOfRange), db)
      else return (.ok .ok, idx)
  | cmd => do
      let frame ← executeOn os env db last cmd
      return (frame, db)

end MiniRudis.Cmd
