import MiniRudis.Cmd.Dispatch
import MiniRudis.Script.Values

/-!
# The scripting engine

What Lua makes of a script is a parameter: which calls it makes of `redis.call` and
`redis.pcall`, and what it returns.
-/

namespace MiniRudis

open Lib

/-- How a part of a script ends without a value: with an error, or with a panic of the
program, which mlua carries through Lua. -/
inductive LuaFault
  | error (msg : String)
  | panic

/-- A script at work: it ends, or it calls `redis.call` or `redis.pcall` and goes on with
what the call returns or raises.  Each call reads the clocks anew. -/
inductive LuaRun
  | finish (result : Except LuaFault LuaValue)
  | call (pcall : Bool) (env : Env) (args : List LuaValue)
      (next : Except LuaFault LuaValue → LuaRun)

/-- What the engine uses of other crates and of the platform. -/
structure Host where
  /-- `std::env::consts::OS`. -/
  os : String
  /-- `ScriptEngine::sha1_hex`. -/
  sha1Hex : String → String
  /-- `lua.load(script).eval()` with `KEYS` and `ARGV`. -/
  lua : Env → String → List String → List String → LuaRun

/-! ## `redis.call` and `redis.pcall` -/

def luaArg : LuaValue → Except String Bytes
  | .string s => .ok s
  | .integer n => .ok (asBytes (decimal n))
  | .number f => .ok (asBytes f.formatFloat)
  | other => .error ("redis.call: unsupported argument type: \"" ++ other.typeName ++ "\"")

/-- What a call returns for a reply: `redis.call` raises an error frame. -/
def luaAnswer (pcall : Bool) : Outcome Frame → Except LuaFault LuaValue
  | .ok (.error msg) =>
      if pcall then .ok (frameToLuaValue (.error msg)) else .error (.error msg)
  | .ok frame => .ok (frameToLuaValue frame)
  -- `execute` returns a frame or panics
  | .error _ => .error .panic

/-- `exec_redis_call`, with `execute` as `run`. -/
def execRedisCall (run : Env → Command → CmdM (Outcome Frame)) (pcall : Bool) (env : Env)
    (args : List LuaValue) : CmdM (Except LuaFault LuaValue) :=
  if args.isEmpty then return .error (.error "redis.call: missing command")
  else
    match args.mapM luaArg with
    | .error msg => return .error (.error msg)
    | .ok cmdArgs =>
        match Cmd.parse env cmdArgs with
        | .error (.err e) => return .error (.error e.text)
        | .error .panicked => return .error .panic
        | .ok cmd => luaAnswer pcall <$> run env cmd

/-! ## The engine -/

section
variable (host : Host) (call : Bool → Env → List LuaValue → CmdM (Except LuaFault LuaValue))

def runLua : LuaRun → CmdM (Except LuaFault LuaValue)
  | .finish result => return result
  | .call pcall env args next => do
      let answer ← call pcall env args
      runLua (next answer)

/-- What `eval` makes of the value or the error of a script. -/
def scriptResult : Except LuaFault LuaValue → Outcome Frame
  | .ok value => .ok (luaValueToFrame value)
  | .error (.error msg) => err (.script msg)
  | .error .panic => panicked

def evalScript (env : Env) (script : String) (keys argv : List String) :
    CmdM (Outcome Frame) :=
  scriptResult <$> runLua call (host.lua env script keys argv)

def evalsha (env : Env) (sha : String) (keys argv : List String) : CmdM (Outcome Frame) := do
  let script ← Program.lift (.cacheGet sha)
  match script with
  | none => return err (.generic "NOSCRIPT No matching script. Please use EVAL.")
  | some script => evalScript host call env script keys argv

def loadScript (script : String) : CmdM String := do
  let sha := host.sha1Hex script
  Program.lift (.cacheInsert sha script)
  return sha

/-- The last arms of `execute`. -/
def scripting (env : Env) : Command → CmdM (Outcome Frame)
  | .eval script _ keys argv =>
      Cmd.reply id <$> evalScript host call env (fromUtf8Lossy script) (keys.map fromUtf8Lossy)
        (argv.map fromUtf8Lossy)
  | .evalSha sha _ keys argv =>
      Cmd.reply id <$> evalsha host call env (fromUtf8Lossy sha) (keys.map fromUtf8Lossy)
        (argv.map fromUtf8Lossy)
  | .scriptLoad script => (fun sha => .ok (.bulkStr sha)) <$> loadScript host (fromUtf8Lossy script)
  | .scriptFlush => do
      Program.lift .cacheClear
      return .ok .ok
  | _ => return .ok (.error "ERR unknown command in final dispatch")

end

namespace Host

variable (host : Host)

/-- What a script's calls do that is run at index `db`.  The stack has room for `depth`
of them within one another, by scripts that run scripts. -/
def call (db : Nat) : Nat → Bool → Env → List LuaValue → CmdM (Except LuaFault LuaValue)
  | 0 => fun _ _ _ => return .error .panic
  | depth + 1 => execRedisCall fun env cmd =>
      -- the index that the command leaves is dropped
      Prod.fst <$> Cmd.execute host.os env db (scripting host (call db depth) env) cmd

def execute (depth : Nat) (env : Env) (db : Nat) (cmd : Command) : CmdM (Outcome Frame × Nat) :=
  Cmd.execute host.os env db (scripting host (host.call db depth) env) cmd

theorem call_succ (db depth : Nat) :
    host.call db (depth + 1) =
      execRedisCall fun env cmd => Prod.fst <$> host.execute depth env db cmd := rfl

end Host

end MiniRudis
