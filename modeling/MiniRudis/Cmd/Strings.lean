import MiniRudis.Cmd.Lists

/-!
# Commands: strings
-/

namespace MiniRudis.Cmd

open Lib

/-! ## Parsing -/

def readSetDuration (unit : Int → Duration) : ValueReader Bytes Fault SetArgs := fun b => do
  let n ← parseI64 b "SET"
  if n ≤ 0 then err (.generic "ERR invalid expire time in 'set' command")
  else return fun a => { a with expire := some (unit n) }

/-- The value of `EXAT` and `PXAT` in `SET`; `now` is the wall clock in their unit. -/
def readSetDeadline (env : Env) (unit : Int → Duration) (now : Int) : ValueReader Bytes Fault SetArgs :=
  fun b => do
    let ts ← parseI64 b "SET"
    let diff ← arithI64 env.overflowChecks (ts - now)
    return fun a => { a with expire := some (unit (max diff 0)) }

def setRules (env : Env) : String → Option (OptionRule Bytes Fault SetArgs)
  | "EX" => some (.ofValues [readSetDuration Duration.fromSecs])
  | "PX" => some (.ofValues [readSetDuration Duration.fromMillis])
  | "EXAT" =>
      some (.ofValues
        [readSetDeadline env Duration.fromSecs (Duration.asSecs env.sysNow.toNat)])
  | "PXAT" =>
      some (.ofValues
        [readSetDeadline env Duration.fromMillis (Duration.asMillis env.sysNow.toNat)])
  | "NX" => some (.ofFlag fun a => { a with nx := true })
  | "XX" => some (.ofFlag fun a => { a with xx := true })
  | "GET" => some (.ofFlag fun a => { a with get := true })
  | "KEEPTTL" => some (.ofFlag fun a => { a with keepttl := true })
  | _ => none

def parseSet (env : Env) (args : List Bytes) : Outcome Command :=
  atLeast 2 "SET" args do
    let key ← strAt args 0
    let value ← index args 1
    let a ← readOptions env.upper (setRules env) (args.drop 2)
      ⟨key, value, none, false, false, false, false⟩
    if a.nx && a.xx then err .syntaxError else return .set a

def parseGet (args : List Bytes) : Outcome Command := exactly 1 "GET" args (one .get args)

def parseGetset (args : List Bytes) : Outcome Command :=
  exactly 2 "GETSET" args (keyValue .getSet args)

def parseGetdel (args : List Bytes) : Outcome Command := exactly 1 "GETDEL" args (one .getDel args)

/-- The value of `EX` and `PX` in `GETEX`, which takes any integer. -/
def readGetexDuration (unit : Int → Duration) : ValueReader Bytes Fault GetExArgs := fun b => do
  let n ← parseI64 b "GETEX"
  return fun a => { a with expire := some (unit n) }

def getexRules : String → Option (OptionRule Bytes Fault GetExArgs)
  | "EX" => some (.ofValues [readGetexDuration Duration.fromSecs])
  | "PX" => some (.ofValues [readGetexDuration Duration.fromMillis])
  | "PERSIST" => some (.ofFlag fun a => { a with persist := true })
  | _ => none

def parseGetex (env : Env) (args : List Bytes) : Outcome Command :=
  atLeast 1 "GETEX" args do
    let key ← strAt args 0
    let a ← readOptions env.upper getexRules (args.drop 1) ⟨key, none, false⟩
    return .getEx a

def parsePairs (cmd : String) (build : List (String × Bytes) → Command) (args : List Bytes) :
    Outcome Command :=
  if args.length < 2 ∨ args.length % 2 ≠ 0 then err (.wrongArity cmd)
  else build <$> chunkPairs args

def parseMset (args : List Bytes) : Outcome Command := parsePairs "MSET" .mset args

def parseMget (args : List Bytes) : Outcome Command := atLeast 1 "MGET" args (all .mget args)

def parseMsetnx (args : List Bytes) : Outcome Command := parsePairs "MSETNX" .msetnx args

def parseSetnx (args : List Bytes) : Outcome Command :=
  exactly 2 "SETNX" args (keyValue .setnx args)

def parseTimed (cmd msg : String) (build : String → Int → Bytes → Command) (args : List Bytes) :
    Outcome Command :=
  exactly 3 cmd args do
    let key ← strAt args 0
    let n ← i64At args 1 cmd
    if n ≤ 0 then err (.generic msg)
    else do
      let value ← index args 2
      return build key n value

def parseSetex (args : List Bytes) : Outcome Command :=
  parseTimed "SETEX" "ERR invalid expire time in 'setex' command" .setex args

def parsePsetex (args : List Bytes) : Outcome Command :=
  parseTimed "PSETEX" "ERR invalid expire time in 'psetex' command" .pSetex args

def parseIncr (args : List Bytes) (cmd : String) : Outcome Command :=
  exactly 1 cmd args (one .incr args)

def parseIncrby (args : List Bytes) : Outcome Command :=
  exactly 2 "INCRBY" args (keyInt "INCRBY" .incrBy args)

def parseIncrbyfloat (args : List Bytes) : Outcome Command :=
  exactly 2 "INCRBYFLOAT" args do
    let key ← strAt args 0
    let delta ← f64At args 1
    return .incrByFloat key delta

def parseDecr (args : List Bytes) : Outcome Command := exactly 1 "DECR" args (one .decr args)

def parseDecrby (args : List Bytes) : Outcome Command :=
  exactly 2 "DECRBY" args (keyInt "DECRBY" .decrBy args)

def parseAppend (args : List Bytes) : Outcome Command :=
  exactly 2 "APPEND" args (keyValue .append args)

def parseStrlen (args : List Bytes) : Outcome Command := exactly 1 "STRLEN" args (one .strlen args)

def parseGetrange (args : List Bytes) : Outcome Command :=
  exactly 3 "GETRANGE" args (keyRange "GETRANGE" .getRange args)

def parseSetrange (args : List Bytes) : Outcome Command :=
  exactly 3 "SETRANGE" args do
    let key ← strAt args 0
    let offset ← usizeAt args 1 "SETRANGE"
    let value ← index args 2
    return .setRange key offset value

/-! ## Execution -/

/-- The write of `exec_set`: `SETNX` and then `EXPIRE`, or `str_setxx`, or `str_set`. -/
def setWrite (args : SetArgs) (env : Env) (db : Nat) : CmdM (Outcome Bool) :=
  if args.nx then do
    let written ← onKey env db args.key (.setnx args.value)
    match written, args.expire with
    | .ok true, some exp => do
        let expired ← onKey env db args.key (.expire exp.asSecs)
        match expired with
        | .error .panicked => return panicked
        -- `let _ = borrowed.expire(…)`
        | _ => return .ok true
    | other, _ => return other
  else if args.xx then onKey env db args.key (.setxx args.value args.expire)
  else do
    let written ← onKey env db args.key (.set args.value args.expire)
    return written.map fun _ => true

def setFrame (args : SetArgs) (old : Option Bytes) (written : Bool) : Frame :=
  if written then if args.get then bulkOrNull old else .ok else .null

def setOld (args : SetArgs) (env : Env) (db : Nat) : CmdM (Outcome (Option Bytes)) :=
  if args.get then onKey env db args.key (.typed .get) else return .ok none

def execSet (args : SetArgs) (env : Env) (db : Nat) : CmdM (Outcome Frame) := do
  let old ← setOld args env db
  match old with
  | .error e => return reply bulkOrNull (.error e)
  | .ok old => do
      let written ← setWrite args env db
      return reply (setFrame args old) written

def execGetex (args : GetExArgs) (env : Env) (db : Nat) : CmdM (Outcome Frame) := do
  let val ← onKey env db args.key (.typed .get)
  match val with
  | .error e => return reply bulkOrNull (.error e)
  | .ok none => return .ok .null
  | .ok (some v) =>
      if args.persist then do
        let persisted ← onKey env db args.key .persist
        return ignoring persisted (.bulk v)
      else
        match args.expire with
        | none => return .ok (.bulk v)
        | some exp => do
            let expired ← onKey env db args.key (.pexpire exp.asMillis)
            return ignoring expired (.bulk v)

def Strings.execute (env : Env) (db : Nat) (last : Command → CmdM (Outcome Frame)) :
    Command → CmdM (Outcome Frame)
  | .set args => execSet args env db
  | .get key => callTyped env db key .get bulkOrNull
  | .getSet key value => call env (.onKey db key (.getset value)) bulkOrNull
  | .getDel key => call env (.onKey db key .getdel) bulkOrNull
  | .getEx args => execGetex args env db
  | .mset pairs => call env (.mset db pairs) okFrame
  | .mget keys => call env (.mget db keys) bulkOrNullFrames
  | .msetnx pairs => call env (.msetnx db pairs) boolFrame
  | .setnx key value => call env (.onKey db key (.setnx value)) boolFrame
  | .setex key secs value =>
      call env (.onKey db key (.set value (some (Duration.fromSecs secs)))) okFrame
  | .pSetex key ms value =>
      call env (.onKey db key (.set value (some (Duration.fromMillis ms)))) okFrame
  | .incr key => callTyped env db key (.incr 1) .integer
  | .incrBy key delta => callTyped env db key (.incr delta) .integer
  | .incrByFloat key delta => callTyped env db key (.incrFloat delta) floatFrame
  | .decr key => callTyped env db key (.incr (-1)) .integer
  | .decrBy key delta =>
      match arithI64 env.overflowChecks (-delta) with
      | .error e => return reply id (.error e)
      | .ok delta => callTyped env db key (.incr delta) .integer
  | .append key value => callTyped env db key (.append value) countFrame
  | .strlen key => callTyped env db key .strlen countFrame
  | .getRange key start stop => callTyped env db key (.getrange start stop) .bulk
  | .setRange key offset value => callTyped env db key (.setrange offset value) countFrame
  | cmd => Lists.execute env db last cmd

end MiniRudis.Cmd
