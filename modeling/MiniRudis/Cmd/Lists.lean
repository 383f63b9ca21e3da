import MiniRudis.Cmd.Hashes

/-!
# Commands: lists
-/

namespace MiniRudis.Cmd

open Lib

/-! ## Parsing -/

def pushName : Bool → Bool → String
  | true, false => "LPUSH"
  | false, false => "RPUSH"
  | true, true => "LPUSHX"
  | false, true => "RPUSHX"

def pushCommand : Bool → Bool → String → List Bytes → Command
  | true, false => .lPush
  | false, false => .rPush
  | true, true => .lPushX
  | false, true => .rPushX

def parsePush (args : List Bytes) (left x : Bool) : Outcome Command :=
  atLeast 2 (pushName left x) args do
    let key ← strAt args 0
    let values ← argsFrom args 1
    return pushCommand left x key values

def parsePop (args : List Bytes) (left : Bool) : Outcome Command :=
  let name := if left then "LPOP" else "RPOP"
  atLeast 1 name args do
    let key ← strAt args 0
    let count ← ifSecond args (usizeAt args 1 name) 1
    return if left then .lPop key count else .rPop key count

def parseLlen (args : List Bytes) : Outcome Command := exactly 1 "LLEN" args (one .lLen args)

def parseLrange (args : List Bytes) : Outcome Command :=
  exactly 3 "LRANGE" args (keyRange "LRANGE" .lRange args)

def parseLindex (args : List Bytes) : Outcome Command :=
  exactly 2 "LINDEX" args (keyInt "LINDEX" .lIndex args)

def parseLset (args : List Bytes) : Outcome Command :=
  exactly 3 "LSET" args (keyIntValue "LSET" .lSet args)

def parseBefore (env : Env) (pos : Bytes) : Outcome Bool :=
  match upperText env.upper pos with
  | "BEFORE" => .ok true
  | "AFTER" => .ok false
  | _ => err .syntaxError

def parseLinsert (env : Env) (args : List Bytes) : Outcome Command :=
  exactly 4 "LINSERT" args do
    let key ← strAt args 0
    let pos ← index args 1
    let before ← parseBefore env pos
    let pivot ← index args 2
    let value ← index args 3
    return .lInsert key before pivot value

def parseLrem (args : List Bytes) : Outcome Command :=
  exactly 3 "LREM" args (keyIntValue "LREM" .lRem args)

def parseLtrim (args : List Bytes) : Outcome Command :=
  exactly 3 "LTRIM" args (keyRange "LTRIM" .lTrim args)

/-- A direction of `LMOVE`: it names the left end. -/
def parseLeft (env : Env) (dir : Bytes) : Outcome Bool :=
  match upperText env.upper dir with
  | "LEFT" => .ok true
  | "RIGHT" => .ok false
  | _ => err .syntaxError

def parseLmove (env : Env) (args : List Bytes) : Outcome Command :=
  exactly 4 "LMOVE" args do
    let src ← strAt args 0
    let dst ← strAt args 1
    let srcDir ← index args 2
    let dstDir ← index args 3
    let srcLeft ← parseLeft env srcDir
    let dstLeft ← parseLeft env dstDir
    return .lMove src dst srcLeft dstLeft

/-! ## Execution -/

/-- `exec_pop_result`. -/
def popFrame (single : Bool) (items : List Bytes) : Frame :=
  match items with
  | [] => .null
  | item :: _ => if single then .bulk item else bulkFrames items

def Lists.execute (env : Env) (db : Nat) (last : Command → CmdM (Outcome Frame)) :
    Command → CmdM (Outcome Frame)
  | .lPush key values => callTyped env db key (.lpush values) countFrame
  | .rPush key values => callTyped env db key (.rpush values) countFrame
  | .lPushX key values => callTyped env db key (.lpushx values) countFrame
  | .rPushX key values => callTyped env db key (.rpushx values) countFrame
  | .lPop key count => callTyped env db key (.lpop count) (popFrame (count == 1))
  | .rPop key count => callTyped env db key (.rpop count) (popFrame (count == 1))
  | .lLen key => callTyped env db key .llen countFrame
  | .lRange key start stop => callTyped env db key (.lrange start stop) bulkFrames
  | .lIndex key index => callTyped env db key (.lindex index) bulkOrNull
  | .lSet key index value => callTyped env db key (.lset index value) okFrame
  | .lInsert key before pivot value =>
      callTyped env db key (.linsert before pivot value) .integer
  | .lRem key count value => callTyped env db key (.lrem count value) countFrame
  | .lTrim key start stop => callTyped env db key (.ltrim start stop) okFrame
  | .lMove src dst srcLeft dstLeft => call env (.lmove db src dst srcLeft dstLeft) bulkOrNull
  | cmd => Hashes.execute env db last cmd

end MiniRudis.Cmd
