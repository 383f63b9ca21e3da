import MiniRudis.Cmd.ZSets

/-!
# Commands: sets
-/

namespace MiniRudis.Cmd

open Lib

/-! ## Parsing -/

def parseSadd (args : List Bytes) : Outcome Command :=
  atLeast 2 "SADD" args (oneAndRest .sAdd args)

def parseSrem (args : List Bytes) : Outcome Command :=
  atLeast 2 "SREM" args (oneAndRest .sRem args)

def parseSmembers (args : List Bytes) : Outcome Command :=
  exactly 1 "SMEMBERS" args (one .sMembers args)

def parseSismember (args : List Bytes) : Outcome Command :=
  exactly 2 "SISMEMBER" args (two .sIsMember args)

def parseSmismember (args : List Bytes) : Outcome Command :=
  atLeast 2 "SMISMEMBER" args (oneAndRest .sMIsMember args)

def parseScard (args : List Bytes) : Outcome Command := exactly 1 "SCARD" args (one .sCard args)

def parseSunion (args : List Bytes) : Outcome Command := atLeast 1 "SUNION" args (all .sUnion args)

def parseSinter (args : List Bytes) : Outcome Command := atLeast 1 "SINTER" args (all .sInter args)

def parseSdiff (args : List Bytes) : Outcome Command := atLeast 1 "SDIFF" args (all .sDiff args)

def parseStore (args : List Bytes) (cmd : String) : Outcome Command :=
  atLeast 2 cmd args do
    let dst ← strAt args 0
    let keys ← strsFrom args 1
    match cmd with
    | "SUNIONSTORE" => return .sUnionStore dst keys
    | "SINTERSTORE" => return .sInterStore dst keys
    | "SDIFFSTORE" => return .sDiffStore dst keys
    -- `unreachable!()`
    | _ => panicked

def parseSpop (args : List Bytes) : Outcome Command :=
  atLeast 1 "SPOP" args do
    let key ← strAt args 0
    -- the test of `parse_usize`, written out
    let count ← ifSecond args (usizeAt args 1 "SPOP") 1
    return .sPop key count

def parseSrandmember (args : List Bytes) : Outcome Command :=
  atLeast 1 "SRANDMEMBER" args do
    let key ← strAt args 0
    let count ← ifSecond args (i64At args 1 "SRANDMEMBER") 1
    return .sRandMember key count

def parseSmove (args : List Bytes) : Outcome Command := exactly 3 "SMOVE" args (three .sMove args)

/-! ## Execution -/

/-- The reply of `SPOP` and `SRANDMEMBER`: with a count of 1 a single member. -/
def drawnFrame (single : Bool) (members : List String) : Frame :=
  if single then strOrNull members.head? else strFrames members

def Sets.execute (env : Env) (db : Nat) (last : Command → CmdM (Outcome Frame)) :
    Command → CmdM (Outcome Frame)
  | .sAdd key members => callTyped env db key (.sadd members) countFrame
  | .sRem key members => callTyped env db key (.srem members) countFrame
  | .sMembers key => callTyped env db key .smembers strFrames
  | .sIsMember key member => callTyped env db key (.sismember member) boolFrame
  | .sMIsMember key members =>
      callTyped env db key (.smismember members) fun results => .array (results.map boolFrame)
  | .sCard key => callTyped env db key .scard countFrame
  | .sUnion keys => call env (.sunion db keys) strFrames
  | .sInter keys => call env (.sinter db keys) strFrames
  | .sDiff keys => call env (.sdiff db keys) strFrames
  | .sUnionStore dst keys => call env (.sunionstore db dst keys) countFrame
  | .sInterStore dst keys => call env (.sinterstore db dst keys) countFrame
  | .sDiffStore dst keys => call env (.sdiffstore db dst keys) countFrame
  | .sPop key count => callTyped env db key (.spop count) (drawnFrame (count == 1))
  | .sRandMember key count => callTyped env db key (.srandmember count) (drawnFrame (count == 1))
  | .sMove src dst member => call env (.smove db src dst member) boolFrame
  | cmd => ZSets.execute env db last cmd

end MiniRudis.Cmd
