import MiniRudis.Cmd.Strings

/-!
# Commands: connection, server and keys

Parsing only: these commands are executed by the dispatch itself.
-/

namespace MiniRudis.Cmd

open Lib

def parsePing (args : List Bytes) : Outcome Command :=
  match args.length with
  | 0 => return .ping none
  | 1 => do
      let msg ← index args 0
      return .ping (some msg)
  | _ => err (.wrongArity "PING")

def parseEcho (args : List Bytes) : Outcome Command :=
  exactly 1 "ECHO" args (.echo <$> index args 0)

def parseSelect (args : List Bytes) : Outcome Command :=
  exactly 1 "SELECT" args do
    let n ← i64At args 0 "SELECT"
    if ¬ (0 ≤ n ∧ n < 16) then err .dbIndexOutOfRange else return .select (asU64 n)

def parseDel (args : List Bytes) : Outcome Command := atLeast 1 "DEL" args (all .del args)

def parseExists (args : List Bytes) : Outcome Command :=
  atLeast 1 "EXISTS" args (all .existsKeys args)

def parseType (args : List Bytes) : Outcome Command := exactly 1 "TYPE" args (one .type args)

def parseRename (args : List Bytes) (nx : Bool) : Outcome Command :=
  exactly 2 (if nx then "RENAMENX" else "RENAME") args
    (two (if nx then .renamenx else .rename) args)

/-- `parse_expire`, which ignores its two flags. -/
def parseExpire (args : List Bytes) (_at _p : Bool) : Outcome Command :=
  atLeast 2 "EXPIRE" args (keyInt "EXPIRE" .expire args)

def parsePexpire (args : List Bytes) : Outcome Command :=
  atLeast 2 "PEXPIRE" args (keyInt "PEXPIRE" .pExpire args)

def parsePexpireat (args : List Bytes) : Outcome Command :=
  atLeast 2 "PEXPIREAT" args (keyInt "PEXPIREAT" .pExpireAt args)

def parseTtl (args : List Bytes) (pttl : Bool) : Outcome Command :=
  exactly 1 (if pttl then "PTTL" else "TTL") args (one (if pttl then .pttl else .ttl) args)

def parsePersist (args : List Bytes) : Outcome Command :=
  exactly 1 "PERSIST" args (one .persist args)

def parseKeys (args : List Bytes) : Outcome Command := exactly 1 "KEYS" args (one .keys args)

end MiniRudis.Cmd
