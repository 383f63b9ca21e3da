/-!
# Errors

`error.rs`, without its `Io` variant: no function modelled here builds it.
-/

namespace MiniRudis

inductive RedisError
  | wrongArity (cmd : String)
  | notInteger
  | notFloat
  | wrongType
  | generic (msg : String)
  | noSuchKey
  | indexOutOfRange
  | syntaxError
  | protocol (msg : String)
  | script (msg : String)
  | dbIndexOutOfRange
  | scoreNaN
  | exhausted
  | sameObject
  deriving DecidableEq, Repr

/-- The `#[error]` text. -/
def RedisError.text : RedisError → String
  | wrongArity cmd => "ERR wrong number of arguments for '" ++ cmd ++ "' command"
  | notInteger => "ERR value is not an integer or out of range"
  | notFloat => "ERR value is not a valid float"
  | wrongType => "WRONGTYPE Operation against a key holding the wrong kind of value"
  | generic msg => "ERR " ++ msg
  | noSuchKey => "ERR no such key"
  | indexOutOfRange => "ERR index out of range"
  | syntaxError => "ERR syntax error"
  | protocol msg => "ERR Protocol error: " ++ msg
  | script msg => "ERR Lua script error: " ++ msg
  | dbIndexOutOfRange => "ERR DB index is out of range"
  | scoreNaN => "ERR NaN is not allowed as a score"
  | exhausted => "ERR no more elements"
  | sameObject => "ERR source and destination objects are the same"

/-- How a call can fail: with an `Err`, or with a panic. -/
inductive Fault
  | err (e : RedisError)
  | panicked
  deriving DecidableEq, Repr

abbrev Outcome (α : Type) := Except Fault α

abbrev err {α : Type} (e : RedisError) : Outcome α := .error (.err e)

abbrev panicked {α : Type} : Outcome α := .error .panicked

end MiniRudis
