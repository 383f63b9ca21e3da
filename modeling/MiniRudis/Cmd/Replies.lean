import MiniRudis.Cmd.Command
import MiniRudis.Proto.Frame
import MiniRudis.Lib.Program

/-!
# Calls and replies

A command runs as a program of calls: of the methods of the database, and of the
script cache.  All calls of one command read the same clocks.
-/

namespace MiniRudis

open Lib

structure Server where
  db : Database
  /-- `ScriptEngine::cache`. -/
  cache : StrMap String

inductive ServerCall : Type → Type 1
  | db {α : Type} (env : Env) (op : Op α) : ServerCall (Outcome α)
  | cacheGet (sha : String) : ServerCall (Option String)
  | cacheInsert (sha script : String) : ServerCall Unit
  | cacheClear : ServerCall Unit

def ServerCall.exec : (β : Type) → ServerCall β → Server → β × Server
  | _, db env op, s => ((op.run env s.db).1, { s with db := (op.run env s.db).2 })
  | _, cacheGet sha, s => (s.cache[sha]?, s)
  | _, cacheInsert sha script, s => ((), { s with cache := s.cache.insert sha script })
  | _, cacheClear, s => ((), { s with cache := ∅ })

abbrev CmdM := Program ServerCall

namespace Cmd

/-! ## Replies -/

/-- `Ok(a) => f(a), Err(e) => Frame::from_error(&e)`. -/
def reply {α : Type} (f : α → Frame) : Outcome α → Outcome Frame
  | .ok a => .ok (f a)
  | .error (.err e) => .ok (.fromError e)
  | .error .panicked => panicked

theorem reply_map {α β : Type} (f : β → Frame) (g : α → β) (r : Outcome α) :
    reply f (r.map g) = reply (fun a => f (g a)) r := by
  cases r with
  | ok a => rfl
  | error e => cases e <;> rfl

/-- `let _ = r;` before the frame is returned. -/
def ignoring {α : Type} (r : Outcome α) (f : Frame) : Outcome Frame :=
  match r with
  | .error .panicked => panicked
  | _ => .ok f

def countFrame (n : Nat) : Frame := .integer (asI64 n)

def boolFrame (b : Bool) : Frame := .integer (if b then 1 else 0)

def okFrame (_ : Unit) : Frame := .ok

def bulkOrNull : Option Bytes → Frame
  | some v => .bulk v
  | none => .null

def strOrNull : Option String → Frame
  | some s => .bulkStr s
  | none => .null

def bulkFrames (items : List Bytes) : Frame := .array (items.map .bulk)

def bulkOrNullFrames (items : List (Option Bytes)) : Frame := .array (items.map bulkOrNull)

def strFrames (items : List String) : Frame := .array (items.map .bulkStr)

def floatFrame (f : F64) : Frame := .bulkStr f.formatFloat

def floatOrNull : Option F64 → Frame
  | some f => floatFrame f
  | none => .null

def countOrNull : Option Nat → Frame
  | some n => countFrame n
  | none => .null

/-! ## Calls -/

def call {α : Type} (env : Env) (op : Op α) (f : α → Frame) : CmdM (Outcome Frame) :=
  reply f <$> Program.lift (.db env op)

def onKey {α : Type} (env : Env) (db : Nat) (key : String) (op : KeyOp α) : CmdM (Outcome α) :=
  Program.lift (.db env (.onKey db key op))

def callTyped {α : Type} (env : Env) (db : Nat) (key : String) (op : TypedOp α) (f : α → Frame) :
    CmdM (Outcome Frame) :=
  call env (.onKey db key (.typed op)) f

end Cmd

end MiniRudis
