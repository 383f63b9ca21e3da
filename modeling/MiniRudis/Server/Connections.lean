import MiniRudis.Lib.Tasks
import MiniRudis.Server.Handler
import MiniRudis.Server.Requests

/-!
# Connections

The tasks of `handle_connection` over one thread and the task that evicts.  Between two
points at which a task waits no other task runs, so a turn takes it from one to the next.
-/

namespace MiniRudis

open Lib

inductive Behind
  -- the inner loop goes on
  | parse (buf : Bytes) (dbIndex : Nat)
  -- `buf.clear(); break;`
  | read (dbIndex : Nat)
  -- `return Ok(());`
  | finish

/-- Where the task of a connection waits: for bytes, or for the socket to take some. -/
inductive Task
  | reading (buf : Bytes) (dbIndex : Nat)
  | writing (unsent : Bytes) (behind : Behind)
  | ended

namespace Host

variable (host : Host) (depth : Nat) (reserve : Nat → Bool)

def afterReply (buf : Bytes) : Outcome Frame × Option Nat → Task
  | (.ok frame, some dbIndex) => .writing frame.serialize (.parse buf dbIndex)
  | (.ok frame, none) => .writing frame.serialize .finish
  | (.error _, _) => .ended

/-- The inner loop up to the point at which it waits. -/
def turn (env : Env) (dbIndex : Nat) (buf : Bytes) : CmdM Task :=
  match _h : parseFrame reserve buf with
  | (.ok (some frame), rest) =>
      match frameToCmdArgs frame with
      | .ok [] => turn env dbIndex rest
      | .ok (name :: args) => afterReply rest <$> host.respond depth env dbIndex (name :: args)
      | .error (.err e) => return .writing (Frame.error e.text).serialize (.parse rest dbIndex)
      | .error .panicked => return .ended
  | (.ok none, rest) => return .reading rest dbIndex
  | (.error (.err e), _) => return .writing (Frame.error e.text).serialize (.read dbIndex)
  | (.error .panicked, _) => return .ended
termination_by buf.length
decreasing_by exact parseFrame_shorter _h

end Host

/-- The frames and the error that the inner loop takes up to the point at which it
waits: empty requests, and one item that is answered. -/
def turnItems (reserve : Nat → Bool) (buf : Bytes) : List (Outcome Frame) :=
  match _h : parseFrame reserve buf with
  | (.ok (some frame), rest) =>
      match frameToCmdArgs frame with
      | .ok [] => .ok frame :: turnItems reserve rest
      | _ => [.ok frame]
  | (.ok none, _) => []
  | (.error e, _) => [.error e]
termination_by buf.length
decreasing_by exact parseFrame_shorter _h

/-! ## The server -/

/-- A connection: its task, the chunks that it has read and the bytes that its socket
has taken. -/
structure Connection where
  task : Task
  received : List Bytes
  sent : Bytes

/-- What the socket of a connection does: it has a chunk, it takes `n` bytes, or it is at
its end or fails. -/
inductive Input
  | read (env : Env) (chunk : Bytes)
  | write (env : Env) (n : Nat)
  | close

namespace Host

variable (host : Host) (depth : Nat) (reserve : Nat → Bool)

def parseBuffer (env : Env) (dbIndex : Nat) (buf : Bytes) (s : Server)
    (received : List Bytes) (sent : Bytes) :
    List (Env × Outcome Frame) × Server × Connection :=
  let (task, s) := (host.turn depth reserve env dbIndex buf).run ServerCall.exec s
  ((turnItems reserve buf).map (env, ·), s, ⟨task, received, sent⟩)

def afterWrite (env : Env) (s : Server) (received : List Bytes) (sent : Bytes) :
    Behind → List (Env × Outcome Frame) × Server × Connection
  | .parse buf dbIndex => host.parseBuffer depth reserve env dbIndex buf s received sent
  | .read dbIndex => ([], s, ⟨.reading [] dbIndex, received, sent⟩)
  | .finish => ([], s, ⟨.ended, received, sent⟩)

def connectionTurn (input : Input) (s : Server) (conn : Connection) :
    Option (List (Env × Outcome Frame) × Server × Connection) :=
  match input, conn.task with
  | .read env chunk, .reading buf dbIndex =>
      if chunk.isEmpty then none
      else some (host.parseBuffer depth reserve env dbIndex (buf ++ chunk) s
        (conn.received ++ [chunk]) conn.sent)
  | .write env n, .writing unsent behind =>
      if n = 0 ∨ unsent.length < n then none
      else if n < unsent.length then
        some ([], s, ⟨.writing (unsent.drop n) behind, conn.received, conn.sent ++ unsent.take n⟩)
      else some (host.afterWrite depth reserve env s conn.received (conn.sent ++ unsent) behind)
  | .close, .reading _ _ | .close, .writing _ _ => some ([], s, { conn with task := .ended })
  | _, _ => none

def sweep (env : Env) (s : Server) : Server := (ServerCall.exec _ (.db env .evictExpired) s).2

/-- The tasks that `run` spawns, and its sweeps. -/
def tasks : Tasks Server Connection Input (Env × Outcome Frame) Env where
  fresh := ⟨.reading [] 0, [], []⟩
  turn := host.connectionTurn depth reserve
  job := sweep

end Host

/-! ## One turn -/

theorem connectionTurn_read (host : Host) (depth : Nat) (reserve : Nat → Bool) (env : Env)
    (chunk buf : Bytes) (dbIndex : Nat) (s : Server) (chunks : List Bytes) (sent : Bytes) :
    host.connectionTurn depth reserve (.read env chunk) s ⟨.reading buf dbIndex, chunks, sent⟩ =
      if chunk.isEmpty then none
      else some (host.parseBuffer depth reserve env dbIndex (buf ++ chunk) s (chunks ++ [chunk])
        sent) := rfl

theorem connectionTurn_write (host : Host) (depth : Nat) (reserve : Nat → Bool) (env : Env)
    (n : Nat) (unsent : Bytes) (behind : Behind) (s : Server) (chunks : List Bytes)
    (sent : Bytes) :
    host.connectionTurn depth reserve (.write env n) s ⟨.writing unsent behind, chunks, sent⟩ =
      if n = 0 ∨ unsent.length < n then none
      else if n < unsent.length then
        some ([], s, ⟨.writing (unsent.drop n) behind, chunks, sent ++ unsent.take n⟩)
      else some (host.afterWrite depth reserve env s chunks (sent ++ unsent) behind) := rfl

section
variable (host : Host) (depth : Nat) (env : Env) (dbIndex : Nat) {reserve : Nat → Bool}
  {buf rest : Bytes}

theorem turn_request {frame : Frame} {name : Bytes} {args : List Bytes}
    (h : parseFrame reserve buf = (.ok (some frame), rest))
    (hargs : frameToCmdArgs frame = .ok (name :: args)) :
    host.turn depth reserve env dbIndex buf =
        Host.afterReply rest <$> host.respond depth env dbIndex (name :: args) ∧
      turnItems reserve buf = [.ok frame] := by
  rw [Host.turn, turnItems]
  constructor <;> split <;> simp_all

theorem turn_empty {frame : Frame} (h : parseFrame reserve buf = (.ok (some frame), rest))
    (hargs : frameToCmdArgs frame = .ok []) :
    host.turn depth reserve env dbIndex buf = host.turn depth reserve env dbIndex rest ∧
      turnItems reserve buf = .ok frame :: turnItems reserve rest := by
  constructor
  · rw [Host.turn]
    split <;> simp_all
  · rw [turnItems]
    split <;> simp_all

theorem turn_refused {frame : Frame} {e : RedisError}
    (h : parseFrame reserve buf = (.ok (some frame), rest))
    (hargs : frameToCmdArgs frame = err e) :
    host.turn depth reserve env dbIndex buf =
        .ret (.writing (Frame.error e.text).serialize (.parse rest dbIndex)) ∧
      turnItems reserve buf = [.ok frame] := by
  rw [Host.turn, turnItems]
  constructor <;> split <;> simp_all

theorem turn_none (h : parseFrame reserve buf = (.ok none, rest)) :
    host.turn depth reserve env dbIndex buf = .ret (.reading rest dbIndex) ∧
      turnItems reserve buf = [] := by
  rw [Host.turn, turnItems]
  constructor <;> split <;> simp_all

theorem turn_error {e : RedisError} (h : parseFrame reserve buf = (err e, rest)) :
    host.turn depth reserve env dbIndex buf =
        .ret (.writing (Frame.error e.text).serialize (.read dbIndex)) ∧
      turnItems reserve buf = [err e] := by
  rw [Host.turn, turnItems]
  constructor <;> split <;> simp_all

theorem turn_panicked (h : parseFrame reserve buf = (panicked, rest)) :
    host.turn depth reserve env dbIndex buf = .ret .ended ∧
      turnItems reserve buf = [panicked] := by
  rw [Host.turn, turnItems]
  constructor <;> split <;> simp_all

end

end MiniRudis
