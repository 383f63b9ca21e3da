import MiniRudis.Cmd.Calls
import MiniRudis.Script.Engine

/-!
# Requests

What the connection loop does with an argument vector, and the runs of a server:
requests on any connections and sweeps of the background task, in any order.
-/

namespace MiniRudis

open Lib

/-! ## Requests -/

/-- The loop behind `execute`: it writes the frame, unless a panic has ended the task. -/
def goOn : Outcome Frame × Nat → Outcome Frame × Option Nat
  | (.ok frame, db) => (.ok frame, some db)
  | (.error e, _) => (.error e, none)

namespace Host

variable (host : Host)

/-- The reply to an argument vector, and the index at which the connection goes on, if
it does. -/
def respond (depth : Nat) (env : Env) (db : Nat) (args : List Bytes) :
    CmdM (Outcome Frame × Option Nat) :=
  match Cmd.parse env args with
  | .error (.err e) => return (.ok (.fromError e), some db)
  | .error .panicked => return (panicked, none)
  | .ok .quit => return (.ok .ok, none)
  | .ok cmd => goOn <$> host.execute depth env db cmd

theorem execute_run (depth : Nat) (env : Env) (db : Nat) {cmd : Command}
    (hselect : ∀ idx, cmd ≠ .select idx) (s : Server) :
    (host.execute depth env db cmd).run ServerCall.exec s =
      ((((Cmd.executeOn host.os env db (scripting host (host.call db depth) env) cmd).run
          ServerCall.exec s).1, db),
        ((Cmd.executeOn host.os env db (scripting host (host.call db depth) env) cmd).run
          ServerCall.exec s).2) := by
  unfold execute Cmd.execute
  split
  · rename_i idx
    exact absurd rfl (hselect idx)
  · exact Program.run_map _ _ _ _

theorem respond_run (depth : Nat) {env : Env} {args : List Bytes} {cmd : Command}
    (hparse : Cmd.parse env args = .ok cmd) (hquit : cmd ≠ .quit) (db : Nat) (s : Server) :
    (host.respond depth env db args).run ServerCall.exec s =
      (goOn ((host.execute depth env db cmd).run ServerCall.exec s).1,
        ((host.execute depth env db cmd).run ServerCall.exec s).2) := by
  unfold respond
  rw [hparse]
  cases cmd with
  | quit => exact absurd rfl hquit
  | _ => exact Program.run_map _ _ _ _

/-- The replies to argument vectors that come over one connection, each with the clocks at
its time, while the connection lasts.  An empty vector is passed over. -/
def converse (depth : Nat) : Option Nat → List (Env × List Bytes) → Server →
    List (Outcome Frame) × Server
  | none, _, s => ([], s)
  | some _, [], s => ([], s)
  | some db, (_, []) :: rest, s => converse depth (some db) rest s
  | some db, (env, name :: args) :: rest, s =>
      let (answer, s) := (host.respond depth env db (name :: args)).run ServerCall.exec s
      let (replies, s) := converse depth answer.2 rest s
      (answer.1 :: replies, s)

@[simp] theorem converse_none (depth : Nat) (rest : List (Env × List Bytes)) (s : Server) :
    host.converse depth none rest s = ([], s) := by
  cases rest <;> rfl

theorem converse_cons {depth : Nat} {env : Env} {db : Nat} {name : Bytes} {args : List Bytes}
    {s s' : Server} {reply : Outcome Frame} {next : Option Nat}
    (h : (host.respond depth env db (name :: args)).run ServerCall.exec s = ((reply, next), s'))
    (rest : List (Env × List Bytes)) :
    host.converse depth (some db) ((env, name :: args) :: rest) s =
      (reply :: (host.converse depth next rest s').1, (host.converse depth next rest s').2) := by
  rw [converse, h]

end Host

/-! ## Runs -/

/-- What happens to a server: a request on a connection whose index is `db`, or a sweep. -/
inductive Event
  | request (env : Env) (db : Nat) (args : List Bytes)
  | sweep (env : Env)

namespace Host

variable (host : Host)

def handle (depth : Nat) : Event → CmdM Unit
  | .request env db args => (fun _ => ()) <$> host.respond depth env db args
  | .sweep env => (fun _ => ()) <$> Program.lift (.db env .evictExpired)

def next (depth : Nat) (s : Server) (event : Event) : Server :=
  ((host.handle depth event).run ServerCall.exec s).2

def runEvents (depth : Nat) (s : Server) (events : List Event) : Server :=
  events.foldl (host.next depth) s

/-- Each call of each event satisfies `P` in the state in which it is made. -/
def EachCall (depth : Nat) (P : (β : Type) → ServerCall β → Server → Prop) :
    List Event → Server → Prop
  | [], _ => True
  | event :: events, s =>
      (host.handle depth event).AllCalls ServerCall.exec P s ∧
        EachCall depth P events (host.next depth s event)

end Host

def Server.new (dbCount : Nat) : Server := ⟨.new dbCount, ∅⟩

def Host.plain : Host where
  os := "linux"
  sha1Hex script := script
  lua _ _ _ _ := .finish (.ok .nil)

def Event.ofText (args : List String) : Event := .request (.at 0) 0 (args.map asBytes)

/-! ## What the calls of a run are -/

section
variable {host : Host} {call : Bool → Env → List LuaValue → CmdM (Except LuaFault LuaValue)}

abbrev CmdM.Full {α : Type} (p : CmdM α) : Prop :=
  p.Meets ServerCall.Full ServerCall.Answers fun _ => True

theorem runLua_full (hcall : ∀ pcall env args, CmdM.Full (call pcall env args)) (r : LuaRun) :
    CmdM.Full (runLua call r) := by
  induction r with
  | finish result => trivial
  | call pcall env args next ih => exact (hcall pcall env args).bind fun answer _ => ih answer

theorem evalScript_full (hcall : ∀ pcall env args, CmdM.Full (call pcall env args)) (env : Env)
    (script : String) (keys argv : List String) :
    CmdM.Full (evalScript host call env script keys argv) :=
  (runLua_full hcall _).map fun _ _ => trivial

theorem scripting_full (hcall : ∀ pcall env args, CmdM.Full (call pcall env args)) (env : Env)
    (cmd : Command) : CmdM.Full (scripting host call env cmd) := by
  cases cmd with
  | eval script numkeys keys argv =>
      exact (evalScript_full hcall env _ _ _).map fun _ _ => trivial
  | evalSha sha numkeys keys argv =>
      have hsha : CmdM.Full (evalsha host call env (fromUtf8Lossy sha) (keys.map fromUtf8Lossy)
          (argv.map fromUtf8Lossy)) := by
        refine ⟨trivial, fun script _ => ?_⟩
        cases script with
        | none => trivial
        | some script => exact evalScript_full hcall env script _ _
      exact hsha.map fun _ _ => trivial
  | scriptLoad script => exact ⟨trivial, fun _ _ => trivial⟩
  | scriptFlush => exact ⟨trivial, fun _ _ => trivial⟩
  | _ => trivial

theorem execRedisCall_full {run : Env → Command → CmdM (Outcome Frame)}
    (hrun : ∀ env cmd, cmd.Full → CmdM.Full (run env cmd)) (pcall : Bool) (env : Env)
    (args : List LuaValue) : CmdM.Full (execRedisCall run pcall env args) := by
  unfold execRedisCall
  split
  · trivial
  · split
    · trivial
    · split
      · trivial
      · trivial
      · rename_i cmd hparse
        exact (hrun env cmd (Cmd.parse_full hparse)).map fun _ _ => trivial

end

namespace Host

variable (host : Host)

theorem call_full (db depth : Nat) (pcall : Bool) (env : Env) (args : List LuaValue) :
    CmdM.Full (host.call db depth pcall env args) := by
  induction depth generalizing pcall env args with
  | zero => trivial
  | succ depth ih =>
      rw [host.call_succ]
      apply execRedisCall_full
      intro env cmd hcmd
      exact (Cmd.execute_meets host.os env db (scripting_full ih env) hcmd).map fun _ _ => trivial

theorem execute_full (depth : Nat) (env : Env) (db : Nat) {cmd : Command} (h : cmd.Full) :
    CmdM.Full (host.execute depth env db cmd) :=
  Cmd.execute_meets host.os env db (scripting_full (host.call_full db depth) env) h

theorem respond_full (depth : Nat) (env : Env) (db : Nat) (args : List Bytes) :
    CmdM.Full (host.respond depth env db args) := by
  unfold respond
  split
  · trivial
  · trivial
  · trivial
  · rename_i cmd _ hparse
    exact (host.execute_full depth env db (Cmd.parse_full hparse)).map fun _ _ => trivial

theorem handle_full (depth : Nat) (event : Event) : CmdM.Full (host.handle depth event) := by
  cases event with
  | request env db args => exact (host.respond_full depth env db args).map fun _ _ => trivial
  | sweep env => exact ⟨trivial, fun _ _ => trivial⟩

/-- What every call keeps that satisfies `P`, a run keeps whose calls all do. -/
theorem runEvents_keeps {depth : Nat} {P : (β : Type) → ServerCall β → Server → Prop}
    {I : Server → Prop}
    (hkeeps : ∀ β (call : ServerCall β) s, I s → call.Full → P β call s →
      I (ServerCall.exec β call s).2)
    (events : List Event) {s : Server} (hs : I s) (hcalls : host.EachCall depth P events s) :
    I (host.runEvents depth s events) := by
  unfold runEvents
  induction events generalizing s with
  | nil => exact hs
  | cons event events ih =>
      have hnext : I (host.next depth s event) :=
        (host.handle_full depth event).keeps ServerCall.exec_answers hkeeps hs hcalls.1
      exact ih hnext hcalls.2

theorem eachCall_of_forall (depth : Nat) {P : (β : Type) → ServerCall β → Server → Prop}
    (h : ∀ β call s, P β call s) (events : List Event) (s : Server) :
    host.EachCall depth P events s := by
  have hall : ∀ {α : Type} (p : CmdM α) (s : Server), p.AllCalls ServerCall.exec P s := by
    intro α p
    induction p with
    | ret a => exact fun _ => trivial
    | call op next ih => exact fun s => ⟨h _ op s, ih _ _⟩
  induction events generalizing s with
  | nil => trivial
  | cons event events ih => exact ⟨hall _ s, ih _⟩

end Host

end MiniRudis
