import MiniRudis.Db.Footprints
import MiniRudis.Server.Requests

/-!
# What a request calls

A request at an index calls methods on that database, or on all of them, and the cache of
scripts; what its scripts call is called at the same index.
-/

namespace MiniRudis

open Lib

variable {α : Type}

namespace ServerCall

/-- A method on the logical database `db`, with the clocks of `env`. -/
def OnDb (env : Env) (db : Nat) : (β : Type) → ServerCall β → Prop
  | _, .db env' op => env' = env ∧ op.index = some db
  | _, _ => False

/-- What a request at the index `db` can call.  A script is cached under its digest. -/
def From (host : Host) (db : Nat) : (β : Type) → ServerCall β → Prop
  | _, .db _ op => op.index = some db ∨ op.index = none
  | _, .cacheInsert sha script => sha = host.sha1Hex script
  | _, .cacheGet _ | _, .cacheClear => True

def AnyReply : (β : Type) → ServerCall β → β → Prop := fun _ _ _ => True

theorem exec_anyReply (β : Type) (call : ServerCall β) (s : Server) :
    AnyReply β call (exec β call s).1 := trivial

theorem from_onDb (host : Host) {env : Env} {db : Nat} (β : Type) (call : ServerCall β)
    (h : OnDb env db β call) : From host db β call := by
  cases call with
  | db env' op => exact Or.inl h.2
  | cacheGet | cacheInsert | cacheClear => exact h.elim

end ServerCall

abbrev CmdM.Calls (pre : (β : Type) → ServerCall β → Prop) (p : CmdM α) : Prop :=
  p.Meets pre ServerCall.AnyReply fun _ => True

namespace Cmd

variable {env : Env} {db : Nat}

theorem call_onDb {op : Op α} (f : α → Frame) (h : op.index = some db) :
    CmdM.Calls (ServerCall.OnDb env db) (call env op f) :=
  ⟨⟨rfl, h⟩, fun _ _ => trivial⟩

section
variable {pre : (β : Type) → ServerCall β → Prop} {key : String}
  (hkey : ∀ {β : Type} (op : KeyOp β), pre _ (.db env (.onKey db key op)))
include hkey

theorem onKey_calls (op : KeyOp α) : CmdM.Calls pre (onKey env db key op) :=
  ⟨hkey op, fun _ _ => trivial⟩

theorem execSet_calls {args : SetArgs} (hargs : args.key = key) :
    CmdM.Calls pre (execSet args env db) := by
  subst hargs
  have hold : CmdM.Calls pre (setOld args env db) := by
    unfold setOld
    split
    · exact onKey_calls hkey _
    · trivial
  have hwrite : CmdM.Calls pre (setWrite args env db) := by
    unfold setWrite
    split
    · apply (onKey_calls hkey _).bind
      intro written _
      split
      · apply (onKey_calls hkey _).bind
        intro expired _
        split <;> trivial
      · trivial
    · split
      · exact onKey_calls hkey _
      · exact (onKey_calls hkey _).bind fun written _ => trivial
  apply hold.bind
  intro old _
  cases old with
  | error e => trivial
  | ok old => exact hwrite.bind fun written _ => trivial

theorem execGetex_calls {args : GetExArgs} (hargs : args.key = key) :
    CmdM.Calls pre (execGetex args env db) := by
  subst hargs
  apply (onKey_calls hkey _).bind
  intro val _
  split
  · trivial
  · trivial
  · split
    · exact (onKey_calls hkey _).bind fun persisted _ => trivial
    · split
      · trivial
      · exact (onKey_calls hkey _).bind fun expired _ => trivial

end

theorem withBounds_calls {pre : (β : Type) → ServerCall β → Prop} (first second : String)
    {k : ScoreBound → ScoreBound → CmdM (Outcome Frame)} (hk : ∀ a b, CmdM.Calls pre (k a b)) :
    CmdM.Calls pre (withBounds first second k) := by
  unfold withBounds
  split
  · trivial
  · trivial
  · exact hk _ _

/-- A command on the data calls methods on its database only, but for `FLUSHALL`. -/
theorem executeOn_onDb (os : String) (last : Command → CmdM (Outcome Frame)) {cmd : Command}
    (hscript : cmd.isScripting = false) (hflush : cmd ≠ .flushall)
    (hselect : ∀ idx, cmd ≠ .select idx) :
    CmdM.Calls (ServerCall.OnDb env db) (executeOn os env db last cmd) := by
  cases cmd with
  | flushall => exact absurd rfl hflush
  | select idx => exact absurd rfl (hselect idx)
  | eval | evalSha | scriptLoad | scriptFlush => exact absurd hscript nofun
  | ping msg => cases msg <;> trivial
  | echo | info | quit => trivial
  | set args => exact execSet_calls (fun _ => ⟨rfl, rfl⟩) rfl
  | getEx args => exact execGetex_calls (fun _ => ⟨rfl, rfl⟩) rfl
  | decrBy key delta =>
      unfold executeOn Strings.execute
      dsimp only
      split
      · trivial
      · exact call_onDb _ rfl
  | zCount | zRemRangeByScore | zRangeByScore | zRevRangeByScore =>
      exact withBounds_calls _ _ fun _ _ => call_onDb _ rfl
  | _ => exact call_onDb _ rfl

theorem execute_from {host : Host} (os : String) {last : Command → CmdM (Outcome Frame)}
    (hlast : ∀ cmd, CmdM.Calls (ServerCall.From host db) (last cmd)) (cmd : Command) :
    CmdM.Calls (ServerCall.From host db) (execute os env db last cmd) := by
  have hexecute : (∀ idx, cmd ≠ .select idx) →
      CmdM.Calls (ServerCall.From host db) (executeOn os env db last cmd) := by
    intro hselect
    cases hscript : cmd.isScripting with
    | true =>
        rw [executeOn_scripting os env db last hscript]
        exact hlast cmd
    | false =>
        by_cases hflush : cmd = .flushall
        · subst hflush
          exact ⟨Or.inr rfl, fun _ _ => trivial⟩
        · exact (executeOn_onDb os last hscript hflush hselect).weaken
            (ServerCall.from_onDb host)
  unfold execute
  split
  · split <;> trivial
  · rename_i hselect
    exact (hexecute hselect).bind fun frame _ => trivial

end Cmd

/-! ## Scripts -/

section
variable {host : Host} {db : Nat}
  {call : Bool → Env → List LuaValue → CmdM (Except LuaFault LuaValue)}

theorem runLua_from
    (hcall : ∀ pcall env args, CmdM.Calls (ServerCall.From host db) (call pcall env args))
    (r : LuaRun) : CmdM.Calls (ServerCall.From host db) (runLua call r) := by
  induction r with
  | finish result => trivial
  | call pcall env args next ih => exact (hcall pcall env args).bind fun answer _ => ih answer

theorem scripting_from
    (hcall : ∀ pcall env args, CmdM.Calls (ServerCall.From host db) (call pcall env args))
    (env : Env) (cmd : Command) :
    CmdM.Calls (ServerCall.From host db) (scripting host call env cmd) := by
  have heval : ∀ script keys argv,
      CmdM.Calls (ServerCall.From host db) (evalScript host call env script keys argv) :=
    fun script keys argv => (runLua_from hcall _).map fun _ _ => trivial
  cases cmd with
  | eval script numkeys keys argv => exact (heval _ _ _).map fun _ _ => trivial
  | evalSha sha numkeys keys argv =>
      have hsha : CmdM.Calls (ServerCall.From host db) (evalsha host call env (fromUtf8Lossy sha)
          (keys.map fromUtf8Lossy) (argv.map fromUtf8Lossy)) := by
        refine ⟨trivial, fun script _ => ?_⟩
        cases script with
        | none => trivial
        | some script => exact heval script _ _
      exact hsha.map fun _ _ => trivial
  | scriptLoad script => exact ⟨rfl, fun _ _ => trivial⟩
  | scriptFlush => exact ⟨trivial, fun _ _ => trivial⟩
  | _ => trivial

theorem execRedisCall_from {run : Env → Command → CmdM (Outcome Frame)}
    (hrun : ∀ env cmd, CmdM.Calls (ServerCall.From host db) (run env cmd)) (pcall : Bool)
    (env : Env) (args : List LuaValue) :
    CmdM.Calls (ServerCall.From host db) (execRedisCall run pcall env args) := by
  unfold execRedisCall
  split
  · trivial
  · split
    · trivial
    · split
      · trivial
      · trivial
      · exact (hrun env _).map fun _ _ => trivial

end

namespace Host

variable (host : Host)

theorem call_from (db depth : Nat) (pcall : Bool) (env : Env) (args : List LuaValue) :
    CmdM.Calls (ServerCall.From host db) (host.call db depth pcall env args) := by
  induction depth generalizing pcall env args with
  | zero => trivial
  | succ depth ih =>
      rw [host.call_succ]
      apply execRedisCall_from
      intro env cmd
      exact (Cmd.execute_from host.os (scripting_from ih env) cmd).map fun _ _ => trivial

/-- **A request stays at its index**, and so do the scripts that it runs. -/
theorem respond_from (depth : Nat) (env : Env) (db : Nat) (args : List Bytes) :
    CmdM.Calls (ServerCall.From host db) (host.respond depth env db args) := by
  unfold respond
  split
  · trivial
  · trivial
  · trivial
  · exact (Cmd.execute_from host.os (scripting_from (host.call_from db depth) env) _).map
      fun _ _ => trivial

theorem respond_onDb (depth : Nat) {env : Env} (db : Nat) {args : List Bytes}
    (h : ∀ cmd, Cmd.parse env args = .ok cmd → cmd.isScripting = false ∧ cmd ≠ .flushall) :
    CmdM.Calls (ServerCall.OnDb env db) (host.respond depth env db args) := by
  unfold respond
  split
  · trivial
  · trivial
  · trivial
  · rename_i cmd _ hparse
    obtain ⟨hscript, hflush⟩ := h cmd hparse
    have hexecute : CmdM.Calls (ServerCall.OnDb env db) (host.execute depth env db cmd) := by
      unfold execute Cmd.execute
      split
      · split <;> trivial
      · rename_i hselect
        exact (Cmd.executeOn_onDb host.os _ hscript hflush hselect).bind fun frame _ => trivial
    exact hexecute.map fun _ _ => trivial

end Host

end MiniRudis
