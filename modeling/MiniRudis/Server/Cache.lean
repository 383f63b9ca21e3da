import MiniRudis.Server.Isolation
import MiniRudis.Server.Serial

/-!
# The cache of scripts

A script is cached under its digest, so `EVALSHA` does what `EVAL` does with the script that
has the digest, and a script that was loaded stays until the cache is cleared.
-/

namespace MiniRudis

open Lib

namespace Server

def Keyed (host : Host) (s : Server) : Prop :=
  ∀ sha script, s.cache[sha]? = some script → host.sha1Hex script = sha

def Callable (host : Host) (sha : String) (s : Server) : Prop :=
  ∃ script, s.cache[sha]? = some script ∧ host.sha1Hex script = sha

end Server

namespace ServerCall

def KeepsScripts : (β : Type) → ServerCall β → Server → Prop
  | _, .cacheClear, _ => False
  | _, _, _ => True

section
variable {host : Host} {db : Nat}

theorem exec_keyed (β : Type) (call : ServerCall β) (s : Server) (hs : s.Keyed host)
    (h : From host db β call) : (exec β call s).2.Keyed host := by
  cases call with
  | db | cacheGet => exact hs
  | cacheInsert sha script =>
      intro sha' script' hget
      replace hget : (s.cache.insert sha script)[sha']? = some script' := hget
      rw [Std.ExtTreeMap.getElem?_insert] at hget
      split at hget
      · rename_i heq
        obtain rfl := Option.some.inj hget
        rw [← Std.LawfulEqCmp.compare_eq_iff_eq.mp heq]
        exact h.symm
      · exact hs sha' script' hget
  | cacheClear =>
      intro sha script hget
      exact absurd hget (by simp [exec])

theorem exec_callable {sha : String} (β : Type) (call : ServerCall β) (s : Server)
    (hs : s.Callable host sha) (h : From host db β call) (hkeeps : KeepsScripts β call s) :
    (exec β call s).2.Callable host sha := by
  cases call with
  | db | cacheGet => exact hs
  | cacheInsert sha' script' =>
      obtain ⟨script, hget, hdigest⟩ := hs
      by_cases heq : sha' = sha
      · subst heq
        exact ⟨script', Std.ExtTreeMap.getElem?_insert_self, h.symm⟩
      · refine ⟨script, ?_, hdigest⟩
        have hother : (s.cache.insert sha' script')[sha]? = s.cache[sha]? := by
          rw [Std.ExtTreeMap.getElem?_insert, if_neg (by simpa using heq)]
        exact hother.trans hget
  | cacheClear => exact hkeeps.elim

end

end ServerCall

/-! ## Runs -/

namespace Host

variable (host : Host)

theorem next_keeps {P : (β : Type) → ServerCall β → Server → Prop} {I : Server → Prop}
    (hkeeps : ∀ db β (call : ServerCall β) s, I s → ServerCall.From host db β call →
      P β call s → I (ServerCall.exec β call s).2)
    (depth : Nat) (event : Event) {s : Server} (hs : I s)
    (hcalls : (host.handle depth event).AllCalls ServerCall.exec P s) :
    I (host.next depth s event) := by
  cases event with
  | request env db args =>
      have hfrom : CmdM.Calls (ServerCall.From host db) (host.handle depth (.request env db args)) :=
        (host.respond_from depth env db args).map fun _ _ => trivial
      exact hfrom.keeps ServerCall.exec_anyReply (hkeeps db) hs hcalls
  | sweep env =>
      have hfrom : CmdM.Calls (ServerCall.From host 0) (host.handle depth (.sweep env)) :=
        ⟨Or.inr rfl, fun _ _ => trivial⟩
      exact hfrom.keeps ServerCall.exec_anyReply (hkeeps 0) hs hcalls

theorem runEvents_from {P : (β : Type) → ServerCall β → Server → Prop} {I : Server → Prop}
    (hkeeps : ∀ db β (call : ServerCall β) s, I s → ServerCall.From host db β call →
      P β call s → I (ServerCall.exec β call s).2)
    (depth : Nat) (events : List Event) {s : Server} (hs : I s)
    (hcalls : host.EachCall depth P events s) : I (host.runEvents depth s events) := by
  unfold runEvents
  induction events generalizing s with
  | nil => exact hs
  | cons event events ih =>
      exact ih (host.next_keeps hkeeps depth event hs hcalls.1) hcalls.2

theorem runEvents_keyed (depth : Nat) (events : List Event) {s : Server} (hs : s.Keyed host) :
    (host.runEvents depth s events).Keyed host :=
  host.runEvents_from (P := fun _ _ _ => True)
    (fun _ β call s hs h _ => ServerCall.exec_keyed β call s hs h) depth events hs
    (host.eachCall_of_forall depth (fun _ _ _ => trivial) events s)

end Host

theorem Server.new_keyed (host : Host) (dbCount : Nat) : (Server.new dbCount).Keyed host := by
  intro sha script hget
  exact absurd hget (by simp [new])

/-- Whatever the connections have done, each script is cached under its digest. -/
theorem run_keyed {host : Host} {depth : Nat} {reserve : Nat → Bool} {dbCount : Nat}
    {moves : List (Move Input Env)} {p : Pool Server Connection (Env × Outcome Frame) Env}
    (h : (host.tasks depth reserve).run (.start (.new dbCount)) moves = some p) :
    p.shared.Keyed host := by
  have hserial : p.shared = (host.serial depth (.new dbCount) p.log).shared :=
    (tasks_isSerial dbCount h).shared
  obtain ⟨events, hevents⟩ := serial_runEvents (.new dbCount) p.log
  rw [hserial, hevents]
  exact host.runEvents_keyed depth events (Server.new_keyed host dbCount)

/-! ## Calls by digest -/

namespace Cmd

/-- What `parse_eval` makes of the arguments behind the script. -/
def evalKeys (numkeysArg : Bytes) (rest : List Bytes) : Outcome (Nat × List Bytes × List Bytes) := do
  let numkeys ← parseUsize numkeysArg "EVAL"
  let first ← addUsize 2 numkeys
  if rest.length + 2 < first then err (.generic "ERR not enough arguments for EVAL")
  else return (numkeys, rest.take numkeys, rest.drop numkeys)

theorem parseEval_eq (script numkeysArg : Bytes) (rest : List Bytes) (isSha : Bool) :
    parseEval (script :: numkeysArg :: rest) isSha =
      (fun p => if isSha then .evalSha script p.1 p.2.1 p.2.2 else .eval script p.1 p.2.1 p.2.2) <$>
        evalKeys numkeysArg rest := by
  have hscript : index (script :: numkeysArg :: rest) 0 = .ok script := rfl
  have hkeys : usizeAt (script :: numkeysArg :: rest) 1 "EVAL" = parseUsize numkeysArg "EVAL" := rfl
  rw [parseEval, atLeast, if_neg (by simp), evalKeys, hscript, hkeys]
  cases parseUsize numkeysArg "EVAL" with
  | error e => rfl
  | ok numkeys =>
      cases hadd : addUsize 2 numkeys with
      | error e => simp only [bind, Except.bind, hadd]; rfl
      | ok first =>
          obtain rfl := addUsize_eq_ok hadd
          have hlength : (script :: numkeysArg :: rest).length = rest.length + 2 := by simp
          simp only [bind, Except.bind, hadd]
          rw [hlength]
          split
          · rfl
          · rename_i h
            rw [argsFrom, sliceRange, sliceRange, if_pos (by omega), if_pos (by omega)]
            simp [Functor.map, Except.map, pure, Except.pure, Nat.add_comm 2 numkeys, List.take_of_length_le]

def evalName (isSha : Bool) : String := if isSha then "EVALSHA" else "EVAL"

def evalArgs (isSha : Bool) (script numkeysArg : Bytes) (rest : List Bytes) : List Bytes :=
  asBytes (evalName isSha) :: script :: numkeysArg :: rest

theorem parse_eval_short (env : Env) (isSha : Bool) {args : List Bytes} (h : args.length < 2) :
    parse env (asBytes (evalName isSha) :: args) = err (.wrongArity (evalName isSha)) := by
  cases isSha with
  | true => exact (parse_text env "EVALSHA" (fun rest => parseEval rest true) rfl args).trans (if_pos h)
  | false => exact (parse_text env "EVAL" (fun rest => parseEval rest false) rfl args).trans (if_pos h)

theorem parse_evalArgs (env : Env) (isSha : Bool) (script numkeysArg : Bytes) (rest : List Bytes) :
    parse env (evalArgs isSha script numkeysArg rest) =
      (fun p => if isSha then .evalSha script p.1 p.2.1 p.2.2 else .eval script p.1 p.2.1 p.2.2) <$>
        evalKeys numkeysArg rest := by
  rw [← parseEval_eq]
  cases isSha with
  | true => exact parse_text env "EVALSHA" (fun rest => parseEval rest true) rfl _
  | false => exact parse_text env "EVAL" (fun rest => parseEval rest false) rfl _

end Cmd

def noScript : RedisError := .generic "NOSCRIPT No matching script. Please use EVAL."

namespace Host

variable (host : Host)

section
variable {host} {call : Bool → Env → List LuaValue → CmdM (Except LuaFault LuaValue)} {env : Env}
  {s : Server} {sha : String}

theorem evalsha_cached {script : String} (h : s.cache[sha]? = some script)
    (keys argv : List String) :
    (evalsha host call env sha keys argv).run ServerCall.exec s =
      (evalScript host call env script keys argv).run ServerCall.exec s := by
  have hget : (Program.lift (ServerCall.cacheGet sha)).run ServerCall.exec s = (some script, s) :=
    Prod.ext h rfl
  rw [evalsha, Program.run_bind, hget]

theorem evalsha_missing (h : s.cache[sha]? = none) (keys argv : List String) :
    (evalsha host call env sha keys argv).run ServerCall.exec s = (err noScript, s) := by
  have hget : (Program.lift (ServerCall.cacheGet sha)).run ServerCall.exec s = (none, s) :=
    Prod.ext h rfl
  rw [evalsha, Program.run_bind, hget]
  rfl

end

theorem respond_evalSha (depth : Nat) (env : Env) (db : Nat) {sha : Bytes} {script : String}
    {s : Server} (h : s.cache[fromUtf8Lossy sha]? = some script) (numkeysArg : Bytes)
    (rest : List Bytes) :
    (host.respond depth env db (Cmd.evalArgs true sha numkeysArg rest)).run ServerCall.exec s =
      (host.respond depth env db (Cmd.evalArgs false (asBytes script) numkeysArg rest)).run
        ServerCall.exec s := by
  have hsha := Cmd.parse_evalArgs env true sha numkeysArg rest
  have heval := Cmd.parse_evalArgs env false (asBytes script) numkeysArg rest
  cases hkeys : Cmd.evalKeys numkeysArg rest with
  | error e =>
      rw [hkeys] at hsha heval
      rw [respond, respond, hsha, heval]
      rfl
  | ok p =>
      obtain ⟨numkeys, keys, argv⟩ := p
      rw [hkeys] at hsha heval
      replace hsha : Cmd.parse env _ = .ok (.evalSha sha numkeys keys argv) := hsha
      replace heval : Cmd.parse env _ = .ok (.eval (asBytes script) numkeys keys argv) := heval
      have hrun : (Cmd.executeOn host.os env db (scripting host (host.call db depth) env)
          (.evalSha sha numkeys keys argv)).run ServerCall.exec s =
          (Cmd.executeOn host.os env db (scripting host (host.call db depth) env)
          (.eval (asBytes script) numkeys keys argv)).run ServerCall.exec s := by
        rw [Cmd.executeOn_scripting _ _ _ _ rfl, Cmd.executeOn_scripting _ _ _ _ rfl, scripting,
          scripting, Program.run_map, Program.run_map, evalsha_cached h, fromUtf8Lossy_asBytes]
      rw [host.respond_run depth hsha (by simp), host.respond_run depth heval (by simp),
        host.execute_run depth env db (by simp), host.execute_run depth env db (by simp), hrun]

theorem respond_evalSha_missing (depth : Nat) (env : Env) (db : Nat) {sha : Bytes}
    {s : Server} (h : s.cache[fromUtf8Lossy sha]? = none) {numkeysArg : Bytes}
    {rest : List Bytes} {keys : Nat × List Bytes × List Bytes}
    (hkeys : Cmd.evalKeys numkeysArg rest = .ok keys) :
    (host.respond depth env db (Cmd.evalArgs true sha numkeysArg rest)).run ServerCall.exec s =
      ((.ok (.fromError noScript), some db), s) := by
  obtain ⟨numkeys, keys, argv⟩ := keys
  have hsha : Cmd.parse env (Cmd.evalArgs true sha numkeysArg rest) =
      .ok (.evalSha sha numkeys keys argv) := by
    rw [Cmd.parse_evalArgs, hkeys]
    rfl
  have hrun : (Cmd.executeOn host.os env db (scripting host (host.call db depth) env)
      (.evalSha sha numkeys keys argv)).run ServerCall.exec s = (.ok (.fromError noScript), s) := by
    rw [Cmd.executeOn_scripting _ _ _ _ rfl, scripting, Program.run_map, evalsha_missing h]
    rfl
  rw [host.respond_run depth hsha (by simp), host.execute_run depth env db (by simp), hrun]
  rfl

/-- With arguments that are refused, neither `EVAL` nor `EVALSHA` looks at the script. -/
theorem respond_evalKeys_error (depth : Nat) (env : Env) (db : Nat) {numkeysArg : Bytes}
    {rest : List Bytes} {f : Fault} (hkeys : Cmd.evalKeys numkeysArg rest = .error f) (s : Server) :
    ∃ e, ∀ isSha script,
      (host.respond depth env db (Cmd.evalArgs isSha script numkeysArg rest)).run ServerCall.exec s =
        ((.ok (.fromError e), some db), s) := by
  have hreported := Cmd.parseEval_returns ([] :: numkeysArg :: rest) false
  rw [Cmd.parseEval_eq, hkeys] at hreported
  cases f with
  | panicked => exact hreported.elim
  | err e =>
      refine ⟨e, fun isSha script => ?_⟩
      have hparse : Cmd.parse env (Cmd.evalArgs isSha script numkeysArg rest) = err e := by
        rw [Cmd.parse_evalArgs, hkeys]
        rfl
      rw [respond, hparse]
      rfl

end Host

/-- **Calls by digest.**  Whatever the connections have done, `EVALSHA` with a digest and a
key count does what `EVAL` does with a script that has the digest; or it changes nothing and
says that there is none, or what `EVAL` says with the same arguments and any script.  With
fewer arguments each of them refuses under its own name. -/
theorem evalsha_reached {host : Host} {depth : Nat} {reserve : Nat → Bool} {dbCount : Nat}
    {moves : List (Move Input Env)} {p : Pool Server Connection (Env × Outcome Frame) Env}
    (h : (host.tasks depth reserve).run (.start (.new dbCount)) moves = some p)
    (env : Env) (db : Nat) :
    (∀ sha numkeysArg rest,
      (∃ script, host.sha1Hex script = fromUtf8Lossy sha ∧
        (host.respond depth env db (Cmd.evalArgs true sha numkeysArg rest)).run ServerCall.exec
            p.shared =
          (host.respond depth env db (Cmd.evalArgs false (asBytes script) numkeysArg rest)).run
            ServerCall.exec p.shared) ∨
      ∃ e, (host.respond depth env db (Cmd.evalArgs true sha numkeysArg rest)).run ServerCall.exec
            p.shared = ((.ok (.fromError e), some db), p.shared) ∧
        (e = noScript ∨ ∀ script,
          (host.respond depth env db (Cmd.evalArgs false script numkeysArg rest)).run
            ServerCall.exec p.shared = ((.ok (.fromError e), some db), p.shared))) ∧
      ∀ isSha (args : List Bytes), args.length < 2 →
        (host.respond depth env db (asBytes (Cmd.evalName isSha) :: args)).run ServerCall.exec
            p.shared =
          ((.ok (.fromError (.wrongArity (Cmd.evalName isSha))), some db), p.shared) := by
  have hkeyed := run_keyed h
  refine ⟨fun sha numkeysArg rest => ?_, fun isSha args hshort => ?_⟩
  · cases hget : p.shared.cache[fromUtf8Lossy sha]? with
    | some script =>
        exact Or.inl
          ⟨script, hkeyed _ _ hget, host.respond_evalSha depth env db hget numkeysArg rest⟩
    | none =>
        right
        cases hkeys : Cmd.evalKeys numkeysArg rest with
        | ok keys =>
            exact ⟨noScript, host.respond_evalSha_missing depth env db hget hkeys, Or.inl rfl⟩
        | error f =>
            obtain ⟨e, he⟩ := host.respond_evalKeys_error depth env db hkeys p.shared
            exact ⟨e, he true sha, Or.inr (he false)⟩
  · rw [Host.respond, Cmd.parse_eval_short env isSha hshort]
    rfl

theorem evalsha_reached_served :
    (∀ sha numkeysArg rest,
      (∃ script, Host.plain.sha1Hex script = fromUtf8Lossy sha ∧
        (Host.plain.respond 0 (.at 7) 0 (Cmd.evalArgs true sha numkeysArg rest)).run ServerCall.exec
            served.shared =
          (Host.plain.respond 0 (.at 7) 0
            (Cmd.evalArgs false (asBytes script) numkeysArg rest)).run
            ServerCall.exec served.shared) ∨
      ∃ e, (Host.plain.respond 0 (.at 7) 0 (Cmd.evalArgs true sha numkeysArg rest)).run
            ServerCall.exec served.shared = ((.ok (.fromError e), some 0), served.shared) ∧
        (e = noScript ∨ ∀ script,
          (Host.plain.respond 0 (.at 7) 0 (Cmd.evalArgs false script numkeysArg rest)).run
            ServerCall.exec served.shared = ((.ok (.fromError e), some 0), served.shared))) ∧
      ∀ isSha (args : List Bytes), args.length < 2 →
        (Host.plain.respond 0 (.at 7) 0 (asBytes (Cmd.evalName isSha) :: args)).run
            ServerCall.exec served.shared =
          ((.ok (.fromError (.wrongArity (Cmd.evalName isSha))), some 0), served.shared) :=
  evalsha_reached run_served (.at 7) 0

/-! ## From `SCRIPT LOAD` on -/

def Cmd.loadArgs (script : Bytes) : List Bytes := [asBytes "SCRIPT", asBytes "LOAD", script]

namespace Host

variable (host : Host)

theorem respond_load (depth : Nat) (env : Env) (db : Nat) (script : Bytes) (s : Server) :
    (host.respond depth env db (Cmd.loadArgs script)).run ServerCall.exec s =
      ((.ok (.bulkStr (host.sha1Hex (fromUtf8Lossy script))), some db),
        ⟨s.db, s.cache.insert (host.sha1Hex (fromUtf8Lossy script)) (fromUtf8Lossy script)⟩) := by
  have hsub : Cmd.upperText env.upper (asBytes "LOAD") = "LOAD" := by
    rw [Cmd.upperText, fromUtf8Lossy_asBytes]
    rfl
  have hindex : index [asBytes "LOAD", script] 0 = .ok (asBytes "LOAD") := rfl
  have hparse : Cmd.parse env (Cmd.loadArgs script) = .ok (.scriptLoad script) := by
    rw [Cmd.loadArgs, Cmd.parse_text env "SCRIPT" (Cmd.parseScript env) rfl, Cmd.parseScript,
      Cmd.atLeast, if_neg (by simp), hindex]
    dsimp only [bind, Except.bind]
    rw [hsub]
    rfl
  rw [host.respond_run depth hparse (by simp), host.execute_run depth env db (by simp),
    Cmd.executeOn_scripting _ _ _ _ rfl]
  rfl

/-- **A loaded script can be called by its digest** as long as nothing clears the cache,
scripts included: `EVALSHA` then does what `EVAL` does with a script of that digest. -/
theorem evalsha_loaded (depth : Nat) (env : Env) (db : Nat) (script : Bytes) (s : Server)
    {events : List Event}
    (hkeeps : host.EachCall depth ServerCall.KeepsScripts events
      (host.next depth s (.request env db (Cmd.loadArgs script)))) :
    ((host.respond depth env db (Cmd.loadArgs script)).run ServerCall.exec s).1 =
        (.ok (.bulkStr (host.sha1Hex (fromUtf8Lossy script))), some db) ∧
      ∃ script', host.sha1Hex script' = host.sha1Hex (fromUtf8Lossy script) ∧
        ∀ env' db' numkeysArg rest,
          (host.respond depth env' db' (Cmd.evalArgs true
              (asBytes (host.sha1Hex (fromUtf8Lossy script))) numkeysArg rest)).run ServerCall.exec
              (host.runEvents depth s (.request env db (Cmd.loadArgs script) :: events)) =
            (host.respond depth env' db' (Cmd.evalArgs false (asBytes script') numkeysArg rest)).run
              ServerCall.exec
              (host.runEvents depth s (.request env db (Cmd.loadArgs script) :: events)) := by
  have hload := host.respond_load depth env db script s
  have hnext : host.next depth s (.request env db (Cmd.loadArgs script)) =
      ⟨s.db, s.cache.insert (host.sha1Hex (fromUtf8Lossy script)) (fromUtf8Lossy script)⟩ := by
    rw [next, handle, Program.run_map, hload]
  have hloaded : (host.next depth s (.request env db (Cmd.loadArgs script))).Callable host
      (host.sha1Hex (fromUtf8Lossy script)) := by
    rw [hnext]
    exact ⟨fromUtf8Lossy script, Std.ExtTreeMap.getElem?_insert_self, rfl⟩
  obtain ⟨script', hget, hdigest⟩ :=
    host.runEvents_from (fun _ => ServerCall.exec_callable) depth events hloaded hkeeps
  refine ⟨congrArg Prod.fst hload, script', hdigest, fun env' db' numkeysArg rest => ?_⟩
  apply host.respond_evalSha
  rw [fromUtf8Lossy_asBytes]
  exact hget

theorem keepsScripts (depth : Nat) {env : Env} (db : Nat) {args : List Bytes}
    (h : Cmd.Confined env args) (s : Server) :
    (host.handle depth (.request env db args)).AllCalls ServerCall.exec ServerCall.KeepsScripts s := by
  have hdb : CmdM.Calls (ServerCall.OnDb env db) (host.handle depth (.request env db args)) :=
    (host.respond_onDb depth db h).map fun _ _ => trivial
  refine hdb.allCalls ServerCall.exec_anyReply (fun β call s hcall => ?_) s
  cases call with
  | db | cacheGet | cacheInsert => trivial
  | cacheClear => exact hcall

theorem evalsha_loaded_set :
    ((plain.respond 0 (.at 0) 0 (Cmd.loadArgs (asBytes "return 1"))).run ServerCall.exec
        (.new 1)).1 =
        (.ok (.bulkStr (plain.sha1Hex (fromUtf8Lossy (asBytes "return 1")))), some 0) ∧
      ∃ script', plain.sha1Hex script' = plain.sha1Hex (fromUtf8Lossy (asBytes "return 1")) ∧
        ∀ env' db' numkeysArg rest,
          (plain.respond 0 env' db' (Cmd.evalArgs true
              (asBytes (plain.sha1Hex (fromUtf8Lossy (asBytes "return 1")))) numkeysArg rest)).run
              ServerCall.exec (plain.runEvents 0 (.new 1)
                [.request (.at 0) 0 (Cmd.loadArgs (asBytes "return 1")),
                  .request (.at 1) 0 [asBytes "SET", asBytes "k", asBytes "v"]]) =
            (plain.respond 0 env' db' (Cmd.evalArgs false (asBytes script') numkeysArg rest)).run
              ServerCall.exec (plain.runEvents 0 (.new 1)
                [.request (.at 0) 0 (Cmd.loadArgs (asBytes "return 1")),
                  .request (.at 1) 0 [asBytes "SET", asBytes "k", asBytes "v"]]) :=
  plain.evalsha_loaded 0 (.at 0) 0 (asBytes "return 1") (.new 1)
    ⟨plain.keepsScripts 0 0 (Cmd.confined_set _ _ _) _, trivial⟩

end Host

end MiniRudis
