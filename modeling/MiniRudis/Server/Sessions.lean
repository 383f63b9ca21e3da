import MiniRudis.Server.Requests

/-!
# Scripts and connections

The same argument vectors, by `redis.pcall` in one script and over one connection.
-/

namespace MiniRudis

open Lib

/-- What the command does depends on the connection's index. -/
def Command.usesIndex : Command → Bool
  | ping _ | echo _ | select _ | flushall | info | quit => false
  | _ => true

namespace Cmd

def Accepts (env : Env) (args : List Bytes) : Prop := ∀ e, parse env args ≠ .error (.err e)

theorem executeOn_last (os : String) (env : Env) (db : Nat)
    (last last' : Command → CmdM (Outcome Frame)) {cmd : Command} (hscript : cmd.isScripting = false)
    (hselect : ∀ idx, cmd ≠ .select idx) :
    executeOn os env db last cmd = executeOn os env db last' cmd := by
  cases cmd with
  | eval | evalSha | scriptLoad | scriptFlush => exact absurd hscript nofun
  | select idx => exact absurd rfl (hselect idx)
  | ping msg => cases msg <;> rfl
  | _ => rfl

theorem executeOn_index (os : String) (env : Env) (db db' : Nat)
    (last : Command → CmdM (Outcome Frame)) {cmd : Command} (h : cmd.usesIndex = false)
    (hselect : ∀ idx, cmd ≠ .select idx) :
    executeOn os env db last cmd = executeOn os env db' last cmd := by
  cases cmd with
  | select idx => exact absurd rfl (hselect idx)
  | ping msg => cases msg <;> rfl
  | echo | flushall | info | quit => rfl
  | _ => exact absurd h nofun

/-- `parse` does not reject the arguments, and if their command depends on the index, then
the connection's index is still the first one. -/
structure InStep (start db : Nat) (env : Env) (args : List Bytes) : Prop where
  accepts : Accepts env args
  index : ∀ cmd, parse env args = .ok cmd → cmd.usesIndex = true → db = start

end Cmd

/-- The argument vectors name neither `QUIT` nor a scripting command. -/
def Ordinary (turns : List (Env × List Bytes)) : Prop :=
  ∀ turn ∈ turns, ∀ cmd, Cmd.parse turn.1 turn.2 = .ok cmd → cmd.isScripting = false ∧ cmd ≠ .quit

theorem Ordinary.tail {turn : Env × List Bytes} {turns : List (Env × List Bytes)}
    (h : Ordinary (turn :: turns)) : Ordinary turns :=
  fun turn hturn => h turn (List.mem_cons_of_mem _ hturn)

/-! ## Calls of scripts -/

theorem mapM_luaArg_string (args : List Bytes) :
    (args.map LuaValue.string).mapM luaArg = .ok args := by
  induction args with
  | nil => rfl
  | cons arg args ih =>
      rw [List.map_cons, List.mapM_cons, ih]
      rfl

theorem luaAnswer_ok (frame : Frame) :
    luaAnswer true (.ok frame) = .ok (frameToLuaValue frame) := by
  cases frame <;> rfl

theorem luaAnswer_ne_error (reply : Outcome Frame) (msg : String) :
    luaAnswer true reply ≠ .error (.error msg) := by
  cases reply with
  | ok frame =>
      rw [luaAnswer_ok]
      exact nofun
  | error e => exact nofun

namespace Host

variable (host : Host) {depth db : Nat} {env : Env} {args : List Bytes} {s s' : Server}

/-- What `redis.pcall` returns or raises for each argument vector, in a script that is run
at index `db`, until one raises. -/
def pcallEach (depth db : Nat) : List (Env × List Bytes) → Server →
    List (Except LuaFault LuaValue) × Server
  | [], s => ([], s)
  | (env, args) :: rest, s =>
      match (host.call db depth true env (args.map .string)).run ServerCall.exec s with
      | (.ok value, s) =>
          let (answers, s) := pcallEach depth db rest s
          (.ok value :: answers, s)
      | (.error fault, s) => ([.error fault], s)

def EachTurn (depth : Nat) (P : Nat → Env → List Bytes → Prop) :
    Option Nat → List (Env × List Bytes) → Server → Prop
  | some db, (env, args) :: rest, s =>
      P db env args ∧
        EachTurn depth P ((host.respond depth env db args).run ServerCall.exec s).1.2 rest
          ((host.respond depth env db args).run ServerCall.exec s).2
  | _, _, _ => True

theorem eachTurn_none (depth : Nat) (P : Nat → Env → List Bytes → Prop)
    (turns : List (Env × List Bytes)) (s : Server) : host.EachTurn depth P none turns s := by
  cases turns <;> trivial

theorem eachTurn_nil (depth : Nat) (P : Nat → Env → List Bytes → Prop) (next : Option Nat)
    (s : Server) : host.EachTurn depth P next [] s := by
  cases next <;> trivial

/-- The script gets the connection's replies as values, and leaves the same state. -/
def Agrees (depth depth' start : Nat) (turns : List (Env × List Bytes)) (s : Server) : Prop :=
  host.pcallEach depth start turns s =
    ((host.converse depth' (some start) turns s).1.map (luaAnswer true),
      (host.converse depth' (some start) turns s).2)

theorem pcallEach_value {value : LuaValue}
    (h : (host.call db depth true env (args.map .string)).run ServerCall.exec s = (.ok value, s'))
    (rest : List (Env × List Bytes)) :
    host.pcallEach depth db ((env, args) :: rest) s =
      (.ok value :: (host.pcallEach depth db rest s').1, (host.pcallEach depth db rest s').2) := by
  rw [pcallEach, h]

theorem pcallEach_raise {fault : LuaFault}
    (h : (host.call db depth true env (args.map .string)).run ServerCall.exec s = (.error fault, s'))
    (rest : List (Env × List Bytes)) :
    host.pcallEach depth db ((env, args) :: rest) s = ([.error fault], s') := by
  rw [pcallEach, h]

/-! ### One call -/

theorem call_strings (depth start : Nat) (hne : args ≠ []) :
    host.call start (depth + 1) true env (args.map .string) =
      match Cmd.parse env args with
      | .error (.err e) => return .error (.error e.text)
      | .error .panicked => return .error .panic
      | .ok cmd => luaAnswer true <$> Prod.fst <$> host.execute depth env start cmd := by
  have hempty : (args.map LuaValue.string).isEmpty = false := by simpa using hne
  rcases hparse : Cmd.parse env args with (_ | _) | _ <;>
    simp only [host.call_succ, execRedisCall, hempty, mapM_luaArg_string, hparse,
      Bool.false_eq_true, if_false]

theorem call_refuses (depth start : Nat) {e : RedisError}
    (h : Cmd.parse env args = .error (.err e)) (s : Server) :
    ∃ msg, (host.call start (depth + 1) true env (args.map .string)).run ServerCall.exec s =
      (.error (.error msg), s) := by
  cases args with
  | nil => exact ⟨_, rfl⟩
  | cons name rest =>
      rw [host.call_strings depth start (List.cons_ne_nil _ _), h]
      exact ⟨_, rfl⟩

theorem call_panics (depth start : Nat) (h : Cmd.parse env args = panicked) (s : Server) :
    (host.call start (depth + 1) true env (args.map .string)).run ServerCall.exec s =
      (.error .panic, s) := by
  have hne : args ≠ [] := by
    rintro rfl
    exact absurd h (by simp [Cmd.parse, err, panicked])
  rw [host.call_strings depth start hne, h]
  rfl

theorem respond_panics (depth db : Nat) (h : Cmd.parse env args = panicked) (s : Server) :
    (host.respond depth env db args).run ServerCall.exec s = ((panicked, none), s) := by
  rw [respond, h]
  rfl

theorem call_accepts (depth start : Nat) {cmd : Command} (h : Cmd.parse env args = .ok cmd)
    (s : Server) :
    (host.call start (depth + 1) true env (args.map .string)).run ServerCall.exec s =
      (luaAnswer true ((host.execute depth env start cmd).run ServerCall.exec s).1.1,
        ((host.execute depth env start cmd).run ServerCall.exec s).2) := by
  have hne : args ≠ [] := by
    rintro rfl
    exact absurd h (by simp [Cmd.parse, err])
  rw [host.call_strings depth start hne, h]
  dsimp only
  rw [Program.run_map, Program.run_map]

theorem execute_agrees (depth depth' : Nat) {start : Nat} (env : Env) {cmd : Command}
    (hscript : cmd.isScripting = false)
    (hindex : cmd.usesIndex = true → db = start) (s : Server) :
    ((host.execute depth env start cmd).run ServerCall.exec s).1.1 =
        ((host.execute depth' env db cmd).run ServerCall.exec s).1.1 ∧
      ((host.execute depth env start cmd).run ServerCall.exec s).2 =
        ((host.execute depth' env db cmd).run ServerCall.exec s).2 := by
  by_cases hselect : ∃ idx, cmd = .select idx
  · obtain ⟨idx, rfl⟩ := hselect
    unfold execute Cmd.execute
    dsimp only
    split
    · exact ⟨rfl, rfl⟩
    · exact ⟨rfl, rfl⟩
  · rw [not_exists] at hselect
    have hprogram : ∀ last last', Cmd.executeOn host.os env start last cmd =
        Cmd.executeOn host.os env db last' cmd := by
      intro last last'
      rw [Cmd.executeOn_last host.os env start last last' hscript hselect]
      cases huses : cmd.usesIndex with
      | false => exact Cmd.executeOn_index host.os env start db last' huses hselect
      | true => rw [hindex huses]
    rw [host.execute_run depth env start hselect, host.execute_run depth' env db hselect, hprogram]
    exact ⟨rfl, rfl⟩

/-! ### Sessions -/

theorem pcallEach_eq_converse (depth depth' : Nat) {start : Nat}
    {turns : List (Env × List Bytes)} (hturns : Ordinary turns)
    (h : host.EachTurn depth' (Cmd.InStep start) (some db) turns s) :
    host.pcallEach (depth + 1) start turns s =
      ((host.converse depth' (some db) turns s).1.map (luaAnswer true),
        (host.converse depth' (some db) turns s).2) := by
  induction turns generalizing db s with
  | nil => rfl
  | cons turn turns ih =>
      obtain ⟨env, args⟩ := turn
      obtain ⟨⟨haccepts, hindex⟩, hrest⟩ := h
      cases args with
      | nil => exact absurd rfl (haccepts _)
      | cons name args =>
          cases hparse : Cmd.parse env (name :: args) with
          | error fault =>
              cases fault with
              | err e => exact absurd hparse (haccepts e)
              | panicked =>
                  rw [host.pcallEach_raise (host.call_panics depth start hparse s),
                    host.converse_cons (host.respond_panics depth' db hparse s), converse_none]
                  rfl
          | ok cmd =>
              obtain ⟨hscript, hquit⟩ := hturns _ List.mem_cons_self cmd hparse
              obtain ⟨hreply, hstate⟩ := host.execute_agrees depth depth' env hscript
                (hindex cmd hparse) s
              have hcall := host.call_accepts depth start hparse s
              have hrespond := host.respond_run depth' hparse hquit db s
              rw [hreply, hstate] at hcall
              rw [hrespond] at hrest
              -- a panic ends the connection and the script, a frame neither
              rcases hrun : (host.execute depth' env db cmd).run ServerCall.exec s with
                ⟨⟨reply, next⟩, s'⟩
              rw [hrun] at hcall hrespond hrest
              cases reply with
              | ok frame =>
                  rw [luaAnswer_ok] at hcall
                  rw [host.pcallEach_value hcall, host.converse_cons hrespond, ih hturns.tail hrest,
                    List.map_cons, luaAnswer_ok]
              | error fault =>
                  have hended : (host.respond depth' env db (name :: args)).run ServerCall.exec s =
                      ((.error fault, none), s') := hrespond
                  rw [host.pcallEach_raise hcall, host.converse_cons hended, converse_none]
                  rfl

/-- A script that comes to an argument vector which `parse` rejects raises an error there,
and a connection does not. -/
theorem eachTurn_accepts (depth depth' : Nat) {start : Nat}
    {turns : List (Env × List Bytes)} (hturns : Ordinary turns)
    {s s' : Server} (h : (host.pcallEach (depth + 1) start turns s).1 =
      (host.converse depth' (some db) turns s').1.map (luaAnswer true)) :
    host.EachTurn depth' (fun _ env args => Cmd.Accepts env args) (some db) turns s' := by
  induction turns generalizing db s s' with
  | nil => trivial
  | cons turn turns ih =>
      obtain ⟨env, args⟩ := turn
      have haccepts : Cmd.Accepts env args := by
        intro e hparse
        obtain ⟨msg, hcall⟩ := host.call_refuses depth start hparse s
        rw [host.pcallEach_raise hcall] at h
        have hmem : .error (.error msg) ∈
            (host.converse depth' (some db) ((env, args) :: turns) s').1.map (luaAnswer true) := by
          rw [← h]
          exact List.mem_cons_self
        obtain ⟨reply, -, hreply⟩ := List.mem_map.mp hmem
        exact luaAnswer_ne_error reply msg hreply
      refine ⟨haccepts, ?_⟩
      cases args with
      | nil => exact absurd rfl (haccepts _)
      | cons name args =>
          cases hparse : Cmd.parse env (name :: args) with
          | error fault =>
              cases fault with
              | err e => cases haccepts e hparse
              | panicked =>
                  rw [host.respond_panics depth' db hparse]
                  exact host.eachTurn_none _ _ _ _
          | ok cmd =>
              have hquit := (hturns _ List.mem_cons_self cmd hparse).2
              have hrespond := host.respond_run depth' hparse hquit db s'
              rcases hrun : (host.execute depth' env db cmd).run ServerCall.exec s' with
                ⟨⟨reply, next⟩, t'⟩
              rw [hrun] at hrespond
              rw [hrespond]
              cases reply with
              | error fault => exact host.eachTurn_none _ _ _ _
              | ok frame =>
                  rw [host.converse_cons hrespond, List.map_cons] at h
                  rcases hscript : (host.call start (depth + 1) true env
                    ((name :: args).map .string)).run ServerCall.exec s with ⟨answer, t⟩
                  cases answer with
                  | error fault =>
                      rw [host.pcallEach_raise hscript] at h
                      exact absurd ((List.cons.inj h).1.trans (luaAnswer_ok frame)) nofun
                  | ok value =>
                      rw [host.pcallEach_value hscript] at h
                      exact ih hturns.tail (List.cons.inj h).2

/-- **Scripts and connections.**  A script that runs argument vectors by `redis.pcall` gets
the replies that a connection gets, and leaves the same state, as long as `parse` rejects
none and no command that depends on the index comes after a `SELECT` of another one.  If
they agree, `parse` rejects none. -/
theorem pcallEach_agrees (depth depth' start : Nat) {turns : List (Env × List Bytes)}
    (hturns : Ordinary turns) (s : Server) :
    (host.EachTurn depth' (Cmd.InStep start) (some start) turns s →
      host.Agrees (depth + 1) depth' start turns s) ∧
    (host.Agrees (depth + 1) depth' start turns s →
      host.EachTurn depth' (fun _ env args => Cmd.Accepts env args) (some start) turns s) :=
  ⟨host.pcallEach_eq_converse depth depth' hturns,
    fun h => host.eachTurn_accepts depth depth' hturns (congrArg Prod.fst h)⟩

theorem ordinary_dbsize : Ordinary [(.at 0, [asBytes "DBSIZE"])] := by
  intro turn hturn cmd h
  obtain rfl := List.mem_singleton.mp hturn
  have hparse : Cmd.parse (.at 0) [asBytes "DBSIZE"] = .ok .dbsize := rfl
  obtain rfl := Except.ok.inj (hparse.symm.trans h)
  exact ⟨rfl, nofun⟩

/-- A key is added, and counted behind a `SELECT` away and back. -/
def awayAndBack : List (Env × List Bytes) :=
  [(.at 0, [asBytes "SADD", asBytes "k", asBytes "m"]), (.at 1, [asBytes "SELECT", asBytes "1"]),
    (.at 2, [asBytes "PING"]), (.at 3, [asBytes "SELECT", asBytes "0"]), (.at 4, [asBytes "DBSIZE"])]

theorem parse_awayAndBack : awayAndBack.map (fun turn => Cmd.parse turn.1 turn.2) =
    [.ok (.sAdd "k" ["m"]), .ok (.select 1), .ok (.ping none), .ok (.select 0), .ok .dbsize] := by
  with_unfolding_all rfl

theorem ordinary_awayAndBack : Ordinary awayAndBack := by
  intro turn hturn cmd h
  have hmem : Cmd.parse turn.1 turn.2 ∈ awayAndBack.map fun turn => Cmd.parse turn.1 turn.2 :=
    List.mem_map_of_mem hturn
  rw [parse_awayAndBack, h] at hmem
  simp only [List.mem_cons, List.not_mem_nil, or_false, Except.ok.injEq] at hmem
  obtain rfl | rfl | rfl | rfl | rfl := hmem <;> exact ⟨rfl, by simp⟩

theorem inStep_of_parse {start : Nat} {cmd : Command} (hparse : Cmd.parse env args = .ok cmd)
    (hindex : cmd.usesIndex = true → db = start) : Cmd.InStep start db env args := by
  refine ⟨fun e he => absurd (hparse.symm.trans he) (by simp), fun cmd' hcmd' => ?_⟩
  obtain rfl := Except.ok.inj (hparse.symm.trans hcmd')
  exact hindex

theorem inStep_awayAndBack :
    Host.plain.EachTurn 0 (Cmd.InStep 0) (some 0) awayAndBack (.new 2) := by
  have hparsed := parse_awayAndBack
  simp only [awayAndBack, List.map_cons, List.map_nil, List.cons.injEq, and_true] at hparsed
  obtain ⟨hadd, haway, hping, hback, hsize⟩ := hparsed
  have hrest : ∀ s, Host.plain.EachTurn 0 (Cmd.InStep 0) (some 0)
      [(.at 1, [asBytes "SELECT", asBytes "1"]), (.at 2, [asBytes "PING"]),
        (.at 3, [asBytes "SELECT", asBytes "0"]), (.at 4, [asBytes "DBSIZE"])] s := by
    intro s
    refine ⟨inStep_of_parse haway (by simp [Command.usesIndex]), ?_⟩
    rw [Host.plain.respond_run 0 haway (by simp)]
    refine ⟨inStep_of_parse hping (by simp [Command.usesIndex]), ?_⟩
    rw [Host.plain.respond_run 0 hping (by simp)]
    refine ⟨inStep_of_parse hback (by simp [Command.usesIndex]), ?_⟩
    rw [Host.plain.respond_run 0 hback (by simp)]
    exact ⟨inStep_of_parse hsize fun _ => rfl, Host.plain.eachTurn_nil _ _ _ _⟩
  refine ⟨inStep_of_parse hadd fun _ => rfl, ?_⟩
  rw [Host.plain.respond_run 0 hadd (by simp)]
  exact hrest _

theorem pcallEach_agrees_awayAndBack : Host.plain.Agrees 1 0 0 awayAndBack (.new 2) :=
  (Host.plain.pcallEach_agrees 0 0 0 ordinary_awayAndBack (.new 2)).1 inStep_awayAndBack

/-- `GET` without a key, and a `SELECT` before a command on the data. -/
theorem pcallEach_disagrees :
    (¬ ∀ (host : Host) (depth depth' start : Nat) (turns : List (Env × List Bytes)) (s : Server),
      Ordinary turns → host.Agrees (depth + 1) depth' start turns s) ∧
    ¬ ∀ (host : Host) (depth depth' start : Nat) (turns : List (Env × List Bytes)) (s : Server),
      Ordinary turns → (∀ turn ∈ turns, Cmd.Accepts turn.1 turn.2) →
        host.Agrees (depth + 1) depth' start turns s := by
  constructor
  · intro hclaim
    have hturns : Ordinary [(.at 0, [asBytes "GET"])] := by
      intro turn hturn cmd h
      obtain rfl := List.mem_singleton.mp hturn
      exact absurd h nofun
    have hagrees := hclaim .plain 0 0 0 _ (.new 1) hturns
    exact absurd (List.cons.inj (congrArg Prod.fst hagrees)).1 nofun
  · intro hclaim
    let turns : List (Env × List Bytes) :=
      [(.at 0, [asBytes "SELECT", asBytes "1"]), (.at 0, [asBytes "DBSIZE"])]
    have hselect : Cmd.parse (.at 0) [asBytes "SELECT", asBytes "1"] = .ok (.select 1) := by
      with_unfolding_all rfl
    have hturns : Ordinary turns := by
      intro turn hturn cmd h
      obtain rfl | hturn := List.mem_cons.mp hturn
      · obtain rfl := Except.ok.inj (hselect.symm.trans h)
        exact ⟨rfl, nofun⟩
      · exact ordinary_dbsize turn hturn cmd h
    have haccepts : ∀ turn ∈ turns, Cmd.Accepts turn.1 turn.2 := by
      intro turn hturn e h
      obtain rfl | hturn := List.mem_cons.mp hturn
      · exact absurd (hselect.symm.trans h) nofun
      · obtain rfl := List.mem_singleton.mp hturn
        exact absurd h nofun
    have hscript : (Host.plain.pcallEach 1 0 turns (.new 1)).1 =
        [.ok (.string (asBytes "OK")), .ok (.integer 0)] := by
      with_unfolding_all rfl
    have hreplies : (Host.plain.converse 0 (some 0) turns (.new 1)).1 =
        [.ok .ok, .ok (.fromError .dbIndexOutOfRange)] := by
      with_unfolding_all rfl
    have hagrees := congrArg Prod.fst (hclaim .plain 0 0 0 turns (.new 1) hturns haccepts)
    dsimp only at hagrees
    rw [hscript, hreplies] at hagrees
    exact absurd (List.cons.inj (List.cons.inj hagrees).2).1 nofun

end Host

end MiniRudis
