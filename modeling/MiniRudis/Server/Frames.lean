import MiniRudis.Db.Writes
import MiniRudis.Server.Isolation

/-!
# Keys that are not written

Whatever else the connections, their scripts and the sweeps do, a key that none of them
writes is read as before.
-/

namespace MiniRudis

open Lib

variable {α : Type}

namespace ServerCall

/-- The call does not write the key, and is made by the instant `now`. -/
def Leaves (db : Nat) (key : String) (now : Instant) : (β : Type) → ServerCall β → Server → Prop
  | _, .db env op, _ => env.now ≤ now ∧ ¬ op.Writes db key
  | _, _, _ => True

theorem exec_leaves {db : Nat} {key : String} {now : Instant} {c : Cell} (β : Type)
    (call : ServerCall β) (s : Server) (hs : c.Sheds now (s.db.cellAt db key))
    (h : Leaves db key now β call s) :
    c.Sheds now ((exec β call s).2.db.cellAt db key) := by
  cases call with
  | db env op => exact hs.trans ((op.run_unwritten env s.db h.2).later h.1)
  | cacheGet | cacheInsert | cacheClear => exact hs

end ServerCall

/-- **A cell that no call of a run writes stays**, or eviction takes it once it has expired. -/
theorem Host.runEvents_leaves (host : Host) (depth : Nat) {events : List Event} {s : Server}
    {db : Nat} {key : String} {now : Instant}
    (h : host.EachCall depth (ServerCall.Leaves db key now) events s) :
    (s.db.cellAt db key).Sheds now ((host.runEvents depth s events).db.cellAt db key) ∧
      (host.runEvents depth s events).db.dbs.length = s.db.dbs.length := by
  have hkeeps : ∀ β (call : ServerCall β) (t : Server),
      (s.db.cellAt db key).Sheds now (t.db.cellAt db key) ∧
        t.db.dbs.length = s.db.dbs.length →
      call.Full → ServerCall.Leaves db key now β call t →
      (s.db.cellAt db key).Sheds now ((ServerCall.exec β call t).2.db.cellAt db key) ∧
        (ServerCall.exec β call t).2.db.dbs.length = s.db.dbs.length := by
    intro β call t ht _ hleaves
    refine ⟨ServerCall.exec_leaves β call t ht.1 hleaves, ?_⟩
    cases call with
    | db env op => exact (op.length_run env t.db).trans ht.2
    | cacheGet | cacheInsert | cacheClear => exact ht.2
  exact host.runEvents_keeps hkeeps events ⟨.refl _ _, rfl⟩ h

/-! ## Commands that read one key -/

/-- The key of a command that reads one key and writes none. -/
def Command.readKey : Command → Option String
  | type key | ttl key | pttl key | get key | strlen key | getRange key .. | lLen key
  | lRange key .. | lIndex key _ | hGet key _ | hMGet key _ | hExists key _ | hGetAll key
  | hKeys key | hVals key | hLen key | sMembers key | sIsMember key _ | sMIsMember key _
  | sCard key | sRandMember key _ | zScore key _ | zMScore key _ | zRank key _ | zRevRank key _
  | zCard key | zCount key .. | zRange key .. | zRevRange key .. => some key
  | zRangeByScore args | zRevRangeByScore args => some args.key
  | _ => none

def ServerCall.ReadsAt (env : Env) (db : Nat) (key : String) : (β : Type) → ServerCall β → Prop
  | _, .db env' (.onKey db' key' op) => env' = env ∧ db' = db ∧ key' = key ∧ op.reads = true
  | _, _ => False

theorem Cmd.executeOn_readsAt (os : String) (last : Command → CmdM (Outcome Frame)) {env : Env}
    {db : Nat} {key : String} {cmd : Command} (h : cmd.readKey = some key) :
    CmdM.Calls (ServerCall.ReadsAt env db key) (executeOn os env db last cmd) := by
  have hcall : ∀ {α : Type} (op : KeyOp α) (f : α → Frame), op.reads = true →
      CmdM.Calls (ServerCall.ReadsAt env db key) (call env (.onKey db key op) f) :=
    fun op f hreads => ⟨⟨rfl, rfl, rfl, hreads⟩, fun _ _ => trivial⟩
  cases cmd with
  | zCount | zRangeByScore | zRevRangeByScore =>
      obtain rfl := Option.some.inj h
      exact withBounds_calls _ _ fun _ _ => hcall _ _ rfl
  | type | ttl | pttl | get | strlen | getRange | lLen | lRange | lIndex | hGet | hMGet | hExists
  | hGetAll | hKeys | hVals | hLen | sMembers | sIsMember | sMIsMember | sCard | sRandMember
  | zScore | zMScore | zRank | zRevRank | zCard | zRange | zRevRange =>
      obtain rfl := Option.some.inj h
      exact hcall _ _ rfl
  | _ => exact absurd h (by simp [Command.readKey])

/-! ## What is read of a key -/

def Server.keyView (db : Nat) (key : String) (now : Instant) (s : Server) : Cell × Bool :=
  ((s.db.cellAt db key).purge now, decide (db < s.db.dbs.length))

theorem KeyOp.run_reads {op : KeyOp α} (h : op.reads = true) (env : Env) (db : Nat) (key : String)
    (self : Database) : (op.run env db key self).2 = self := by
  by_cases hdb : db < self.dbs.length
  · rw [op.run_cellAt env key hdb, op.onCell_reads h, Database.putCell_cellAt]
  · rw [op.run_no_db env key hdb]

theorem ServerCall.readsAt_sees {env : Env} {db : Nat} {key : String} (β : Type)
    (call : ServerCall β) (h : ReadsAt env db key β call) :
    Program.SeesOnly exec (Server.keyView db key env.now) β call := by
  cases call with
  | cacheGet | cacheInsert | cacheClear => exact h.elim
  | db env' op =>
      cases op with
      | onKey db' key' op =>
          obtain ⟨rfl, rfl, rfl, hreads⟩ := h
          intro s t hview
          obtain ⟨hcell, hlength⟩ := Prod.mk.inj hview
          rw [decide_eq_decide] at hlength
          simp only [exec, Op.run, op.run_reads hreads]
          refine ⟨?_, hview⟩
          by_cases hs : db' < s.db.dbs.length
          · rw [op.run_cellAt env' key' hs, op.run_cellAt env' key' (hlength.mp hs)]
            exact (op.reads_respects hreads env' _ _ hcell).1
          · rw [op.run_no_db env' key' hs, op.run_no_db env' key' (hlength.not.mp hs)]
      | _ => exact h.elim

theorem Host.respond_readsAt (host : Host) (depth : Nat) {env : Env} {args : List Bytes}
    {cmd : Command} {key : String} (hparse : Cmd.parse env args = .ok cmd)
    (hkey : cmd.readKey = some key) (db : Nat) :
    CmdM.Calls (ServerCall.ReadsAt env db key) (host.respond depth env db args) := by
  have hexecute : CmdM.Calls (ServerCall.ReadsAt env db key) (host.execute depth env db cmd) := by
    unfold execute Cmd.execute
    split
    · exact absurd hkey (by simp [Command.readKey])
    · exact (Cmd.executeOn_readsAt host.os _ hkey).bind fun frame _ => trivial
  unfold respond
  rw [hparse]
  cases cmd with
  | quit => exact absurd hkey (by simp [Command.readKey])
  | _ => exact hexecute.map fun _ _ => trivial

/-- **What is read depends on what is written.**  A command that reads one key replies, after
any run of requests, scripts and sweeps that makes no call to write the key, what it would
have replied before the run, at the same instant. -/
theorem Host.reads_unwritten (host : Host) (depth : Nat) {env : Env} {args : List Bytes}
    {cmd : Command} {key : String} (hparse : Cmd.parse env args = .ok cmd)
    (hkey : cmd.readKey = some key) {db : Nat} {events : List Event} {s : Server}
    (h : host.EachCall depth (ServerCall.Leaves db key env.now) events s) :
    ((host.respond depth env db args).run ServerCall.exec (host.runEvents depth s events)).1 =
      ((host.respond depth env db args).run ServerCall.exec s).1 := by
  obtain ⟨hcell, hlength⟩ := host.runEvents_leaves depth h
  have hview : (host.runEvents depth s events).keyView db key env.now =
      s.keyView db key env.now := by
    rw [Server.keyView, Server.keyView, hlength, hcell.purge_eq]
  have hsees := (host.respond_readsAt depth hparse hkey db).weaken ServerCall.readsAt_sees
  exact (hsees.run_sees ServerCall.exec_anyReply hview).1

def elsewhere : List Event :=
  [.request (.at 3) 0 [asBytes "SADD", asBytes "j", asBytes "m"], .sweep (.at 11)]

theorem elsewhere_leaves (s : Server) :
    Host.plain.EachCall 0 (ServerCall.Leaves 0 (fromUtf8Lossy (asBytes "k")) 12) elsewhere s := by
  refine ⟨(Program.allCalls_map _ _ _).mpr ?_, ⟨⟨by decide, fun h => h.elim⟩, trivial⟩, trivial⟩
  unfold Host.respond
  rw [Cmd.parse_sadd]
  refine ⟨⟨by decide, fun hwrites => ?_⟩, trivial⟩
  have hkey : fromUtf8Lossy (asBytes "j") = fromUtf8Lossy (asBytes "k") := hwrites.2.1
  rw [fromUtf8Lossy_asBytes, fromUtf8Lossy_asBytes] at hkey
  exact absurd hkey (by decide)

theorem Host.reads_unwritten_get :
    ((Host.plain.respond 0 (.at 12) 0 [asBytes "GET", asBytes "k"]).run ServerCall.exec
        (Host.plain.runEvents 0 ⟨unsweptDb, ∅⟩ elsewhere)).1 =
      ((Host.plain.respond 0 (.at 12) 0 [asBytes "GET", asBytes "k"]).run ServerCall.exec
        ⟨unsweptDb, ∅⟩).1 :=
  Host.plain.reads_unwritten 0 (Cmd.parse_get (.at 12) (asBytes "k")) rfl (elsewhere_leaves _)

end MiniRudis
