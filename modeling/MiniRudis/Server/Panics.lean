import MiniRudis.Db.ZSetRuns
import MiniRudis.Server.SetCommand

/-!
# Commands on lists, sets, sorted sets and ranges of strings

They do not panic in any state of a run, except where memory is reserved by a count.
-/

namespace MiniRudis

open Lib

namespace Command

/-- The commands on lists, sets and sorted sets, and `GETRANGE`. -/
def onElements : Command → Bool
  | getRange .. => true
  | lPush .. | rPush .. | lPushX .. | rPushX .. | lPop .. | rPop .. | lLen _ | lRange .. | lIndex ..
  | lSet .. | lInsert .. | lRem .. | lTrim .. | lMove .. => true
  | sAdd .. | sRem .. | sMembers _ | sIsMember .. | sMIsMember .. | sCard _ | sUnion _ | sInter _
  | sDiff _ | sUnionStore .. | sInterStore .. | sDiffStore .. | sPop .. | sRandMember ..
  | sMove .. => true
  | zAdd _ | zRem .. | zScore .. | zMScore .. | zIncrBy .. | zRank .. | zRevRank .. | zCard _
  | zCount .. | zRange .. | zRangeByScore _ | zRevRangeByScore _ | zRevRange ..
  | zRemRangeByRank .. | zRemRangeByScore .. | zPopMin .. | zPopMax .. => true
  | _ => false

/-- What the command reserves by its count can be reserved. -/
def Fits (env : Env) (db : Nat) (self : Database) : Command → Prop
  | lPop key count | rPop key count =>
      ∀ l, (self.cellAt db key).obj = some (.list l) → CapacityOk Deque.elemSize count
  | sPop key count =>
      ∀ s, (self.cellAt db key).obj = some (.set s) → env.chooser.reserves count = true
  | sRandMember key count =>
      ∀ s, self.visible env.now db key = some (.set s) → HashSet.DrawsFit env.chooser count s
  | _ => True

end Command

namespace Cmd

variable {α : Type} {s : Server}

theorem reply_panics_iff (f : α → Frame) (r : Outcome α) : reply f r = panicked ↔ r = panicked := by
  cases r with
  | ok a => simp [reply]
  | error e => cases e <;> simp [reply, panicked]

theorem call_panics_iff (env : Env) (op : Op α) (f : α → Frame) :
    ((call env op f).run ServerCall.exec s).1 = panicked ↔ (op.run env s.db).1 = panicked := by
  rw [call, Program.run_map]
  exact reply_panics_iff f _

theorem callTyped_panics_iff (hs : s.db.Sound RudisObject.Coupled) (env : Env) (db : Nat)
    (key : String) {op : TypedOp α} (f : α → Frame) (habsent : op.Fits env .absent) :
    ((callTyped env db key op f).run ServerCall.exec s).1 ≠ panicked ↔
      op.Fits env (s.db.cellAt db key) := by
  rw [callTyped, Ne, call_panics_iff, Op.run]
  by_cases hdb : db < s.db.dbs.length
  · rw [KeyOp.run_cellAt _ env key hdb]
    exact (not_congr (op.onCell_panics_iff env (hs.cellAt db key))).trans not_not
  · rw [KeyOp.run_no_db _ env key hdb, Database.cellAt_of_no_db hdb]
    exact ⟨fun _ => habsent, fun _ => by simp [err, panicked]⟩

theorem callTyped_returns (hs : s.db.Sound RudisObject.Coupled) (env : Env) (db : Nat)
    (key : String) {op : TypedOp α} (f : α → Frame) (hfits : ∀ c, op.Fits env c) :
    ((callTyped env db key op f).run ServerCall.exec s).1 ≠ panicked :=
  (callTyped_panics_iff hs env db key f (hfits .absent)).mpr (hfits _)

theorem call_returns {env : Env} {op : Op α} (f : α → Frame)
    (h : Returns (fun _ => True) Fault.Reported (op.run env s.db).1) :
    ((call env op f).run ServerCall.exec s).1 ≠ panicked := by
  rw [Ne, call_panics_iff]
  exact ne_panicked h

theorem withBounds_returns (first second : String)
    {k : ScoreBound → ScoreBound → CmdM (Outcome Frame)}
    (h : ∀ a b, ((k a b).run ServerCall.exec s).1 ≠ panicked) :
    ((withBounds first second k).run ServerCall.exec s).1 ≠ panicked := by
  have hfirst := scoreBoundParse_returns first
  have hsecond := scoreBoundParse_returns second
  have hrefused : ∀ {e : Fault}, e.Reported → reply id (.error e) ≠ panicked := by
    intro e he hpanics
    have herror : Returns (fun _ : Frame => True) Fault.Reported (.error e) := he
    exact ne_panicked herror ((reply_panics_iff id _).mp hpanics)
  unfold withBounds
  split
  · rename_i e hparse
    exact hrefused (hfirst.error hparse)
  · rename_i e _ hparse
    exact hrefused (hsecond.error hparse)
  · exact h _ _

/-! ## The commands -/

variable (hs : s.db.Sound RudisObject.Coupled) (os : String) (env : Env) (db : Nat)
  (last : Command → CmdM (Outcome Frame))
include hs

theorem executeOn_panics_iff {cmd : Command} (hcmd : cmd.onElements = true) :
    ((executeOn os env db last cmd).run ServerCall.exec s).1 ≠ panicked ↔ cmd.Fits env db s.db := by
  cases cmd with
  | getRange key | lPush key | rPush key | lPushX key | rPushX key | lLen key | lRange key
  | lIndex key | lSet key | lInsert key | lRem key | lTrim key =>
      exact iff_of_true (callTyped_returns hs env db key _ fun _ => trivial) trivial
  | sAdd key | sRem key | sMembers key | sIsMember key | sMIsMember key | sCard key =>
      exact iff_of_true (callTyped_returns hs env db key _ fun _ => trivial) trivial
  | zAdd args =>
      exact iff_of_true (callTyped_returns hs env db args.key _ fun _ => trivial) trivial
  | zRem key | zScore key | zMScore key | zIncrBy key | zRank key | zRevRank key | zCard key
  | zRange key | zRevRange key | zRemRangeByRank key | zPopMin key | zPopMax key =>
      exact iff_of_true (callTyped_returns hs env db key _ fun _ => trivial) trivial
  | zCount key min max | zRemRangeByScore key min max =>
      refine iff_of_true (withBounds_returns min max fun a b => ?_) trivial
      exact callTyped_returns hs env db key _ fun _ => trivial
  | zRangeByScore args =>
      refine iff_of_true (withBounds_returns args.min args.max fun a b => ?_) trivial
      exact callTyped_returns hs env db args.key _ fun _ => trivial
  | zRevRangeByScore args =>
      refine iff_of_true (withBounds_returns args.max args.min fun a b => ?_) trivial
      exact callTyped_returns hs env db args.key _ fun _ => trivial
  | lPop key count | rPop key count | sPop key count =>
      exact callTyped_panics_iff hs env db key _ fun _ h => absurd h (Option.some_ne_none _).symm
  | sRandMember key count =>
      have hvisible : s.db.visible env.now db key = (s.db.cellAt db key).live env.now := by
        rw [Database.visible, Database.cellAt]
        cases s.db.dbs[db]? with
        | none => rfl
        | some ldb => exact ldb.get_eq env.now key
      rw [Command.Fits, hvisible]
      exact callTyped_panics_iff hs env db key _ fun _ h => absurd h (Option.some_ne_none _).symm
  | lMove src dst srcLeft dstLeft =>
      exact iff_of_true (call_returns _ (s.db.lmove_returns env.now db src dst srcLeft dstLeft)) trivial
  | sMove src dst member =>
      exact iff_of_true (call_returns _ (s.db.smove_returns env.now db src dst member)) trivial
  | sUnion keys => exact iff_of_true (call_returns _ (s.db.sunion_returns env.now db keys)) trivial
  | sInter keys => exact iff_of_true (call_returns _ (s.db.sinter_returns env.now db keys)) trivial
  | sDiff keys => exact iff_of_true (call_returns _ (s.db.sdiff_returns env.now db keys)) trivial
  | sUnionStore dst keys =>
      exact iff_of_true
        (call_returns _ (s.db.storeSet_returns db dst (s.db.sunion_returns env.now db keys)))
        trivial
  | sInterStore dst keys =>
      exact iff_of_true
        (call_returns _ (s.db.storeSet_returns db dst (s.db.sinter_returns env.now db keys)))
        trivial
  | sDiffStore dst keys =>
      exact iff_of_true
        (call_returns _ (s.db.storeSet_returns db dst (s.db.sdiff_returns env.now db keys)))
        trivial
  | _ => exact absurd hcmd Bool.false_ne_true

end Cmd

/-! ## Runs -/

namespace ServerCall

theorem exec_coupled (β : Type) (call : ServerCall β) (s : Server)
    (hs : s.db.Sound RudisObject.Coupled) : (exec β call s).2.db.Sound RudisObject.Coupled := by
  cases call with
  | db env op => exact op.run_sound lax_coupled hs (op.keeps_coupled env s.db)
  | cacheGet | cacheInsert | cacheClear => exact hs

end ServerCall

namespace Host

variable (host : Host)

theorem runEvents_coupled (depth dbCount : Nat) (events : List Event) :
    (host.runEvents depth (.new dbCount) events).db.Sound RudisObject.Coupled :=
  host.runEvents_keeps (P := fun _ _ _ => True) (I := fun s => s.db.Sound RudisObject.Coupled)
    (fun β call s hs _ _ => call.exec_coupled β s hs) events (Database.new_sound dbCount)
    (host.eachCall_of_forall depth (fun _ _ _ => trivial) events _)

/-- **Panics of commands on elements.**  In every state of a run, such a command panics only
if what it reserves by its count cannot be reserved. -/
theorem execute_panics_iff (depth dbCount : Nat) (events : List Event) (env : Env) (db : Nat)
    {cmd : Command} (hcmd : cmd.onElements = true) :
    let s := host.runEvents depth (.new dbCount) events
    ((host.execute depth env db cmd).run ServerCall.exec s).1.1 ≠ panicked ↔
      cmd.Fits env db s.db := by
  intro s
  have hselect : ∀ idx, cmd ≠ .select idx := by
    rintro idx rfl
    exact absurd hcmd nofun
  rw [host.execute_run depth env db hselect]
  exact Cmd.executeOn_panics_iff (host.runEvents_coupled depth dbCount events) host.os env db _ hcmd

theorem execute_panics_sample :
    ((Host.plain.execute 0 (.at 0) 0 (.lPop "k" 1)).run ServerCall.exec
      (Host.plain.runEvents 0 (.new 1) [.ofText ["RPUSH", "k", "a"]])).1.1 ≠ panicked := by
  have hcmd : (Command.lPop "k" 1).onElements = true := rfl
  apply (Host.plain.execute_panics_iff 0 1 [.ofText ["RPUSH", "k", "a"]] (.at 0) 0 hcmd).mpr
  intro l _
  show CapacityOk Deque.elemSize 1
  decide +kernel

/-- `LPOP k 9223372036854775807` reserves that many places before it looks at the length. -/
theorem lpop_panics :
    ¬ ∀ (host : Host) (depth dbCount : Nat) (events : List Event) (env : Env) (db : Nat)
      (args : List Bytes) (cmd : Command),
      Cmd.parse env args = .ok cmd → cmd.onElements = true →
      ((host.execute depth env db cmd).run ServerCall.exec
        (host.runEvents depth (.new dbCount) events)).1.1 ≠ panicked := by
  intro hclaim
  have hparse : Cmd.parse (.at 0) (["LPOP", "k", "9223372036854775807"].map asBytes) =
      .ok (.lPop "k" 9223372036854775807) := by
    with_unfolding_all rfl
  have hreturns := hclaim .plain 0 1 [.ofText ["RPUSH", "k", "a"]] (.at 0) 0 _ _ hparse rfl
  have hselect : ∀ idx, Command.lPop "k" 9223372036854775807 ≠ .select idx := fun _ => nofun
  rw [execute_run _ _ _ _ hselect] at hreturns
  have hfits := (Cmd.executeOn_panics_iff (plain.runEvents_coupled 0 1 _) _ _ _ _ rfl).mp hreturns
  exact absurd (hfits [asBytes "a"] (by rfl)) (by decide +kernel)

end Host

end MiniRudis
