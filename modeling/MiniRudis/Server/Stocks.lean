import MiniRudis.Db.Stocks
import MiniRudis.Server.Histories

/-!
# Elements are neither lost nor doubled

Producers push onto some lists, workers move elements between them and pop or remove them, all
at once.  What is in the lists is what was there, with what was put in and without what was
taken out.
-/

namespace MiniRudis

open Lib

namespace ServerCall

def flow (db : Nat) (keys : Finset String) :
    (β : Type) → ServerCall β → β → Option (Flow Bytes)
  | _, .db _ op, reply => some (op.flow db keys reply)
  | _, _, _ => none

/-- The call is made by the instant, and writes the keys only to push, insert, pop, remove or
move elements. -/
def TradesIn (db : Nat) (keys : Finset String) (until_ : Instant) :
    (β : Type) → ServerCall β → Server → Prop
  | _, .db env op, _ => env.now ≤ until_ ∧ op.TradesIn db keys
  | _, _, _ => True

end ServerCall

/-- Behind the flows that were seen, each value is in the lists as often as they tell. -/
structure StockedFrom (db : Nat) (keys : Finset String) (until_ : Instant) (first : Bytes → Nat)
    (flows : List (Flow Bytes)) (s : Server) : Prop where
  holds : s.db.HoldsLists db keys until_
  balance : ∀ v, s.db.stock db keys v + Flow.takenOut v flows = first v + Flow.putIn v flows

section
variable {db : Nat} {keys : Finset String} {until_ : Instant} {first : Bytes → Nat}

theorem StockedFrom.exec (β : Type) (call : ServerCall β) (s : Server) (flows : List (Flow Bytes))
    (h : StockedFrom db keys until_ first flows s)
    (hcall : ServerCall.TradesIn db keys until_ β call s) :
    StockedFrom db keys until_ first
      (flows ++ (ServerCall.flow db keys β call (ServerCall.exec β call s).1).toList)
      (ServerCall.exec β call s).2 := by
  cases call with
  | db env op =>
      obtain ⟨hle, hop⟩ := hcall
      obtain ⟨hholds, htrade⟩ := op.run_trades h.holds hle hop
      refine ⟨hholds, fun v => ?_⟩
      have hbefore := h.balance v
      have hstep := htrade v
      simp only [ServerCall.flow, ServerCall.exec, Option.toList_some, Flow.takenOut_concat,
        Flow.putIn_concat]
      omega
  | cacheGet | cacheInsert | cacheClear =>
      exact (List.append_nil flows).symm ▸ ⟨h.holds, h.balance⟩

end

namespace Host

/-- **Elements are neither lost nor doubled.**  In a run of requests of any connections, of
their scripts and of sweeps, whose calls write the keys only to push, insert, pop, remove or
move elements, before any of the keys expires, each value is in the lists at the end as often
as at the start, with the times that it was put in and without the times that it was taken
out; and each key still holds a list or none. -/
theorem elements_conserved (host : Host) (depth : Nat) {db : Nat} {keys : Finset String}
    {until_ : Instant} {s : Server} {events : List Event}
    (h : s.db.HoldsLists db keys until_)
    (hcalls : host.EachCall depth (ServerCall.TradesIn db keys until_) events s) :
    (∀ v, (host.runEvents depth s events).db.stock db keys v +
          Flow.takenOut v (host.observed depth (ServerCall.flow db keys) events s) =
        s.db.stock db keys v +
          Flow.putIn v (host.observed depth (ServerCall.flow db keys) events s)) ∧
      (host.runEvents depth s events).db.HoldsLists db keys until_ := by
  have hstart : StockedFrom db keys until_ (s.db.stock db keys) [] s := ⟨h, fun v => rfl⟩
  have hend := host.observed_keeps depth
    (fun β call t flows ht _ hcall => StockedFrom.exec β call t flows ht hcall) hstart hcalls
  exact ⟨hend.balance, hend.holds⟩

/-- An element that is pushed, moved on and popped, and a sweep. -/
def working : List Event :=
  [.request (.at 0) 0 [asBytes "LPUSH", asBytes "k", asBytes "v"],
    .request (.at 3) 0 [asBytes "LMOVE", asBytes "k", asBytes "m", asBytes "RIGHT", asBytes "LEFT"],
    .request (.at 4) 0 [asBytes "RPOP", asBytes "m"], .sweep (.at 5)]

theorem parse_lpush (env : Env) (k v : Bytes) :
    Cmd.parse env [asBytes "LPUSH", k, v] = .ok (.lPush (fromUtf8Lossy k) [v]) :=
  Cmd.parse_text env "LPUSH" (fun rest => Cmd.parsePush rest true false) rfl [k, v]

theorem parse_rpop (env : Env) (k : Bytes) :
    Cmd.parse env [asBytes "RPOP", k] = .ok (.rPop (fromUtf8Lossy k) 1) :=
  Cmd.parse_text env "RPOP" (fun rest => Cmd.parsePop rest false) rfl [k]

theorem parse_lmove (env : Env) (k m : Bytes) :
    Cmd.parse env [asBytes "LMOVE", k, m, asBytes "RIGHT", asBytes "LEFT"] =
      .ok (.lMove (fromUtf8Lossy k) (fromUtf8Lossy m) false true) := by
  have hright : Cmd.parseLeft env (asBytes "RIGHT") = .ok false := by
    rw [Cmd.parseLeft, Cmd.upperText, fromUtf8Lossy_asBytes]
    rfl
  have hleft : Cmd.parseLeft env (asBytes "LEFT") = .ok true := by
    rw [Cmd.parseLeft, Cmd.upperText, fromUtf8Lossy_asBytes]
    rfl
  have hargs : Cmd.parseLmove env [k, m, asBytes "RIGHT", asBytes "LEFT"] = do
      let srcLeft ← Cmd.parseLeft env (asBytes "RIGHT")
      let dstLeft ← Cmd.parseLeft env (asBytes "LEFT")
      return .lMove (fromUtf8Lossy k) (fromUtf8Lossy m) srcLeft dstLeft := rfl
  rw [Cmd.parse_text env "LMOVE" (Cmd.parseLmove env) rfl, hargs, hright, hleft]
  rfl

def workKeys : Finset String := {fromUtf8Lossy (asBytes "k"), fromUtf8Lossy (asBytes "m")}

theorem working_tradesIn (s : Server) :
    plain.EachCall 0 (ServerCall.TradesIn 0 workKeys 10) working s := by
  refine ⟨(Program.allCalls_map _ _ _).mpr ?_, (Program.allCalls_map _ _ _).mpr ?_,
    (Program.allCalls_map _ _ _).mpr ?_, ?_, trivial⟩
  · unfold respond
    rw [parse_lpush]
    exact ⟨⟨by decide, fun _ _ => Or.inl rfl⟩, trivial⟩
  · unfold respond
    rw [parse_lmove]
    exact ⟨⟨by decide, fun _ => by simp [workKeys]⟩, trivial⟩
  · unfold respond
    rw [parse_rpop]
    exact ⟨⟨by decide, fun _ _ => Or.inl rfl⟩, trivial⟩
  · exact ⟨⟨by decide, fun _ _ h => h.elim⟩, trivial⟩

theorem elements_conserved_moved :
    (∀ v, (plain.runEvents 0 (.new 1) working).db.stock 0 workKeys v +
          Flow.takenOut v (plain.observed 0 (ServerCall.flow 0 workKeys) working (.new 1)) =
        (Server.new 1).db.stock 0 workKeys v +
          Flow.putIn v (plain.observed 0 (ServerCall.flow 0 workKeys) working (.new 1))) ∧
      (plain.runEvents 0 (.new 1) working).db.HoldsLists 0 workKeys 10 := by
  have hcell : ∀ key, (Server.new 1).db.cellAt 0 key = .absent := fun key =>
    (Database.cellAt_eq rfl key).trans (LogicalDb.cell_empty key)
  refine plain.elements_conserved 0 ⟨by decide +kernel, fun key _ => ⟨[], ?_⟩⟩
    (working_tradesIn _)
  rw [hcell]
  exact Cell.Lists.absent 10

end Host

end MiniRudis
