import MiniRudis.Db.Presence
import MiniRudis.Lib.Observe
import MiniRudis.Server.Frames

/-!
# Keys as sequential objects

To the operations that do not ask whether it is there, each key is one object of its type.
The calls of all connections and their scripts see it in turn, and nothing else touches it.
-/

namespace MiniRudis

open Lib

universe u

variable {α : Type}

/-! ## Observed runs -/

namespace Host

variable (host : Host) (depth : Nat)

def observed {γ : Type u} (see : (β : Type) → ServerCall β → β → Option γ) :
    List Event → Server → List γ
  | [], _ => []
  | event :: events, s =>
      (host.handle depth event).observe ServerCall.exec see s ++
        observed see events (host.next depth s event)

/-- What each call keeps of what was seen and of the server, a run keeps. -/
theorem observed_keeps {γ : Type u} {see : (β : Type) → ServerCall β → β → Option γ}
    {P : (β : Type) → ServerCall β → Server → Prop} {I : List γ → Server → Prop}
    (hkeeps : ∀ β (call : ServerCall β) s seen, I seen s → call.Full → P β call s →
      I (seen ++ (see β call (ServerCall.exec β call s).1).toList) (ServerCall.exec β call s).2)
    {events : List Event} {s : Server} {seen : List γ} (hs : I seen s)
    (hcalls : host.EachCall depth P events s) :
    I (seen ++ host.observed depth see events s) (host.runEvents depth s events) := by
  induction events generalizing s seen with
  | nil =>
      rw [observed, List.append_nil]
      exact hs
  | cons event events ih =>
      have hnext : I (seen ++ (host.handle depth event).observe ServerCall.exec see s)
          (host.next depth s event) :=
        (host.handle_full depth event).observe_keeps ServerCall.exec_answers hkeeps hs hcalls.1
      rw [observed, ← List.append_assoc]
      exact ih hnext hcalls.2

end Host

/-! ## Calls of one key -/

def Op.typedAt (db : Nat) (key : String) : Op α → Option (TypedOp α)
  | .onKey db' key' (.typed op) => if db' = db ∧ key' = key then some op else none
  | _ => none

theorem Op.typedAt_eq_some {db : Nat} {key : String} {op : Op α} {typed : TypedOp α}
    (h : op.typedAt db key = some typed) : op = .onKey db key (.typed typed) := by
  cases op with
  | onKey db' key' op =>
      cases op with
      | typed op =>
          obtain ⟨⟨rfl, rfl⟩, hsome⟩ := Option.ite_none_right_eq_some.mp h
          obtain rfl := Option.some.inj hsome
          rfl
      | _ => exact absurd h (by simp [typedAt])
  | _ => exact absurd h (by simp [typedAt])

/-- A typed operation, with what it reads from outside, and its reply. -/
structure Answered where
  α : Type
  env : Env
  op : TypedOp α
  reply : Outcome α

def Answered.Step (a : Answered) (o o' : RudisObject) : Prop :=
  (a.op.access a.env).onObject o = (a.reply, o')

namespace ServerCall

def answered (db : Nat) (key : String) : (β : Type) → ServerCall β → β → Option Answered
  | _, .db env op, reply => (op.typedAt db key).map fun typed => ⟨_, env, typed, reply⟩
  | _, _, _ => none

/-- The call is made by the instant `now`.  It is a typed operation on the key, of the type
and not one that asks whether the key is there, or does not write the key. -/
def UsesAs (type : String) (db : Nat) (key : String) (now : Instant) :
    (β : Type) → ServerCall β → Server → Prop
  | _, .db env op, _ =>
      env.now ≤ now ∧ (op.typedAt db key = none → ¬ op.Writes db key) ∧
        ∀ typed, op.typedAt db key = some typed → typed.valueType = type ∧ typed.TakesEmpty env
  | _, _, _ => True

theorem usesAs_typed {type : String} {db : Nat} {key : String} {now : Instant} {env : Env}
    {op : TypedOp α} (hname : op.valueType = type) (htime : env.now ≤ now)
    (htakes : op.TakesEmpty env) (s : Server) :
    UsesAs type db key now _ (.db env (.onKey db key (.typed op))) s := by
  have hsome : (Op.onKey db key (.typed op)).typedAt db key = some op := if_pos ⟨rfl, rfl⟩
  refine ⟨htime, ?_, ?_⟩
  · rw [hsome]
    exact fun hnone => absurd hnone (by simp)
  · intro typed htyped
    rw [hsome] at htyped
    obtain rfl := Option.some.inj htyped
    exact ⟨hname, htakes⟩

end ServerCall

/-! ## Runs -/

/-- Behind the calls that were seen, the key shows what the object has become. -/
structure ShownFrom (db : Nat) (key : String) (now : Instant) (o : RudisObject)
    (seen : List Answered) (s : Server) : Prop where
  exists_db : db < s.db.dbs.length
  fresh : (s.db.cellAt db key).expired now = false
  history : ∃ o', History Answered.Step seen o o' ∧ o'.typeName = o.typeName ∧
    (s.db.cellAt db key).Shows o'

section
variable {db : Nat} {key : String} {now : Instant} {o : RudisObject} {seen : List Answered}
  {s : Server}

theorem ShownFrom.step (h : ShownFrom db key now o seen s) {env : Env} {op : TypedOp α}
    (htime : env.now ≤ now) (hname : op.valueType = o.typeName) (htakes : op.TakesEmpty env) :
    ShownFrom db key now o (seen ++ [⟨α, env, op, (op.run env db key s.db).1⟩])
      { s with db := (op.run env db key s.db).2 } := by
  obtain ⟨o', hhistory, htype, hshows⟩ := h.history
  rw [op.run_eq, Database.access_cellAt h.exists_db]
  have hfresh := Cell.fresh_earlier htime h.fresh
  have hkind : (op.access env).kindName = o'.typeName := by
    rw [op.kindName_access, hname, htype]
  obtain ⟨hreply, hshown⟩ := (op.access env).onCell_shows hfresh hshows hkind
    (op.fromAbsent htakes (hname.trans htype.symm))
  refine ⟨?_, ?_, _, hhistory.concat (Prod.ext hreply.symm rfl), ?_, ?_⟩
  · simpa using h.exists_db
  · rw [Database.cellAt_putCell h.exists_db]
    exact (op.access env).onCell_fresh env.now h.fresh
  · exact ((op.access env).typeName_onObject hkind).trans htype
  · rw [Database.cellAt_putCell h.exists_db]
    exact hshown

theorem ShownFrom.unwritten (h : ShownFrom db key now o seen s) {op : Op α} {env : Env}
    (htime : env.now ≤ now) (hunwritten : ¬ op.Writes db key) :
    ShownFrom db key now o seen { s with db := (op.run env s.db).2 } := by
  have hsame := ((op.run_unwritten env s.db hunwritten).later htime).eq_of_fresh h.fresh
  refine ⟨?_, ?_, ?_⟩
  · rw [op.length_run]
    exact h.exists_db
  · rw [← hsame]
    exact h.fresh
  · rw [← hsame]
    exact h.history

theorem ShownFrom.exec (β : Type) (call : ServerCall β) (s : Server) (seen : List Answered)
    (h : ShownFrom db key now o seen s)
    (hcall : ServerCall.UsesAs o.typeName db key now β call s) :
    ShownFrom db key now o
      (seen ++ (ServerCall.answered db key β call (ServerCall.exec β call s).1).toList)
      (ServerCall.exec β call s).2 := by
  cases call with
  | db env op =>
      obtain ⟨htime, hunwritten, htyped⟩ := hcall
      cases hop : op.typedAt db key with
      | none =>
          rw [ServerCall.answered, hop, Option.map_none, Option.toList_none, List.append_nil]
          exact h.unwritten htime (hunwritten hop)
      | some typed =>
          obtain ⟨hname, htakes⟩ := htyped typed hop
          rw [ServerCall.answered, hop, Option.map_some]
          obtain rfl := Op.typedAt_eq_some hop
          exact h.step htime hname htakes
  | cacheGet | cacheInsert | cacheClear =>
      exact (List.append_nil seen).symm ▸ ⟨h.exists_db, h.fresh, h.history⟩

end

/-- **Each key is one sequential object.**  In a run of requests of any connections, of their
scripts and of sweeps, whose calls write the key only by typed operations of its type, before
its deadline, and none of which is a typed operation that asks whether the key is there, the
typed calls of the key and their replies are a history of one object, and the key ends by
showing it. -/
theorem Host.objects_sequential (host : Host) (depth : Nat) {db : Nat} {key : String}
    {now : Instant} {o : RudisObject} {s : Server} {events : List Event}
    (hdb : db < s.db.dbs.length) (hfresh : (s.db.cellAt db key).expired now = false)
    (hshows : (s.db.cellAt db key).Shows o)
    (hcalls : host.EachCall depth (ServerCall.UsesAs o.typeName db key now) events s) :
    ∃ o', History Answered.Step (host.observed depth (ServerCall.answered db key) events s) o o' ∧
      ((host.runEvents depth s events).db.cellAt db key).Shows o' := by
  have hstart : ShownFrom db key now o [] s := ⟨hdb, hfresh, o, .nil o, rfl, hshows⟩
  have hend := host.observed_keeps depth
    (fun β call t seen ht _ hcall => ShownFrom.exec β call t seen ht hcall) hstart hcalls
  obtain ⟨o', hhistory, -, hshown⟩ := hend.history
  exact ⟨o', hhistory, hshown⟩

namespace Host

/-- A member that is added, and removed with the key before it is asked for. -/
def sharing : List Event :=
  [.request (.at 0) 0 [asBytes "SADD", asBytes "k", asBytes "m"],
    .request (.at 2) 0 [asBytes "SREM", asBytes "k", asBytes "m"],
    .request (.at 3) 0 [asBytes "SISMEMBER", asBytes "k", asBytes "m"], .sweep (.at 11)]

theorem parse_srem (env : Env) (k m : Bytes) :
    Cmd.parse env [asBytes "SREM", k, m] = .ok (.sRem (fromUtf8Lossy k) [fromUtf8Lossy m]) :=
  Cmd.parse_text env "SREM" Cmd.parseSrem rfl [k, m]

theorem sharing_usesAs (s : Server) :
    plain.EachCall 0
      (ServerCall.UsesAs "set" 0 (fromUtf8Lossy (asBytes "k")) 11) sharing s := by
  refine ⟨(Program.allCalls_map _ _ _).mpr ?_, (Program.allCalls_map _ _ _).mpr ?_,
    (Program.allCalls_map _ _ _).mpr ?_, ?_, trivial⟩
  · unfold respond
    rw [Cmd.parse_sadd]
    refine ⟨ServerCall.usesAs_typed ?_ ?_ ?_ _, trivial⟩
    · rfl
    · decide
    · trivial
  · unfold respond
    rw [parse_srem]
    refine ⟨ServerCall.usesAs_typed ?_ ?_ ?_ _, trivial⟩
    · rfl
    · decide
    · trivial
  · unfold respond
    rw [Cmd.parse_sismember]
    refine ⟨ServerCall.usesAs_typed ?_ ?_ ?_ _, trivial⟩
    · rfl
    · decide
    · trivial
  · exact ⟨⟨by decide, fun _ h => h.elim, fun _ h => absurd h (by simp [Op.typedAt])⟩, trivial⟩

theorem objects_sequential_set :
    ∃ o', History Answered.Step (plain.observed 0
        (ServerCall.answered 0 (fromUtf8Lossy (asBytes "k"))) sharing (.new 1)) (.set ∅) o' ∧
      ((plain.runEvents 0 (.new 1) sharing).db.cellAt 0 (fromUtf8Lossy (asBytes "k"))).Shows o' :=
  plain.objects_sequential 0 (by decide +kernel) (by decide +kernel)
    (Or.inr ⟨by decide +kernel, rfl⟩) (sharing_usesAs _)

end Host

end MiniRudis
