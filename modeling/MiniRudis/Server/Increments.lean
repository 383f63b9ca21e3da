import MiniRudis.Db.Counters
import MiniRudis.Server.Histories

/-!
# Counters that many connections share

The increments that connections and their scripts make of one counter are those of one
accumulator, in the order in which the calls are made.
-/

namespace MiniRudis

open Lib

variable {α : Type}

/-! ## Calls that increment -/

/-- The operation adds an `i64` to the counter. -/
def Op.Increments (db : Nat) (key : String) : Counter → Op α → Prop
  | .string, .onKey db' key' (.typed (.incr delta)) => db' = db ∧ key' = key ∧ InI64 delta
  | .field name, .onKey db' key' (.typed (.hincrby field delta)) =>
      db' = db ∧ key' = key ∧ field = name ∧ InI64 delta
  | _, _ => False

namespace ServerCall

/-- The call adds to the counter, or it does not write its key, and is made by the instant
`now`. -/
def Counts (place : Counter) (db : Nat) (key : String) (now : Instant) :
    (β : Type) → ServerCall β → Server → Prop
  | _, .db env op, _ => env.now ≤ now ∧ (op.Increments db key place ∨ ¬ op.Writes db key)
  | _, _, _ => True

def increment (db : Nat) (key : String) :
    Counter → (β : Type) → ServerCall β → β → Option (Int × Outcome Int)
  | .string, _, .db _ (.onKey db' key' (.typed (.incr delta))), reply =>
      if db' = db ∧ key' = key then some (delta, reply) else none
  | .field name, _, .db _ (.onKey db' key' (.typed (.hincrby field delta))), reply =>
      if db' = db ∧ key' = key ∧ field = name then some (delta, reply) else none
  | _, _, _, _ => none

theorem increment_unwritten {place : Counter} {db : Nat} {key : String} {env : Env} {op : Op α}
    (h : ¬ op.Writes db key) (reply : Outcome α) :
    increment db key place _ (.db env op) reply = none := by
  cases place with
  | string =>
      cases op with
      | onKey db' key' op =>
          cases op with
          | typed op =>
              cases op with
              | incr delta => exact if_neg fun hkey => h ⟨hkey.1, hkey.2, rfl⟩
              | _ => rfl
          | _ => rfl
      | _ => rfl
  | field name =>
      cases op with
      | onKey db' key' op =>
          cases op with
          | typed op =>
              cases op with
              | hincrby field delta => exact if_neg fun hkey => h ⟨hkey.1, hkey.2.1, rfl⟩
              | _ => rfl
          | _ => rfl
      | _ => rfl

theorem exec_increment {place : Counter} {db : Nat} {key : String} {env : Env} {op : Op α}
    (h : op.Increments db key place) (s : Server) :
    ∃ delta, InI64 delta ∧
      increment db key place _ (.db env op) (exec _ (.db env op) s).1 =
        some (delta, (place.incr s.db env.now db key delta).1) ∧
      (exec _ (.db env op) s).2 = { s with db := (place.incr s.db env.now db key delta).2 } := by
  cases place with
  | string =>
      cases op with
      | onKey db' key' op =>
          cases op with
          | typed op =>
              cases op with
              | incr delta =>
                  obtain ⟨rfl, rfl, hdelta⟩ := h
                  exact ⟨delta, hdelta, if_pos ⟨rfl, rfl⟩, rfl⟩
              | _ => exact h.elim
          | _ => exact h.elim
      | _ => exact h.elim
  | field name =>
      cases op with
      | onKey db' key' op =>
          cases op with
          | typed op =>
              cases op with
              | hincrby field delta =>
                  obtain ⟨rfl, rfl, rfl, hdelta⟩ := h
                  exact ⟨delta, hdelta, if_pos ⟨rfl, rfl, rfl⟩, rfl⟩
              | _ => exact h.elim
          | _ => exact h.elim
      | _ => exact h.elim

end ServerCall

/-! ## Single calls -/

namespace Counter

variable {place : Counter} {c : Cell}

@[simp] theorem deadline_write (place : Counter) (c : Cell) (v : Bytes) :
    (place.write c v).deadline = c.deadline := by
  cases place <;> rfl

theorem number_write {n m : Int} (h : place.number c = some n) (hm : InI64 m) :
    place.number (place.write c (Str.digits m)) = some m := by
  obtain ⟨text, htext, -⟩ := stored_of_number h
  rw [number, stored_write htext, Option.bind_some]
  exact Str.integer_digits hm

end Counter

/-- The counter behind the calls that were seen, on a key that lasts until `now`. -/
structure CountedFrom (place : Counter) (db : Nat) (key : String) (now : Instant) (n : Int)
    (seen : List (Int × Outcome Int)) (s : Server) : Prop where
  exists_db : db < s.db.dbs.length
  fresh : (s.db.cellAt db key).expired now = false
  replies : seen.map Prod.snd =
    (accumulate InI64 (seen.map Prod.fst) n).1.map Str.incrReply
  number : place.number (s.db.cellAt db key) = some (accumulate InI64 (seen.map Prod.fst) n).2

section
variable {place : Counter} {db : Nat} {key : String} {now : Instant} {n : Int}
  {seen : List (Int × Outcome Int)} {s : Server}

theorem CountedFrom.increment (h : CountedFrom place db key now n seen s) (time : Instant)
    {delta : Int} (hdelta : InI64 delta) :
    CountedFrom place db key now n (seen ++ [(delta, (place.incr s.db time db key delta).1)])
      { s with db := (place.incr s.db time db key delta).2 } := by
  have hrun := Counter.incr_number h.exists_db h.number time hdelta
  have hfst : (seen ++ [(delta, (place.incr s.db time db key delta).1)]).map Prod.fst =
      seen.map Prod.fst ++ [delta] := by
    rw [List.map_append]
    rfl
  have hsnd : (seen ++ [(delta, (place.incr s.db time db key delta).1)]).map Prod.snd =
      seen.map Prod.snd ++ [(place.incr s.db time db key delta).1] := by
    rw [List.map_append]
    rfl
  by_cases hrange : InI64 ((accumulate InI64 (seen.map Prod.fst) n).2 + delta)
  · rw [if_pos hrange] at hrun
    refine ⟨?_, ?_, ?_, ?_⟩
    · rw [hrun]
      simpa using h.exists_db
    · rw [hrun, Database.cellAt_putCell h.exists_db, Cell.expired, Counter.deadline_write]
      exact h.fresh
    · rw [hfst, hsnd, accumulate_concat, if_pos hrange, h.replies, hrun, List.map_append]
      rfl
    · rw [hfst, accumulate_concat, if_pos hrange, hrun, Database.cellAt_putCell h.exists_db]
      exact Counter.number_write h.number hrange
  · rw [if_neg hrange] at hrun
    refine ⟨?_, ?_, ?_, ?_⟩
    · rw [hrun]
      exact h.exists_db
    · rw [hrun]
      exact h.fresh
    · rw [hfst, hsnd, accumulate_concat, if_neg hrange, h.replies, hrun, List.map_append]
      rfl
    · rw [hfst, accumulate_concat, if_neg hrange, hrun]
      exact h.number

theorem CountedFrom.unwritten (h : CountedFrom place db key now n seen s) {op : Op α} {env : Env}
    (htime : env.now ≤ now) (hunwritten : ¬ op.Writes db key) :
    CountedFrom place db key now n seen { s with db := (op.run env s.db).2 } := by
  have hsame := ((op.run_unwritten env s.db hunwritten).later htime).eq_of_fresh h.fresh
  refine ⟨?_, ?_, h.replies, ?_⟩
  · rw [op.length_run]
    exact h.exists_db
  · rw [← hsame]
    exact h.fresh
  · rw [← hsame]
    exact h.number

theorem CountedFrom.exec (β : Type) (call : ServerCall β) (s : Server)
    (seen : List (Int × Outcome Int)) (h : CountedFrom place db key now n seen s)
    (hcall : ServerCall.Counts place db key now β call s) :
    CountedFrom place db key now n
      (seen ++ (ServerCall.increment db key place β call (ServerCall.exec β call s).1).toList)
      (ServerCall.exec β call s).2 := by
  cases call with
  | db env op =>
      obtain ⟨htime, hincrements | hunwritten⟩ := hcall
      · obtain ⟨delta, hdelta, hseen, hstate⟩ := ServerCall.exec_increment hincrements s
        rw [hseen, hstate]
        exact h.increment env.now hdelta
      · rw [ServerCall.increment_unwritten hunwritten, Option.toList_none, List.append_nil]
        exact h.unwritten htime hunwritten
  | cacheGet | cacheInsert | cacheClear =>
      cases place <;>
        exact (List.append_nil seen).symm ▸ ⟨h.exists_db, h.fresh, h.replies, h.number⟩

end

/-! ## Runs -/

def added (calls : List (Int × Outcome Int)) : List Int :=
  (calls.filter fun p => p.2.toBool).map Prod.fst

theorem added_eq_accepted {calls : List (Int × Outcome Int)} {sums : List (Option Int)}
    (h : calls.map Prod.snd = sums.map Str.incrReply) :
    added calls = accepted (calls.map Prod.fst) sums := by
  induction calls generalizing sums with
  | nil => rfl
  | cons p calls ih =>
      cases sums with
      | nil => exact absurd h (by simp)
      | cons sum sums =>
          obtain ⟨hreply, hrest⟩ := List.cons.inj h
          have hadded := ih hrest
          obtain ⟨delta, reply⟩ := p
          obtain rfl : reply = Str.incrReply sum := hreply
          cases sum with
          | none => exact hadded
          | some m => exact congrArg (List.cons delta) hadded

namespace Host

variable (host : Host) (depth : Nat)

def increments (place : Counter) (db : Nat) (key : String) : List Event → Server →
    List (Int × Outcome Int) :=
  host.observed depth (ServerCall.increment db key place)

/-- **Concurrent increments are exact.**  In a run of requests of any connections, of their
scripts and of sweeps, in which every call that writes the key adds to its counter, the calls
are answered as by one accumulator, and the counter ends as the sum of those that succeed. -/
theorem increments_exact {place : Counter} {db : Nat} {key : String} {now : Instant} {n : Int}
    {s : Server} {events : List Event} (hdb : db < s.db.dbs.length)
    (hfresh : (s.db.cellAt db key).expired now = false)
    (hholds : place.Holds (s.db.cellAt db key) n) (hn : InI64 n)
    (hcounts : host.EachCall depth (ServerCall.Counts place db key now) events s) :
    (host.increments depth place db key events s).map Prod.snd =
        (accumulate InI64 ((host.increments depth place db key events s).map Prod.fst) n).1.map
          Str.incrReply ∧
      place.number ((host.runEvents depth s events).db.cellAt db key) =
        some (n + (added (host.increments depth place db key events s)).sum) := by
  have hstart : CountedFrom place db key now n [] s :=
    ⟨hdb, hfresh, rfl, hholds.number hn⟩
  have hend := host.observed_keeps depth
    (fun β call t seen ht _ hcall => CountedFrom.exec β call t seen ht hcall) hstart hcounts
  rw [List.nil_append] at hend
  have hadded := added_eq_accepted hend.replies
  refine ⟨hend.replies, hend.number.trans ?_⟩
  rw [increments, hadded, ← accumulate_total]

def counting : List Event :=
  [.request (.at 0) 0 [asBytes "INCR", asBytes "k"],
    .request (.at 3) 0 [asBytes "SADD", asBytes "j", asBytes "m"],
    .request (.at 4) 0 [asBytes "INCR", asBytes "k"], .sweep (.at 11)]

theorem counting_counts (s : Server) :
    plain.EachCall 0 (ServerCall.Counts .string 0 "k" 11) counting s := by
  have hkey : fromUtf8Lossy (asBytes "k") = "k" := fromUtf8Lossy_asBytes "k"
  have hincr : ∀ env t, env.now ≤ 11 → (plain.handle 0
      (.request env 0 [asBytes "INCR", asBytes "k"])).AllCalls ServerCall.exec
        (ServerCall.Counts .string 0 "k" 11) t := by
    intro env t htime
    refine (Program.allCalls_map _ _ _).mpr ?_
    unfold respond
    rw [Cmd.parse_text env "INCR" (fun args => Cmd.parseIncr args "INCR") rfl]
    exact ⟨⟨htime, Or.inl ⟨rfl, hkey, by decide⟩⟩, trivial⟩
  have hsadd : ∀ t, (plain.handle 0
      (.request (.at 3) 0 [asBytes "SADD", asBytes "j", asBytes "m"])).AllCalls ServerCall.exec
        (ServerCall.Counts .string 0 "k" 11) t := by
    intro t
    refine (Program.allCalls_map _ _ _).mpr ?_
    unfold respond
    rw [Cmd.parse_sadd]
    refine ⟨⟨by decide, Or.inr fun hwrites => ?_⟩, trivial⟩
    have hother : fromUtf8Lossy (asBytes "j") = "k" := hwrites.2.1
    rw [fromUtf8Lossy_asBytes] at hother
    exact absurd hother (by decide)
  exact ⟨hincr _ _ (by decide), hsadd _, hincr _ _ (by decide),
    ⟨⟨by decide, Or.inr fun h => h.elim⟩, trivial⟩, trivial⟩

theorem increments_exact_two :
    (plain.increments 0 .string 0 "k" counting (.new 1)).map Prod.snd =
        (accumulate InI64 ((plain.increments 0 .string 0 "k" counting (.new 1)).map Prod.fst)
          0).1.map Str.incrReply ∧
      Counter.string.number ((plain.runEvents 0 (.new 1) counting).db.cellAt 0 "k") =
        some (0 + (added (plain.increments 0 .string 0 "k" counting (.new 1))).sum) :=
  plain.increments_exact 0 (by decide +kernel) (by decide +kernel)
    (Or.inl ⟨by decide +kernel, rfl⟩) (by decide) (counting_counts _)

end Host

end MiniRudis
