import MiniRudis.Cmd.Expiry
import MiniRudis.Db.Counters
import MiniRudis.Server.Keys

/-!
# `DECRBY`

The command negates its amount by itself, and leaves it to `str_incr` to add it and to
check the range.  So it takes its amount off, except for the one amount whose negation is
no `i64`.
-/

namespace MiniRudis

open Lib

namespace Cmd

variable {env : Env} {name key amount : Bytes} {d : Int}

theorem parse_incrby (hname : commandName env name = "INCRBY") (hamount : amountOf amount = some d) :
    parse env [name, key, amount] = .ok (.incrBy (fromUtf8Lossy key) d) := by
  have hrest : parse env [name, key, amount] = parseIncrby [key, amount] := by
    rw [parse, hname]
    rfl
  rw [hrest]
  show (parseI64 amount "INCRBY" >>= fun n => return Command.incrBy (fromUtf8Lossy key) n) = _
  rw [parseI64_of_amountOf hamount]
  rfl

theorem parse_decrby (hname : commandName env name = "DECRBY") (hamount : amountOf amount = some d) :
    parse env [name, key, amount] = .ok (.decrBy (fromUtf8Lossy key) d) := by
  have hrest : parse env [name, key, amount] = parseDecrby [key, amount] := by
    rw [parse, hname]
    rfl
  rw [hrest]
  show (parseI64 amount "DECRBY" >>= fun n => return Command.decrBy (fromUtf8Lossy key) n) = _
  rw [parseI64_of_amountOf hamount]
  rfl

end Cmd

def Server.putNumber (s : Server) (db : Nat) (key : String) (n : Int) : Server :=
  { s with
    db := s.db.putCell db key (Counter.string.write (s.db.cellAt db key) (Str.digits n)) }

/-- The sum `n` is replied and stored, or refused without a trace. -/
def SumLaw (db : Nat) (key : String) (n : Int) (before : Server)
    (run : (Outcome Frame × Option Nat) × Server) : Prop :=
  if InI64 n then run = ((.ok (.integer n), some db), before.putNumber db key n)
  else
    run = ((.ok (.fromError (.generic "ERR increment or decrement would overflow")), some db),
      before)

section
variable {db : Nat} {key : String} {n m : Int} {s : Server}

theorem not_sumLaw_panicked : ¬ SumLaw db key n s ((panicked, none), s) := by
  rw [SumLaw]
  split
  · exact fun h => absurd (congrArg (·.1.1) h) (by simp [panicked])
  · exact fun h => absurd (congrArg (·.1.1) h) (by simp [panicked])

theorem SumLaw.eq {run : (Outcome Frame × Option Nat) × Server}
    (h : SumLaw db key n s run) (h' : SumLaw db key m s run) (hn : InI64 n) : m = n := by
  rw [SumLaw, if_pos hn] at h
  rw [SumLaw, h] at h'
  split at h'
  · simpa [eq_comm] using congrArg (·.1.1) h'
  · exact absurd (congrArg (·.1.1) h') (by simp [Frame.fromError])

end

theorem Counter.inI64_of_number {place : Counter} {c : Cell} {n : Int}
    (h : place.number c = some n) : InI64 n := by
  obtain ⟨text, -, hparse⟩ := stored_of_number h
  obtain ⟨s, -, hn⟩ := Option.bind_eq_some_iff.mp hparse
  exact Cmd.parseTrimmedI64_inI64 hn

namespace Host

variable (host : Host) (depth : Nat) {env : Env} {db : Nat} {s : Server}
  {name key amount : Bytes} {n d : Int}

theorem respond_strIncr {args : List Bytes} {cmd : Command} {key : String}
    (hparse : Cmd.parse env args = .ok cmd) (hquit : cmd ≠ .quit)
    (hselect : ∀ idx, cmd ≠ .select idx)
    (hexec : ∀ last, Cmd.executeOn host.os env db last cmd =
      Cmd.callTyped env db key (.incr d) .integer)
    (hdb : db < s.db.dbs.length) (hn : Counter.string.number (s.db.cellAt db key) = some n)
    (hd : InI64 d) :
    SumLaw db key (n + d) s ((host.respond depth env db args).run ServerCall.exec s) := by
  have hcell : (KeyOp.typed (.incr d)).onCell env (s.db.cellAt db key) =
      (Counter.string.access d).onCell env.now (s.db.cellAt db key) := rfl
  rw [host.respond_onKey depth env hparse hquit hselect hexec hdb, hcell,
    Counter.onCell_number hn env.now hd, SumLaw]
  by_cases hrange : InI64 (n + d)
  · rw [if_pos hrange, if_pos hrange]
    rfl
  · rw [if_neg hrange, if_neg hrange]
    dsimp only
    rw [Database.putCell_cellAt]
    rfl

theorem respond_incrby (hname : Cmd.commandName env name = "INCRBY")
    (hamount : Cmd.amountOf amount = some d) (hdb : db < s.db.dbs.length)
    (hn : Counter.string.number (s.db.cellAt db (fromUtf8Lossy key)) = some n) :
    SumLaw db (fromUtf8Lossy key) (n + d) s
      ((host.respond depth env db [name, key, amount]).run ServerCall.exec s) :=
  host.respond_strIncr depth (Cmd.parse_incrby hname hamount) (by simp) (by simp) (fun _ => rfl)
    hdb hn (Cmd.inI64_of_amountOf hamount)

theorem respond_decrby {neg : Int} (hname : Cmd.commandName env name = "DECRBY")
    (hamount : Cmd.amountOf amount = some d)
    (hneg : arithI64 env.overflowChecks (-d) = .ok neg) (hdb : db < s.db.dbs.length)
    (hn : Counter.string.number (s.db.cellAt db (fromUtf8Lossy key)) = some n) :
    SumLaw db (fromUtf8Lossy key) (n + neg) s
      ((host.respond depth env db [name, key, amount]).run ServerCall.exec s) := by
  refine host.respond_strIncr depth (Cmd.parse_decrby hname hamount) (by simp) (by simp)
    (fun last => ?_) hdb hn (arithI64_inI64 hneg)
  unfold Cmd.executeOn Cmd.Strings.execute
  dsimp only
  rw [hneg]

theorem respond_decrby_panics (hname : Cmd.commandName env name = "DECRBY")
    (hamount : Cmd.amountOf amount = some d)
    (hneg : arithI64 env.overflowChecks (-d) = panicked) :
    (host.respond depth env db [name, key, amount]).run ServerCall.exec s =
      ((panicked, none), s) := by
  have hselect : ∀ idx, Command.decrBy (fromUtf8Lossy key) d ≠ .select idx := by simp
  rw [host.respond_run depth (Cmd.parse_decrby hname hamount) (by simp),
    host.execute_run depth env db hselect]
  have hexec : ∀ last, Cmd.executeOn host.os env db last (.decrBy (fromUtf8Lossy key) d) =
      return panicked := by
    intro last
    unfold Cmd.executeOn Cmd.Strings.execute
    dsimp only
    rw [hneg]
    rfl
  rw [hexec]
  rfl

/-- `DECRBY` takes its amount off, and takes back what `INCRBY` has added. -/
structure DecrbyLaw (env : Env) (db : Nat) (name key amount : Bytes) (n d : Int) (s : Server) :
    Prop where
  exact : SumLaw db (fromUtf8Lossy key) (n - d) s
    ((host.respond depth env db [name, key, amount]).run ServerCall.exec s)
  undoes : ∀ env' incr m after, Cmd.commandName env' incr = "INCRBY" →
    (host.respond depth env' db [incr, key, amount]).run ServerCall.exec s =
      ((.ok (.integer m), some db), after) →
    (host.respond depth env db [name, key, amount]).run ServerCall.exec after =
      ((.ok (.integer n), some db), s.putNumber db (fromUtf8Lossy key) n)

/-- The amount whose negation panics or comes back to itself. -/
theorem not_sumLaw_min (hname : Cmd.commandName env name = "DECRBY")
    (hamount : Cmd.amountOf amount = some i64Min) (hdb : db < s.db.dbs.length)
    (hn : Counter.string.number (s.db.cellAt db (fromUtf8Lossy key)) = some n) (hrange : InI64 n) :
    ¬ SumLaw db (fromUtf8Lossy key) (n - i64Min) s
      ((host.respond depth env db [name, key, amount]).run ServerCall.exec s) := by
  have hover : ¬ InI64 (-i64Min) := by decide
  intro hlaw
  cases hchecks : env.overflowChecks with
  | true =>
      have hneg : arithI64 env.overflowChecks (-i64Min) = panicked :=
        arithI64_panics_iff.mpr ⟨hchecks, hover⟩
      rw [host.respond_decrby_panics depth hname hamount hneg] at hlaw
      exact not_sumLaw_panicked hlaw
  | false =>
      have hwraps : asI64 (-i64Min) = i64Min := by decide +kernel
      have hneg : arithI64 env.overflowChecks (-i64Min) = .ok i64Min := by
        rw [arithI64, if_neg hover, hchecks, if_neg Bool.false_ne_true, hwraps]
      have hwrong := host.respond_decrby depth hname hamount hneg hdb hn
      unfold InI64 i64Max i64Min at hrange
      by_cases hnonneg : 0 ≤ n
      · have hsum : InI64 (n + i64Min) := by
          unfold InI64 i64Max i64Min
          omega
        have heq := hwrong.eq hlaw hsum
        unfold i64Min at heq
        omega
      · have hsum : InI64 (n - i64Min) := by
          unfold InI64 i64Max i64Min
          omega
        have heq := hlaw.eq hwrong hsum
        unfold i64Min at heq
        omega

theorem inI64_neg (hd : InI64 d) (hne : d ≠ i64Min) : InI64 (-d) := by
  unfold InI64 i64Max i64Min at *
  omega

theorem decrby_exact (hname : Cmd.commandName env name = "DECRBY")
    (hamount : Cmd.amountOf amount = some d) (hne : d ≠ i64Min) (hdb : db < s.db.dbs.length)
    (hn : Counter.string.number (s.db.cellAt db (fromUtf8Lossy key)) = some n) :
    SumLaw db (fromUtf8Lossy key) (n - d) s
      ((host.respond depth env db [name, key, amount]).run ServerCall.exec s) := by
  have hneg : arithI64 env.overflowChecks (-d) = .ok (-d) := by
    rw [arithI64, if_pos (inI64_neg (Cmd.inI64_of_amountOf hamount) hne)]
  exact host.respond_decrby depth hname hamount hneg hdb hn

theorem decrby_undoes (hname : Cmd.commandName env name = "DECRBY")
    (hamount : Cmd.amountOf amount = some d) (hne : d ≠ i64Min) (hdb : db < s.db.dbs.length)
    (hn : Counter.string.number (s.db.cellAt db (fromUtf8Lossy key)) = some n)
    {env' : Env} {incr : Bytes} {m : Int} {after : Server}
    (hincr : Cmd.commandName env' incr = "INCRBY")
    (hrun : (host.respond depth env' db [incr, key, amount]).run ServerCall.exec s =
      ((.ok (.integer m), some db), after)) :
    (host.respond depth env db [name, key, amount]).run ServerCall.exec after =
      ((.ok (.integer n), some db), s.putNumber db (fromUtf8Lossy key) n) := by
  have hadd := host.respond_incrby depth hincr hamount hdb hn
  rw [hrun, SumLaw] at hadd
  split at hadd
  · rename_i hrange
    obtain rfl := congrArg Prod.snd hadd
    have hcell : (s.putNumber db (fromUtf8Lossy key) (n + d)).db.cellAt db (fromUtf8Lossy key) =
        Counter.string.write (s.db.cellAt db (fromUtf8Lossy key)) (Str.digits (n + d)) :=
      Database.cellAt_putCell hdb _ _
    have hnumber : Counter.string.number
        ((s.putNumber db (fromUtf8Lossy key) (n + d)).db.cellAt db (fromUtf8Lossy key)) =
        some (n + d) := by
      rw [hcell]
      exact Str.integer_digits hrange
    have hback := host.decrby_exact depth hname hamount hne
      (s := s.putNumber db (fromUtf8Lossy key) (n + d)) (by simpa [Server.putNumber] using hdb)
      hnumber
    rw [SumLaw, add_sub_cancel_right, if_pos (Counter.inI64_of_number hn)] at hback
    rw [hback, Server.putNumber, hcell, Server.putNumber]
    dsimp only
    rw [Database.putCell_putCell]
    rfl
  · exact absurd (congrArg (·.1.1) hadd) (by simp [Frame.fromError])

/-- **`DECRBY` is subtraction**, in every build and on every integer, exactly if the amount
is not the least of all. -/
theorem decrby_law_iff (hname : Cmd.commandName env name = "DECRBY")
    (hamount : Cmd.amountOf amount = some d) (hdb : db < s.db.dbs.length)
    (hn : Counter.string.number (s.db.cellAt db (fromUtf8Lossy key)) = some n) :
    host.DecrbyLaw depth env db name key amount n d s ↔ d ≠ i64Min := by
  constructor
  · rintro hlaw rfl
    exact host.not_sumLaw_min depth hname hamount hdb hn (Counter.inI64_of_number hn) hlaw.exact
  · intro hne
    exact ⟨host.decrby_exact depth hname hamount hne hdb hn,
      fun _ _ _ _ hincr hrun => host.decrby_undoes depth hname hamount hne hdb hn hincr hrun⟩

theorem decrby_law_missing :
    plain.DecrbyLaw 0 (.at 0) 0 (asBytes "decrby") (asBytes "k") (asBytes "5") 0 5 (.new 1) ↔
      (5 : Int) ≠ i64Min :=
  plain.decrby_law_iff 0 (by decide +kernel) (by decide +kernel) (by decide +kernel)
    (by decide +kernel)

/-- `DECRBY k -9223372036854775808`. -/
theorem decrby_law_least_amount :
    ¬ ∀ (host : Host) (depth : Nat) (env : Env) (db : Nat) (s : Server) (name key amount : Bytes)
        (n d : Int), Cmd.commandName env name = "DECRBY" → Cmd.amountOf amount = some d →
      db < s.db.dbs.length →
      Counter.string.number (s.db.cellAt db (fromUtf8Lossy key)) = some n →
      host.DecrbyLaw depth env db name key amount n d s := by
  intro hclaim
  have hname : Cmd.commandName (.at 0) (asBytes "DECRBY") = "DECRBY" := by decide +kernel
  have hamount : Cmd.amountOf (asBytes "-9223372036854775808") = some i64Min := by decide +kernel
  have hdb : 0 < (Server.new 1).db.dbs.length := by decide +kernel
  have hn : Counter.string.number ((Server.new 1).db.cellAt 0 (fromUtf8Lossy (asBytes "k"))) =
      some 0 := by decide +kernel
  exact plain.not_sumLaw_min 0 hname hamount hdb hn (by decide)
    (hclaim plain 0 (.at 0) 0 (.new 1) _ _ _ 0 i64Min hname hamount hdb hn).exact

end Host

end MiniRudis
