import MiniRudis.Server.Expiry
import MiniRudis.Server.Frames

/-!
# Lifetimes

A string that a request gives a time to live is read until its deadline and not from then on,
whatever is done to other keys and however often the sweeps come.
-/

namespace MiniRudis

open Lib

namespace ExpiryForm

variable {unit : TimeUnit} {n : Int} {now : Instant}

/-- The request writes the string, so that it does not matter what the key holds. -/
def isWrite : ExpiryForm → Bool
  | set .. | setex _ => true
  | getex _ | expire _ => false

def value (old : Bytes) : ExpiryForm → Bytes
  | set value _ | setex value => value
  | getex _ | expire _ => old

theorem onCell_value (form : ExpiryForm) {c : Cell} {old : Bytes} (hn : 0 < n) (hrange : InI64 n)
    (hheld : form.isGetex = true → n * unit.inMillis ≤ i64Max)
    (hclock : (now + n * unit.nanos).toNat < clockEnd)
    (hold : form.isWrite = true ∨ c.obj = some (.str old)) :
    form.onCell unit n now c =
      (.ok true, ⟨some (.str (form.value old)), some (now + n * unit.nanos)⟩) := by
  have hcast : now + (n.toNat * unit.nanos : Nat) = now + n * unit.nanos := by
    rw [Int.natCast_mul, Int.toNat_of_nonneg (Int.le_of_lt hn)]
  have hbase : (form.base c).obj = some (.str (form.value old)) := by
    cases form with
    | set | setex => rfl
    | getex | expire => exact hold.resolve_left Bool.false_ne_true
  have hsome : (form.base c).obj.isSome := by
    rw [hbase]
    rfl
  rw [onCell_eq hn hrange hheld, Cell.setExpiry_ok hsome (by rwa [hcast]), hcast, hbase]

end ExpiryForm

namespace Host

variable (host : Host) (depth : Nat) {env : Env} {db : Nat} {s : Server} {form : ExpiryForm}
  {unit : TimeUnit} {name key amount old : Bytes} {n : Int}

theorem next_written (hspelled : form.Spelled unit env name)
    (hamount : Cmd.amountOf amount = some n) (hn : 0 < n) (hdb : db < s.db.dbs.length)
    (hwrite : form.isWrite = true) :
    host.next depth s (.request env db (name :: form.args key amount)) =
      { s with
        db := s.db.putCell db (fromUtf8Lossy key)
          (form.onCell unit n env.now (s.db.cellAt db (fromUtf8Lossy key))).2 } := by
  have hparse : Cmd.parse env (name :: form.args key amount) = _ :=
    Cmd.parse_expiry hspelled hamount
  rw [Cmd.parsedAs_accepted fun _ => hn] at hparse
  cases form with
  | getex | expire => exact absurd hwrite Bool.false_ne_true
  | set value opt =>
      have ha : SetArgs.Parsed
          ⟨fromUtf8Lossy key, value, some (unit.duration n), false, false, false, false⟩ := by
        refine ⟨by simp, fun d hd => ?_⟩
        obtain rfl := Option.some.inj hd
        exact unit.duration_lt (Cmd.inI64_of_amountOf hamount) (Int.le_of_lt hn)
      have hwrites : SetArgs.WritesAt
          ⟨fromUtf8Lossy key, value, some (unit.duration n), false, false, false, false⟩ env db s.db :=
        ⟨hdb, Or.inl ⟨rfl, rfl⟩, by simp⟩
      obtain ⟨old', -, hrun⟩ := Cmd.execSet_writes ha hwrites
      rw [host.next_set depth hparse, hrun]
      rfl
  | setex value =>
      have hexec : ∀ last, Cmd.executeOn host.os env db last
          ((ExpiryForm.setex value).command unit (fromUtf8Lossy key) n) =
          Cmd.call env (.onKey db (fromUtf8Lossy key) (.set value (some (unit.duration n))))
            Cmd.okFrame := by
        cases unit <;> exact fun last => rfl
      have hrun := host.respond_onKey depth env hparse (ExpiryForm.command_ne_quit _ _ _ _)
        (ExpiryForm.command_ne_select _ _ _ _) hexec hdb
      rw [next, handle, Program.run_map, hrun]
      rfl

theorem next_timed (hspelled : form.Spelled unit env name)
    (hamount : Cmd.amountOf amount = some n) (hn : 0 < n)
    (hheld : form.isGetex = true → n * unit.inMillis ≤ i64Max)
    (hclock : (env.now + n * unit.nanos).toNat < clockEnd) (hdb : db < s.db.dbs.length)
    (hold : form.isWrite = true ∨
      (s.db.cellAt db (fromUtf8Lossy key)).live env.now = some (.str old)) :
    (host.next depth s (.request env db (name :: form.args key amount))).db =
      s.db.putCell db (fromUtf8Lossy key)
        ⟨some (.str (form.value old)), some (env.now + n * unit.nanos)⟩ := by
  have hrange := Cmd.inI64_of_amountOf hamount
  cases hwrite : form.isWrite with
  | true =>
      rw [host.next_written depth hspelled hamount hn hdb hwrite,
        form.onCell_value hn hrange hheld hclock (Or.inl hwrite)]
  | false =>
      have hlive := hold.resolve_left (by rw [hwrite]; exact Bool.false_ne_true)
      have hrun := host.respond_accepted depth hspelled hamount (fun _ => hn) hlive
      rw [form.onCell_value hn hrange hheld hclock (Or.inr (Cell.live_eq_some hlive).2)] at hrun
      rw [next, handle, Program.run_map, hrun]

/-- **A time to live is kept to.**  Once a request has given a string `n` units, `GET` replies
the string at every instant before the deadline and nothing at every later one, if no call in
between writes the key. -/
theorem lives_until (old : Bytes) (hspelled : form.Spelled unit env name)
    (hamount : Cmd.amountOf amount = some n) (hn : 0 < n)
    (hheld : form.isGetex = true → n * unit.inMillis ≤ i64Max)
    (hclock : (env.now + n * unit.nanos).toNat < clockEnd) (hdb : db < s.db.dbs.length)
    (hold : form.isWrite = true ∨
      (s.db.cellAt db (fromUtf8Lossy key)).live env.now = some (.str old))
    {events : List Event} {env' : Env}
    (hleaves : host.EachCall depth (ServerCall.Leaves db (fromUtf8Lossy key) env'.now) events
      (host.next depth s (.request env db (name :: form.args key amount)))) :
    ((host.respond depth env' db [asBytes "GET", key]).run ServerCall.exec
        (host.runEvents depth s
          (.request env db (name :: form.args key amount) :: events))).1.1 =
      .ok (if env'.now < env.now + n * unit.nanos then .bulk (form.value old) else .null) := by
  have htimed := host.next_timed depth hspelled hamount hn hheld hclock hdb hold
  obtain ⟨hcell, hlength⟩ := host.runEvents_leaves depth hleaves
  have hrun : host.runEvents depth s
      (.request env db (name :: form.args key amount) :: events) =
      host.runEvents depth (host.next depth s (.request env db (name :: form.args key amount)))
        events := rfl
  rw [hrun]
  generalize host.next depth s (.request env db (name :: form.args key amount)) = s₁ at *
  generalize host.runEvents depth s₁ events = s₂ at *
  have hdb₂ : db < s₂.db.dbs.length := by
    rw [hlength, htimed, Database.length_putCell]
    exact hdb
  rw [htimed, Database.cellAt_putCell hdb] at hcell
  have hget := host.respond_onKey depth env' (Cmd.parse_get env' key) (by simp) (by simp)
    (fun _ => rfl) hdb₂
  rw [hget, Cmd.onCell_get, ← Cell.live_of_purge_eq hcell.purge_eq, goOn_fst, Cell.live,
    Cell.expired]
  by_cases hbefore : env'.now < env.now + n * unit.nanos
  · rw [if_pos hbefore, if_neg (by simpa using hbefore)]
    rfl
  · rw [if_neg hbefore, if_pos (by simpa using hbefore)]
    rfl

theorem lives_until_setex :
    ((plain.respond 0 (.at 12) 0 [asBytes "GET", asBytes "k"]).run ServerCall.exec
        (plain.runEvents 0 (.new 1)
          (.request (.at 0) 0 (asBytes "SETEX" ::
            (ExpiryForm.setex (asBytes "v")).args (asBytes "k") (asBytes "100")) :: elsewhere))).1.1 =
      .ok (if (Env.at 12).now < (Env.at 0).now + 100 * TimeUnit.secs.nanos then .bulk (asBytes "v")
        else .null) := by
  have hspelled : (ExpiryForm.setex (asBytes "v")).Spelled .secs (.at 0) (asBytes "SETEX") :=
    ⟨by decide +kernel, trivial⟩
  exact plain.lives_until 0 [] hspelled (by decide +kernel) (by decide)
    (fun hgetex => absurd hgetex (by decide)) (by decide) (by decide +kernel) (Or.inl rfl)
    (elsewhere_leaves _)

end Host

end MiniRudis
