import MiniRudis.Cmd.SetOptions
import MiniRudis.Server.Requests

/-!
# `SET` requests

When a `SET` writes, what deadline it leaves, and what it replies.
-/

namespace MiniRudis

open Lib

namespace Database

theorem visible_eq (self : Database) (now : Instant) (db : Nat) (key : String) :
    self.visible now db key = (self.cellAt db key).live now := by
  unfold visible cellAt
  cases self.dbs[db]? with
  | none => rfl
  | some ldb => exact ldb.get_eq now key

def deadline (self : Database) (now : Instant) (db : Nat) (key : String) : Option Instant :=
  if (self.visible now db key).isSome then (self.cellAt db key).deadline else none

end Database

def SetArgs.WritesAt (a : SetArgs) (env : Env) (db : Nat) (self : Database) : Prop :=
  db < self.dbs.length ∧ a.Writes (self.visible env.now db a.key)

instance (a : SetArgs) (env : Env) (db : Nat) (self : Database) :
    Decidable (a.WritesAt env db self) :=
  inferInstanceAs (Decidable (_ ∧ _))

namespace Host

variable (host : Host) (depth : Nat) {env : Env} {name : Bytes} {rest : List Bytes} {a : SetArgs}

theorem respond_set (hparse : Cmd.parse env (name :: rest) = .ok (.set a)) (db : Nat) (s : Server) :
    (host.respond depth env db (name :: rest)).run ServerCall.exec s =
      (goOn (((Cmd.execSet a env db).run ServerCall.exec s).1, db),
        ((Cmd.execSet a env db).run ServerCall.exec s).2) := by
  have hselect : ∀ idx, Command.set a ≠ .select idx := fun _ => nofun
  rw [host.respond_run depth hparse nofun, host.execute_run depth env db hselect]
  rfl

theorem next_set (hparse : Cmd.parse env (name :: rest) = .ok (.set a)) (db : Nat) (s : Server) :
    host.next depth s (.request env db (name :: rest)) =
      ((Cmd.execSet a env db).run ServerCall.exec s).2 := by
  rw [next, handle, Program.run_map, host.respond_set depth hparse]

end Host

namespace Cmd

variable {env : Env} {db : Nat} {s : Server} {a : SetArgs}

theorem execSet_writes (ha : a.Parsed) (h : a.WritesAt env db s.db) :
    ∃ old : Option Bytes,
      (a.get = true → readText (s.db.visible env.now db a.key) = .ok old) ∧
      (execSet a env db).run ServerCall.exec s =
        (reply (setFrame a (if a.get then old else none))
            ((Cell.setWith env.now a.value a.stamp).1.map fun _ => true),
          { s with db := s.db.putCell db a.key (Cell.setWith env.now a.value a.stamp).2 }) := by
  obtain ⟨hdb, hallowed, hget⟩ := h
  rw [Database.visible_eq] at hallowed hget ⊢
  have hwrite := setWrite_allowed env ha hdb hallowed
  cases hflag : a.get with
  | false =>
      refine ⟨none, fun h => absurd h nofun, ?_⟩
      rw [execSet_run env a none hdb fun h => absurd (hflag.symm.trans h) nofun, hwrite, hflag]
  | true =>
      obtain ⟨old, hold⟩ := readText_ok (hget hflag)
      refine ⟨old, fun _ => hold, ?_⟩
      rw [execSet_run env a old hdb fun _ => hold, hwrite, hflag]

theorem execSet_keeps (ha : a.Parsed) (h : ¬ a.WritesAt env db s.db) :
    ((execSet a env db).run ServerCall.exec s).2 = s := by
  by_cases hdb : db < s.db.dbs.length
  · by_cases hget : a.get = true → ((s.db.visible env.now db a.key).all
        fun o => (strKind.proj o).isSome) = true
    · have hallowed : ¬ a.Allowed (s.db.visible env.now db a.key) :=
        fun hallowed => h ⟨hdb, hallowed, hget⟩
      rw [Database.visible_eq] at hallowed hget
      have hwrite := setWrite_refused env ha hdb hallowed
      cases hflag : a.get with
      | false =>
          rw [execSet_run env a none hdb fun h => absurd (hflag.symm.trans h) nofun, hwrite]
      | true =>
          obtain ⟨old, hold⟩ := readText_ok (hget hflag)
          rw [execSet_run env a old hdb fun _ => hold, hwrite]
    · rw [Classical.not_imp, Database.visible_eq] at hget
      rw [execSet_wrongType env a hdb hget.1 (readText_error hget.2)]
  · rw [execSet_no_db env a hdb]

end Cmd

namespace Host

variable (host : Host) (depth : Nat) (env : Env) (db : Nat) (name : Bytes) (rest : List Bytes)
  {a : SetArgs}

/-- **The deadline of `SET`.**  Whichever form of `SET` writes, it leaves its value with the
deadline that its expire option asks for, and one that does not write changes nothing,
exactly if the clock reaches the deadline and `NX` comes with whole seconds. -/
theorem next_set_deadline_iff {d : Duration} (hname : Cmd.commandName env name = "SET")
    (hparse : Cmd.parse env (name :: rest) = .ok (.set a)) (hexpire : a.expire = some d)
    (s : Server) :
    host.next depth s (.request env db (name :: rest)) =
        (if a.WritesAt env db s.db then
          { s with db := s.db.putCell db a.key (.ofStrUntil a.value (env.now + d)) }
        else s) ↔
      (a.WritesAt env db s.db →
        (env.now + d).toNat < clockEnd ∧ (a.nx = true → nanosPerSec ∣ d)) := by
  have ha := SetArgs.parsed_of_parse hname hparse
  rw [host.next_set depth hparse]
  by_cases h : a.WritesAt env db s.db
  · obtain ⟨old, -, hrun⟩ := Cmd.execSet_writes ha h
    rw [hrun, if_pos h, ← Cell.setWith_stamp_iff ha hexpire]
    constructor
    · intro hstate _
      have hcell := congrArg (fun t : Server => t.db.cellAt db a.key) hstate
      simpa only [Database.cellAt_putCell h.1] using hcell
    · intro hcell
      rw [hcell h]
  · rw [if_neg h]
    exact iff_of_true (Cmd.execSet_keeps ha h) fun hwrites => absurd hwrites h

/-- `SET k v PX 1500`, and with `nx` also `NX`. -/
def lockArgs (nx : Bool) : SetArgs :=
  ⟨"k", asBytes "v", some (Duration.fromMillis 1500), nx, false, false, false⟩

theorem next_set_deadline_sample :
    Host.plain.next 0 (.new 1) (.ofText ["SET", "k", "v", "PX", "1500"]) =
      if (lockArgs false).WritesAt (.at 0) 0 (Database.new 1) then
        { Server.new 1 with
          db := (Database.new 1).putCell 0 "k"
            (.ofStrUntil (asBytes "v") (0 + Duration.fromMillis 1500)) }
      else .new 1 :=
  (Host.plain.next_set_deadline_iff 0 (.at 0) 0 (asBytes "SET")
    (["k", "v", "PX", "1500"].map asBytes) (by decide +kernel) (a := lockArgs false) rfl rfl
    (.new 1)).mpr fun _ => ⟨by decide +kernel, nofun⟩

/-- With `NX` the half second is lost. -/
theorem next_set_nx_drops_millis :
    ¬ ∀ (host : Host) (depth : Nat) (env : Env) (db : Nat) (name : Bytes) (rest : List Bytes)
        (a : SetArgs) (d : Duration), Cmd.commandName env name = "SET" →
      Cmd.parse env (name :: rest) = .ok (.set a) → a.expire = some d →
      ∀ s : Server, a.WritesAt env db s.db →
        (host.next depth s (.request env db (name :: rest))).db.cellAt db a.key =
          .ofStrUntil a.value (env.now + d) := by
  intro hclaim
  have hcell := hclaim .plain 0 (.at 0) 0 (asBytes "SET") (["k", "v", "PX", "1500", "NX"].map asBytes)
    (lockArgs true) (Duration.fromMillis 1500) (by decide +kernel) rfl rfl (.new 1)
    (by decide +kernel)
  exact absurd (congrArg Cell.deadline hcell) (by decide +kernel)

end Host

/-! ## The options together -/

/-- What `SET` promises where its key is absent or holds the string `old`. -/
structure SetLaw (a : SetArgs) (env : Env) (db : Nat) (old : Option Bytes)
    (before after : Database) (reply : Outcome Frame) : Prop where
  writes : a.Allowed (old.map .str) →
    ∃ deadline : Option Instant, after = before.putCell db a.key ⟨some (.str a.value), deadline⟩ ∧
      (a.expire = none →
        deadline = if a.keepttl then before.deadline env.now db a.key else none)
  keeps : ¬ a.Allowed (old.map .str) → after = before
  replyOld : a.get = true → reply = .ok (Cmd.bulkOrNull old)
  replyOk : a.get = false → reply = .ok (if a.Allowed (old.map .str) then .ok else .null)

/-- The state is not one that an option fails on. -/
structure SetLawful (a : SetArgs) (env : Env) (db : Nat) (old : Option Bytes) (before : Database) :
    Prop where
  exists_db : db < before.dbs.length
  -- `KEEPTTL` on a key with a deadline
  no_ttl : a.Allowed (old.map .str) → a.keepttl = true → a.expire = none →
    before.deadline env.now db a.key = none
  -- `GET` with `NX` on a key
  no_old : a.get = true → a.nx = true → old = none
  -- the end of the clock
  in_time : a.Allowed (old.map .str) → ∀ d, a.stamp = some d → (env.now + d).toNat < clockEnd

section
variable {a : SetArgs} {env : Env} {db : Nat} {old : Option Bytes} {s : Server}

theorem readText_str (old : Option Bytes) : Cmd.readText (old.map .str) = .ok old := by
  cases old <;> rfl

theorem readable_str (old : Option Bytes) :
    ((old.map RudisObject.str).all fun o => (strKind.proj o).isSome) = true := by
  cases old <;> rfl

theorem Cmd.execSet_allowed (ha : a.Parsed) (hdb : db < s.db.dbs.length)
    (hold : s.db.visible env.now db a.key = old.map .str) (h : a.Allowed (old.map .str)) :
    (execSet a env db).run ServerCall.exec s =
      (reply (fun _ => if a.get then bulkOrNull old else .ok)
          (Cell.setWith env.now a.value a.stamp).1,
        { s with db := s.db.putCell db a.key (Cell.setWith env.now a.value a.stamp).2 }) := by
  have hwrites : a.WritesAt env db s.db := by
    refine ⟨hdb, ?_, fun _ => ?_⟩
    · rwa [hold]
    · rw [hold, readable_str]
  obtain ⟨old', hread, hrun⟩ := execSet_writes ha hwrites
  rw [hold, readText_str] at hread
  have hframe : setFrame a (if a.get then old' else none) true =
      if a.get then bulkOrNull old else .ok := by
    cases hget : a.get with
    | false => simp [setFrame, hget]
    | true =>
        obtain rfl := Except.ok.inj (hread hget)
        simp [setFrame, hget]
  rw [hrun, reply_map, hframe]

theorem Cmd.execSet_not_allowed (ha : a.Parsed) (hdb : db < s.db.dbs.length)
    (hold : s.db.visible env.now db a.key = old.map .str) (h : ¬ a.Allowed (old.map .str)) :
    (execSet a env db).run ServerCall.exec s = (.ok .null, s) := by
  rw [← hold, Database.visible_eq] at h
  rw [Database.visible_eq] at hold
  have hread : a.get = true → readText ((s.db.cellAt db a.key).live env.now) = .ok old := by
    intro _
    rw [hold, readText_str]
  rw [execSet_run env a old hdb hread, setWrite_refused env ha hdb h]
  rfl

theorem setLaw_iff_of_allowed (ha : a.Parsed) (hdb : db < s.db.dbs.length)
    (hold : s.db.visible env.now db a.key = old.map .str) (h : a.Allowed (old.map .str)) :
    SetLaw a env db old s.db ((Cmd.execSet a env db).run ServerCall.exec s).2.db
        ((Cmd.execSet a env db).run ServerCall.exec s).1 ↔
      SetLawful a env db old s.db := by
  have hnone : a.get = true → a.nx = true → old = none := by
    intro _ hnx
    simpa using (SetArgs.allowed_nx ha hnx _).mp h
  rw [Cmd.execSet_allowed ha hdb hold h]
  cases hexpire : a.expire with
  | none =>
      have hstamp : a.stamp = none := by
        simp [SetArgs.stamp, hexpire]
      rw [hstamp]
      constructor
      · intro hlaw
        obtain ⟨deadline, hafter, hkept⟩ := hlaw.writes h
        have hcell := congrArg (fun after : Database => after.cellAt db a.key) hafter
        simp only [Database.cellAt_putCell hdb] at hcell
        obtain rfl : none = deadline := congrArg Cell.deadline hcell
        refine ⟨hdb, fun _ hkeep _ => ?_, hnone, fun _ d hd => ?_⟩
        swap
        · exact absurd (hd.symm.trans hstamp) (Option.some_ne_none d)
        have hkeeps := hkept hexpire
        rw [if_pos hkeep] at hkeeps
        exact hkeeps.symm
      · intro hlawful
        refine ⟨fun _ => ⟨none, rfl, fun _ => ?_⟩, fun hnot => absurd h hnot, ?_, ?_⟩
        · split
          · rename_i hkeep
            exact (hlawful.no_ttl h hkeep hexpire).symm
          · rfl
        · intro hget
          simp [Cell.setWith, Cmd.reply, hget]
        · intro hget
          simp [Cell.setWith, Cmd.reply, hget, h]
  | some d =>
      obtain ⟨d', hstamp⟩ : ∃ d', a.stamp = some d' := by
        simp [SetArgs.stamp, hexpire]
      have hsome : a.expire ≠ none := by
        rw [hexpire]
        exact Option.some_ne_none d
      rw [hstamp]
      by_cases hclock : (env.now + d').toNat < clockEnd
      · rw [Cell.setWith_ok a.value hclock]
        refine iff_of_true ⟨fun _ => ⟨some _, rfl, fun hno => absurd hno hsome⟩,
          fun hnot => absurd h hnot, ?_, ?_⟩ ⟨hdb, fun _ _ hno => absurd hno hsome, hnone, ?_⟩
        · intro hget
          simp [Cmd.reply, hget]
        · intro hget
          simp [Cmd.reply, hget, h]
        · intro _ d'' hd''
          obtain rfl := Option.some.inj (hstamp.symm.trans hd'')
          exact hclock
      · rw [Cell.setWith_panics a.value hclock]
        apply iff_of_false
        · intro hlaw
          cases hget : a.get with
          | true => simpa [Cmd.reply] using hlaw.replyOld hget
          | false => simpa [Cmd.reply] using hlaw.replyOk hget
        · intro hlawful
          exact hclock (hlawful.in_time h d' hstamp)

theorem setLaw_iff_of_not_allowed (ha : a.Parsed) (hdb : db < s.db.dbs.length)
    (hold : s.db.visible env.now db a.key = old.map .str) (h : ¬ a.Allowed (old.map .str)) :
    SetLaw a env db old s.db ((Cmd.execSet a env db).run ServerCall.exec s).2.db
        ((Cmd.execSet a env db).run ServerCall.exec s).1 ↔
      SetLawful a env db old s.db := by
  rw [Cmd.execSet_not_allowed ha hdb hold h]
  constructor
  · intro hlaw
    refine ⟨hdb, fun hallowed => absurd hallowed h, fun hget _ => ?_, fun hallowed => absurd hallowed h⟩
    have hreply := hlaw.replyOld hget
    cases old with
    | none => rfl
    | some v => exact absurd hreply nofun
  · intro hlawful
    refine ⟨fun hallowed => absurd hallowed h, fun _ => rfl, fun hget => ?_, fun _ => by rw [if_neg h]⟩
    have hnone : old = none := by
      cases hnx : a.nx with
      | true => exact hlawful.no_old hget hnx
      | false =>
          cases old with
          | none => rfl
          | some v =>
              -- the key is there, so neither option keeps `SET` from writing
              cases hxx : a.xx with
              | true => exact absurd (Or.inr (Or.inr ⟨hxx, rfl⟩)) h
              | false => exact absurd (Or.inl ⟨hnx, hxx⟩) h
    rw [hnone]
    rfl

end

namespace Host

variable (host : Host) (depth : Nat) (env : Env) (db : Nat) (name : Bytes) (rest : List Bytes)
  {a : SetArgs} {old : Option Bytes}

/-- **The law of `SET`.**  On a key that is absent or holds a live string, `SET` writes and
replies as its options say exactly if the logical database exists, `KEEPTTL` without an
expire option meets no deadline, `GET` and `NX` together meet no string, and the clock
reaches the deadline. -/
theorem respond_set_law_iff (hname : Cmd.commandName env name = "SET")
    (hparse : Cmd.parse env (name :: rest) = .ok (.set a)) (s : Server)
    (hold : s.db.visible env.now db a.key = old.map .str) :
    SetLaw a env db old s.db
        ((host.respond depth env db (name :: rest)).run ServerCall.exec s).2.db
        ((host.respond depth env db (name :: rest)).run ServerCall.exec s).1.1 ↔
      SetLawful a env db old s.db := by
  have ha := SetArgs.parsed_of_parse hname hparse
  have hreply : ∀ r : Outcome Frame, (goOn (r, db)).1 = r := by
    intro r
    cases r <;> rfl
  rw [host.respond_set depth hparse, hreply]
  by_cases hdb : db < s.db.dbs.length
  · by_cases h : a.Allowed (old.map .str)
    · exact setLaw_iff_of_allowed ha hdb hold h
    · exact setLaw_iff_of_not_allowed ha hdb hold h
  · rw [Cmd.execSet_no_db env a hdb]
    apply iff_of_false
    · intro hlaw
      cases hget : a.get with
      | true => cases old <;> exact absurd (hlaw.replyOld hget) nofun
      | false =>
          have hlast := hlaw.replyOk hget
          split at hlast <;> exact absurd hlast nofun
    · exact fun hlawful => hdb hlawful.exists_db

/-- `SET k w XX GET EX 10`. -/
def renewArgs : SetArgs :=
  { key := "k", value := asBytes "w", expire := some (.fromSecs 10), nx := false, xx := true,
    get := true, keepttl := false }

def lasting : Server := Host.plain.next 0 (.new 1) (.ofText ["SET", "k", "v", "EX", "100"])

theorem respond_set_law_renewed :
    SetLaw renewArgs (.at 5) 0 (some (asBytes "v")) lasting.db
      ((Host.plain.respond 0 (.at 5) 0 (["SET", "k", "w", "XX", "GET", "EX", "10"].map asBytes)).run
        ServerCall.exec lasting).2.db
      ((Host.plain.respond 0 (.at 5) 0 (["SET", "k", "w", "XX", "GET", "EX", "10"].map asBytes)).run
        ServerCall.exec lasting).1.1 := by
  have hparse : Cmd.parse (.at 5) (["SET", "k", "w", "XX", "GET", "EX", "10"].map asBytes) =
      .ok (.set renewArgs) := by
    with_unfolding_all rfl
  have hlive : lasting.db.visible 5 0 renewArgs.key = (some (asBytes "v")).map .str := by
    with_unfolding_all rfl
  apply (Host.plain.respond_set_law_iff 0 (.at 5) 0 (asBytes "SET") _ (by decide +kernel) hparse
    lasting hlive).mpr
  refine ⟨by decide +kernel, fun _ hkeep => absurd hkeep nofun, fun _ hnx => absurd hnx nofun, ?_⟩
  intro _ d hd
  obtain rfl := Option.some.inj hd
  decide +kernel

/-- `SET k w KEEPTTL`. -/
def keepArgs : SetArgs := ⟨"k", asBytes "w", none, false, false, false, true⟩

/-- `KEEPTTL` drops the deadline of the key. -/
theorem respond_set_drops_ttl :
    ¬ ∀ (host : Host) (depth : Nat) (env : Env) (db : Nat) (name : Bytes) (rest : List Bytes)
        (a : SetArgs) (old : Option Bytes), Cmd.commandName env name = "SET" →
      Cmd.parse env (name :: rest) = .ok (.set a) →
      ∀ s : Server, db < s.db.dbs.length → s.db.visible env.now db a.key = old.map .str →
        SetLaw a env db old s.db
          ((host.respond depth env db (name :: rest)).run ServerCall.exec s).2.db
          ((host.respond depth env db (name :: rest)).run ServerCall.exec s).1.1 := by
  intro hclaim
  have hlaw := hclaim .plain 0 (.at 0) 0 (asBytes "SET") (["k", "w", "KEEPTTL"].map asBytes) keepArgs
    (some (asBytes "v")) (by decide +kernel) rfl
    lasting (by decide +kernel) (by with_unfolding_all rfl)
  obtain ⟨deadline, hafter, hkept⟩ := hlaw.writes (by decide)
  have hcell := congrArg (fun after : Database => (after.cellAt 0 "k").deadline) hafter
  rw [hkept rfl] at hcell
  exact absurd hcell (by decide +kernel)

end Host

end MiniRudis
