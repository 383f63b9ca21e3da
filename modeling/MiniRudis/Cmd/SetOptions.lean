import MiniRudis.Cmd.Parsed
import MiniRudis.Db.Expired

/-!
# The options of `SET`

What a `SET` that parses asks for, and what `exec_set` makes of it on the cell of its key.
-/

namespace MiniRudis

open Lib Cmd

namespace SetArgs

/-! ## Parsing -/

structure Parsed (a : SetArgs) : Prop where
  exclusive : ¬ (a.nx = true ∧ a.xx = true)
  short : ∀ d, a.expire = some d → d < clockEnd

def Short (a : SetArgs) : Prop := ∀ d, a.expire = some d → d < clockEnd

/-- The reader of a value sets a duration of clock size. -/
abbrev SetsShort (set : SetArgs → SetArgs) : Prop := ∀ a, a.Short → (set a).Short

theorem setsShort {d : Duration} (h : d < clockEnd) :
    SetsShort fun a => { a with expire := some d } := by
  intro a _ d' hd'
  obtain rfl := Option.some.inj hd'
  exact h

theorem readSetDuration_short {unit : Int → Duration}
    (hunit : ∀ n, InI64 n → 0 ≤ n → unit n < clockEnd) (b : Bytes) :
    Returns SetsShort (fun _ => True) (readSetDuration unit b) := by
  apply ((parseI64_returns b (by decide)).mono (fun _ h => h) fun _ _ => trivial).bind
  intro n hn
  split
  · trivial
  · rename_i hpos
    exact setsShort (hunit n hn (by omega))

theorem readSetDeadline_short (env : Env) {unit : Int → Duration}
    (hunit : ∀ n, InI64 n → 0 ≤ n → unit n < clockEnd) (now : Int) (b : Bytes) :
    Returns SetsShort (fun _ => True) (readSetDeadline env unit now b) := by
  apply ((parseI64_returns b (by decide)).mono (fun _ h => h) fun _ _ => trivial).bind
  intro ts _
  cases hdiff : arithI64 env.overflowChecks (ts - now) with
  | error e => trivial
  | ok diff =>
      have hrange := arithI64_inI64 hdiff
      have hmax : InI64 (max diff 0) := by
        unfold InI64 at hrange ⊢
        have hbounds : i64Min ≤ 0 ∧ 0 ≤ i64Max := by decide
        omega
      exact setsShort (hunit _ hmax (by omega))

theorem setRules_short (env : Env) (opt : String) (rule : OptionRule Bytes Fault SetArgs)
    (h : setRules env opt = some rule) :
    (∀ a, a.Short → (rule.flag a).Short) ∧
      ∀ read ∈ rule.values, ∀ b, Returns SetsShort (fun _ => True) (read b) := by
  have hvalue : ∀ {reader : ValueReader Bytes Fault SetArgs},
      (∀ b, Returns SetsShort (fun _ => True) (reader b)) → rule = .ofValues [reader] →
      (∀ a, a.Short → (rule.flag a).Short) ∧
        ∀ read ∈ rule.values, ∀ b, Returns SetsShort (fun _ => True) (read b) := by
    rintro reader hreader rfl
    refine ⟨fun a ha => ha, fun read hread => ?_⟩
    obtain rfl := List.mem_singleton.mp hread
    exact hreader
  have hflag : ∀ {flag : SetArgs → SetArgs}, rule = .ofFlag flag → SetsShort flag →
      (∀ a, a.Short → (rule.flag a).Short) ∧
        ∀ read ∈ rule.values, ∀ b, Returns SetsShort (fun _ => True) (read b) := by
    rintro flag rfl hkeeps
    exact ⟨hkeeps, fun read hread => absurd hread (by simp [OptionRule.ofFlag])⟩
  unfold setRules at h
  split at h
  · exact hvalue (readSetDuration_short fun _ => fromSecs_lt) (Option.some.inj h).symm
  · exact hvalue (readSetDuration_short fun _ => fromMillis_lt) (Option.some.inj h).symm
  · exact hvalue (readSetDeadline_short env (fun _ => fromSecs_lt) _) (Option.some.inj h).symm
  · exact hvalue (readSetDeadline_short env (fun _ => fromMillis_lt) _) (Option.some.inj h).symm
  · exact hflag (Option.some.inj h).symm fun _ ha => ha
  · exact hflag (Option.some.inj h).symm fun _ ha => ha
  · exact hflag (Option.some.inj h).symm fun _ ha => ha
  · exact hflag (Option.some.inj h).symm fun _ ha => ha
  · exact absurd h (by simp)

theorem parseSet_parsed (env : Env) (args : List Bytes) :
    Returns (fun cmd => ∃ a, cmd = .set a ∧ a.Parsed) (fun _ => True) (parseSet env args) := by
  apply atLeast_returns trivial
  intro h
  rw [strAt_eq (by omega), index_ok (by omega)]
  have hread : Returns Short (fun _ => True) (readOptions env.upper (setRules env) (args.drop 2)
      ⟨fromUtf8Lossy args[0], args[1], none, false, false, false, false⟩) :=
    optionLoop_keeps (fun opt rule hrule => (setRules_short env _ rule hrule).1)
      (fun opt rule hrule => (setRules_short env _ rule hrule).2) trivial trivial (args.drop 2) []
      (fun _ hd => absurd hd nofun) fun read hread => absurd hread (by simp)
  apply hread.bind
  intro a ha
  split
  · trivial
  · rename_i hexclusive
    exact ⟨a, rfl, by simpa using hexclusive, ha⟩

theorem parsed_of_parse {env : Env} {name : Bytes} {rest : List Bytes} {a : SetArgs}
    (hname : commandName env name = "SET") (h : parse env (name :: rest) = .ok (.set a)) :
    a.Parsed := by
  have hlookup : (commandTable env ++ scriptTable env).lookup "SET" = some (parseSet env) := rfl
  rw [parse, hname, hlookup] at h
  obtain ⟨a', ha, hparsed⟩ := (parseSet_parsed env rest).ok h
  obtain rfl := Command.set.inj ha
  exact hparsed

/-! ## What is asked for -/

/-- With these options `SET` is to write where its key holds `old`. -/
def Allowed (a : SetArgs) (old : Option RudisObject) : Prop :=
  (a.nx = false ∧ a.xx = false) ∨ (a.nx = true ∧ old.isNone = true) ∨
    (a.xx = true ∧ old.isSome = true)

instance (a : SetArgs) (old : Option RudisObject) : Decidable (a.Allowed old) :=
  inferInstanceAs (Decidable (_ ∨ _))

/-- The duration that the write hands to the clock: whole seconds behind `NX`. -/
def stamp (a : SetArgs) : Option Duration :=
  a.expire.map fun d => if a.nx then Duration.fromSecs (Duration.asSecs d) else d

/-- `SET` comes to its write, and the write happens, where its key holds `old`. -/
def Writes (a : SetArgs) (old : Option RudisObject) : Prop :=
  a.Allowed old ∧ (a.get = true → (old.all fun o => (strKind.proj o).isSome) = true)

instance (a : SetArgs) (old : Option RudisObject) : Decidable (a.Writes old) :=
  inferInstanceAs (Decidable (_ ∧ _))

theorem allowed_nx {a : SetArgs} (ha : a.Parsed) (hnx : a.nx = true) (old : Option RudisObject) :
    a.Allowed old ↔ old.isNone = true := by
  have hxx : a.xx = false := by
    rw [← Bool.not_eq_true]
    exact fun hxx => ha.exclusive ⟨hnx, hxx⟩
  simp [Allowed, hnx, hxx]

theorem allowed_xx {a : SetArgs} (hnx : a.nx = false) (hxx : a.xx = true)
    (old : Option RudisObject) : a.Allowed old ↔ old.isSome = true := by
  simp [Allowed, hnx, hxx]

end SetArgs

namespace Cell

def ofStrUntil (value : Bytes) (exp : Instant) : Cell := ⟨some (.str value), some exp⟩

theorem setExpiry_ofStr {now : Instant} {d : Duration} (value : Bytes)
    (h : (now + d).toNat < clockEnd) :
    (ofStr value).setExpiry now d = (.ok true, ofStrUntil value (now + d)) :=
  setExpiry_ok rfl h

/-- The clock panics, and the string has been written. -/
theorem setExpiry_ofStr_panics {now : Instant} {d : Duration} (value : Bytes)
    (h : ¬ (now + d).toNat < clockEnd) :
    (ofStr value).setExpiry now d = (panicked, ofStr value) :=
  setExpiry_panics rfl h

theorem setWith_ok {now : Instant} {d : Duration} (value : Bytes)
    (h : (now + d).toNat < clockEnd) :
    setWith now value (some d) = (.ok (), ofStrUntil value (now + d)) := by
  rw [setWith, setExpiry_ofStr value h]
  rfl

theorem setWith_panics {now : Instant} {d : Duration} (value : Bytes)
    (h : ¬ (now + d).toNat < clockEnd) :
    setWith now value (some d) = (panicked, ofStr value) := by
  rw [setWith, setExpiry_ofStr_panics value h]
  rfl

/-- The write leaves the deadline that is asked for exactly if the clock reaches it and,
behind `NX`, it counts whole seconds. -/
theorem setWith_stamp_iff {a : SetArgs} (ha : a.Parsed) {d : Duration} (hexpire : a.expire = some d)
    (now : Instant) :
    (setWith now a.value a.stamp).2 = ofStrUntil a.value (now + d) ↔
      (now + d).toNat < clockEnd ∧ (a.nx = true → nanosPerSec ∣ d) := by
  have hwrite : ∀ d' : Duration, (setWith now a.value (some d')).2 = ofStrUntil a.value (now + d) ↔
      (now + d).toNat < clockEnd ∧ d' = d := by
    intro d'
    by_cases hclock : (now + d').toNat < clockEnd
    · rw [setWith_ok a.value hclock]
      constructor
      · intro h
        have hdeadline : now + (d' : Int) = now + d := Option.some.inj (congrArg Cell.deadline h)
        obtain rfl := Int.ofNat_inj.mp (Int.add_left_cancel hdeadline)
        exact ⟨hclock, rfl⟩
      · rintro ⟨-, rfl⟩
        rfl
    · rw [setWith_panics a.value hclock]
      constructor
      · intro h
        exact absurd (congrArg Cell.deadline h) nofun
      · rintro ⟨hclock', rfl⟩
        exact absurd hclock' hclock
  unfold SetArgs.stamp
  rw [hexpire, Option.map_some, hwrite]
  apply and_congr_right
  intro _
  split
  · rename_i hnx
    rw [fromSecs_asSecs (ha.short d hexpire)]
    simp only [hnx, true_implies]
    exact (Nat.dvd_iff_div_mul_eq _ _).symm
  · rename_i hnx
    simp [hnx]

end Cell

/-! ## Execution -/

namespace Cmd

variable (env : Env) {db : Nat} {s : Server}

theorem run_onKey {α : Type} (key : String) (op : KeyOp α) (hdb : db < s.db.dbs.length) :
    (onKey env db key op).run ServerCall.exec s =
      ((op.onCell env (s.db.cellAt db key)).1,
        { s with db := s.db.putCell db key (op.onCell env (s.db.cellAt db key)).2 }) := by
  have hrun := op.run_cellAt env key hdb
  rw [onKey, Program.lift, Program.run_call, Program.run_ret, ServerCall.exec, Op.run, hrun]

theorem run_onKey_no_db {α : Type} (key : String) (op : KeyOp α) (hdb : ¬ db < s.db.dbs.length) :
    (onKey env db key op).run ServerCall.exec s = (err .dbIndexOutOfRange, s) := by
  have hrun := op.run_no_db env key hdb
  rw [onKey, Program.lift, Program.run_call, Program.run_ret, ServerCall.exec, Op.run, hrun]

theorem run_onKey_same {α : Type} {key : String} {op : KeyOp α} (hdb : db < s.db.dbs.length)
    (h : (op.onCell env (s.db.cellAt db key)).2 = s.db.cellAt db key) :
    (onKey env db key op).run ServerCall.exec s = ((op.onCell env (s.db.cellAt db key)).1, s) := by
  rw [run_onKey env key op hdb, h, Database.putCell_cellAt]

variable {a : SetArgs}

theorem setWrite_refused (ha : a.Parsed) (hdb : db < s.db.dbs.length)
    (h : ¬ a.Allowed ((s.db.cellAt db a.key).live env.now)) :
    (setWrite a env db).run ServerCall.exec s = (.ok false, s) := by
  unfold setWrite
  by_cases hnx : a.nx = true
  · rw [SetArgs.allowed_nx ha hnx, Option.isNone_iff_eq_none] at h
    have hsome := Option.isSome_iff_ne_none.mpr h
    rw [if_pos hnx, Program.run_bind, run_onKey_same env hdb (by simp [KeyOp.onCell, hsome])]
    simp [KeyOp.onCell, hsome]
  · rw [if_neg hnx]
    rw [Bool.not_eq_true] at hnx
    by_cases hxx : a.xx = true
    · rw [SetArgs.allowed_xx hnx hxx, Option.isSome_iff_ne_none, not_not] at h
      rw [if_pos hxx, run_onKey_same env hdb (by simp [KeyOp.onCell, h])]
      simp [KeyOp.onCell, h]
    · exact absurd (Or.inl ⟨hnx, by simpa using hxx⟩) h

theorem onCell_expire_ofStr (value : Bytes) {secs : Int} (hsecs : 0 ≤ secs) :
    (KeyOp.expire secs).onCell env (.ofStr value) =
      (Cell.ofStr value).setExpiry env.now (Duration.fromSecs secs) := by
  rw [KeyOp.onCell, Cell.expireIn, if_neg (by omega)]

theorem setWrite_allowed (ha : a.Parsed) (hdb : db < s.db.dbs.length)
    (h : a.Allowed ((s.db.cellAt db a.key).live env.now)) :
    (setWrite a env db).run ServerCall.exec s =
      ((Cell.setWith env.now a.value a.stamp).1.map fun _ => true,
        { s with db := s.db.putCell db a.key (Cell.setWith env.now a.value a.stamp).2 }) := by
  unfold setWrite
  by_cases hnx : a.nx = true
  · rw [SetArgs.allowed_nx ha hnx, Option.isNone_iff_eq_none] at h
    have hfirst : (onKey env db a.key (.setnx a.value)).run ServerCall.exec s =
        (.ok true, { s with db := s.db.putCell db a.key (.ofStr a.value) }) := by
      rw [run_onKey env a.key _ hdb, KeyOp.onCell, h]
      rfl
    rw [if_pos hnx, Program.run_bind, hfirst]
    cases hexpire : a.expire with
    | none => simp [SetArgs.stamp, hexpire, Cell.setWith, Except.map]
    | some d =>
        have hsecs := asSecs_nonneg (ha.short d hexpire)
        have hstamp : a.stamp = some (Duration.fromSecs (Duration.asSecs d)) := by
          simp [SetArgs.stamp, hexpire, hnx]
        have hdb' : db < (s.db.putCell db a.key (.ofStr a.value)).dbs.length := by
          rwa [Database.length_putCell]
        dsimp only
        rw [Program.run_bind, run_onKey env a.key _ hdb', Database.cellAt_putCell hdb,
          onCell_expire_ofStr env a.value hsecs, hstamp]
        generalize Duration.fromSecs (Duration.asSecs d) = secs
        by_cases hclock : (env.now + secs).toNat < clockEnd
        · rw [Cell.setExpiry_ofStr a.value hclock, Cell.setWith_ok a.value hclock,
            Database.putCell_putCell]
          rfl
        · rw [Cell.setExpiry_ofStr_panics a.value hclock, Cell.setWith_panics a.value hclock,
            Database.putCell_putCell]
          rfl
  · rw [if_neg hnx]
    rw [Bool.not_eq_true] at hnx
    have hstamp : a.stamp = a.expire := by
      simp [SetArgs.stamp, hnx]
    rw [hstamp]
    by_cases hxx : a.xx = true
    · rw [SetArgs.allowed_xx hnx hxx, Option.isSome_iff_ne_none] at h
      rw [if_pos hxx, run_onKey env a.key _ hdb]
      simp [KeyOp.onCell, h]
    · rw [if_neg hxx, Program.run_bind, run_onKey env a.key _ hdb]
      rfl

def readText : Option RudisObject → Outcome (Option Bytes)
  | none => .ok none
  | some o =>
      match strKind.proj o with
      | some v => .ok (some v)
      | none => err .wrongType

theorem readText_ok {old : Option RudisObject}
    (h : (old.all fun o => (strKind.proj o).isSome) = true) : ∃ v, readText old = .ok v := by
  cases old with
  | none => exact ⟨none, rfl⟩
  | some o =>
      obtain ⟨v, hv⟩ := Option.isSome_iff_exists.mp h
      exact ⟨some v, by rw [readText, hv]⟩

theorem readText_error {old : Option RudisObject}
    (h : ¬ (old.all fun o => (strKind.proj o).isSome) = true) :
    readText old = err .wrongType := by
  cases old with
  | none => exact absurd rfl h
  | some o =>
      rw [Option.all_some, Option.not_isSome_iff_eq_none] at h
      rw [readText, h]

theorem onCell_get (c : Cell) : (KeyOp.typed .get).onCell env c = (readText (c.live env.now), c) := by
  rw [KeyOp.onCell, TypedOp.access, Access.total, Access.onCell]
  cases c.live env.now with
  | none => rfl
  | some o => cases o <;> rfl

theorem setOld_run (a : SetArgs) (hdb : db < s.db.dbs.length) :
    (setOld a env db).run ServerCall.exec s =
      (if a.get then readText ((s.db.cellAt db a.key).live env.now) else .ok none, s) := by
  unfold setOld
  split
  · rw [run_onKey_same env hdb (by rw [onCell_get]), onCell_get]
  · rfl

theorem execSet_run (a : SetArgs) (old : Option Bytes) (hdb : db < s.db.dbs.length)
    (hold : a.get = true → readText ((s.db.cellAt db a.key).live env.now) = .ok old) :
    (execSet a env db).run ServerCall.exec s =
      (reply (setFrame a (if a.get then old else none)) ((setWrite a env db).run ServerCall.exec s).1,
        ((setWrite a env db).run ServerCall.exec s).2) := by
  have hread : (if a.get then readText ((s.db.cellAt db a.key).live env.now) else .ok none) =
      (.ok (if a.get then old else none) : Outcome (Option Bytes)) := by
    cases hget : a.get with
    | false => rfl
    | true => exact hold hget
  rw [execSet, Program.run_bind, setOld_run env a hdb, hread]
  exact Program.run_bind ServerCall.exec (setWrite a env db) _ s

theorem execSet_wrongType (a : SetArgs) {e : Fault} (hdb : db < s.db.dbs.length)
    (hget : a.get = true) (hold : readText ((s.db.cellAt db a.key).live env.now) = .error e) :
    (execSet a env db).run ServerCall.exec s = (reply bulkOrNull (.error e), s) := by
  rw [execSet, Program.run_bind, setOld_run env a hdb, if_pos hget, hold]
  rfl

theorem execSet_no_db (a : SetArgs) (hdb : ¬ db < s.db.dbs.length) :
    (execSet a env db).run ServerCall.exec s = (.ok (.fromError .dbIndexOutOfRange), s) := by
  have hwrite : (setWrite a env db).run ServerCall.exec s = (err .dbIndexOutOfRange, s) := by
    unfold setWrite
    split
    · rw [Program.run_bind, run_onKey_no_db env a.key _ hdb]
      cases a.expire <;> rfl
    · split
      · exact run_onKey_no_db env a.key _ hdb
      · rw [Program.run_bind, run_onKey_no_db env a.key _ hdb]
        rfl
  have hold : (setOld a env db).run ServerCall.exec s =
      (if a.get then err .dbIndexOutOfRange else .ok none, s) := by
    unfold setOld
    split
    · exact run_onKey_no_db env a.key _ hdb
    · rfl
  rw [execSet, Program.run_bind, hold]
  cases a.get with
  | true => rfl
  | false =>
      simp only [Bool.false_eq_true, if_false]
      rw [Program.run_bind, hwrite]
      rfl

end Cmd

end MiniRudis
