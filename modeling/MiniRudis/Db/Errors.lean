import MiniRudis.Db.Panics
import MiniRudis.Db.Moves

/-!
# The errors of the operations

Their texts are fixed: none carries a part of an argument or of a value.
-/

namespace MiniRudis

open Lib

variable {α : Type}

/-! ## All operations -/

/-- The one reply that is written as a status is a text without CR. -/
def KeyOp.Answer : KeyOp α → α → Prop
  | typeOf, name => Plain name
  | _, _ => True

def Op.Answer : Op α → α → Prop
  | onKey _ _ op, a => op.Answer a
  | _, _ => True

theorem Cell.setExpiry_plain (now : Instant) (duration : Duration) (c : Cell) :
    Returns (fun _ => True) Fault.Plain (c.setExpiry now duration).1 := by
  unfold Cell.setExpiry
  split
  · split
    · trivial
    · rename_i e hsum
      rw [addDuration_error hsum]
      trivial
  · trivial

theorem Cell.expireIn_plain (now : Instant) (amount : Int) (duration : Duration) (c : Cell) :
    Returns (fun _ => True) Fault.Plain (c.expireIn now amount duration).1 := by
  unfold Cell.expireIn
  split
  · trivial
  · exact c.setExpiry_plain now duration

theorem absoluteDeadline_plain (now : Instant) (sysNow : SystemTime) (sinceEpoch : Duration) :
    Returns (fun _ => True) Fault.Plain (absoluteDeadline now sysNow sinceEpoch) := by
  have hsum : ∀ t d, Returns (fun _ => True) Fault.Plain (addDuration t d) := by
    intro t d
    cases h : addDuration t d with
    | ok t' => trivial
    | error e =>
        rw [addDuration_error h]
        trivial
  apply (hsum 0 sinceEpoch).bind
  intro target _
  split
  · trivial
  · exact (hsum _ _).bind fun exp _ => trivial

theorem Cell.expireAt_plain (now : Instant) (sysNow : SystemTime) (sinceEpoch : Duration)
    (c : Cell) : Returns (fun _ => True) Fault.Plain (c.expireAt now sysNow sinceEpoch).1 := by
  unfold Cell.expireAt
  split
  · rename_i e hdeadline
    exact (absoluteDeadline_plain now sysNow sinceEpoch).error hdeadline
  · trivial
  · unfold Cell.setExpiryAt
    split <;> trivial

theorem Cell.setWith_plain (now : Instant) (value : Bytes) (dur : Option Duration) :
    Returns (fun _ => True) Fault.Plain (Cell.setWith now value dur).1 := by
  cases dur with
  | none => trivial
  | some dur => exact ((ofStr value).setExpiry_plain now dur).map fun _ _ => trivial

theorem RudisObject.plain_typeName (o : RudisObject) : Plain o.typeName := by
  cases o with
  | str _ => exact (by decide : Plain "string")
  | list _ => exact (by decide : Plain "list")
  | hash _ => exact (by decide : Plain "hash")
  | set _ => exact (by decide : Plain "set")
  | zset _ => exact (by decide : Plain "zset")

theorem KeyOp.onCell_answers (op : KeyOp α) (env : Env) (c : Cell) :
    Returns op.Answer Fault.Plain (op.onCell env c).1 := by
  cases op with
  | typed op => exact op.onCell_plain env c
  | getset value =>
      rw [onCell]
      split
      · trivial
      · trivial
      · exact reported_wrongType.mono (fun _ h => h) fun _ => Fault.Reported.plain
  | getdel =>
      rw [onCell]
      split
      · trivial
      · trivial
      · exact reported_wrongType.mono (fun _ h => h) fun _ => Fault.Reported.plain
  | set value dur => exact Cell.setWith_plain env.now value dur
  | setnx value =>
      rw [onCell]
      split <;> trivial
  | setxx value dur =>
      rw [onCell]
      split
      · trivial
      · exact (Cell.setWith_plain env.now value dur).map fun _ _ => trivial
  | typeOf =>
      rw [onCell]
      split
      · show Plain "none"
        decide
      · rename_i o _
        exact o.plain_typeName
  | expire secs => exact c.expireIn_plain env.now secs _
  | pexpire ms => exact c.expireIn_plain env.now ms _
  | expireat tsSecs => exact c.expireAt_plain env.now env.sysNow _
  | pexpireat tsMs => exact c.expireAt_plain env.now env.sysNow _
  | pttl | ttl | persist => trivial

namespace Database

variable {Q : α → Prop} {E : Fault → Prop}

theorem readDb_returns {self : Database} {db : Nat} {f : LogicalDb → Outcome α}
    (hrange : E (.err .dbIndexOutOfRange)) (h : ∀ ldb, Returns Q E (f ldb)) :
    Returns Q E (self.readDb db f) := by
  unfold readDb
  split
  · exact h _
  · exact hrange

theorem withDb_returns {self : Database} {db : Nat} {f : LogicalDb → Outcome α × LogicalDb}
    (hrange : E (.err .dbIndexOutOfRange)) (h : ∀ ldb, Returns Q E (f ldb).1) :
    Returns Q E (self.withDb db f).1 := by
  unfold withDb
  split
  · exact h _
  · exact hrange

theorem reported_range : (Fault.err .dbIndexOutOfRange).Reported := by
  show Plain RedisError.dbIndexOutOfRange.text
  decide

theorem plain_range : (Fault.err .dbIndexOutOfRange).Plain := reported_range.plain

/-! ### Operations on two keys and more

They do not panic. -/

theorem getSetClone_returns (self : Database) (now : Instant) (db : Nat) (key : String) :
    Returns (fun _ => True) Fault.Reported (self.getSetClone now db key) := by
  apply readDb_returns reported_range
  intro ldb
  unfold LogicalDb.readAs
  split
  · trivial
  · split
    · trivial
    · exact reported_wrongType

theorem sunion_returns (self : Database) (now : Instant) (db : Nat) (keys : List String) :
    Returns (fun _ => True) Fault.Reported (self.sunion now db keys) :=
  (Returns.mapM (fun key => self.getSetClone_returns now db key) keys).bind fun _ _ => trivial

/-- `split_first` finds the first of the sets. -/
theorem sinter_returns (self : Database) (now : Instant) (db : Nat) (keys : List String) :
    Returns (fun _ => True) Fault.Reported (self.sinter now db keys) := by
  unfold sinter
  split
  · trivial
  · rename_i hkeys
    have hsets := Returns.mapM (fun key => self.getSetClone_returns now db key) keys
    cases h : keys.mapM fun key => self.getSetClone now db key with
    | error e =>
        rw [h] at hsets
        exact hsets
    | ok sets =>
        cases sets with
        | nil =>
            cases keys with
            | nil => exact absurd rfl hkeys
            | cons key keys =>
                obtain ⟨s, hs, -⟩ := (mapM_eq_ok h).1 key List.mem_cons_self
                exact absurd hs (by simp)
        | cons first rest => trivial

theorem sdiff_returns (self : Database) (now : Instant) (db : Nat) (keys : List String) :
    Returns (fun _ => True) Fault.Reported (self.sdiff now db keys) := by
  cases keys with
  | nil => trivial
  | cons key keys =>
      exact (self.getSetClone_returns now db key).bind fun first _ =>
        (Returns.mapM (fun key => self.getSetClone_returns now db key) keys).bind fun _ _ => trivial

theorem storeSet_returns (self : Database) (db : Nat) (dst : String)
    {result : Outcome (List String)} (h : Returns (fun _ => True) Fault.Reported result) :
    Returns (fun _ => True) Fault.Reported (self.storeSet db dst result).1 := by
  cases result with
  | error e => exact h
  | ok members => exact withDb_returns reported_range fun ldb => trivial

theorem create_returns {τ : Type} (self : Database) (now : Instant) (db : Nat) (key : String)
    (K : Kind τ) (init : τ) {f : τ → Outcome α × τ}
    (hf : ∀ v, Returns (fun _ => True) Fault.Reported (f v).1) :
    Returns (fun _ => True) Fault.Reported (self.access now db key (.create K init f)).1 := by
  apply withDb_returns reported_range
  intro ldb
  rw [Access.run_eq, Access.onCell]
  split
  · exact hf init
  · split
    · exact hf _
    · exact reported_wrongType

theorem lmove_returns (self : Database) (now : Instant) (db : Nat) (src dst : String)
    (srcLeft dstLeft : Bool) :
    Returns (fun _ => True) Fault.Reported (self.lmove now db src dst srcLeft dstLeft).1 := by
  have htake : Returns (fun _ => True) Fault.Reported
      (self.access now db src (.inPlace listKind none (Deque.take srcLeft))).1 := by
    apply withDb_returns reported_range
    intro ldb
    rw [Access.run_eq, Access.onCell]
    split
    · trivial
    · split
      · exact reported_wrongType
      · rename_i l _
        unfold Deque.take
        cases Deque.popAt srcLeft l with
        | none => dsimp only; split <;> trivial
        | some p => dsimp only; split <;> trivial
  unfold lmove
  split
  · apply withDb_returns reported_range
    intro ldb
    unfold LogicalDb.rotate
    split
    · trivial
    · unfold Deque.rotate
      split
      · trivial
      · rename_i l _ hne
        split
        · rename_i hnone
          rw [Deque.popAt_eq_none] at hnone
          simp [hnone] at hne
        · trivial
    · exact reported_wrongType
  · split
    · rename_i elem self' _
      have hpush := self'.create_returns now db dst listKind.toKind []
        (f := Deque.pushAll dstLeft [elem]) fun l => trivial
      exact hpush.map (f := fun _ => some elem) fun _ _ => trivial
    · rename_i reply self' _ hrun
      rw [hrun] at htake
      exact htake

theorem smove_returns (self : Database) (now : Instant) (db : Nat) (src dst member : String) :
    Returns (fun _ => True) Fault.Reported (self.smove now db src dst member).1 := by
  have htake : Returns (fun _ => True) Fault.Reported
      (self.withDb db (LogicalDb.takeMember src member)).1 := by
    apply withDb_returns reported_range
    intro ldb
    rw [ldb.takeMember_eq, LogicalDb.onKey]
    show Returns _ _ (Cell.takeMember member (ldb.cell src)).1
    unfold Cell.takeMember
    split
    · trivial
    · split <;> trivial
    · exact reported_wrongType
  unfold smove
  split
  · exact create_returns _ now db dst _ _ fun s => trivial
  · rename_i reply self' _ hrun
    rw [hrun] at htake
    exact htake

end Database

theorem Op.run_answers (op : Op α) (env : Env) (self : Database) :
    Returns op.Answer Fault.Plain (op.run env self).1 := by
  have hplain : ∀ {β : Type} {x : Outcome β}, Returns (fun _ => True) Fault.Reported x →
      Returns (fun _ => True) Fault.Plain x :=
    fun h => h.mono (fun _ _ => trivial) fun _ => Fault.Reported.plain
  cases op with
  | onKey db key op =>
      rw [run, op.run_eq]
      exact Database.withDb_returns Database.plain_range fun ldb => op.onCell_answers env (ldb.cell key)
  | rename db src dst =>
      apply Database.withDb_returns Database.plain_range
      intro ldb
      split
      · show Plain RedisError.noSuchKey.text
        decide
      · trivial
  | renamenx db src dst =>
      apply Database.withDb_returns Database.plain_range
      intro ldb
      split
      · trivial
      · split
        · show Plain RedisError.noSuchKey.text
          decide
        · trivial
  | msetnx db pairs =>
      apply Database.withDb_returns Database.plain_range
      intro ldb
      split <;> trivial
  | del | flushdb | mset => exact Database.withDb_returns Database.plain_range fun ldb => trivial
  | existsKeys | keys | dbsize | randomkey | mget =>
      exact Database.readDb_returns Database.plain_range fun ldb => trivial
  | flushall | evictExpired => trivial
  | lmove db src dst srcLeft dstLeft =>
      exact hplain (self.lmove_returns env.now db src dst srcLeft dstLeft)
  | sunion db names => exact hplain (self.sunion_returns env.now db names)
  | sinter db names => exact hplain (self.sinter_returns env.now db names)
  | sdiff db names => exact hplain (self.sdiff_returns env.now db names)
  | sunionstore db dst names =>
      exact hplain (self.storeSet_returns db dst (self.sunion_returns env.now db names))
  | sinterstore db dst names =>
      exact hplain (self.storeSet_returns db dst (self.sinter_returns env.now db names))
  | sdiffstore db dst names =>
      exact hplain (self.storeSet_returns db dst (self.sdiff_returns env.now db names))
  | smove db src dst member => exact hplain (self.smove_returns env.now db src dst member)

end MiniRudis
