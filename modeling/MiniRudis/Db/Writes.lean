import MiniRudis.Db.BulkWrites
import MiniRudis.Db.Shedding

/-!
# What an operation writes

A cell changes only by an operation that names its key to write it, or by eviction.
-/

namespace MiniRudis

open Lib

variable {α : Type}

/-! ## Operations that read -/

/-- The typed operations that never change their cell. -/
def TypedOp.reads : TypedOp α → Bool
  | get | strlen | getrange .. | llen | lrange .. | lindex _ | hget _ | hmget _ | hexists _
  | hgetall | hkeys | hvals | hlen | smembers | sismember _ | smismember _ | scard | srandmember _
  | zscore _ | zmscore _ | zrank _ | zrevrank _ | zcard | zcount .. | zrange .. | zrangebyscore ..
  | zrevrangebyscore .. => true
  | _ => false

def KeyOp.reads : KeyOp α → Bool
  | typed op => op.reads
  | typeOf | pttl | ttl => true
  | _ => false

theorem Access.onCell_read {τ : Type} (K : Kind τ) (absent : α) (f : τ → Outcome α) (now : Instant)
    (c : Cell) : ((Access.read K absent f).onCell now c).2 = c := by
  rw [onCell]
  cases c.live now with
  | none => rfl
  | some o =>
      dsimp only
      cases K.proj o <;> rfl

theorem TypedOp.onCell_reads {op : TypedOp α} (h : op.reads = true) (env : Env) (c : Cell) :
    ((op.access env).onCell env.now c).2 = c := by
  cases op <;> first
    | exact Access.onCell_read _ _ _ _ _
    | exact absurd h Bool.false_ne_true

theorem KeyOp.onCell_reads {op : KeyOp α} (h : op.reads = true) (env : Env) (c : Cell) :
    (op.onCell env c).2 = c := by
  cases op with
  | typed op => exact op.onCell_reads h env c
  | typeOf =>
      rw [onCell]
      cases c.live env.now <;> rfl
  | pttl | ttl => rfl
  | _ => exact absurd h Bool.false_ne_true

theorem KeyOp.reads_respects {op : KeyOp α} (h : op.reads = true) (env : Env) :
    Respects (Cell.purge env.now) (op.onCell env) := by
  cases op with
  | typed op =>
      cases op <;> first
        | exact Access.read_respects _ _ _
        | exact absurd h Bool.false_ne_true
  | typeOf | pttl | ttl => exact KeyOp.onCell_respects rfl env
  | _ => exact absurd h Bool.false_ne_true

/-! ## Frames -/

def Op.Writes (db : Nat) (key : String) : Op α → Prop
  | onKey db' key' op => db' = db ∧ key' = key ∧ op.reads = false
  | del db' names => db' = db ∧ key ∈ names
  | rename db' src dst | renamenx db' src dst | lmove db' src dst _ _ | smove db' src dst _ =>
      db' = db ∧ (key = src ∨ key = dst)
  | flushdb db' => db' = db
  | flushall => True
  | mset db' pairs | msetnx db' pairs => db' = db ∧ ∃ p ∈ pairs, p.1 = key
  | sunionstore db' dst _ | sinterstore db' dst _ | sdiffstore db' dst _ => db' = db ∧ key = dst
  | _ => False

namespace LogicalDb

variable {key : String}

theorem cell_insert_ne (ldb : LogicalDb) {other : String} (h : key ≠ other) (value : RudisObject) :
    (ldb.insert other value).cell key = ldb.cell key := by
  rw [insert_eq]
  exact cell_put_ne ldb h _

theorem cell_remove_ne (ldb : LogicalDb) {other : String} (h : key ≠ other) :
    (ldb.remove other).2.cell key = ldb.cell key := by
  rw [remove_eq]
  exact cell_put_ne ldb h _

theorem cell_insertPairs_ne (ldb : LogicalDb) {pairs : List (String × Bytes)}
    (h : ¬ ∃ p ∈ pairs, p.1 = key) : (ldb.insertPairs pairs).cell key = ldb.cell key := by
  have hnone : lastValue pairs key = none := by
    rw [← Option.not_isSome_iff_eq_none, lastValue_isSome_iff]
    exact h
  rw [cell_insertPairs, hnone]
  rfl

theorem cell_onKey_ne (ldb : LogicalDb) {other : String} (h : key ≠ other)
    (g : Cell → Outcome α × Cell) : (ldb.onKey other g).2.cell key = ldb.cell key :=
  cell_put_ne ldb h _

theorem cell_removeKeys (ldb : LogicalDb) {keys : List String} (h : key ∉ keys) :
    (ldb.removeKeys keys).2.cell key = ldb.cell key := by
  unfold removeKeys
  induction keys generalizing ldb with
  | nil => rfl
  | cons other keys ih =>
      obtain ⟨hne, hrest⟩ := not_or.mp (List.mem_cons.not.mp h)
      rw [tally, ih _ hrest]
      exact ldb.cell_remove_ne hne

theorem cell_removeKeys_mem (ldb : LogicalDb) {keys : List String} (h : key ∈ keys) :
    (ldb.removeKeys keys).2.cell key = .absent := by
  unfold removeKeys
  induction keys generalizing ldb with
  | nil => exact absurd h List.not_mem_nil
  | cons other keys ih =>
      by_cases hmem : key ∈ keys
      · exact ih (ldb.remove other).2 hmem
      · obtain rfl := (List.mem_cons.mp h).resolve_right hmem
        have hlater : ((ldb.remove key).2.removeKeys keys).2.cell key = (ldb.remove key).2.cell key :=
          (ldb.remove key).2.cell_removeKeys hmem
        rw [remove_eq, cell_put] at hlater
        exact hlater

theorem cell_insertTaken (ldb : LogicalDb) {src dst : String} (hsrc : key ≠ src) (hdst : key ≠ dst)
    (missing : Outcome α) (done : α) :
    (insertTaken dst missing done (ldb.remove src)).2.cell key = ldb.cell key := by
  have hremoved := ldb.cell_remove_ne hsrc
  generalize ldb.remove src = removed at *
  obtain ⟨_ | obj, ldb'⟩ := removed
  · exact hremoved
  · exact (ldb'.cell_insert_ne hdst obj).trans hremoved

theorem cell_moveVia (ldb : LogicalDb) {src dst : String} (hsrc : key ≠ src) (hdst : key ≠ dst)
    (take : Cell → Outcome α × Cell) (put : α → Option (Cell → Outcome α × Cell)) :
    (ldb.moveVia src dst take put).2.cell key = ldb.cell key := by
  have htaken := ldb.cell_onKey_ne hsrc take
  unfold moveVia
  generalize ldb.onKey src take = taken at *
  obtain ⟨_ | x, ldb'⟩ := taken
  · exact htaken
  · dsimp only
    cases put x with
    | none => exact htaken
    | some g => exact (ldb'.cell_onKey_ne hdst g).trans htaken

end LogicalDb

namespace Database

variable {db : Nat} {key : String}

theorem cellAt_withDb (self : Database) {db' : Nat} {f : LogicalDb → Outcome α × LogicalDb}
    (h : db' = db → ∀ ldb, (f ldb).2.cell key = ldb.cell key) :
    (self.withDb db' f).2.cellAt db key = self.cellAt db key := by
  by_cases hdb : db' = db
  · subst hdb
    cases hself : self.dbs[db']? with
    | none => rw [withDb, hself]
    | some ldb =>
        rw [withDb_eq hself, cellAt_eq (dbs_setDb hself _), cellAt_eq hself]
        exact h rfl ldb
  · unfold cellAt
    rw [withDb_other self db' f (Ne.symm hdb)]

theorem cellAt_evictExpired (self : Database) (now : Instant) :
    (self.evictExpired now).cellAt db key = (self.cellAt db key).purge now := by
  unfold cellAt
  rw [evictExpired, List.getElem?_map]
  cases self.dbs[db]? with
  | none => rfl
  | some ldb => exact ldb.cell_purge now key

theorem cellAt_storeSet (self : Database) {db' : Nat} {dst : String}
    (h : ¬ (db' = db ∧ key = dst)) (result : Outcome (List String)) :
    (self.storeSet db' dst result).2.cellAt db key = self.cellAt db key := by
  cases result with
  | error e => rfl
  | ok members =>
      exact cellAt_withDb self fun hdb ldb => ldb.cell_insert_ne (fun hkey => h ⟨hdb, hkey⟩) _

end Database

/-- **A cell that is not written stays**, or eviction takes it when it has expired. -/
theorem Op.run_unwritten (op : Op α) (env : Env) (self : Database) {db : Nat} {key : String}
    (h : ¬ op.Writes db key) :
    (self.cellAt db key).Sheds env.now ((op.run env self).2.cellAt db key) := by
  have hsame : (op.run env self).2.cellAt db key = self.cellAt db key →
      (self.cellAt db key).Sheds env.now ((op.run env self).2.cellAt db key) :=
    fun heq => Or.inl heq.symm
  cases op with
  | evictExpired =>
      rw [Op.run, Database.cellAt_evictExpired]
      exact (Cell.Sheds.refl _ _).purge
  | flushall => exact absurd trivial h
  | existsKeys | keys | dbsize | randomkey | mget | sunion | sinter | sdiff => exact .refl _ _
  | onKey db' key' op =>
      apply hsame
      rw [Op.run, op.run_eq]
      refine Database.cellAt_withDb self fun hdb ldb => ?_
      by_cases hkey : key' = key
      · have hreads : op.reads = true := by
          by_contra hwrites
          exact h ⟨hdb, hkey, Bool.eq_false_iff.mpr hwrites⟩
        rw [hkey, LogicalDb.onKey, LogicalDb.cell_put, op.onCell_reads hreads]
      · exact ldb.cell_onKey_ne (Ne.symm hkey) _
  | del db' names =>
      exact hsame <| Database.cellAt_withDb self fun hdb ldb =>
        ldb.cell_removeKeys fun hkey => h ⟨hdb, hkey⟩
  | rename db' src dst =>
      refine hsame <| Database.cellAt_withDb self fun hdb ldb => ?_
      exact ldb.cell_insertTaken (fun hkey => h ⟨hdb, Or.inl hkey⟩)
        (fun hkey => h ⟨hdb, Or.inr hkey⟩) (err .noSuchKey) ()
  | renamenx db' src dst =>
      refine hsame <| Database.cellAt_withDb self fun hdb ldb => ?_
      split
      · rfl
      · exact ldb.cell_insertTaken (fun hkey => h ⟨hdb, Or.inl hkey⟩)
          (fun hkey => h ⟨hdb, Or.inr hkey⟩) (err .noSuchKey) true
  | flushdb db' => exact hsame <| Database.cellAt_withDb self fun hdb => absurd hdb h
  | mset db' pairs =>
      exact hsame <| Database.cellAt_withDb self fun hdb ldb =>
        ldb.cell_insertPairs_ne fun hkey => h ⟨hdb, hkey⟩
  | msetnx db' pairs =>
      refine hsame <| Database.cellAt_withDb self fun hdb ldb => ?_
      split
      · rfl
      · exact ldb.cell_insertPairs_ne fun hkey => h ⟨hdb, hkey⟩
  | lmove db' src dst srcLeft dstLeft =>
      apply hsame
      rw [Op.run]
      by_cases heq : src = dst
      · subst heq
        rw [Database.lmove_self_eq]
        exact Database.cellAt_withDb self fun hdb ldb =>
          ldb.cell_onKey_ne (fun hkey => h ⟨hdb, Or.inl hkey⟩) _
      · rw [Database.lmove_eq _ _ _ heq]
        refine Database.cellAt_withDb self fun hdb ldb => ldb.cell_moveVia ?_ ?_ _ _
        · exact fun hkey => h ⟨hdb, Or.inl hkey⟩
        · exact fun hkey => h ⟨hdb, Or.inr hkey⟩
  | sunionstore db' dst names | sinterstore db' dst names | sdiffstore db' dst names =>
      exact hsame (Database.cellAt_storeSet self h _)
  | smove db' src dst member =>
      apply hsame
      rw [Op.run, Database.smove_eq]
      refine Database.cellAt_withDb self fun hdb ldb => ldb.cell_moveVia ?_ ?_ _ _
      · exact fun hkey => h ⟨hdb, Or.inl hkey⟩
      · exact fun hkey => h ⟨hdb, Or.inr hkey⟩

/-! ## The number of databases -/

theorem Database.length_withDb (self : Database) (db : Nat)
    (f : LogicalDb → Outcome α × LogicalDb) :
    (self.withDb db f).2.dbs.length = self.dbs.length := by
  cases hdb : self.dbs[db]? with
  | none => rw [withDb, hdb]
  | some ldb => rw [withDb_eq hdb, setDb, List.length_set]

theorem Database.length_storeSet (self : Database) (db : Nat) (dst : String)
    (result : Outcome (List String)) :
    (self.storeSet db dst result).2.dbs.length = self.dbs.length := by
  cases result with
  | error e => rfl
  | ok members => exact self.length_withDb db _

theorem Op.length_run (op : Op α) (env : Env) (self : Database) :
    (op.run env self).2.dbs.length = self.dbs.length := by
  cases op with
  | existsKeys | keys | dbsize | randomkey | mget | sunion | sinter | sdiff => rfl
  | flushall | evictExpired => exact List.length_map _
  | del | rename | renamenx | flushdb | mset | msetnx => exact self.length_withDb _ _
  | sunionstore | sinterstore | sdiffstore => exact self.length_storeSet _ _ _
  | onKey db key op =>
      rw [Op.run, op.run_eq]
      exact self.length_withDb db _
  | lmove db src dst srcLeft dstLeft =>
      rw [Op.run]
      by_cases heq : src = dst
      · subst heq
        rw [Database.lmove_self_eq]
        exact self.length_withDb db _
      · rw [Database.lmove_eq _ _ _ heq]
        exact self.length_withDb db _
  | smove db src dst member =>
      rw [Op.run, Database.smove_eq]
      exact self.length_withDb db _

end MiniRudis
