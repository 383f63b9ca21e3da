import MiniRudis.Db.Expired

/-!
# Key commands on expired keys

`DEL`, `RENAME`, `GETDEL` and the commands on deadlines look into the maps
directly, and find there what a read no longer sees.
-/

namespace MiniRudis

open Lib

variable {α : Type}

def Op.AddressesKey (db : Nat) (key : String) : Op α → Prop
  | onKey db' key' (.expire amount) | onKey db' key' (.pexpire amount) =>
      db' = db ∧ key' = key ∧ 0 ≤ amount
  | onKey db' key' (.expireat _) | onKey db' key' (.pexpireat _) | onKey db' key' .persist
  | onKey db' key' .getdel => db' = db ∧ key' = key
  | rename db' src _ | renamenx db' src _ => db' = db ∧ src = key
  | del db' names => db' = db ∧ key ∈ names
  | _ => False

def Op.target : Op α → Option String
  | rename _ _ dst | renamenx _ _ dst => some dst
  | _ => none

/-- The operation replies as if the key did not exist; afterwards the key is still
invisible, and a rename target shows what it showed before. -/
structure Op.LeavesDead (op : Op α) (env : Env) (db : Nat) (key : String) (dbase : Database) :
    Prop where
  reply : (op.run env dbase).1 = (op.run env (dbase.removed db key)).1
  replies : (op.run env dbase).1 ≠ panicked
  hidden : (op.run env dbase).2.visible env.now db key = none
  target : ∀ dst, op.target = some dst →
    (op.run env dbase).2.visible env.now db dst = dbase.visible env.now db dst

def Op.RefusesTarget (ldb : LogicalDb) (now : Instant) : Op α → Prop
  | renamenx _ _ dst => (ldb.get now dst).isSome
  | _ => False

/-! ## Replies -/

theorem absoluteDeadline_error {now : Instant} {sysNow : SystemTime} {sinceEpoch : Duration}
    {e : Fault} (h : absoluteDeadline now sysNow sinceEpoch = .error e) : e = .panicked := by
  unfold absoluteDeadline at h
  cases htarget : addDuration 0 sinceEpoch with
  | error e' =>
      rw [htarget] at h
      rw [← Except.error.inj h]
      exact addDuration_error htarget
  | ok target =>
      simp only [htarget, bind, Except.bind] at h
      split at h
      · exact absurd h (by simp [pure, Except.pure])
      · cases hexp : addDuration now (target - sysNow).toNat with
        | error e' =>
            rw [hexp] at h
            rw [← Except.error.inj h]
            exact addDuration_error hexp
        | ok exp =>
            rw [hexp] at h
            exact absurd h (by simp [pure, Except.pure])

namespace Cell

variable {c : Cell}

theorem setExpiry_ne (h : c.obj.isSome = true) (now : Instant) (duration : Duration) :
    (c.setExpiry now duration).1 ≠ .ok false := by
  rw [setExpiry, if_pos h]
  cases addDuration now duration <;> simp

theorem expireIn_ne (h : c.obj.isSome = true) (now : Instant) {amount : Int} (hamount : 0 ≤ amount)
    (duration : Duration) :
    (c.expireIn now amount duration).1 ≠ (Cell.absent.expireIn now amount duration).1 := by
  have hneg : ¬ amount < 0 := not_lt.mpr hamount
  rw [expireIn, expireIn, if_neg hneg, if_neg hneg]
  exact c.setExpiry_ne h now duration

theorem expireAt_ne (h : c.obj.isSome = true) (now : Instant) (sysNow : SystemTime)
    (sinceEpoch : Duration) (hreply : (c.expireAt now sysNow sinceEpoch).1 ≠ panicked) :
    (c.expireAt now sysNow sinceEpoch).1 ≠ (Cell.absent.expireAt now sysNow sinceEpoch).1 := by
  unfold expireAt at *
  cases habs : absoluteDeadline now sysNow sinceEpoch with
  | error e =>
      rw [habs] at hreply
      exact absurd (congrArg Except.error (absoluteDeadline_error habs)) hreply
  | ok exp =>
      cases exp with
      | none => simp [remove, h, absent]
      | some exp => simp [setExpiryAt, h, absent]

end Cell

namespace LogicalDb

theorem put_comm (self : LogicalDb) {key other : String} (h : key ≠ other) (c c' : Cell) :
    (self.put key c).put other c' = (self.put other c').put key c := by
  apply ext_cell
  intro k
  by_cases hk : k = key
  · subst hk
    rw [cell_put, cell_put_ne _ h, cell_put]
  · rw [cell_put_ne _ hk]
    by_cases hother : k = other
    · subst hother
      rw [cell_put, cell_put]
    · rw [cell_put_ne _ hother, cell_put_ne _ hother, cell_put_ne _ hk]

theorem removeKeys_succ {key : String} (keys : List String) (hmem : key ∈ keys)
    (self : LogicalDb) (h : (self.cell key).obj.isSome = true) :
    (self.removeKeys keys).1 = ((self.put key .absent).removeKeys keys).1 + 1 := by
  unfold removeKeys
  induction keys generalizing self with
  | nil => exact absurd hmem (by simp)
  | cons k keys ih =>
      rw [tally, tally]
      by_cases hk : k = key
      · subst hk
        simp [remove_eq, h, Cell.absent]
      · have hcell : (self.put k .absent).cell key = self.cell key :=
          cell_put_ne self (Ne.symm hk) .absent
        have hrest := ih (List.mem_of_ne_of_mem (Ne.symm hk) hmem) (self.put k .absent)
          (by rw [hcell]; exact h)
        have hcomm := self.put_comm hk .absent .absent
        simp only [remove_eq] at hrest ⊢
        rw [hrest, hcomm, cell_put_ne self hk]
        omega

end LogicalDb

/-! ## The exact condition -/

section

variable {env : Env} {self : Database} {db : Nat} {key : String} {ldb : LogicalDb}

theorem Op.not_leavesDead (op : Op α) (hdb : self.dbs[db]? = some ldb)
    {f : LogicalDb → Outcome α × LogicalDb} (hrun : ∀ self, op.run env self = self.withDb db f)
    (hne : (f ldb).1 ≠ panicked → (f ldb).1 ≠ (f (ldb.put key .absent)).1) :
    ¬ op.LeavesDead env db key self := by
  intro hdead
  have hreply := hdead.reply
  have hreplies := hdead.replies
  rw [hrun, hrun, Database.removed_eq hdb, Database.withDb_eq hdb,
    Database.withDb_eq (Database.dbs_setDb hdb _)] at hreply
  rw [hrun, Database.withDb_eq hdb] at hreplies
  exact hne hreplies hreply

theorem KeyOp.not_leavesDead (op : KeyOp α) (hdb : self.dbs[db]? = some ldb)
    (hne : (op.onCell env (ldb.cell key)).1 ≠ panicked →
      (op.onCell env (ldb.cell key)).1 ≠ (op.onCell env .absent).1) :
    ¬ (Op.onKey db key op).LeavesDead env db key self := by
  have hrun : ∀ self : Database, (Op.onKey db key op).run env self =
      self.withDb db (LogicalDb.onKey key (op.onCell env)) :=
    fun self => op.run_eq env db key self
  apply Op.not_leavesDead _ hdb hrun
  show _ → _ ≠ (op.onCell env ((ldb.put key .absent).cell key)).1
  rw [LogicalDb.cell_put]
  exact hne

theorem Database.renamenx_refused {now : Instant} (hdb : self.dbs[db]? = some ldb) (src : String)
    {dst : String} (hlive : (ldb.get now dst).isSome = true) :
    self.renamenx now db src dst = (.ok false, self) := by
  rw [renamenx, withDb_eq hdb]
  simp only [hlive, if_true, setDb_self hdb]

theorem LogicalDb.stale_cell (hdata : key ∈ ldb.data) (hexp : ldb.isExpired env.now key = true) :
    (ldb.cell key).obj.isSome = true ∧ (ldb.cell key).deadline.isSome = true := by
  refine ⟨(ldb.mem_data_iff key).mp hdata, ?_⟩
  rw [isExpired_eq] at hexp
  unfold Cell.expired at hexp
  split at hexp <;> simp_all

/-- **Expired keys come back.**  A key-level command addressed to a stored key
whose deadline has passed treats it as gone only if it is `RENAMENX` and refuses
for its target's sake. -/
theorem Op.leavesDead_iff (op : Op α) (env : Env) (db : Nat) (key : String) (self : Database)
    (ldb : LogicalDb) (hdb : self.dbs[db]? = some ldb) (hdata : key ∈ ldb.data)
    (hexp : ldb.isExpired env.now key = true) (hop : op.AddressesKey db key) :
    op.LeavesDead env db key self ↔ op.RefusesTarget ldb env.now := by
  obtain ⟨hobj, hdated⟩ := LogicalDb.stale_cell hdata hexp
  cases op with
  | onKey db' key' op =>
      apply iff_of_false _ (fun h => h.elim)
      cases op with
      | expire secs =>
          obtain ⟨rfl, rfl, hamount⟩ := hop
          exact KeyOp.not_leavesDead _ hdb fun _ => Cell.expireIn_ne hobj env.now hamount _
      | pexpire ms =>
          obtain ⟨rfl, rfl, hamount⟩ := hop
          exact KeyOp.not_leavesDead _ hdb fun _ => Cell.expireIn_ne hobj env.now hamount _
      | expireat tsSecs =>
          obtain ⟨rfl, rfl⟩ := hop
          exact KeyOp.not_leavesDead _ hdb (Cell.expireAt_ne hobj env.now env.sysNow _)
      | pexpireat tsMs =>
          obtain ⟨rfl, rfl⟩ := hop
          exact KeyOp.not_leavesDead _ hdb (Cell.expireAt_ne hobj env.now env.sysNow _)
      | persist =>
          obtain ⟨rfl, rfl⟩ := hop
          apply KeyOp.not_leavesDead _ hdb
          intro _
          simp [KeyOp.onCell, hdated, Cell.absent]
      | getdel =>
          obtain ⟨rfl, rfl⟩ := hop
          apply KeyOp.not_leavesDead _ hdb
          intro _
          obtain ⟨o, ho⟩ := Option.isSome_iff_exists.mp hobj
          cases o <;> simp [KeyOp.onCell, ho, Cell.absent]
      | typed _ | getset _ | set _ _ | setnx _ | setxx _ _ | typeOf | pttl | ttl => exact hop.elim
  | rename db' src dst =>
      obtain ⟨rfl, rfl⟩ := hop
      apply iff_of_false _ (fun h => h.elim)
      apply Op.not_leavesDead _ hdb fun self => rfl
      intro _
      obtain ⟨o, ho⟩ := Option.isSome_iff_exists.mp hobj
      simp [LogicalDb.remove_eq, ho, Cell.absent]
  | renamenx db' src dst =>
      obtain ⟨rfl, rfl⟩ := hop
      by_cases hlive : (ldb.get env.now dst).isSome = true
      · apply iff_of_true _ hlive
        have hne : dst ≠ src := by
          rintro rfl
          rw [LogicalDb.isExpired_eq] at hexp
          simp [LogicalDb.get_eq, Cell.live_of_expired hexp] at hlive
        have hput : ((ldb.put src .absent).get env.now dst).isSome = true := by
          rw [LogicalDb.get_eq, LogicalDb.cell_put_ne ldb hne, ← LogicalDb.get_eq]
          exact hlive
        have hsame := Database.renamenx_refused hdb src hlive
        have hremoved := Database.renamenx_refused (Database.dbs_setDb hdb (ldb.put src .absent))
          src hput
        rw [← Database.removed_eq hdb] at hremoved
        constructor
        case reply =>
          show (self.renamenx _ _ _ _).1 = ((self.removed _ _).renamenx _ _ _ _).1
          rw [hsame, hremoved]
        case replies =>
          show (self.renamenx _ _ _ _).1 ≠ _
          simp [hsame]
        case hidden =>
          show (self.renamenx _ _ _ _).2.visible _ _ _ = _
          rw [LogicalDb.isExpired_eq] at hexp
          rw [hsame, Database.visible, hdb, Option.bind_some, LogicalDb.get_eq,
            Cell.live_of_expired hexp]
        case target =>
          intro dst' _
          show (self.renamenx _ _ _ _).2.visible _ _ _ = _
          rw [hsame]
      · apply iff_of_false _ hlive
        apply Op.not_leavesDead _ hdb fun self => rfl
        intro _
        obtain ⟨o, ho⟩ := Option.isSome_iff_exists.mp hobj
        have hput : ¬ ((ldb.put src .absent).get env.now dst).isSome = true := by
          rw [LogicalDb.get_eq]
          by_cases hdst : dst = src
          · simp [hdst]
          · rw [LogicalDb.cell_put_ne ldb hdst, ← LogicalDb.get_eq]
            exact hlive
        simp [hlive, hput, LogicalDb.remove_eq, ho]
  | del db' names =>
      obtain ⟨rfl, hmem⟩ := hop
      apply iff_of_false _ (fun h => h.elim)
      apply Op.not_leavesDead _ hdb fun self => rfl
      intro _
      have hcount := ldb.removeKeys_succ names hmem hobj
      simp only [hcount, ne_eq, Except.ok.injEq]
      omega
  | _ => exact hop.elim

end

def staleString : LogicalDb where
  data := ((∅ : StrMap RudisObject).insert "k" (.str [1])).insert "t" (.str [2])
  expiry := (∅ : StrMap Instant).insert "k" 10

theorem Op.leavesDead_sample :
    (Op.renamenx 0 "k" "t").LeavesDead (.at 10) 0 "k" ⟨[staleString]⟩ ↔
      (Op.renamenx 0 "k" "t").RefusesTarget staleString 10 :=
  Op.leavesDead_iff (.renamenx 0 "k" "t") (.at 10) 0 "k" ⟨[staleString]⟩ staleString rfl
    (by decide) (by decide) ⟨rfl, rfl⟩

/-- `RENAME` of an expired key shows its value under the new name. -/
theorem Op.rename_revives :
    ¬ ∀ (α : Type) (op : Op α) (env : Env) (db : Nat) (key : String) (self : Database)
      (ldb : LogicalDb), self.dbs[db]? = some ldb → key ∈ ldb.data →
      ldb.isExpired env.now key = true → op.AddressesKey db key →
      op.LeavesDead env db key self := by
  intro hclaim
  have hdead := hclaim _ (.rename 0 "k" "u") (.at 10) 0 "k" ⟨[staleString]⟩ staleString rfl
    (by decide) (by decide) ⟨rfl, rfl⟩
  have hvisible := congrArg Option.isSome (hdead.target "u" rfl)
  exact absurd hvisible (by decide)

end MiniRudis
