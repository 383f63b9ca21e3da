import MiniRudis.Db.Locality
import MiniRudis.Lib.Normal

/-!
# Lazy and active expiry

The background task evicts expired keys from the maps.  The operations that look
at their keys through an expiry check cannot tell whether it has run.
-/

namespace MiniRudis

open Lib

variable {α : Type}

/-! ## Operations that check -/

/-- The typed operations that reach their key with `get` or `get_mut`. -/
def TypedOp.checksExpiry : TypedOp α → Bool
  | get | strlen | getrange .. | lpushx _ | rpushx _ | llen | lrange .. | lindex _ | lset ..
  | linsert .. | lrem .. | hget _ | hmget _ | hexists _ | hgetall | hkeys | hvals | hlen | smembers
  | sismember _ | smismember _ | scard | zscore _ | zmscore _ | zrank _ | zrevrank _ | zcard
  | zcount .. | zrange .. | zrangebyscore .. | zrevrangebyscore .. => true
  | _ => false

def KeyOp.checksExpiry : KeyOp α → Bool
  | typed op => op.checksExpiry
  | getset _ | set .. | setnx _ | setxx .. | typeOf | pttl | ttl => true
  | _ => false

def Op.checksExpiry : Op α → Bool
  | onKey _ _ op => op.checksExpiry
  | existsKeys .. | keys .. | dbsize _ | mset .. | mget .. | msetnx .. | sunion .. | sinter ..
  | sdiff .. | sunionstore .. | sinterstore .. | sdiffstore .. => true
  | _ => false

/-! ## Cells -/

namespace Cell

def purge (now : Instant) (c : Cell) : Cell := if c.expired now then .absent else c

variable {now : Instant} {g : Cell → Outcome α × Cell}

theorem purge_of_expired {c : Cell} (h : c.expired now = true) : c.purge now = .absent := by
  rw [purge, if_pos h]

theorem purge_absent : purge now .absent = .absent := rfl

theorem live_purge (now : Instant) (c : Cell) : (c.purge now).live now = c.live now := by
  by_cases h : c.expired now
  · rw [purge_of_expired h]
    simp [live, h]
  · rw [purge, if_neg h]

theorem respects_of_expired
    (h : ∀ c, c.expired now = true →
      (g c).1 = (g .absent).1 ∧ (g c).2.purge now = (g .absent).2.purge now) :
    Respects (purge now) g := by
  have hpurge : ∀ c, (g c).1 = (g (c.purge now)).1 ∧
      (g c).2.purge now = (g (c.purge now)).2.purge now := by
    intro c
    by_cases hexp : c.expired now
    · rw [purge_of_expired hexp]
      exact h c hexp
    · rw [purge, if_neg hexp]
      exact ⟨rfl, rfl⟩
  intro c c' hcc
  have hc := hpurge c
  rw [hcc] at hc
  exact ⟨hc.1.trans (hpurge c').1.symm, hc.2.trans (hpurge c').2.symm⟩

theorem live_of_purge_eq {c c' : Cell} (h : c.purge now = c'.purge now) :
    c.live now = c'.live now := by
  rw [← live_purge, h, live_purge]

end Cell

namespace Access

variable {τ : Type} {now : Instant}

theorem read_respects (K : Kind τ) (absent : α) (f : τ → Outcome α) :
    Respects (Cell.purge now) ((Access.read K absent f).onCell now) := by
  apply Cell.respects_of_expired
  intro c hexp
  have hdead : c.live now = none := by simp [Cell.live, hexp]
  simp only [onCell, hdead, Cell.live_absent]
  exact ⟨trivial, Cell.purge_of_expired hexp⟩

theorem modify_respects (K : Kind τ) (absent : Outcome α) (f : τ → Outcome α × τ) :
    Respects (Cell.purge now) ((Access.modify K absent f).onCell now) := by
  apply Cell.respects_of_expired
  intro c hexp
  simp only [onCell, hexp, if_true, Cell.obj_absent, ite_self]
  exact ⟨trivial, trivial⟩

end Access

theorem TypedOp.onCell_respects {op : TypedOp α} (h : op.checksExpiry = true) (env : Env) :
    Respects (Cell.purge env.now) ((op.access env).onCell env.now) := by
  cases op <;> first
    | exact Access.read_respects _ _ _
    | exact Access.modify_respects _ _ _
    | exact absurd h Bool.false_ne_true

theorem KeyOp.onCell_respects {op : KeyOp α} (h : op.checksExpiry = true) (env : Env) :
    Respects (Cell.purge env.now) (op.onCell env) := by
  cases op with
  | typed op => exact op.onCell_respects h env
  | set value dur => exact fun _ _ _ => ⟨rfl, rfl⟩
  | getset _ | setnx _ | setxx _ _ | typeOf =>
      apply Cell.respects_of_expired
      intro c hexp
      have hdead : c.live env.now = none := by simp [Cell.live, hexp]
      simp [onCell, hdead, Cell.purge_of_expired hexp, Cell.purge_absent]
  | pttl | ttl =>
      apply Cell.respects_of_expired
      intro c hexp
      have hgone : c.ttlMs env.now = -2 := by
        unfold Cell.expired at hexp
        unfold Cell.ttlMs
        cases hdeadline : c.deadline with
        | none => simp [hdeadline] at hexp
        | some exp =>
            rw [hdeadline, decide_eq_true_eq] at hexp
            simp only [hexp, if_true, ite_self]
      have hnone : Cell.absent.ttlMs env.now = -2 := rfl
      simp [onCell, hgone, hnone, Cell.purge_of_expired hexp, Cell.purge_absent]
  | _ => exact absurd h Bool.false_ne_true

/-! ## Logical databases -/

namespace LogicalDb

variable {now : Instant} {a b : LogicalDb}

theorem cell_purge (self : LogicalDb) (now : Instant) (key : String) :
    (self.evictExpired now).cell key = (self.cell key).purge now :=
  self.cell_evictExpired now key

theorem evictExpired_eq_iff :
    a.evictExpired now = b.evictExpired now ↔
      ∀ key, (a.cell key).purge now = (b.cell key).purge now := by
  constructor
  · intro h key
    rw [← cell_purge, h, cell_purge]
  · intro h
    apply ext_cell
    intro key
    rw [cell_purge, cell_purge, h]

theorem evictExpired_idem (self : LogicalDb) (now : Instant) :
    (self.evictExpired now).evictExpired now = self.evictExpired now := by
  rw [evictExpired_eq_iff]
  intro key
  rw [cell_purge]
  by_cases h : (self.cell key).expired now
  · rw [Cell.purge_of_expired h, Cell.purge_absent]
  · simp [Cell.purge, h]

theorem get_of_evictExpired_eq (h : a.evictExpired now = b.evictExpired now) (key : String) :
    a.get now key = b.get now key := by
  rw [get_eq, get_eq]
  exact Cell.live_of_purge_eq (evictExpired_eq_iff.mp h key)

theorem readAs_of_evictExpired_eq {τ : Type} (K : Kind τ) (absent : α) (f : τ → Outcome α)
    (h : a.evictExpired now = b.evictExpired now) (key : String) :
    a.readAs K absent f now key = b.readAs K absent f now key := by
  rw [readAs, readAs, get_of_evictExpired_eq h]

theorem mem_liveKeys (self : LogicalDb) (now : Instant) (key : String) :
    key ∈ self.liveKeys now ↔ (self.get now key).isSome := by
  rw [liveKeys, List.mem_filter, Std.ExtTreeMap.mem_keys, mem_data_iff, isExpired_eq, get_eq,
    Cell.live]
  cases (self.cell key).expired now <;> simp

theorem liveKeys_ext (h : ∀ key, (a.get now key).isSome ↔ (b.get now key).isSome) :
    a.liveKeys now = b.liveKeys now := by
  have hsorted : ∀ ldb : LogicalDb,
      (ldb.liveKeys now).Pairwise fun k k' => compare k k' = .lt := fun ldb =>
    ldb.data.ordered_keys.filter _
  have hnodup : ∀ ldb : LogicalDb, (ldb.liveKeys now).Nodup := fun ldb =>
    ldb.data.nodup_keys.filter _
  have hperm : (a.liveKeys now).Perm (b.liveKeys now) := by
    rw [List.perm_ext_iff_of_nodup (hnodup a) (hnodup b)]
    intro key
    rw [mem_liveKeys, mem_liveKeys, h]
  refine hperm.eq_of_pairwise ?_ (hsorted a) (hsorted b)
  intro k k' _ _ hlt hgt
  have hswap : compare k' k = (compare k k').swap := Std.OrientedOrd.eq_swap
  rw [hswap, hlt] at hgt
  exact absurd hgt (by decide)

theorem liveKeys_of_evictExpired_eq (h : a.evictExpired now = b.evictExpired now) :
    a.liveKeys now = b.liveKeys now :=
  liveKeys_ext fun key => by rw [get_of_evictExpired_eq h]

theorem onKey_respects {g : Cell → Outcome α × Cell} (hg : Respects (Cell.purge now) g)
    (key : String) : Respects (fun ldb => ldb.evictExpired now) (onKey key g) := by
  intro a b hab
  rw [evictExpired_eq_iff] at hab
  obtain ⟨hreply, hcell⟩ := hg _ _ (hab key)
  refine ⟨hreply, ?_⟩
  show (a.put key _).evictExpired now = (b.put key _).evictExpired now
  rw [evictExpired_eq_iff]
  intro other
  by_cases hother : other = key
  · rw [hother, cell_put, cell_put]
    exact hcell
  · rw [cell_put_ne a hother, cell_put_ne b hother]
    exact hab other

theorem insert_normal (h : a.evictExpired now = b.evictExpired now) (key : String)
    (value : RudisObject) :
    (a.insert key value).evictExpired now = (b.insert key value).evictExpired now := by
  have hconst : Respects (Cell.purge now) fun _ =>
      ((.ok (), ⟨some value, none⟩) : Outcome Unit × Cell) := fun _ _ _ => ⟨rfl, rfl⟩
  exact (onKey_respects hconst key a b h).2

theorem insertPairs_normal (h : a.evictExpired now = b.evictExpired now)
    (pairs : List (String × Bytes)) :
    (a.insertPairs pairs).evictExpired now = (b.insertPairs pairs).evictExpired now :=
  foldl_normal (n := fun ldb : LogicalDb => ldb.evictExpired now)
    (fun _ _ p hst => insert_normal hst p.1 (.str p.2)) pairs h

end LogicalDb

/-! ## Databases -/

namespace Database

variable {now : Instant} {s t : Database}

theorem evictExpired_idem (self : Database) (now : Instant) :
    (self.evictExpired now).evictExpired now = self.evictExpired now := by
  simp [evictExpired, Function.comp_def, LogicalDb.evictExpired_idem]

theorem dbs_of_evictExpired_eq (h : s.evictExpired now = t.evictExpired now) (db : Nat) :
    s.dbs[db]?.map (fun ldb => ldb.evictExpired now) =
      t.dbs[db]?.map fun ldb => ldb.evictExpired now := by
  have hdbs : s.dbs.map (fun ldb => ldb.evictExpired now) =
      t.dbs.map fun ldb => ldb.evictExpired now := congrArg Database.dbs h
  rw [← List.getElem?_map, hdbs, List.getElem?_map]

theorem readDb_of_evictExpired_eq {f : LogicalDb → Outcome α}
    (hf : ∀ a b : LogicalDb, a.evictExpired now = b.evictExpired now → f a = f b)
    (h : s.evictExpired now = t.evictExpired now) (db : Nat) : s.readDb db f = t.readDb db f := by
  have hdb := dbs_of_evictExpired_eq h db
  unfold readDb
  cases hs : s.dbs[db]? with
  | none =>
      rw [hs, Option.map_none, eq_comm, Option.map_eq_none_iff] at hdb
      rw [hdb]
  | some a =>
      rw [hs, Option.map_some, eq_comm, Option.map_eq_some_iff] at hdb
      obtain ⟨b, hb, hab⟩ := hdb
      rw [hb]
      exact hf a b hab.symm

theorem withDb_respects {f : LogicalDb → Outcome α × LogicalDb}
    (hf : Respects (fun ldb => ldb.evictExpired now) f) (db : Nat) :
    Respects (fun self : Database => self.evictExpired now) fun self => self.withDb db f := by
  intro s t h
  have hdb := dbs_of_evictExpired_eq h db
  cases hs : s.dbs[db]? with
  | none =>
      rw [hs, Option.map_none, eq_comm, Option.map_eq_none_iff] at hdb
      simp only [withDb, hs, hdb]
      exact ⟨trivial, h⟩
  | some a =>
      rw [hs, Option.map_some, eq_comm, Option.map_eq_some_iff] at hdb
      obtain ⟨b, hb, hab⟩ := hdb
      obtain ⟨hreply, hldb⟩ := hf a b hab.symm
      simp only [withDb_eq hs, withDb_eq hb]
      refine ⟨hreply, ?_⟩
      have hdbs : s.dbs.map (fun ldb => ldb.evictExpired now) =
          t.dbs.map fun ldb => ldb.evictExpired now := congrArg Database.dbs h
      have hnew : (f a).2.evictExpired now = (f b).2.evictExpired now := hldb
      simp only [setDb, evictExpired, List.map_set]
      rw [hdbs, hnew]

theorem readDb_respects (db : Nat) {f : LogicalDb → Outcome α}
    (hf : ∀ a b : LogicalDb, a.evictExpired now = b.evictExpired now → f a = f b) :
    Respects (fun self : Database => self.evictExpired now) fun self => (self.readDb db f, self) :=
  .read fun _ _ hst => readDb_of_evictExpired_eq hf hst db

theorem getSetClone_of_evictExpired_eq (h : s.evictExpired now = t.evictExpired now) (db : Nat)
    (key : String) : s.getSetClone now db key = t.getSetClone now db key :=
  readDb_of_evictExpired_eq
    (fun _ _ hab => LogicalDb.readAs_of_evictExpired_eq setKind.toKind ∅ _ hab key) h db

theorem sunion_of_evictExpired_eq (h : s.evictExpired now = t.evictExpired now) (db : Nat)
    (keys : List String) : s.sunion now db keys = t.sunion now db keys := by
  have hclone := getSetClone_of_evictExpired_eq h db
  simp only [sunion, hclone]

theorem sinter_of_evictExpired_eq (h : s.evictExpired now = t.evictExpired now) (db : Nat)
    (keys : List String) : s.sinter now db keys = t.sinter now db keys := by
  have hclone := getSetClone_of_evictExpired_eq h db
  simp only [sinter, hclone]

theorem sdiff_of_evictExpired_eq (h : s.evictExpired now = t.evictExpired now) (db : Nat)
    (keys : List String) : s.sdiff now db keys = t.sdiff now db keys := by
  have hclone := getSetClone_of_evictExpired_eq h db
  simp only [sdiff, hclone]

theorem storeSet_respects {result : Database → Outcome (List String)}
    (h : ∀ s t : Database, s.evictExpired now = t.evictExpired now → result s = result t)
    (db : Nat) (dst : String) :
    Respects (fun self : Database => self.evictExpired now) fun self =>
      self.storeSet db dst (result self) := by
  intro s t hst
  simp only [h s t hst]
  cases result t with
  | error e => exact ⟨rfl, hst⟩
  | ok members =>
      have hinsert : Respects (fun ldb : LogicalDb => ldb.evictExpired now) fun ldb =>
          ((.ok members.length, ldb.insert dst (.set (HashSet.ofList members))) :
            Outcome Nat × LogicalDb) :=
        fun _ _ hab => ⟨rfl, LogicalDb.insert_normal hab dst _⟩
      exact withDb_respects hinsert db s t hst

end Database

theorem Op.run_respects {op : Op α} (h : op.checksExpiry = true) (env : Env) :
    Respects (fun self : Database => self.evictExpired env.now) (op.run env) := by
  cases op with
  | onKey db key op =>
      exact (Database.withDb_respects (LogicalDb.onKey_respects (op.onCell_respects h env) key)
        db).congr fun self => op.run_eq env db key self
  | existsKeys db names =>
      apply Database.readDb_respects db
      intro a b hab
      simp only [LogicalDb.get_of_evictExpired_eq hab]
  | keys db pattern =>
      apply Database.readDb_respects db
      intro a b hab
      rw [LogicalDb.liveKeys_of_evictExpired_eq hab]
  | dbsize db =>
      apply Database.readDb_respects db
      intro a b hab
      rw [LogicalDb.liveKeys_of_evictExpired_eq hab]
  | mget db names =>
      apply Database.readDb_respects db
      intro a b hab
      simp only [LogicalDb.get_of_evictExpired_eq hab]
  | mset db pairs =>
      apply Database.withDb_respects _ db
      intro a b hab
      exact ⟨rfl, LogicalDb.insertPairs_normal hab pairs⟩
  | msetnx db pairs =>
      apply Database.withDb_respects _ db
      intro a b hab
      simp only [LogicalDb.get_of_evictExpired_eq hab]
      split
      · exact ⟨rfl, hab⟩
      · exact ⟨rfl, LogicalDb.insertPairs_normal hab pairs⟩
  | sunion db names =>
      exact .read fun s t hst => Database.sunion_of_evictExpired_eq hst db names
  | sinter db names =>
      exact .read fun s t hst => Database.sinter_of_evictExpired_eq hst db names
  | sdiff db names =>
      exact .read fun s t hst => Database.sdiff_of_evictExpired_eq hst db names
  | sunionstore db dst names =>
      exact Database.storeSet_respects
        (fun s t hst => Database.sunion_of_evictExpired_eq hst db names) db dst
  | sinterstore db dst names =>
      exact Database.storeSet_respects
        (fun s t hst => Database.sinter_of_evictExpired_eq hst db names) db dst
  | sdiffstore db dst names =>
      exact Database.storeSet_respects
        (fun s t hst => Database.sdiff_of_evictExpired_eq hst db names) db dst
  | _ => exact absurd h Bool.false_ne_true

/-- **Lazy and active expiry agree.**  An operation that checks expiry replies the
same before and after a sweep, and a sweep of the two results gives one state. -/
theorem Op.run_evictExpired (op : Op α) (env : Env) (self : Database)
    (h : op.checksExpiry = true) :
    (op.run env self).1 = (op.run env (self.evictExpired env.now)).1 ∧
      (op.run env self).2.evictExpired env.now =
        (op.run env (self.evictExpired env.now)).2.evictExpired env.now :=
  (op.run_respects h env).normal (fun s => s.evictExpired_idem env.now) self

/-- A list under `k` that has expired at 10 and was not evicted yet. -/
def unsweptDb : Database :=
  ⟨[{ data := (∅ : StrMap RudisObject).insert "k" (.list [[1]]),
      expiry := (∅ : StrMap Instant).insert "k" 10 }]⟩

theorem Op.run_evictExpired_sample :
    ((Op.onKey 0 "k" (.typed (.rpushx [[2]]))).run (.at 10) unsweptDb).1 =
        ((Op.onKey 0 "k" (.typed (.rpushx [[2]]))).run (.at 10) (unsweptDb.evictExpired 10)).1 ∧
      ((Op.onKey 0 "k" (.typed (.rpushx [[2]]))).run (.at 10) unsweptDb).2.evictExpired 10 =
        ((Op.onKey 0 "k" (.typed (.rpushx [[2]]))).run (.at 10)
          (unsweptDb.evictExpired 10)).2.evictExpired 10 :=
  Op.run_evictExpired (.onKey 0 "k" (.typed (.rpushx [[2]]))) (.at 10) unsweptDb rfl

end MiniRudis
