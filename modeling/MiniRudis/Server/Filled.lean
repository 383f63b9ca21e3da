import MiniRudis.Server.Requests

/-!
# No empty aggregates in a run

The states of a server none of whose calls leaves an aggregate empty.
-/

namespace MiniRudis

open Lib

namespace ServerCall

def Fills : (β : Type) → ServerCall β → Server → Prop
  | _, db env op, s => op.Fills env s.db
  | _, _, _ => True

theorem exec_filled (β : Type) (call : ServerCall β) (s : Server)
    (hs : s.db.Sound RudisObject.Filled) (hfull : call.Full) (hfills : call.Fills β s) :
    (exec β call s).2.db.Sound RudisObject.Filled := by
  cases call with
  | db env op => exact op.run_sound lax_filled hs (op.keeps_filled hfull hfills)
  | cacheGet | cacheInsert | cacheClear => exact hs

end ServerCall

theorem Host.runEvents_filled (host : Host) (depth dbCount : Nat) (events : List Event)
    (h : host.EachCall depth ServerCall.Fills events (.new dbCount)) :
    (host.runEvents depth (.new dbCount) events).db.Sound RudisObject.Filled :=
  host.runEvents_keeps ServerCall.exec_filled events (Database.new_sound dbCount) h

/-! ## Sizes -/

namespace Database

variable {self : Database}

/-- The key is not there: `EXISTS` replies 0 and `TYPE` none. -/
def Missing (self : Database) (env : Env) (db : Nat) (key : String) : Prop :=
  self.existsKeys env.now db [key] = .ok 0 ∧ self.typeOf env.now db key = .ok "none"

theorem missing_iff {env : Env} {db : Nat} {ldb : LogicalDb} (hdb : self.dbs[db]? = some ldb)
    (key : String) : self.Missing env db key ↔ ldb.get env.now key = none := by
  unfold Missing existsKeys typeOf readDb
  rw [hdb]
  dsimp only
  cases hget : ldb.get env.now key with
  | none => simp [hget]
  | some o => cases o <;> simp [hget, RudisObject.typeName]

theorem size_eq_zero_iff {τ : Type} (h : self.Sound RudisObject.Filled) (K : Kind τ) (env : Env)
    (db : Nat) (key : String) {size : τ → Nat} (hsize : ∀ v, (K.inj v).Filled → size v ≠ 0) :
    self.readDb db (LogicalDb.readAs K 0 (fun v => .ok (size v)) env.now key) = .ok 0 ↔
      self.Missing env db key := by
  cases hdb : self.dbs[db]? with
  | none => simp [readDb, Missing, existsKeys, hdb]
  | some ldb =>
      rw [missing_iff hdb, readDb, hdb]
      dsimp only
      unfold LogicalDb.readAs
      rw [LogicalDb.get_eq]
      cases hlive : (ldb.cell key).live env.now with
      | none => simp
      | some o =>
          have hfilled := (h ldb (List.mem_of_getElem? hdb) key).good o (Cell.live_eq_some hlive).2
          cases hproj : K.proj o with
          | none => simp [hproj]
          | some v =>
              rw [K.inj_proj hproj] at hfilled
              simp [hproj, hsize v hfilled]

end Database

/-- **No empty aggregates.**  In every state of a run none of whose calls leaves an
aggregate empty, no key holds an empty list, hash, set or sorted set, and the size of a
key is 0 exactly if `EXISTS` is 0 and `TYPE` is none. -/
theorem runEvents_no_empty (host : Host) (depth dbCount : Nat) (events : List Event)
    (h : host.EachCall depth ServerCall.Fills events (.new dbCount)) :
    let db := (host.runEvents depth (.new dbCount) events).db
    (∀ ldb ∈ db.dbs, ∀ (key : String) (o : RudisObject),
      ldb.data[key]? = some o → o.isEmptyAggregate = false) ∧
      ∀ env i key,
        (db.llen env.now i key = .ok 0 ↔ db.Missing env i key) ∧
        (db.hlen env.now i key = .ok 0 ↔ db.Missing env i key) ∧
        (db.scard env.now i key = .ok 0 ↔ db.Missing env i key) ∧
        (db.zcard env.now i key = .ok 0 ↔ db.Missing env i key) := by
  have hsound := host.runEvents_filled depth dbCount events h
  have hmap : ∀ {α : Type} (m : StrMap α), m.isEmpty = false → m.size ≠ 0 := by
    intro α m hm hzero
    rw [Std.ExtTreeMap.isEmpty_eq_size_beq_zero, hzero] at hm
    exact absurd hm nofun
  refine ⟨fun ldb hldb key o ho => (hsound ldb hldb key).good o ho, fun env i key => ?_⟩
  refine ⟨?_, ?_, ?_, ?_⟩
  · apply Database.size_eq_zero_iff hsound listKind.toKind env i key
    intro l hl hzero
    exact list_ne_nil hl (List.length_eq_zero_iff.mp hzero)
  · exact Database.size_eq_zero_iff hsound hashKind.toKind env i key fun h hh => hmap h hh
  · apply Database.size_eq_zero_iff hsound setKind.toKind env i key
    intro s hs hzero
    have hempty : s.isEmpty = false := hs
    rw [Std.ExtTreeSet.isEmpty_eq_size_beq_zero, hzero] at hempty
    exact absurd hempty nofun
  · exact Database.size_eq_zero_iff hsound zsetKind.toKind env i key fun z hz => hmap z.scores hz

/-- An element is removed, one is popped and one is trimmed away before a sweep. -/
def shortened : List Event :=
  [.ofText ["RPUSH", "k", "a", "b", "a", "c"], .ofText ["LREM", "k", "1", "a"],
    .ofText ["RPOP", "k"], .ofText ["LTRIM", "k", "1", "-1"], .sweep (.at 5)]

theorem shortened_fills : Host.plain.EachCall 0 ServerCall.Fills shortened (.new 1) := by
  have hpushed : (Host.plain.next 0 (.new 1) (.ofText ["RPUSH", "k", "a", "b", "a", "c"])).db.entry
      (0, "k") = some ⟨some (.list [[97], [98], [97], [99]]), none⟩ := rfl
  refine ⟨⟨fun _ _ => trivial, trivial⟩, ⟨fun c hc l hl => ?_, trivial⟩,
    ⟨fun _ _ => trivial, trivial⟩, ⟨fun _ _ => trivial, trivial⟩, ⟨trivial, trivial⟩, trivial⟩
  obtain rfl := Option.some.inj (hpushed.symm.trans hc)
  obtain rfl : [[97], [98], [97], [99]] = l := by simpa [Cell.live, Cell.expired] using hl
  exact fun hclears => absurd hclears.2 (by decide)

theorem runEvents_no_empty_shortened :
    let db := (Host.plain.runEvents 0 (.new 1) shortened).db
    (∀ ldb ∈ db.dbs, ∀ (key : String) (o : RudisObject),
      ldb.data[key]? = some o → o.isEmptyAggregate = false) ∧
      ∀ env i key,
        (db.llen env.now i key = .ok 0 ↔ db.Missing env i key) ∧
        (db.hlen env.now i key = .ok 0 ↔ db.Missing env i key) ∧
        (db.scard env.now i key = .ok 0 ↔ db.Missing env i key) ∧
        (db.zcard env.now i key = .ok 0 ↔ db.Missing env i key) :=
  runEvents_no_empty .plain 0 1 shortened shortened_fills

/-- `LREM k 0 a` takes the last element out of the list and leaves the list. -/
theorem lrem_leaves_empty :
    ¬ ∀ (host : Host) (depth dbCount : Nat) (events : List Event),
      ∀ ldb ∈ (host.runEvents depth (.new dbCount) events).db.dbs, ∀ (key : String) (o : RudisObject),
        ldb.data[key]? = some o → o.isEmptyAggregate = false := by
  intro hclaim
  have hfilled := hclaim .plain 0 1 [.ofText ["RPUSH", "k", "a"], .ofText ["LREM", "k", "0", "a"]]
    _ (List.mem_cons_self) "k" (.list []) (by rfl)
  exact absurd hfilled nofun

end MiniRudis
