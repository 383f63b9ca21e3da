import MiniRudis.Db.Entries

/-!
# Writes of several keys

`mset` and `msetnx` insert their pairs one after the other, so that a key named twice keeps
its last value.  `msetnx` looks at all keys before it writes any.
-/

namespace MiniRudis

def lastValue (pairs : List (String × Bytes)) (key : String) : Option Bytes :=
  pairs.reverse.lookup key

section
variable {pairs : List (String × Bytes)} {key : String}

theorem lastValue_cons (p : String × Bytes) (pairs : List (String × Bytes)) (key : String) :
    lastValue (p :: pairs) key = (lastValue pairs key).or (if key = p.1 then some p.2 else none) := by
  rw [lastValue, List.reverse_cons, List.lookup_append, lastValue]
  congr 1
  by_cases hkey : key = p.1
  · rw [hkey, if_pos rfl, List.lookup_cons_self]
  · rw [if_neg hkey, List.lookup_cons, beq_eq_false_iff_ne.mpr hkey]
    rfl

theorem lastValue_isSome_iff : (lastValue pairs key).isSome ↔ ∃ p ∈ pairs, p.1 = key := by
  induction pairs with
  | nil => simp [lastValue]
  | cons p pairs ih =>
      rw [lastValue_cons, Option.isSome_or, Bool.or_eq_true, ih, List.exists_mem_cons_iff, or_comm]
      refine or_congr_left ?_
      by_cases hkey : key = p.1
      · simp [hkey]
      · simp [hkey, Ne.symm hkey]

/-- Every insertion overwrites the cell of its key, its deadline with it. -/
theorem LogicalDb.cell_insertPairs (ldb : LogicalDb) (pairs : List (String × Bytes)) (key : String) :
    (ldb.insertPairs pairs).cell key = ((lastValue pairs key).map Cell.ofStr).getD (ldb.cell key) := by
  induction pairs generalizing ldb with
  | nil => rfl
  | cons p pairs ih =>
      have hrest : ldb.insertPairs (p :: pairs) = (ldb.insert p.1 (.str p.2)).insertPairs pairs := rfl
      rw [hrest, ih, lastValue_cons, LogicalDb.insert_eq]
      cases lastValue pairs key with
      | some v => rfl
      | none =>
          by_cases hkey : key = p.1
          · rw [hkey, cell_put, if_pos rfl]
            rfl
          · rw [cell_put_ne _ hkey, if_neg hkey]
            rfl

end

namespace Database

variable {self : Database} {db : Nat} {pairs : List (String × Bytes)}

def stringAt (self : Database) (now : Instant) (db : Nat) (key : String) : Option Bytes :=
  match (self.cellAt db key).live now with
  | some (.str v) => some v
  | _ => none

theorem mget_cellAt (hdb : db < self.dbs.length) (now : Instant) (keys : List String) :
    self.mget now db keys = .ok (keys.map (self.stringAt now db)) := by
  have hsome := List.getElem?_eq_getElem hdb
  rw [mget, readDb_eq hsome]
  refine congrArg Except.ok (List.map_congr_left fun key _ => ?_)
  have hlive := get_cellAt hsome now key
  unfold stringAt
  exact hlive ▸ rfl

def putPairs (self : Database) (db : Nat) (pairs : List (String × Bytes)) : Database :=
  (self.mset db pairs).2

theorem cellAt_putPairs (hdb : db < self.dbs.length) (pairs : List (String × Bytes)) (key : String) :
    (self.putPairs db pairs).cellAt db key =
      ((lastValue pairs key).map Cell.ofStr).getD (self.cellAt db key) := by
  have hsome := List.getElem?_eq_getElem hdb
  rw [putPairs, mset, withDb_eq hsome, cellAt_eq (dbs_setDb hsome _), cellAt_eq hsome]
  exact LogicalDb.cell_insertPairs _ pairs key

theorem cellAt_putPairs_none (hdb : db < self.dbs.length) {key : String}
    (hkey : lastValue pairs key = none) :
    (self.putPairs db pairs).cellAt db key = self.cellAt db key := by
  rw [cellAt_putPairs hdb, hkey]
  rfl

theorem cellAt_putPairs_some (hdb : db < self.dbs.length) {key : String} {v : Bytes}
    (hkey : lastValue pairs key = some v) :
    (self.putPairs db pairs).cellAt db key = .ofStr v := by
  rw [cellAt_putPairs hdb, hkey]
  rfl

theorem cellAt_putPairs_db {other : Nat} (hne : other ≠ db) (pairs : List (String × Bytes))
    (key : String) : (self.putPairs db pairs).cellAt other key = self.cellAt other key := by
  unfold putPairs mset withDb
  cases self.dbs[db]? with
  | none => rfl
  | some ldb => simp [cellAt, List.getElem?_set_ne (Ne.symm hne)]

theorem length_putPairs (self : Database) (db : Nat) (pairs : List (String × Bytes)) :
    (self.putPairs db pairs).dbs.length = self.dbs.length := by
  unfold putPairs mset withDb
  cases self.dbs[db]? with
  | none => rfl
  | some ldb => exact List.length_set

theorem stringAt_putPairs (hdb : db < self.dbs.length) (now : Instant) (key : String) :
    (self.putPairs db pairs).stringAt now db key =
      (lastValue pairs key).or (self.stringAt now db key) := by
  rw [stringAt]
  cases hkey : lastValue pairs key with
  | none => rw [cellAt_putPairs_none hdb hkey]; rfl
  | some v => rw [cellAt_putPairs_some hdb hkey]; rfl

/-- Each key has the value of its last pair and no deadline, and other keys are as they were. -/
structure Written (before : Database) (db : Nat) (pairs : List (String × Bytes))
    (after : Database) : Prop where
  mget : ∀ later keys,
    before.mget later db keys = .ok (keys.map (before.stringAt later db)) ∧
      after.mget later db keys =
        .ok (keys.map fun key => (lastValue pairs key).or (before.stringAt later db key))
  deadline : ∀ p ∈ pairs, (after.cellAt db p.1).deadline = none
  others : ∀ db' key, (db' = db → ∀ p ∈ pairs, p.1 ≠ key) →
    after.cellAt db' key = before.cellAt db' key

theorem written_putPairs (hdb : db < self.dbs.length) (pairs : List (String × Bytes)) :
    self.Written db pairs (self.putPairs db pairs) := by
  constructor
  case mget =>
    intro later keys
    have hafter : db < (self.putPairs db pairs).dbs.length := by
      rwa [length_putPairs]
    rw [mget_cellAt hdb, mget_cellAt hafter]
    refine ⟨rfl, congrArg Except.ok (List.map_congr_left fun key _ => ?_)⟩
    exact stringAt_putPairs hdb later key
  case deadline =>
    intro p hp
    have hsome := lastValue_isSome_iff.mpr ⟨p, hp, rfl⟩
    obtain ⟨v, hv⟩ := Option.isSome_iff_exists.mp hsome
    rw [cellAt_putPairs_some hdb hv]
    rfl
  case others =>
    intro db' key hother
    by_cases hdb' : db' = db
    · have hnone : lastValue pairs key = none := by
        rw [← Option.not_isSome_iff_eq_none, lastValue_isSome_iff]
        rintro ⟨p, hp, hkey⟩
        exact hother hdb' p hp hkey
      rw [hdb', cellAt_putPairs_none hdb hnone]
    · exact cellAt_putPairs_db hdb' pairs key

theorem mset_eq (hdb : db < self.dbs.length) (pairs : List (String × Bytes)) :
    self.mset db pairs = (.ok (), self.putPairs db pairs) := by
  rw [putPairs, mset, withDb_eq (List.getElem?_eq_getElem hdb)]

theorem msetnx_eq (hdb : db < self.dbs.length) (now : Instant) (pairs : List (String × Bytes)) :
    self.msetnx now db pairs =
      if ∃ p ∈ pairs, ((self.cellAt db p.1).live now).isSome then (.ok false, self)
      else (.ok true, self.putPairs db pairs) := by
  have hsome := List.getElem?_eq_getElem hdb
  rw [msetnx, withDb_eq hsome, putPairs, mset, withDb_eq hsome]
  simp only [List.any_eq_true, LogicalDb.get_eq, cellAt_eq hsome]
  by_cases hlive : ∃ p ∈ pairs, ((self.dbs[db].cell p.1).live now).isSome
  · rw [if_pos hlive, if_pos hlive, setDb_self hsome]
  · rw [if_neg hlive, if_neg hlive]

/-- **`MSETNX` is all or nothing**, and `MSET` is all. -/
structure BulkLaw (before : Database) (now : Instant) (db : Nat) (pairs : List (String × Bytes)) :
    Prop where
  replies : (before.msetnx now db pairs).1 = .ok true ↔
    ∀ p ∈ pairs, (before.cellAt db p.1).live now = none
  all : (∀ p ∈ pairs, (before.cellAt db p.1).live now = none) →
    before.Written db pairs (before.msetnx now db pairs).2
  nothing : (¬ ∀ p ∈ pairs, (before.cellAt db p.1).live now = none) →
    before.msetnx now db pairs = (.ok false, before)
  mset : (before.mset db pairs).1 = .ok () ∧ before.Written db pairs (before.mset db pairs).2

theorem bulk_law (hdb : db < self.dbs.length) (now : Instant) (pairs : List (String × Bytes)) :
    self.BulkLaw now db pairs := by
  have hiff : (∃ p ∈ pairs, ((self.cellAt db p.1).live now).isSome) ↔
      ¬ ∀ p ∈ pairs, (self.cellAt db p.1).live now = none := by
    simp only [not_forall, exists_prop, Option.isSome_iff_ne_none, ne_eq]
  constructor
  case replies =>
    rw [msetnx_eq hdb]
    by_cases hall : ∀ p ∈ pairs, (self.cellAt db p.1).live now = none
    · rw [if_neg (fun h => hiff.mp h hall)]
      exact iff_of_true rfl hall
    · rw [if_pos (hiff.mpr hall)]
      exact iff_of_false (by simp) hall
  case all =>
    intro hall
    rw [msetnx_eq hdb, if_neg (fun h => hiff.mp h hall)]
    exact written_putPairs hdb pairs
  case nothing =>
    intro hlive
    rw [msetnx_eq hdb, if_pos (hiff.mpr hlive)]
  case mset =>
    rw [mset_eq hdb]
    exact ⟨rfl, written_putPairs hdb pairs⟩

theorem bulk_law_expired :
    ((Database.new 1).putCell 0 "k" ⟨some (.list [[97]]), some 0⟩).BulkLaw 0 0
      [("k", [97]), ("l", [98]), ("k", [99])] :=
  bulk_law (by decide) 0 _

end Database

end MiniRudis
