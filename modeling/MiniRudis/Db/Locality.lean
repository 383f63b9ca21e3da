import MiniRudis.Db.Cells

/-!
# Single-key operations are local

The view of the database is its entries: the cell of each key in each logical
database.
-/

namespace MiniRudis

open Lib

variable {α β : Type}

namespace Database

/-- The cell of a key; `none` beyond the last logical database. -/
def entry (self : Database) (a : Nat × String) : Option Cell :=
  self.dbs[a.1]?.map fun ldb => ldb.cell a.2

theorem ext_entry {a b : Database} (h : ∀ c, a.entry c = b.entry c) : a = b := by
  obtain ⟨as⟩ := a
  obtain ⟨bs⟩ := b
  congr 1
  apply List.ext_getElem?
  intro i
  have hi : ∀ key, as[i]?.map (fun ldb => ldb.cell key) = bs[i]?.map (fun ldb => ldb.cell key) :=
    fun key => h (i, key)
  cases ha : as[i]? with
  | none =>
      have hnone := hi ""
      rw [ha] at hnone
      simpa using hnone.symm
  | some x =>
      cases hb : bs[i]? with
      | none =>
          have hsome := hi ""
          rw [ha, hb] at hsome
          simp at hsome
      | some y =>
          congr 1
          apply LogicalDb.ext_cell
          intro key
          have hcell := hi key
          rw [ha, hb] at hcell
          simpa using hcell

theorem withDb_reply (self : Database) (db : Nat) (key : String) (g : Cell → Outcome α × Cell) :
    (self.withDb db (LogicalDb.onKey key g)).1 =
      ((self.entry (db, key)).map fun c => (g c).1).getD (err .dbIndexOutOfRange) := by
  unfold withDb entry LogicalDb.onKey
  cases self.dbs[db]? <;> rfl

theorem withDb_entry (self : Database) (db : Nat) (key : String) (g : Cell → Outcome α × Cell) :
    (self.withDb db (LogicalDb.onKey key g)).2.entry (db, key) =
      (self.entry (db, key)).map fun c => (g c).2 := by
  unfold withDb entry LogicalDb.onKey
  cases hdb : self.dbs[db]? with
  | none => simp [hdb]
  | some ldb =>
      obtain ⟨hlt, -⟩ := List.getElem?_eq_some_iff.mp hdb
      simp [hlt]

theorem withDb_other (self : Database) (db : Nat) (f : LogicalDb → Outcome α × LogicalDb) {i : Nat}
    (h : i ≠ db) : (self.withDb db f).2.dbs[i]? = self.dbs[i]? := by
  unfold withDb
  cases self.dbs[db]? with
  | none => rfl
  | some ldb => simp [Ne.symm h]

theorem withDb_frame (self : Database) (db : Nat) (key : String) (g : Cell → Outcome α × Cell)
    {a : Nat × String} (h : a ≠ (db, key)) :
    (self.withDb db (LogicalDb.onKey key g)).2.entry a = self.entry a := by
  obtain ⟨i, k⟩ := a
  by_cases hi : i = db
  · subst hi
    have hk : k ≠ key := by
      intro hk
      exact h (by rw [hk])
    unfold withDb entry LogicalDb.onKey
    cases hdb : self.dbs[i]? with
    | none => simp [hdb]
    | some ldb =>
        obtain ⟨hlt, -⟩ := List.getElem?_eq_some_iff.mp hdb
        simp [hlt, LogicalDb.cell_put_ne ldb hk]
  · unfold entry
    rw [withDb_other self db _ hi]

theorem entry_eq {self : Database} {db : Nat} {ldb : LogicalDb} (hdb : self.dbs[db]? = some ldb)
    (key : String) : self.entry (db, key) = some (ldb.cell key) := by
  simp [entry, hdb]

theorem withDb_unchanged {self : Database} {db : Nat} {key : String} {c : Cell}
    {g : Cell → Outcome α × Cell} (hc : self.entry (db, key) = some c) (h : (g c).2 = c) :
    (self.withDb db (LogicalDb.onKey key g)).2 = self := by
  apply ext_entry
  intro a
  by_cases ha : a = (db, key)
  · rw [ha, withDb_entry, hc, Option.map_some, h]
  · exact self.withDb_frame db key g ha

theorem onKey_local (db : Nat) (key : String) (g : Cell → Outcome α × Cell) :
    LocalAt entry (db, key) fun self : Database => self.withDb db (LogicalDb.onKey key g) where
  agree s t h := by
    rw [withDb_reply, withDb_reply, withDb_entry, withDb_entry, h]
    exact ⟨rfl, rfl⟩
  frame s a h := withDb_frame s db key g h

end Database

theorem KeyOp.localAt (op : KeyOp α) (env : Env) (db : Nat) (key : String) :
    LocalAt Database.entry (db, key) (fun self => op.run env db key self) :=
  (Database.onKey_local db key (op.onCell env)).congr fun self => op.run_eq env db key self

/-- **Locality.**  A single-key operation leaves every other entry alone, and two
of them at different entries can run in either order. -/
theorem KeyOp.run_local (op : KeyOp α) (env : Env) (db : Nat) (key : String) (self : Database) :
    (∀ other, other ≠ key →
      (op.run env db key self).2.entry (db, other) = self.entry (db, other)) ∧
    (∀ i, i ≠ db → (op.run env db key self).2.dbs[i]? = self.dbs[i]?) ∧
    ∀ {β : Type} (op' : KeyOp β) (env' : Env) (db' : Nat) (key' : String),
      (db', key') ≠ (db, key) →
      (op'.run env' db' key' (op.run env db key self).2).1 = (op'.run env' db' key' self).1 ∧
      (op.run env db key (op'.run env' db' key' self).2).1 = (op.run env db key self).1 ∧
      (op'.run env' db' key' (op.run env db key self).2).2 =
        (op.run env db key (op'.run env' db' key' self).2).2 := by
  refine ⟨?_, ?_, ?_⟩
  · intro other hne
    apply (op.localAt env db key).frame
    intro heq
    exact hne (congrArg Prod.snd heq)
  · intro i hne
    rw [op.run_eq]
    exact self.withDb_other db _ hne
  · intro β op' env' db' key' hne
    obtain ⟨hreply', hreply, hview⟩ :=
      (op.localAt env db key).comm hne.symm (op'.localAt env' db' key') self
    exact ⟨hreply', hreply, Database.ext_entry hview⟩

theorem KeyOp.run_local_sample :
    let push : KeyOp Nat := .typed (.rpush [[1]])
    let pop : KeyOp (List Bytes) := .typed (.lpop 1)
    (pop.run (.at 0) 0 "b" (push.run (.at 0) 0 "a" (.new 16)).2).2 =
      (push.run (.at 0) 0 "a" (pop.run (.at 0) 0 "b" (.new 16)).2).2 :=
  ((KeyOp.run_local (.typed (.rpush [[1]])) (.at 0) 0 "a" (.new 16)).2.2
    (.typed (.lpop 1)) (.at 0) 0 "b" (by decide)).2.2

end MiniRudis
