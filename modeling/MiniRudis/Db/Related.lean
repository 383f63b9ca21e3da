import MiniRudis.Db.Moves
import MiniRudis.Lib.Simulation

/-!
# Databases related cell by cell

A relation of cells is one of databases, which the methods keep that keep it at the cells they
reach.
-/

namespace MiniRudis

open Lib

variable {α : Type} {R : Cell → Cell → Prop}

/-! ## Logical databases -/

namespace LogicalDb

/-- How `rename` and `renamenx` go on with what they have taken out. -/
def insertTaken (dst : String) (missing : Outcome α) (done : α) :
    Option RudisObject × LogicalDb → Outcome α × LogicalDb
  | (none, ldb) => (missing, ldb)
  | (some obj, ldb) => (.ok done, ldb.insert dst obj)

def Related (R : Cell → Cell → Prop) (a b : LogicalDb) : Prop := ∀ key, R (a.cell key) (b.cell key)

namespace Related

variable {a b : LogicalDb} {c d : Cell}

theorem put (h : a.Related R b) (hcd : R c d) (key : String) :
    (a.put key c).Related R (b.put key d) := by
  intro other
  by_cases hother : other = key
  · rw [hother, cell_put, cell_put]
    exact hcd
  · rw [cell_put_ne a hother, cell_put_ne b hother]
    exact h other

theorem onKey (h : a.Related R b) {key : String} {g g' : Cell → Outcome α × Cell}
    (hg : Alike R (g (a.cell key)) (g' (b.cell key))) :
    Alike (LogicalDb.Related R) (a.onKey key g) (b.onKey key g') :=
  ⟨hg.1, h.put hg.2 key⟩

theorem insert (h : a.Related R b) {value value' : RudisObject}
    (hvalue : R ⟨some value, none⟩ ⟨some value', none⟩) (key : String) :
    (a.insert key value).Related R (b.insert key value') := by
  rw [insert_eq, insert_eq]
  exact h.put hvalue key

theorem remove (h : a.Related R b) (habsent : R .absent .absent) (key : String) :
    (a.remove key).2.Related R (b.remove key).2 := by
  rw [remove_eq, remove_eq]
  exact h.put habsent key

theorem insertTaken (h : a.Related R b) (habsent : R .absent .absent) {src : String}
    (hobj : Option.Rel (fun o o' => R ⟨some o, none⟩ ⟨some o', none⟩) (a.cell src).obj
      (b.cell src).obj) (dst : String) (missing : Outcome α) (done : α) :
    Alike (LogicalDb.Related R) (LogicalDb.insertTaken dst missing done (a.remove src))
      (LogicalDb.insertTaken dst missing done (b.remove src)) := by
  have hremoved := h.remove habsent src
  rw [remove_eq, remove_eq] at hremoved ⊢
  generalize (a.cell src).obj = x, (b.cell src).obj = y at hobj ⊢
  cases hobj with
  | none => exact ⟨rfl, hremoved⟩
  | some ho => exact ⟨rfl, hremoved.insert ho dst⟩

theorem insertPairs (h : a.Related R b) (hrefl : ∀ c, R c c) (pairs : List (String × Bytes)) :
    (a.insertPairs pairs).Related R (b.insertPairs pairs) := by
  unfold LogicalDb.insertPairs
  induction pairs generalizing a b with
  | nil => exact h
  | cons p pairs ih => exact ih (h.insert (hrefl _) p.1)

theorem moveVia (h : a.Related R b) {src dst : String} {take : Cell → Outcome α × Cell}
    {put : α → Option (Cell → Outcome α × Cell)}
    (htake : Alike R (take (a.cell src)) (take (b.cell src)))
    (hput : ∀ x g, put x = some g →
      Alike R (g ((a.onKey src take).2.cell dst)) (g ((b.onKey src take).2.cell dst))) :
    Alike (LogicalDb.Related R) (a.moveVia src dst take put) (b.moveVia src dst take put) := by
  obtain ⟨hreply, htaken⟩ := h.onKey htake
  unfold LogicalDb.moveVia
  generalize a.onKey src take = x at *
  generalize b.onKey src take = y at *
  obtain ⟨reply, a'⟩ := x
  obtain ⟨reply', b'⟩ := y
  obtain rfl : reply = reply' := hreply
  cases reply with
  | error e => exact ⟨rfl, htaken⟩
  | ok x =>
      dsimp only
      cases hx : put x with
      | none => exact ⟨rfl, htaken⟩
      | some g => exact htaken.onKey (hput x g hx)

end Related

end LogicalDb

/-! ## Databases -/

namespace Database

def Related (R : Cell → Cell → Prop) (s t : Database) : Prop :=
  ∀ db : Nat, Option.Rel (LogicalDb.Related R) s.dbs[db]? t.dbs[db]?

namespace Related

variable {s t : Database}

theorem refl (hrefl : ∀ c, R c c) (s : Database) : s.Related R s := by
  intro db
  cases s.dbs[db]? with
  | none => exact .none
  | some ldb => exact .some fun key => hrefl _

theorem map (h : s.Related R t) {R' : Cell → Cell → Prop} {f g : LogicalDb → LogicalDb}
    (hfg : ∀ a b, a.Related R b → (f a).Related R' (g b)) :
    (⟨s.dbs.map f⟩ : Database).Related R' ⟨t.dbs.map g⟩ := by
  intro db
  have hdb := h db
  rw [List.getElem?_map, List.getElem?_map]
  generalize s.dbs[db]? = a, t.dbs[db]? = b at hdb ⊢
  cases hdb with
  | none => exact .none
  | some hldb => exact .some (hfg _ _ hldb)

theorem weaken {R' : Cell → Cell → Prop} (h : s.Related R t) (hR : ∀ c d, R c d → R' c d) :
    s.Related R' t := by
  intro db
  have hdb := h db
  generalize s.dbs[db]? = a, t.dbs[db]? = b at hdb ⊢
  cases hdb with
  | none => exact .none
  | some hldb => exact .some fun key => hR _ _ (hldb key)

theorem withDb (h : s.Related R t) {db : Nat} {f g : LogicalDb → Outcome α × LogicalDb}
    (hfg : ∀ a b, s.dbs[db]? = some a → a.Related R b →
      Alike (LogicalDb.Related R) (f a) (g b)) :
    Alike (Database.Related R) (s.withDb db f) (t.withDb db g) := by
  have hdb := h db
  cases hs : s.dbs[db]? with
  | none =>
      cases ht : t.dbs[db]? with
      | some b =>
          rw [hs, ht] at hdb
          cases hdb
      | none =>
          simp only [Database.withDb, hs, ht]
          exact ⟨rfl, h⟩
  | some a =>
      cases ht : t.dbs[db]? with
      | none =>
          rw [hs, ht] at hdb
          cases hdb
      | some b =>
          rw [hs, ht] at hdb
          cases hdb with
          | some hab =>
              obtain ⟨hreply, hldb⟩ := hfg a b hs hab
              rw [withDb_eq hs, withDb_eq ht]
              refine ⟨hreply, fun other => ?_⟩
              by_cases hother : other = db
              · rw [hother, dbs_setDb hs, dbs_setDb ht]
                exact .some hldb
              · simp only [setDb]
                rw [List.getElem?_set_ne (Ne.symm hother), List.getElem?_set_ne (Ne.symm hother)]
                exact h other

theorem readDb (h : s.Related R t) {db : Nat} {f g : LogicalDb → Outcome α}
    (hfg : ∀ a b : LogicalDb, a.Related R b → f a = g b) : s.readDb db f = t.readDb db g := by
  have hdb := h db
  unfold Database.readDb
  generalize s.dbs[db]? = a, t.dbs[db]? = b at hdb ⊢
  cases hdb with
  | none => rfl
  | some hldb => exact hfg _ _ hldb

theorem flushall (h : s.Related R t) (hrefl : ∀ c, R c c) : s.flushall.Related R t.flushall :=
  h.map fun _ _ _ _ => hrefl _

theorem storeSet (h : s.Related R t) (hrefl : ∀ c, R c c) (db : Nat) (dst : String)
    (result : Outcome (List String)) :
    Alike (Database.Related R) (s.storeSet db dst result) (t.storeSet db dst result) := by
  cases result with
  | error e => exact ⟨rfl, h⟩
  | ok members => exact h.withDb fun a b _ hab => ⟨rfl, hab.insert (hrefl _) dst⟩

end Related

end Database

end MiniRudis
