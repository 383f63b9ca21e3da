import MiniRudis.Db.Moves

/-!
# Expired keys that are still stored

Between its deadline and the next sweep a key is in the maps but invisible.  An
operation should treat it as if it had been removed.
-/

namespace MiniRudis

variable {α : Type}

namespace Database

def removed (self : Database) (db : Nat) (key : String) : Database :=
  (self.withDb db fun ldb => (.ok (), (ldb.remove key).2)).2

/-- What a read of the key at `now` sees. -/
def visible (self : Database) (now : Instant) (db : Nat) (key : String) : Option RudisObject :=
  self.dbs[db]?.bind fun ldb => ldb.get now key

variable {self : Database} {db : Nat} {ldb : LogicalDb}

theorem removed_eq (hdb : self.dbs[db]? = some ldb) (key : String) :
    self.removed db key = self.setDb db (ldb.put key .absent) := by
  rw [removed, withDb_eq hdb]
  rfl

theorem visible_setDb (hdb : self.dbs[db]? = some ldb) (now : Instant) (ldb' : LogicalDb)
    (key : String) : (self.setDb db ldb').visible now db key = (ldb'.cell key).live now := by
  rw [visible, dbs_setDb hdb, Option.bind_some, LogicalDb.get_eq]

end Database

namespace Cell

theorem live_of_expired {c : Cell} {now : Instant} (h : c.expired now = true) :
    c.live now = none := by
  simp [live, h]

/-- Whatever object it holds, a cell is as expired as its deadline. -/
theorem live_deadline {c : Cell} {now : Instant} (h : c.expired now = true)
    (obj : Option RudisObject) : (⟨obj, c.deadline⟩ : Cell).live now = none :=
  live_of_expired h

end Cell

end MiniRudis
