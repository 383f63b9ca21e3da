import MiniRudis.Db.Invariant

/-!
# Moves between two keys

`lmove` and `smove` take from one cell and, on some results, put into another.
-/

namespace MiniRudis

variable {α : Type}

namespace LogicalDb

/-- Take from the cell at `src`; on some results put into the cell at `dst`. -/
def moveVia (src dst : String) (take : Cell → Outcome α × Cell)
    (put : α → Option (Cell → Outcome α × Cell)) (self : LogicalDb) : Outcome α × LogicalDb :=
  match self.onKey src take with
  | (.ok x, ldb) =>
      match put x with
      | some g => ldb.onKey dst g
      | none => (.ok x, ldb)
  | (.error e, ldb) => (.error e, ldb)

end LogicalDb

namespace Cell

def rotate (srcLeft dstLeft : Bool) (c : Cell) : Outcome (Option Bytes) × Cell :=
  match c.obj with
  | none => (.ok none, c)
  | some (.list l) =>
      ((Deque.rotate srcLeft dstLeft l).1,
        { c with obj := some (.list (Deque.rotate srcLeft dstLeft l).2) })
  | some _ => (err .wrongType, c)

def takeMember (member : String) (c : Cell) : Outcome Bool × Cell :=
  match c.obj with
  | none => (.ok false, c)
  | some (.set s) =>
      if member ∈ s then
        (.ok true, if (s.erase member).isEmpty then .absent
          else { c with obj := some (.set (s.erase member)) })
      else (.ok false, c)
  | some _ => (err .wrongType, c)

end Cell

namespace LogicalDb

theorem rotate_eq (self : LogicalDb) (key : String) (srcLeft dstLeft : Bool) :
    self.rotate key srcLeft dstLeft = self.onKey key (Cell.rotate srcLeft dstLeft) := by
  have hdata : self.data[key]? = (self.cell key).obj := rfl
  rw [rotate, onKey, Cell.rotate, hdata]
  cases (self.cell key).obj with
  | none => simp
  | some o => cases o <;> simp [store_eq]

theorem takeMember_eq (self : LogicalDb) (src member : String) :
    self.takeMember src member = self.onKey src (Cell.takeMember member) := by
  have hdata : self.data[src]? = (self.cell src).obj := rfl
  rw [takeMember, onKey, Cell.takeMember, hdata]
  cases (self.cell src).obj with
  | none => simp
  | some o =>
      cases o with
      | set s =>
          by_cases hmem : member ∈ s
          · by_cases hempty : (s.erase member).isEmpty
            · simp [HashSet.take, hmem, hempty, store_eq, remove_eq]
            · simp [HashSet.take, hmem, hempty, store_eq]
          · simp [HashSet.take, hmem]
      | str _ | list _ | hash _ | zset _ => simp

end LogicalDb

def lmovePut (now : Instant) (dstLeft : Bool) :
    Option Bytes → Option (Cell → Outcome (Option Bytes) × Cell)
  | none => none
  | some elem => some fun c =>
      let pushed := (Access.create listKind.toKind [] (Deque.pushAll dstLeft [elem])).onCell now c
      (pushed.1.map fun _ => some elem, pushed.2)

def smovePut (now : Instant) (member : String) : Bool → Option (Cell → Outcome Bool × Cell)
  | false => none
  | true => some ((Access.create setKind.toKind ∅ (HashSet.put member)).onCell now)

namespace Database

theorem lmove_self_eq (self : Database) (now : Instant) (db : Nat) (src : String)
    (srcLeft dstLeft : Bool) :
    self.lmove now db src src srcLeft dstLeft =
      self.withDb db (LogicalDb.onKey src (Cell.rotate srcLeft dstLeft)) := by
  rw [lmove, if_pos rfl]
  exact withDb_congr fun ldb => ldb.rotate_eq src srcLeft dstLeft

theorem lmove_eq (self : Database) (now : Instant) (db : Nat) {src dst : String} (hne : src ≠ dst)
    (srcLeft dstLeft : Bool) :
    self.lmove now db src dst srcLeft dstLeft =
      self.withDb db (LogicalDb.moveVia src dst
        ((Access.inPlace listKind none (Deque.take srcLeft)).onCell now)
        (lmovePut now dstLeft)) := by
  rw [lmove, if_neg hne]
  cases hdb : self.dbs[db]? with
  | none => simp [access, withDb, hdb]
  | some ldb =>
      simp only [access, withDb_eq hdb, Access.run_eq, LogicalDb.moveVia, LogicalDb.onKey]
      cases ((Access.inPlace listKind none (Deque.take srcLeft)).onCell now (ldb.cell src)).1 with
      | error e => rfl
      | ok x =>
          cases x with
          | none => rfl
          | some elem =>
              simp only [withDb_eq (dbs_setDb hdb _), setDb_setDb, lmovePut]

theorem smove_eq (self : Database) (now : Instant) (db : Nat) (src dst member : String) :
    self.smove now db src dst member =
      self.withDb db (LogicalDb.moveVia src dst (Cell.takeMember member)
        (smovePut now member)) := by
  rw [smove]
  cases hdb : self.dbs[db]? with
  | none => simp [withDb, hdb]
  | some ldb =>
      simp only [access, withDb_eq hdb, LogicalDb.takeMember_eq, LogicalDb.moveVia, LogicalDb.onKey]
      cases ((ldb.cell src).takeMember member).1 with
      | error e => rfl
      | ok x =>
          cases x with
          | false => rfl
          | true => simp only [withDb_eq (dbs_setDb hdb _), setDb_setDb, smovePut, Access.run_eq]

end Database

end MiniRudis
