import MiniRudis.Db.Eviction
import MiniRudis.Db.Related
import MiniRudis.Db.Views

/-!
# States that have shed expired keys

A sweep takes cells away that have expired.  As long as the operations that reach a key
without a look at its deadline do not meet such a cell, what has shed some of them behaves
as what has kept them all.
-/

namespace MiniRudis

open Lib

variable {α : Type}

/-! ## Cells -/

namespace Cell

def Sheds (now : Instant) (c d : Cell) : Prop := c = d ∨ c.expired now = true ∧ d = .absent

namespace Sheds

variable {now : Instant} {c d : Cell}

theorem refl (now : Instant) (c : Cell) : c.Sheds now c := Or.inl rfl

theorem later {later : Instant} (hle : now ≤ later) (h : c.Sheds now d) : c.Sheds later d :=
  h.imp id fun h => ⟨expired_later hle h.1, h.2⟩

theorem trans {c' : Cell} (h : c.Sheds now d) (h' : d.Sheds now c') : c.Sheds now c' := by
  obtain rfl | ⟨hexp, rfl⟩ := h
  · exact h'
  · obtain rfl | ⟨-, rfl⟩ := h' <;> exact Or.inr ⟨hexp, rfl⟩

theorem eq_of_fresh (h : c.Sheds now d) (hfresh : c.expired now = false) : c = d := by
  obtain heq | ⟨hexp, -⟩ := h
  · exact heq
  · exact absurd (hexp.symm.trans hfresh) (by decide)

theorem purge_eq (h : c.Sheds now d) : c.purge now = d.purge now := by
  obtain rfl | ⟨hexp, rfl⟩ := h
  · rfl
  · rw [purge_of_expired hexp, purge_absent]

theorem purge (h : c.Sheds now d) : c.Sheds now (d.purge now) := by
  obtain rfl | ⟨hexp, rfl⟩ := h
  · by_cases hexp : c.expired now = true
    · exact Or.inr ⟨hexp, purge_of_expired hexp⟩
    · exact Or.inl (if_neg hexp).symm
  · exact Or.inr ⟨hexp, purge_absent⟩

end Sheds

end Cell

/-- The operation looks at the deadline of the cell, or the cell has not expired. -/
def KeyOp.Fresh (now : Instant) (c : Cell) (op : KeyOp α) : Prop :=
  op.checksExpiry = true ∨ c.expired now = false

namespace LogicalDb

abbrev Sheds (now : Instant) : LogicalDb → LogicalDb → Prop := Related (Cell.Sheds now)

namespace Sheds

variable {now : Instant} {a b : LogicalDb}

theorem removeKeys (h : a.Sheds now b) {keys : List String}
    (hfresh : ∀ key ∈ keys, (a.cell key).expired now = false) :
    (a.removeKeys keys).1 = (b.removeKeys keys).1 ∧
      (a.removeKeys keys).2.Sheds now (b.removeKeys keys).2 := by
  unfold LogicalDb.removeKeys
  induction keys generalizing a b with
  | nil => exact ⟨rfl, h⟩
  | cons key keys ih =>
      have hcell := (h key).eq_of_fresh (hfresh key List.mem_cons_self)
      have hnext : ∀ other ∈ keys, ((a.remove key).2.cell other).expired now = false := by
        intro other hother
        rw [remove_eq]
        by_cases heq : other = key
        · rw [heq, cell_put]
          rfl
        · rw [cell_put_ne a heq]
          exact hfresh other (List.mem_cons_of_mem _ hother)
      obtain ⟨hcount, hrest⟩ := ih (Related.remove h (.refl _ _) key) hnext
      have hhit : (a.remove key).1 = (b.remove key).1 := congrArg Cell.obj hcell
      rw [tally, tally, hcount, hhit]
      exact ⟨rfl, hrest⟩

theorem moveVia (h : a.Sheds now b) {src dst : String} (hsrc : a.cell src = b.cell src)
    (hdst : a.cell dst = b.cell dst) (take : Cell → Outcome α × Cell)
    (put : α → Option (Cell → Outcome α × Cell)) :
    Alike (LogicalDb.Sheds now) (a.moveVia src dst take put) (b.moveVia src dst take put) := by
  have hnext : (a.onKey src take).2.cell dst = (b.onKey src take).2.cell dst := by
    rw [LogicalDb.onKey, LogicalDb.onKey, hsrc]
    by_cases hsame : dst = src
    · rw [hsame, cell_put, cell_put]
    · rw [cell_put_ne a hsame, cell_put_ne b hsame, hdst]
  refine Related.moveVia h ?_ fun x g _ => ?_
  · rw [hsrc]
    exact ⟨rfl, .refl _ _⟩
  · rw [hnext]
    exact ⟨rfl, .refl _ _⟩

end Sheds

end LogicalDb

/-! ## Databases -/

namespace Database

abbrev Sheds (now : Instant) : Database → Database → Prop := Related (Cell.Sheds now)

namespace Sheds

variable {now : Instant} {s t : Database}

theorem later {later : Instant} (hle : now ≤ later) (h : s.Sheds now t) : s.Sheds later t :=
  h.weaken fun _ _ hcd => hcd.later hle

theorem evictExpired (h : s.Sheds now t) : s.Sheds now (t.evictExpired now) := by
  have hid : s = ⟨s.dbs.map id⟩ := by rw [List.map_id]
  rw [hid]
  refine Related.map h fun a b hab key => ?_
  rw [LogicalDb.cell_purge]
  exact (hab key).purge

end Sheds

end Database

/-- No key that the operation reaches without a look at its deadline has expired. -/
def Op.Fresh (now : Instant) (self : Database) : Op α → Prop
  | onKey db key op => op.Fresh now (self.cellAt db key)
  | del db names => ∀ key ∈ names, (self.cellAt db key).expired now = false
  | rename db src _ | renamenx db src _ => (self.cellAt db src).expired now = false
  | lmove db src dst _ _ | smove db src dst _ =>
      (self.cellAt db src).expired now = false ∧ (self.cellAt db dst).expired now = false
  | _ => True

end MiniRudis
