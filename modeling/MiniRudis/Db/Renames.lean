import MiniRudis.Db.Transfers

/-!
# Renames

`rename` and `renamenx` take the object of the source and insert it at the
destination.  The deadline stays behind: a rename moves a key whole only if there is
none.
-/

namespace MiniRudis

namespace Database

variable {self : Database} {db : Nat}

/-- The destination holds what the source held, and the source is gone. -/
def movedWhole (self : Database) (db : Nat) (src dst : String) : Database :=
  (self.putCell db src .absent).putCell db dst (self.cellAt db src)

section
variable (hdb : db < self.dbs.length) (src dst : String)
include hdb

theorem movedWhole_dst : (self.movedWhole db src dst).cellAt db dst = self.cellAt db src := by
  apply cellAt_putCell
  simpa using hdb

theorem movedWhole_src (hne : src ≠ dst) :
    (self.movedWhole db src dst).cellAt db src = .absent := by
  rw [movedWhole, cellAt_putCell_ne (by simpa using hdb) hne, cellAt_putCell hdb]

theorem movedWhole_other {key : String} (hsrc : key ≠ src) (hdst : key ≠ dst) :
    (self.movedWhole db src dst).cellAt db key = self.cellAt db key := by
  rw [movedWhole, cellAt_putCell_ne (by simpa using hdb) hdst, cellAt_putCell_ne hdb hsrc]

end

theorem movedWhole_self (key : String) : self.movedWhole db key key = self := by
  rw [movedWhole, putCell_putCell, putCell_cellAt]

/-! ## The law -/

def RenameLaw (self : Database) (now : Instant) (db : Nat) (src dst : String)
    (r : Outcome Unit × Database) : Prop :=
  match (self.cellAt db src).live now with
  | none => r = (err .noSuchKey, self)
  | some _ => r = (.ok (), self.movedWhole db src dst)

def RenamenxLaw (self : Database) (now : Instant) (db : Nat) (src dst : String)
    (r : Outcome Bool × Database) : Prop :=
  match (self.cellAt db src).live now with
  | none => r = (err .noSuchKey, self)
  | some _ =>
      if ((self.cellAt db dst).live now).isSome then r = (.ok false, self)
      else r = (.ok true, self.movedWhole db src dst)

/-! ## What the methods do -/

def movedBare (self : Database) (db : Nat) (src dst : String) : Database :=
  (self.putCell db src .absent).putCell db dst ⟨(self.cellAt db src).obj, none⟩

variable (now : Instant) (src dst : String)

theorem movedBare_eq_iff (hdb : db < self.dbs.length) :
    self.movedBare db src dst = self.movedWhole db src dst ↔
      (self.cellAt db src).deadline = none := by
  constructor
  · intro hsame
    have hcell := congrArg (fun after => (after.cellAt db dst).deadline) hsame
    rw [movedWhole_dst hdb, movedBare, cellAt_putCell (by simpa using hdb)] at hcell
    exact hcell.symm
  · intro hnone
    rw [movedBare, movedWhole, ← hnone]

/-- The removal of an absent key changes nothing if the key has no deadline either. -/
theorem putCell_absent_iff (hdb : db < self.dbs.length)
    (hobj : (self.cellAt db src).obj = none) :
    self.putCell db src .absent = self ↔ (self.cellAt db src).deadline = none := by
  rw [putCell_eq_self_iff hdb, Cell.ext_iff, hobj]
  exact (and_iff_right rfl).trans eq_comm

theorem rename_cells (hdb : db < self.dbs.length) :
    self.rename db src dst =
      if (self.cellAt db src).obj.isSome then (.ok (), self.movedBare db src dst)
      else (err .noSuchKey, self.putCell db src .absent) := by
  have hsome := List.getElem?_eq_getElem hdb
  rw [rename, withDb_eq hsome, LogicalDb.remove_eq, movedBare, cellAt_eq hsome, putCell_eq hsome]
  cases ((self.dbs[db]).cell src).obj with
  | none => rfl
  | some obj =>
      rw [putCell_eq (dbs_setDb hsome _), setDb_setDb]
      rfl

theorem renamenx_cells (hdb : db < self.dbs.length) :
    self.renamenx now db src dst =
      if ((self.cellAt db dst).live now).isSome then (.ok false, self)
      else ((self.rename db src dst).1.map fun _ => true, (self.rename db src dst).2) := by
  have hsome := List.getElem?_eq_getElem hdb
  rw [renamenx, rename, withDb_eq hsome, withDb_eq hsome, LogicalDb.get_eq, cellAt_eq hsome]
  split
  · rw [setDb_self hsome]
  · rcases (self.dbs[db]).remove src with ⟨_ | obj, ldb⟩ <;> rfl

/-! ## When the law holds -/

theorem rename_of_permanent (hdb : db < self.dbs.length)
    (hnone : (self.cellAt db src).deadline = none) :
    self.rename db src dst =
      if ((self.cellAt db src).live now).isSome then (.ok (), self.movedWhole db src dst)
      else (err .noSuchKey, self) := by
  have hlive : (self.cellAt db src).live now = (self.cellAt db src).obj := by
    simp [Cell.live, Cell.expired, hnone]
  rw [rename_cells src dst hdb, hlive]
  split
  · rw [(movedBare_eq_iff src dst hdb).mpr hnone]
  · rename_i hobj
    rw [(putCell_absent_iff src hdb (by simpa using hobj)).mpr hnone]

/-- A deadline is lost, with a live source as with an expired one. -/
theorem rename_of_volatile (hdb : db < self.dbs.length)
    (hsome : (self.cellAt db src).deadline ≠ none) :
    self.rename db src dst ≠ (err .noSuchKey, self) ∧
      self.rename db src dst ≠ (.ok (), self.movedWhole db src dst) := by
  rw [rename_cells src dst hdb]
  split
  · refine ⟨by simp [err], ?_⟩
    intro heq
    exact hsome ((movedBare_eq_iff src dst hdb).mp (congrArg Prod.snd heq))
  · rename_i hobj
    refine ⟨?_, by simp [err]⟩
    intro heq
    exact hsome ((putCell_absent_iff src hdb (by simpa using hobj)).mp (congrArg Prod.snd heq))

theorem rename_law (hdb : db < self.dbs.length) :
    self.RenameLaw now db src dst (self.rename db src dst) ↔
      (self.cellAt db src).deadline = none := by
  by_cases hnone : (self.cellAt db src).deadline = none
  · apply iff_of_true _ hnone
    rw [rename_of_permanent now src dst hdb hnone, RenameLaw]
    cases (self.cellAt db src).live now <;> rfl
  · apply iff_of_false _ hnone
    have hlost := rename_of_volatile src dst hdb hnone
    rw [RenameLaw]
    cases (self.cellAt db src).live now with
    | none => exact hlost.1
    | some _ => exact hlost.2

theorem renamenx_law (hdb : db < self.dbs.length) :
    self.RenamenxLaw now db src dst (self.renamenx now db src dst) ↔
      if ((self.cellAt db dst).live now).isSome then ((self.cellAt db src).live now).isSome = true
      else (self.cellAt db src).deadline = none := by
  rw [RenamenxLaw, renamenx_cells now src dst hdb]
  by_cases hdst : ((self.cellAt db dst).live now).isSome
  · rw [if_pos hdst, if_pos hdst, if_pos hdst]
    cases (self.cellAt db src).live now <;> simp [err]
  · rw [if_neg hdst, if_neg hdst, if_neg hdst]
    by_cases hnone : (self.cellAt db src).deadline = none
    · apply iff_of_true _ hnone
      rw [rename_of_permanent now src dst hdb hnone]
      cases (self.cellAt db src).live now <;> rfl
    · apply iff_of_false _ hnone
      have hlost := rename_of_volatile src dst hdb hnone
      rcases hrun : self.rename db src dst with ⟨reply, after⟩
      rw [hrun] at hlost
      cases (self.cellAt db src).live now with
      | none =>
          intro heq
          apply hlost.1
          cases reply with
          | error e => simpa [err, Except.map] using heq
          | ok _ => simp [err, Except.map] at heq
      | some _ =>
          intro heq
          apply hlost.2
          cases reply with
          | error e => simp [Except.map] at heq
          | ok _ => simpa [Except.map] using heq

/-- **A rename moves a key whole**, exactly if the source has no deadline; `RENAMENX`
onto a live destination leaves all as it is, and is right to say so exactly if the
source is live. -/
theorem renames_law_iff (hdb : db < self.dbs.length) :
    (self.RenameLaw now db src dst (self.rename db src dst) ↔
      (self.cellAt db src).deadline = none) ∧
    (self.RenamenxLaw now db src dst (self.renamenx now db src dst) ↔
      if ((self.cellAt db dst).live now).isSome then ((self.cellAt db src).live now).isSome = true
      else (self.cellAt db src).deadline = none) :=
  ⟨rename_law now src dst hdb, renamenx_law now src dst hdb⟩

theorem renames_law_volatile :
    let self := (Database.new 1).putCell 0 "a" ⟨some (.str [118]), some 100⟩
    (self.RenameLaw 0 0 "a" "b" (self.rename 0 "a" "b") ↔
      (self.cellAt 0 "a").deadline = none) ∧
    (self.RenamenxLaw 0 0 "a" "b" (self.renamenx 0 0 "a" "b") ↔
      if ((self.cellAt 0 "b").live 0).isSome then ((self.cellAt 0 "a").live 0).isSome = true
      else (self.cellAt 0 "a").deadline = none) :=
  renames_law_iff 0 "a" "b" (by decide +kernel)

/-- A string with a deadline ahead is permanent after its renaming. -/
theorem rename_drops_deadline :
    ¬ ∀ (self : Database) (now : Instant) (db : Nat) (src dst : String), db < self.dbs.length →
      self.RenameLaw now db src dst (self.rename db src dst) ∧
        self.RenamenxLaw now db src dst (self.renamenx now db src dst) := by
  intro hclaim
  let self := (Database.new 1).putCell 0 "a" ⟨some (.str [118]), some 100⟩
  have hsrc : self.cellAt 0 "a" = ⟨some (.str [118]), some 100⟩ := rfl
  have hdb : 0 < self.dbs.length := by decide +kernel
  have hnone := (rename_law 0 "a" "b" hdb).mp (hclaim self 0 0 "a" "b" hdb).1
  rw [hsrc] at hnone
  exact absurd hnone (by simp)

end Database

end MiniRudis
