import MiniRudis.Db.Locality

/-!
# Operations on a key of another type

A typed operation on a live key of another type fails and changes nothing, but
for one case: `GETDEL` has taken the key out before it sees the type, and puts
it back without its deadline.
-/

namespace MiniRudis

variable {α : Type}

/-- The type of value that a single-key operation works on, if it cares. -/
def KeyOp.valueType : KeyOp α → Option String
  | typed op => some op.valueType
  | getset _ | getdel => some "string"
  | _ => none

def KeyOp.isGetdel : KeyOp α → Bool
  | getdel => true
  | _ => false

namespace Access

/-- Whatever way a value is reached, its type is tested before anything else. -/
theorem onCell_wrongType (a : Access α) {now : Instant} {c : Cell} {o : RudisObject}
    (hlive : c.live now = some o) (hkind : o.typeName ≠ a.kindName) :
    a.onCell now c = (err .wrongType, c) := by
  have hexp : c.expired now = false := by
    by_contra h
    simp [Cell.live, h] at hlive
  have hobj : c.obj = some o := by
    simpa [Cell.live, hexp] using hlive
  cases a with
  | read K absent f =>
      have hproj : K.proj o = none := K.proj_none.mpr hkind
      simp [onCell, hlive, hproj]
  | modify K absent f =>
      have hproj : K.proj o = none := K.proj_none.mpr hkind
      simp [onCell, hexp, hobj, hproj]
  | create K init f =>
      have hproj : K.proj o = none := K.proj_none.mpr hkind
      simp [onCell, hobj, hproj]
  | inPlace K absent f =>
      have hproj : K.proj o = none := K.proj_none.mpr hkind
      simp [onCell, hobj, hproj]

end Access

theorem KeyOp.onCell_wrongType (op : KeyOp α) {env : Env} {c : Cell} {o : RudisObject} {t : String}
    (hlive : c.live env.now = some o) (htype : op.valueType = some t) (hne : o.typeName ≠ t) :
    op.onCell env c = (err .wrongType, if op.isGetdel then ⟨c.obj, none⟩ else c) := by
  have hobj : c.obj = some o := by
    unfold Cell.live at hlive
    split at hlive
    · exact absurd hlive (by simp)
    · exact hlive
  cases op with
  | typed op =>
      have hkind : o.typeName ≠ (op.access env).kindName := by
        rw [op.kindName_access]
        rw [← Option.some.inj htype] at hne
        exact hne
      exact (op.access env).onCell_wrongType hlive hkind
  | getset value =>
      rw [← Option.some.inj htype] at hne
      simp only [onCell, hlive, isGetdel]
      cases o with
      | str v => exact absurd rfl hne
      | list _ | hash _ | set _ | zset _ => rfl
  | getdel =>
      rw [← Option.some.inj htype] at hne
      simp only [onCell, hobj, isGetdel]
      cases o with
      | str v => exact absurd rfl hne
      | list _ | hash _ | set _ | zset _ => rfl
  | set _ _ | setnx _ | setxx _ _ | typeOf | expire _ | pexpire _ | expireat _ | pexpireat _
  | pttl | ttl | persist => exact absurd htype (by simp [valueType])

/-- **A wrong-type reply is a no-op**, exactly unless the operation is `GETDEL` and
the key has a deadline. -/
theorem KeyOp.wrongType_noop_iff (op : KeyOp α) (env : Env) (db : Nat) (key : String)
    (self : Database) (ldb : LogicalDb) (hdb : self.dbs[db]? = some ldb) (o : RudisObject)
    (hlive : ldb.get env.now key = some o) (t : String) (htype : op.valueType = some t)
    (hne : o.typeName ≠ t) :
    op.run env db key self = (err .wrongType, self) ↔
      ¬ (op.isGetdel = true ∧ (ldb.expiry[key]?).isSome = true) := by
  rw [LogicalDb.get_eq] at hlive
  have hentry := Database.entry_eq hdb key
  have hcell := op.onCell_wrongType hlive htype hne
  have hdeadline : ldb.expiry[key]? = (ldb.cell key).deadline := rfl
  have hreply : (op.run env db key self).1 = err .wrongType := by
    rw [op.run_eq, Database.withDb_reply, hentry, Option.map_some, hcell]
    rfl
  rw [hdeadline]
  constructor
  · intro hrun hbad
    have hafter : (op.run env db key self).2.entry (db, key) = some (ldb.cell key) := by
      rw [hrun]
      exact hentry
    rw [op.run_eq, Database.withDb_entry, hentry, Option.map_some, hcell] at hafter
    have hlost := congrArg Cell.deadline (Option.some.inj hafter)
    simp only [hbad.1, if_true] at hlost
    rw [← hlost] at hbad
    exact absurd hbad.2 (by simp)
  · intro hgood
    have hsame : (op.onCell env (ldb.cell key)).2 = ldb.cell key := by
      rw [hcell]
      by_cases hget : op.isGetdel
      · have hnone : (ldb.cell key).deadline = none := by
          simpa [hget] using hgood
        simp only [hget, if_true]
        rw [← hnone]
      · simp [hget]
    apply Prod.ext
    · exact hreply
    · rw [op.run_eq]
      exact Database.withDb_unchanged hentry hsame

def volatileList : LogicalDb where
  data := (∅ : StrMap RudisObject).insert "k" (.list [[1]])
  expiry := (∅ : StrMap Instant).insert "k" 10

theorem KeyOp.wrongType_noop_sample :
    (.typed .get : KeyOp (Option Bytes)).run (.at 0) 0 "k" ⟨[volatileList]⟩ =
        (err .wrongType, ⟨[volatileList]⟩) ↔ ¬ (false = true ∧ (some (10 : Int)).isSome = true) :=
  KeyOp.wrongType_noop_iff (.typed .get) (.at 0) 0 "k" ⟨[volatileList]⟩ volatileList rfl
    (.list [[1]]) rfl "string" rfl (by decide)

/-- `GETDEL` on a list with a deadline makes the list permanent. -/
theorem KeyOp.getdel_drops_deadline :
    ¬ ∀ (α : Type) (op : KeyOp α) (env : Env) (db : Nat) (key : String) (self : Database)
      (ldb : LogicalDb) (o : RudisObject) (t : String), self.dbs[db]? = some ldb →
      ldb.get env.now key = some o → op.valueType = some t → o.typeName ≠ t →
      op.run env db key self = (err .wrongType, self) := by
  intro hclaim
  have hrun := hclaim _ .getdel (.at 0) 0 "k" ⟨[volatileList]⟩ volatileList (.list [[1]]) "string"
    rfl rfl rfl (by decide)
  have hdeadline := congrArg (fun r => (r.2.entry (0, "k")).map Cell.deadline) hrun
  exact absurd hdeadline (by decide)

end MiniRudis
