import MiniRudis.Db.Invariant

/-!
# Runs of the database

A run starts from `Database::new` and takes any operations, each at its own
clock readings and with its own random choices; a failing operation is a step
like any other.
-/

namespace MiniRudis

variable {α : Type} {Q : RudisObject → Prop}

/-- One operation with what it reads from outside. -/
structure Step : Type 1 where
  {reply : Type}
  env : Env
  op : Op reply

def Step.next (s : Step) (self : Database) : Database := (s.op.run s.env self).2

def Database.runSteps (self : Database) (steps : List Step) : Database :=
  steps.foldl (fun self s => s.next self) self

def Database.Reachable (self : Database) : Prop :=
  ∃ dbCount steps, self = (Database.new dbCount).runSteps steps

/-- What every operation keeps holds of every state of a run. -/
theorem Database.Sound.runSteps (hlax : Lax Q)
    (hkeeps : ∀ (self : Database) (s : Step), self.Sound Q → s.op.Keeps Q s.env self)
    {self : Database} (h : self.Sound Q) (steps : List Step) : (self.runSteps steps).Sound Q := by
  unfold Database.runSteps
  induction steps generalizing self with
  | nil => exact h
  | cons s steps ih => exact ih (s.op.run_sound hlax h (hkeeps self s h))

/-! ## Deadlines -/

theorem Access.keeps_true (a : Access α) (now : Instant) (c : Cell) :
    a.Keeps (fun _ => True) now c := by
  cases a with
  | read K absent f => trivial
  | modify K absent f => exact fun _ _ => trivial
  | create K init f => exact ⟨fun _ => trivial, fun _ _ => trivial⟩
  | inPlace K absent f => exact fun _ _ _ => trivial

theorem Op.keeps_true (op : Op α) (env : Env) (self : Database) :
    op.Keeps (fun _ => True) env self := by
  cases op with
  | onKey db key op =>
      intro c _ _
      cases op with
      | typed op => exact (op.access env).keeps_true env.now c
      | _ => trivial
  | sunionstore | sinterstore | sdiffstore => exact fun _ _ => trivial
  | _ => trivial

theorem runSteps_sound_true (dbCount : Nat) (steps : List Step) :
    ((Database.new dbCount).runSteps steps).Sound fun _ => True :=
  (Database.new_sound dbCount).runSteps ⟨fun _ => trivial, fun _ _ => trivial, fun _ _ => trivial⟩
    (fun self s _ => s.op.keeps_true s.env self) steps

theorem Access.onCell_absent (a : Access α) (now : Instant) :
    (a.onCell now .absent).2.deadline = none := by
  cases a <;> rfl

/-- **No stale deadlines.**  In every state of a run a key with a deadline has an
object, so a key without one has no deadline either, and none after the typed
operation that creates it. -/
theorem runSteps_deadlines (dbCount : Nat) (steps : List Step) (db : Nat) (ldb : LogicalDb)
    (hdb : ((Database.new dbCount).runSteps steps).dbs[db]? = some ldb) (key : String) :
    (key ∈ ldb.expiry → key ∈ ldb.data) ∧
      (key ∉ ldb.data → key ∉ ldb.expiry ∧
        ∀ {α : Type} (op : TypedOp α) (env : Env) (ldb' : LogicalDb),
          (op.run env db key ((Database.new dbCount).runSteps steps)).2.dbs[db]? = some ldb' →
          key ∉ ldb'.expiry) := by
  have hsound : (ldb.cell key).Sound fun _ => True :=
    runSteps_sound_true dbCount steps ldb (List.mem_of_getElem? hdb) key
  have howned : key ∈ ldb.expiry → key ∈ ldb.data := by
    intro hexp
    rw [LogicalDb.mem_data_iff]
    apply hsound.dated
    simpa [LogicalDb.cell] using hexp
  refine ⟨howned, fun hnone => ⟨fun hexp => hnone (howned hexp), ?_⟩⟩
  intro α op env ldb' hdb'
  have hentry := Database.entry_eq hdb key
  have habsent : ldb.cell key = .absent := by
    apply Cell.ext
    · simpa [LogicalDb.mem_data_iff, Cell.absent] using hnone
    · have hnoexp : key ∉ ldb.expiry := fun hexp => hnone (howned hexp)
      simpa [LogicalDb.cell, Cell.absent] using hnoexp
  have hafter := Database.withDb_entry ((Database.new dbCount).runSteps steps) db key
    ((KeyOp.typed op).onCell env)
  have hrun := (KeyOp.typed op).run_eq env db key ((Database.new dbCount).runSteps steps)
  rw [KeyOp.run] at hrun
  rw [hrun] at hdb'
  rw [hentry, Option.map_some, habsent, Database.entry_eq hdb'] at hafter
  have hdeadline := congrArg Cell.deadline (Option.some.inj hafter)
  rw [KeyOp.onCell, (op.access env).onCell_absent env.now] at hdeadline
  simpa [LogicalDb.cell] using hdeadline

def volatileSteps : List Step :=
  [⟨.at 0, .onKey 0 "k" (.set [118] none)⟩, ⟨.at 0, .onKey 0 "k" (.expire 10)⟩]

def volatileDb : LogicalDb := (((Database.new 1).runSteps volatileSteps).dbs[0]?).getD .empty

theorem runSteps_deadlines_sample : "k" ∈ volatileDb.data :=
  (runSteps_deadlines 1 volatileSteps 0 volatileDb rfl "k").1 (by decide +kernel)

end MiniRudis
