import MiniRudis.Db.Runs

/-!
# Runs and sorted sets

The two indexes of a sorted set agree in every state of a run.
-/

namespace MiniRudis

open Lib

variable {α : Type}

namespace ZSetInner

variable {z : ZSetInner}

theorem zaddLoop_coupled (h : z.Coupled) (flags : ZAddFlags) (levels : Nat → Level) (i : Nat)
    (members : List (F64 × String)) (count : Int) :
    (zaddLoop flags levels i members count z).2.Coupled := by
  induction members generalizing i count z with
  | nil => exact h
  | cons p members ih =>
      obtain ⟨score, member⟩ := p
      rw [zaddLoop]
      split
      · exact h
      · rename_i hnan
        split
        · exact ih h (i + 1) count
        · exact ih (h.add_coupled member (by simpa using hnan) (levels i)) (i + 1) _

theorem zrem_coupled (h : z.Coupled) (members : List String) : (zrem members z).2.Coupled :=
  tally_invariant (P := Coupled) (fun _ member hz => hz.remove_coupled member) members h

theorem zincrby_coupled (h : z.Coupled) (lvl : Level) (delta : F64) (member : String) :
    (zincrby lvl delta member z).2.Coupled := by
  unfold zincrby
  dsimp only
  split
  · exact h
  · rename_i hnan
    exact h.add_coupled member (by simpa using hnan) lvl

theorem removeByRank_coupled (h : z.Coupled) (start stop : Int) :
    (z.removeByRank start stop).2.Coupled := by
  unfold removeByRank
  split
  · exact h
  · exact h.removeAll_coupled _

end ZSetInner

theorem lax_coupled : Lax RudisObject.Coupled :=
  ⟨fun _ => trivial, fun _ _ => trivial, fun _ _ => trivial⟩

theorem Access.keeps_coupled_of (a : Access α) {now : Instant} {c : Cell}
    (hkind : a.kindName ≠ "zset") : a.Keeps RudisObject.Coupled now c := by
  have hother : ∀ {τ : Type} (K : Kind τ), K.name ≠ "zset" → ∀ v, (K.inj v).Coupled := by
    intro τ K hname v
    cases hinj : K.inj v with
    | zset z =>
        have hnone : K.proj (.zset z) = none := K.proj_none.mpr (Ne.symm hname)
        rw [← hinj, K.proj_inj] at hnone
        exact absurd hnone (by simp)
    | str _ | list _ | hash _ | set _ => trivial
  cases a with
  | read K absent f => trivial
  | modify K absent f => exact fun _ _ => hother K hkind _
  | create K init f => exact ⟨fun _ => hother K hkind _, fun _ _ => hother K hkind _⟩
  | inPlace K absent f => exact fun _ _ _ => hother K.toKind hkind _

theorem TypedOp.keeps_coupled (op : TypedOp α) (env : Env) {c : Cell}
    (h : c.Sound RudisObject.Coupled) : (op.access env).Keeps RudisObject.Coupled env.now c := by
  have hz : ∀ z, c.obj = some (.zset z) → z.Coupled := fun z hobj => h.good _ hobj
  by_cases hkind : op.valueType = "zset"
  · cases op with
    | zadd members flags =>
        exact ⟨fun _ => ZSetInner.zaddLoop_coupled ZSetInner.new_coupled flags env.levels 0 members 0,
          fun z hobj => ZSetInner.zaddLoop_coupled (hz z hobj) flags env.levels 0 members 0⟩
    | zincrby delta member =>
        exact ⟨fun _ => ZSetInner.zincrby_coupled ZSetInner.new_coupled _ delta member,
          fun z hobj => ZSetInner.zincrby_coupled (hz z hobj) _ delta member⟩
    | zrem members => exact fun z hobj _ => ZSetInner.zrem_coupled (hz z hobj) members
    | zremrangebyscore min max => exact fun z hobj _ => (hz z hobj).removeAll_coupled _
    | zremrangebyrank start stop =>
        exact fun z hobj _ => ZSetInner.removeByRank_coupled (hz z hobj) start stop
    | zpopmin count => exact fun z hobj _ => (hz z hobj).removeAll_coupled _
    | zpopmax count => exact fun z hobj _ => (hz z hobj).removeAll_coupled _
    | zscore | zmscore | zrank | zrevrank | zcard | zcount | zrange | zrangebyscore
    | zrevrangebyscore => trivial
    | _ => simp [valueType] at hkind
  · rw [← op.kindName_access env] at hkind
    exact (op.access env).keeps_coupled_of hkind

theorem Op.keeps_coupled (op : Op α) (env : Env) (self : Database) :
    op.Keeps RudisObject.Coupled env self := by
  cases op with
  | onKey db key op =>
      intro c _ hc
      cases op with
      | typed op => exact op.keeps_coupled env hc
      | _ => trivial
  | sunionstore | sinterstore | sdiffstore => exact fun _ _ => trivial
  | _ => trivial

theorem Database.Reachable.coupled {self : Database} (h : self.Reachable) {db : Nat} {key : String}
    {z : ZSetInner} (hobj : (self.cellAt db key).obj = some (.zset z)) : z.Coupled := by
  obtain ⟨dbCount, steps, rfl⟩ := h
  have hsound : ((Database.new dbCount).runSteps steps).Sound RudisObject.Coupled :=
    (Database.new_sound dbCount).runSteps lax_coupled
      (fun self s _ => s.op.keeps_coupled s.env self) steps
  exact (hsound.cellAt db key).good _ hobj

/-- **The two indexes never drift apart.**  In every state of a run, the skip list
of a sorted set lists the graph of its score map, each member once, in strictly
ascending order and without NaN. -/
theorem runSteps_coupled (dbCount : Nat) (steps : List Step) (db : Nat) (ldb : LogicalDb)
    (hdb : ((Database.new dbCount).runSteps steps).dbs[db]? = some ldb) (key : String)
    (z : ZSetInner) (hz : ldb.data[key]? = some (.zset z)) :
    (∀ member score, (member, score) ∈ z.sl.iter ↔ z.scores[member]? = some score) ∧
      (z.sl.iter.map Prod.fst).Nodup ∧
      (z.sl.iter.Pairwise fun p q => toLex (p.2, p.1) < toLex (q.2, q.1)) ∧
      z.sl.len = z.scores.size ∧
      ∀ (member : String) (score : F64), z.scores[member]? = some score → isNaN score = false := by
  have hreach : ((Database.new dbCount).runSteps steps).Reachable := ⟨dbCount, steps, rfl⟩
  have hobj : (((Database.new dbCount).runSteps steps).cellAt db key).obj = some (.zset z) := by
    rwa [Database.cellAt_eq hdb]
  have hcoupled : z.Coupled := hreach.coupled hobj
  exact ⟨hcoupled.graph, hcoupled.members_nodup, hcoupled.strict.sorted, hcoupled.len_eq,
    fun _ _ => hcoupled.score_not_nan⟩

def rankingSteps : List Step :=
  [⟨.at 0, .onKey 0 "z" (.typed (.zadd [(.zero, "b"), (.zero, "a"), (.posInf, "b")]
    ⟨false, false, false, false, false⟩))⟩]

def rankingDb : LogicalDb := (((Database.new 1).runSteps rankingSteps).dbs[0]?).getD .empty

def rankingSet : ZSetInner := ((rankingDb.data["z"]?).bind zsetKind.proj).getD .new

theorem runSteps_coupled_sample : rankingSet.sl.len = rankingSet.scores.size :=
  (runSteps_coupled 1 rankingSteps 0 rankingDb rfl "z" rankingSet rfl).2.2.2.1

end MiniRudis
