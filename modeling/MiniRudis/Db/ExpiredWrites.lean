import MiniRudis.Db.Expired

/-!
# Writes to expired keys

The in-place writes reach their value through `data.entry` or `data.get_mut`,
which know nothing of deadlines.  On an expired key they act on the stale value,
and what they write stays invisible.
-/

namespace MiniRudis

open Lib

variable {α : Type}

/-! ## The commands and when they do no harm -/

/-- The writes that create their key with `entry(key).or_insert(..)`. -/
def TypedOp.creates : TypedOp α → Bool
  | append _ | incr _ | incrFloat _ | setrange .. | lpush _ | rpush _ | hset _ | hsetnx ..
  | hincrby .. | hincrbyfloat .. | sadd _ | zadd .. | zincrby .. => true
  | _ => false

/-- The writes that remove elements with `data.get_mut(key)`. -/
def TypedOp.removes : TypedOp α → Bool
  | lpop _ | rpop _ | ltrim .. | hdel _ | srem _ | spop _ | zrem _ | zremrangebyscore ..
  | zremrangebyrank .. | zpopmin _ | zpopmax _ => true
  | _ => false

/-- A removal finds nothing to remove, in a value of its own type. -/
def TypedOp.TakesNothing (env : Env) : TypedOp α → RudisObject → Prop
  | lpop count, .list l | rpop count, .list l =>
      CapacityOk Deque.elemSize count ∧ (count = 0 ∨ l = [])
  | ltrim .., .list _ => True
  | hdel fields, .hash h => ∀ field ∈ fields, field ∉ h
  | srem members, .set s => ∀ member ∈ members, member ∉ s
  | spop count, .set s => env.chooser.reserves count = true ∧ (count = 0 ∨ s.isEmpty)
  | zrem members, .zset z => ∀ member ∈ members, member ∉ z.scores
  | zremrangebyscore min max, .zset z => ∀ p ∈ z.sl.iter, ZSetInner.inRange min max p = false
  | zremrangebyrank start stop, .zset z =>
      z.sl.iter.length ≤ (z.window start stop).1 ∨
        (z.window start stop).2 < (z.window start stop).1
  | zpopmin count, .zset z | zpopmax count, .zset z => count = 0 ∨ z.sl.iter = []
  | _, _ => False

def Op.WritesInPlace (db : Nat) (key : String) : Op α → Prop
  | onKey db' key' (.typed op) => db' = db ∧ key' = key ∧ (op.creates || op.removes)
  | lmove db' src dst _ _ => db' = db ∧ (key = src ∨ key = dst)
  | smove db' src dst _ => db' = db ∧ (key = src ∨ key = dst)
  | _ => False

/-- The write has nothing to do at the key: it would remove, and there is nothing
to remove. -/
def Op.FindsNothing (env : Env) (ldb : LogicalDb) (key : String) : Op α → Prop
  | onKey _ _ (.typed op) => op.removes ∧ ∀ o, ldb.data[key]? = some o → op.TakesNothing env o
  | lmove _ src _ _ _ =>
      if key = src then ∀ o, ldb.data[src]? = some o → o = .list []
      else ∀ l, ldb.data[src]? = some (.list l) → l = []
  | smove _ src _ member =>
      if key = src then ∀ o, ldb.data[src]? = some o → ∃ s, o = .set s ∧ member ∉ s
      else ∀ s, ldb.data[src]? = some (.set s) → member ∉ s
  | _ => False

/-- The operation replies as if the key had been removed, and so does a read of
the key after it. -/
def Op.ActsAsRemoved (op : Op α) (env : Env) (db : Nat) (key : String) (self : Database) : Prop :=
  (op.run env self).1 = (op.run env (self.removed db key)).1 ∧
    (op.run env self).2.visible env.now db key =
      (op.run env (self.removed db key)).2.visible env.now db key

/-! ## Accesses to an expired cell -/

def Cell.ActsAsAbsent (now : Instant) (g : Cell → Outcome α × Cell) (c : Cell) : Prop :=
  (g c).1 = (g .absent).1 ∧ (g c).2.live now = (g .absent).2.live now

namespace Access

variable {τ : Type} {now : Instant} {c : Cell}

/-- What is created under a stale deadline cannot be seen, and should be. -/
theorem create_live_ne (h : c.expired now = true) (K : Kind τ) (init : τ)
    (f : τ → Outcome α × τ) :
    ((Access.create K init f).onCell now c).2.live now ≠
      ((Access.create K init f).onCell now .absent).2.live now := by
  have hstale : ((Access.create K init f).onCell now c).2.live now = none := by
    rw [onCell]
    split
    · exact Cell.live_deadline h _
    · split
      · exact Cell.live_deadline h _
      · exact Cell.live_of_expired h
  rw [hstale]
  simp [onCell, Cell.absent, Cell.live, Cell.expired]

/-- What a removal leaves of an expired value cannot be seen either. -/
theorem inPlace_invisible (h : c.expired now = true) (K : Aggregate τ) (absent : α)
    (f : τ → Outcome α × τ) : ((Access.inPlace K absent f).onCell now c).2.live now = none := by
  rw [onCell]
  split
  · exact Cell.live_of_expired h
  · split
    · exact Cell.live_of_expired h
    · split
      · exact Cell.live_deadline h _
      · split
        · exact Cell.live_absent now
        · exact Cell.live_deadline h _

theorem inPlace_reply_iff (K : Aggregate τ) (absent : α) (f : τ → Outcome α × τ) :
    ((Access.inPlace K absent f).onCell now c).1 = .ok absent ↔
      ∀ o, c.obj = some o → ∃ v, K.proj o = some v ∧ (f v).1 = .ok absent := by
  rw [onCell]
  cases hobj : c.obj with
  | none => simp
  | some o =>
      cases hproj : K.proj o with
      | none => simp [hproj]
      | some v =>
          simp only [hproj, Option.some.injEq, forall_eq', exists_eq_left']
          cases hf : f v with
          | mk r v' =>
              cases r with
              | error e => simp
              | ok r => by_cases hempty : K.isEmpty v' <;> simp [hempty]

theorem inPlace_absent_iff (h : c.expired now = true) (K : Aggregate τ) (absent : α)
    (f : τ → Outcome α × τ) :
    c.ActsAsAbsent now ((Access.inPlace K absent f).onCell now) ↔
      ∀ o, c.obj = some o → ∃ v, K.proj o = some v ∧ (f v).1 = .ok absent := by
  exact (and_iff_left (inPlace_invisible h K absent f)).trans (inPlace_reply_iff K absent f)

end Access

/-! ## Removals that find nothing -/

theorem Deque.ne_nil_of_popAt {left : Bool} {l : List Bytes} {p : Bytes × List Bytes}
    (h : popAt left l = some p) : l ≠ [] := by
  intro hnil
  rw [(popAt_eq_none left l).mpr hnil] at h
  exact absurd h (by simp)

theorem Deque.popLoop_eq_nil (left : Bool) (count : Nat) (l : List Bytes) :
    (popLoop left count l).1 = [] ↔ count = 0 ∨ l = [] := by
  cases count with
  | zero => simp [popLoop]
  | succ count =>
      rw [popLoop]
      cases hpop : popAt left l with
      | none => simp [(popAt_eq_none left l).mp hpop]
      | some p => simp [ne_nil_of_popAt hpop]

theorem Deque.pop_eq_nil (left : Bool) (count : Nat) (l : List Bytes) :
    (pop left count l).1 = .ok [] ↔ CapacityOk elemSize count ∧ (count = 0 ∨ l = []) := by
  unfold pop
  by_cases hcap : CapacityOk elemSize count
  · simp [hcap, popLoop_eq_nil]
  · simp [hcap]

theorem Hash.hdel_eq_zero (fields : List String) (h : StrMap Bytes) :
    (hdel fields h).1 = .ok 0 ↔ ∀ field ∈ fields, field ∉ h := by
  have hmiss : ∀ (h : StrMap Bytes) (field : String), h.contains field = false →
      h.erase field = h := by
    intro h field hnot
    apply Std.ExtTreeMap.ext_getElem?
    intro other
    rw [Std.ExtTreeMap.getElem?_erase]
    split
    · rename_i heq
      rw [← Std.LawfulEqCmp.eq_of_compare heq]
      exact (Std.ExtTreeMap.getElem?_eq_none_of_contains_eq_false hnot).symm
    · rfl
  simp only [hdel, Except.ok.injEq, tally_eq_zero hmiss, ← Std.ExtTreeMap.contains_iff_mem,
    Bool.not_eq_true]

theorem HashSet.srem_eq_zero (members : List String) (s : StrSet) :
    (srem members s).1 = .ok 0 ↔ ∀ member ∈ members, member ∉ s := by
  have hmiss : ∀ (s : StrSet) (member : String), s.contains member = false →
      s.erase member = s := by
    intro s member hnot
    apply Std.ExtTreeSet.ext_mem
    intro other
    rw [Std.ExtTreeSet.mem_erase]
    refine and_iff_right_of_imp fun hmem heq => ?_
    rw [← Std.LawfulEqCmp.eq_of_compare heq, ← Std.ExtTreeSet.contains_iff_mem, hnot] at hmem
    exact absurd hmem (by decide)
  simp only [srem, Except.ok.injEq, tally_eq_zero hmiss, ← Std.ExtTreeSet.contains_iff_mem,
    Bool.not_eq_true]

theorem HashSet.spop_eq_nil (chooser : Chooser) (count : Nat) (s : StrSet) :
    (spop chooser count s).1 = .ok [] ↔
      chooser.reserves count = true ∧ (count = 0 ∨ s.isEmpty) := by
  have hempty : s.isEmpty = true ↔ s.toList.length = 0 := by
    simp [Std.ExtTreeSet.isEmpty_eq_size_beq_zero]
  unfold spop
  split
  · rename_i hreserves
    rw [hempty, Except.ok.injEq, ← List.length_eq_zero_iff, chooser.length]
    simp only [hreserves, true_and]
    omega
  · rename_i hreserves
    simp [hreserves]

namespace ZSetInner

theorem zrem_eq_zero (members : List String) (z : ZSetInner) :
    (zrem members z).1 = .ok 0 ↔ ∀ member ∈ members, member ∉ z.scores := by
  have hmiss : ∀ (z : ZSetInner) (member : String), (z.remove member).1 = false →
      (z.remove member).2 = z := by
    intro z member hnot
    unfold remove at *
    split <;> simp_all
  have hremove : ∀ member, (z.remove member).1 = false ↔ member ∉ z.scores := by
    intro member
    unfold remove
    split
    · rename_i score hscore
      have hmem : member ∈ z.scores := by
        simp [Std.ExtTreeMap.mem_iff_isSome_getElem?, hscore]
      simp [hmem]
    · rename_i hscore
      simpa using hscore
  simp only [zrem, Except.ok.injEq, tally_eq_zero hmiss, hremove]

theorem removeByScore_eq_zero (min max : ScoreBound) (z : ZSetInner) :
    (succeed (z.removeByScore min max)).1 = .ok 0 ↔ ∀ p ∈ z.sl.iter, inRange min max p = false := by
  simp [succeed, removeByScore]

theorem removeByRank_eq_zero (start stop : Int) (z : ZSetInner) :
    (z.removeByRank start stop).1 = .ok 0 ↔
      z.sl.iter.length ≤ (z.window start stop).1 ∨
        (z.window start stop).2 < (z.window start stop).1 := by
  rw [removeByRank, windowItems_eq]
  by_cases hlt : (z.window start stop).2 < (z.window start stop).1
  · simp [hlt]
  · simp [hlt, Nat.sub_eq_zero_iff_le]

theorem popMin_eq_nil (count : Nat) (z : ZSetInner) :
    (succeed (z.popMin count)).1 = .ok [] ↔ count = 0 ∨ z.sl.iter = [] := by
  simp [succeed, popMin]

theorem popMax_eq_nil (count : Nat) (z : ZSetInner) :
    (succeed (z.popMax count)).1 = .ok [] ↔ count = 0 ∨ z.sl.iter = [] := by
  simp [succeed, popMax]

end ZSetInner

/-! ## Operations on an expired cell -/

namespace TypedOp

variable {env : Env} {c : Cell}

theorem not_absent_of_creates (op : TypedOp α) (hop : op.creates = true)
    (h : c.expired env.now = true) :
    ¬ c.ActsAsAbsent env.now ((op.access env).onCell env.now) := by
  cases op with
  | append | incr | incrFloat | setrange | lpush | rpush | hset | hsetnx | hincrby | hincrbyfloat
  | sadd | zadd | zincrby => exact fun habsent => Access.create_live_ne h _ _ _ habsent.2
  | _ => exact absurd hop Bool.false_ne_true

theorem typeName_of_takesNothing (op : TypedOp α) {o : RudisObject} (h : op.TakesNothing env o) :
    o.typeName = op.valueType := by
  cases op <;> cases o <;> first | rfl | exact h.elim

/-- A removal replies as on no key exactly if its work on the value does. -/
theorem absent_iff_of_value (op : TypedOp α) {τ : Type} {K : Aggregate τ} {absent : α}
    {f : τ → Outcome α × τ} (haccess : op.access env = .inPlace K absent f)
    (h : c.expired env.now = true)
    (hvalue : ∀ v, (f v).1 = .ok absent ↔ op.TakesNothing env (K.inj v)) :
    c.ActsAsAbsent env.now ((op.access env).onCell env.now) ↔
      ∀ o, c.obj = some o → op.TakesNothing env o := by
  rw [haccess, Access.inPlace_absent_iff h]
  apply forall_congr'
  intro o
  apply imp_congr_right
  intro _
  constructor
  · rintro ⟨v, hproj, hv⟩
    rw [K.inj_proj hproj]
    exact (hvalue v).mp hv
  · intro hnothing
    have hname : o.typeName = K.name := by
      rw [op.typeName_of_takesNothing hnothing, ← op.kindName_access env, haccess]
      rfl
    obtain ⟨v, hproj⟩ := Option.ne_none_iff_exists'.mp fun hnone => K.proj_none.mp hnone hname
    rw [K.inj_proj hproj] at hnothing
    exact ⟨v, hproj, (hvalue v).mpr hnothing⟩

theorem absent_iff_of_removes (op : TypedOp α) (hop : op.removes = true)
    (h : c.expired env.now = true) :
    c.ActsAsAbsent env.now ((op.access env).onCell env.now) ↔
      ∀ o, c.obj = some o → op.TakesNothing env o := by
  cases op with
  | lpop count => exact absent_iff_of_value _ rfl h (Deque.pop_eq_nil true count)
  | rpop count => exact absent_iff_of_value _ rfl h (Deque.pop_eq_nil false count)
  | ltrim start stop =>
      apply absent_iff_of_value _ rfl h
      intro l
      simp [Deque.ltrim_eq, TakesNothing, listKind]
  | hdel fields => exact absent_iff_of_value _ rfl h (Hash.hdel_eq_zero fields)
  | srem members => exact absent_iff_of_value _ rfl h (HashSet.srem_eq_zero members)
  | spop count => exact absent_iff_of_value _ rfl h (HashSet.spop_eq_nil env.chooser count)
  | zrem members => exact absent_iff_of_value _ rfl h (ZSetInner.zrem_eq_zero members)
  | zremrangebyscore min max =>
      exact absent_iff_of_value _ rfl h (ZSetInner.removeByScore_eq_zero min max)
  | zremrangebyrank start stop =>
      exact absent_iff_of_value _ rfl h (ZSetInner.removeByRank_eq_zero start stop)
  | zpopmin count => exact absent_iff_of_value _ rfl h (ZSetInner.popMin_eq_nil count)
  | zpopmax count => exact absent_iff_of_value _ rfl h (ZSetInner.popMax_eq_nil count)
  | _ => exact absurd hop Bool.false_ne_true

end TypedOp

/-! ## Moves between two keys -/

namespace LogicalDb

def ActsAsRemoved (now : Instant) (key : String) (f : LogicalDb → Outcome α × LogicalDb)
    (self : LogicalDb) : Prop :=
  (f self).1 = (f (self.put key .absent)).1 ∧
    ((f self).2.cell key).live now = ((f (self.put key .absent)).2.cell key).live now

variable {self : LogicalDb} {now : Instant}

theorem onKey_actsAsRemoved_iff (key : String) (g : Cell → Outcome α × Cell) :
    self.ActsAsRemoved now key (onKey key g) ↔ (self.cell key).ActsAsAbsent now g := by
  simp [ActsAsRemoved, Cell.ActsAsAbsent, onKey]

variable {src dst : String} {take : Cell → Outcome α × Cell}
  {put : α → Option (Cell → Outcome α × Cell)}

/-- At an expired source a move should take nothing. -/
theorem moveVia_src_iff (y : α) (hnone : put y = none)
    (habsent : take .absent = (.ok y, .absent))
    (hput : ∀ x g c, put x = some g → (g c).1 ≠ .ok y)
    (hdead : ((take (self.cell src)).2).live now = none) :
    self.ActsAsRemoved now src (moveVia src dst take put) ↔
      (take (self.cell src)).1 = .ok y := by
  have hremoved : (self.put src .absent).moveVia src dst take put =
      (.ok y, self.put src .absent) := by
    simp [moveVia, onKey, habsent, hnone]
  unfold ActsAsRemoved
  rw [hremoved, cell_put, Cell.live_absent]
  unfold moveVia onKey
  constructor
  · rintro ⟨hreply, -⟩
    cases htaken : (take (self.cell src)).1 with
    | error e =>
        rw [htaken] at hreply
        exact hreply
    | ok x =>
        cases hcont : put x with
        | none =>
            simp only [htaken, hcont] at hreply
            exact hreply
        | some g =>
            simp only [htaken, hcont] at hreply
            exact absurd hreply (hput x g _ hcont)
  · intro htaken
    simpa only [htaken, hnone, cell_put, true_and] using hdead

/-- A move should put nothing into an expired destination. -/
theorem moveVia_dst_iff (hne : dst ≠ src) (hexp : (self.cell dst).expired now = true)
    (hput : ∀ x g, put x = some g → ¬ (self.cell dst).ActsAsAbsent now g) :
    self.ActsAsRemoved now dst (moveVia src dst take put) ↔
      ∀ x, (take (self.cell src)).1 = .ok x → put x = none := by
  unfold ActsAsRemoved moveVia onKey
  rw [cell_put_ne self hne.symm]
  cases htaken : (take (self.cell src)).1 with
  | error e =>
      simp [cell_put_ne _ hne, Cell.live_of_expired hexp]
  | ok x =>
      cases hcont : put x with
      | none => simp [hcont, cell_put_ne _ hne, Cell.live_of_expired hexp]
      | some g =>
          have hnot := hput x g hcont
          unfold Cell.ActsAsAbsent at hnot
          simpa [hcont, cell_put_ne _ hne] using hnot

end LogicalDb

/-! ## The exact condition -/

theorem Op.actsAsRemoved_iff_of_run (op : Op α) (env : Env) {self : Database} {db : Nat}
    {ldb : LogicalDb} (hdb : self.dbs[db]? = some ldb) (key : String)
    {f : LogicalDb → Outcome α × LogicalDb} (hrun : ∀ self, op.run env self = self.withDb db f) :
    op.ActsAsRemoved env db key self ↔ ldb.ActsAsRemoved env.now key f := by
  unfold ActsAsRemoved LogicalDb.ActsAsRemoved
  rw [hrun, hrun, Database.removed_eq hdb, Database.withDb_eq hdb,
    Database.withDb_eq (Database.dbs_setDb hdb _), Database.setDb_setDb,
    Database.visible_setDb hdb, Database.visible_setDb hdb]

theorem Cell.rotate_eq_none_iff (srcLeft dstLeft : Bool) (c : Cell) :
    (c.rotate srcLeft dstLeft).1 = .ok none ↔ ∀ o, c.obj = some o → o = .list [] := by
  unfold rotate
  cases c.obj with
  | none => simp
  | some o =>
      cases o with
      | list l =>
          unfold Deque.rotate
          by_cases hl : l = []
          · simp [hl]
          · simp only [List.isEmpty_iff, hl, if_false, Option.some.injEq, forall_eq',
              RudisObject.list.injEq, iff_false]
            split <;> simp
      | str _ | hash _ | set _ | zset _ => simp

theorem Cell.rotate_invisible {now : Instant} {c : Cell} (h : c.expired now = true)
    (srcLeft dstLeft : Bool) : (c.rotate srcLeft dstLeft).2.live now = none := by
  unfold rotate
  split
  · exact live_of_expired h
  · exact live_deadline h _
  · exact live_of_expired h

theorem Cell.takeMember_invisible {now : Instant} {c : Cell} (h : c.expired now = true)
    (member : String) : (c.takeMember member).2.live now = none := by
  unfold takeMember
  split
  · exact live_of_expired h
  · split
    · split
      · exact live_absent now
      · exact live_deadline h _
    · exact live_of_expired h
  · exact live_of_expired h

theorem Cell.takeMember_eq_false_iff (member : String) (c : Cell) :
    (c.takeMember member).1 = .ok false ↔
      ∀ o, c.obj = some o → ∃ s, o = .set s ∧ member ∉ s := by
  unfold takeMember
  cases c.obj with
  | none => simp
  | some o =>
      cases o with
      | set s => by_cases hmem : member ∈ s <;> simp [hmem]
      | str _ | list _ | hash _ | zset _ => simp

theorem Cell.takeMember_eq_true_iff (member : String) (c : Cell) :
    (c.takeMember member).1 = .ok true ↔ ∃ s, c.obj = some (.set s) ∧ member ∈ s := by
  unfold takeMember
  cases c.obj with
  | none => simp
  | some o =>
      cases o with
      | set s => by_cases hmem : member ∈ s <;> simp [hmem]
      | str _ | list _ | hash _ | zset _ => simp

theorem Deque.take_eq_none_iff (left : Bool) (l : List Bytes) :
    (take left l).1 = .ok none ↔ l = [] := by
  rw [← popAt_eq_none left, take]
  cases popAt left l <;> simp

theorem lmovePut_ne_none {now : Instant} {dstLeft : Bool} {x : Option Bytes}
    {g : Cell → Outcome (Option Bytes) × Cell} (c : Cell) (h : lmovePut now dstLeft x = some g) :
    (g c).1 ≠ .ok none := by
  cases x with
  | none => exact absurd h (by simp [lmovePut])
  | some elem =>
      simp only [lmovePut, Option.some.injEq] at h
      rw [← h]
      show Except.map _ _ ≠ _
      cases ((Access.create listKind.toKind [] (Deque.pushAll dstLeft [elem])).onCell now c).1 <;>
        simp [Except.map]

theorem smovePut_ne_false {now : Instant} {member : String} {x : Bool}
    {g : Cell → Outcome Bool × Cell} (c : Cell) (h : smovePut now member x = some g) :
    (g c).1 ≠ .ok false := by
  cases x with
  | false => exact absurd h (by simp [smovePut])
  | true =>
      simp only [smovePut, Option.some.injEq] at h
      rw [← h, Access.onCell]
      split
      · simp [HashSet.put]
      · split <;> simp [HashSet.put]

namespace LogicalDb

variable {self : LogicalDb} {now : Instant} {src dst : String}

theorem lmove_src_iff (srcLeft dstLeft : Bool) (hexp : (self.cell src).expired now = true) :
    self.ActsAsRemoved now src (moveVia src dst
        ((Access.inPlace listKind none (Deque.take srcLeft)).onCell now) (lmovePut now dstLeft)) ↔
      ∀ o, (self.cell src).obj = some o → o = .list [] := by
  have hdead := Access.inPlace_invisible hexp listKind none (Deque.take srcLeft)
  refine (moveVia_src_iff none rfl ?_ (fun x g c h => lmovePut_ne_none c h) hdead).trans ?_
  · rfl
  rw [Access.inPlace_reply_iff]
  apply forall_congr'
  intro o
  cases o <;> simp [listKind, Deque.take_eq_none_iff]

theorem lmove_dst_iff (srcLeft dstLeft : Bool) (hne : dst ≠ src)
    (hexp : (self.cell dst).expired now = true) :
    self.ActsAsRemoved now dst (moveVia src dst
        ((Access.inPlace listKind none (Deque.take srcLeft)).onCell now) (lmovePut now dstLeft)) ↔
      ∀ l, (self.cell src).obj = some (.list l) → l = [] := by
  rw [moveVia_dst_iff hne hexp]
  · have hput : ∀ x, lmovePut now dstLeft x = none ↔ x = none := by
      intro x
      cases x <;> simp [lmovePut]
    simp only [hput]
    cases hobj : (self.cell src).obj with
    | none => simp [Access.onCell, hobj]
    | some o =>
        cases o with
        | list l =>
            cases hpop : Deque.popAt srcLeft l with
            | none =>
                obtain rfl := (Deque.popAt_eq_none srcLeft l).mp hpop
                simp [Access.onCell, hobj, listKind, Deque.take, hpop]
            | some p =>
                have hl : l ≠ [] := Deque.ne_nil_of_popAt hpop
                by_cases hempty : p.2.isEmpty <;>
                  simp [Access.onCell, hobj, listKind, Deque.take, hpop, hl, hempty]
        | str _ | hash _ | set _ | zset _ => simp [Access.onCell, hobj, listKind]
  · intro x g hput habsent
    cases x with
    | none => exact absurd hput (by simp [lmovePut])
    | some elem =>
        simp only [lmovePut, Option.some.injEq] at hput
        rw [← hput] at habsent
        exact Access.create_live_ne hexp _ _ _ habsent.2

theorem smove_src_iff (member : String) (hexp : (self.cell src).expired now = true) :
    self.ActsAsRemoved now src (moveVia src dst (Cell.takeMember member) (smovePut now member)) ↔
      ∀ o, (self.cell src).obj = some o → ∃ s, o = .set s ∧ member ∉ s := by
  have hdead := Cell.takeMember_invisible hexp member
  refine (moveVia_src_iff false rfl ?_ (fun x g c h => smovePut_ne_false c h) hdead).trans ?_
  · rfl
  exact Cell.takeMember_eq_false_iff member _

theorem smove_dst_iff (member : String) (hne : dst ≠ src)
    (hexp : (self.cell dst).expired now = true) :
    self.ActsAsRemoved now dst (moveVia src dst (Cell.takeMember member) (smovePut now member)) ↔
      ∀ s, (self.cell src).obj = some (.set s) → member ∉ s := by
  rw [moveVia_dst_iff hne hexp]
  · have htrue := Cell.takeMember_eq_true_iff member (self.cell src)
    simp [smovePut, htrue]
  · intro x g hput habsent
    cases x with
    | false => exact absurd hput (by simp [smovePut])
    | true =>
        simp only [smovePut, Option.some.injEq] at hput
        rw [← hput] at habsent
        exact Access.create_live_ne hexp _ _ _ habsent.2

end LogicalDb

theorem TypedOp.stale_iff (op : TypedOp α) {env : Env} {self : Database} {db : Nat}
    {key : String} {ldb : LogicalDb} (hdb : self.dbs[db]? = some ldb)
    (hexp : (ldb.cell key).expired env.now = true) (hop : (op.creates || op.removes) = true) :
    (Op.onKey db key (.typed op)).ActsAsRemoved env db key self ↔
      op.removes = true ∧ ∀ o, (ldb.cell key).obj = some o → op.TakesNothing env o := by
  have hrun : ∀ self : Database, (Op.onKey db key (.typed op)).run env self =
      self.withDb db (LogicalDb.onKey key ((op.access env).onCell env.now)) :=
    fun self => (KeyOp.typed op).run_eq env db key self
  rw [Op.actsAsRemoved_iff_of_run _ env hdb key hrun, LogicalDb.onKey_actsAsRemoved_iff]
  by_cases hremoves : op.removes = true
  · rw [op.absent_iff_of_removes hremoves hexp]
    exact (and_iff_right hremoves).symm
  · have hcreates : op.creates = true := by simpa [hremoves] using hop
    exact iff_of_false (op.not_absent_of_creates hcreates hexp) fun h => hremoves h.1

/-- **Writes to expired keys.**  An in-place write to a stored key whose deadline
has passed replies as if the key had been removed, and lets the same be seen
afterwards, exactly if it is a removal that finds nothing to remove, or a move
into the key that finds nothing to move. -/
theorem Op.actsAsRemoved_iff (op : Op α) (env : Env) (db : Nat) (key : String) (self : Database)
    (ldb : LogicalDb) (hdb : self.dbs[db]? = some ldb) (hexp : ldb.isExpired env.now key = true)
    (hop : op.WritesInPlace db key) :
    op.ActsAsRemoved env db key self ↔ op.FindsNothing env ldb key := by
  rw [LogicalDb.isExpired_eq] at hexp
  cases op with
  | onKey db' key' op =>
      cases op with
      | typed op =>
          obtain ⟨rfl, rfl, hwrite⟩ := hop
          exact op.stale_iff hdb hexp hwrite
      | _ => exact hop.elim
  | lmove db' src dst srcLeft dstLeft =>
      obtain ⟨rfl, hkey⟩ := hop
      rw [FindsNothing]
      by_cases hsrc : key = src
      · rw [if_pos hsrc]
        subst hsrc
        by_cases hdst : key = dst
        · subst hdst
          have hrun := fun self : Database =>
            self.lmove_self_eq env.now db' key srcLeft dstLeft
          rw [actsAsRemoved_iff_of_run (.lmove db' key key srcLeft dstLeft) env hdb key hrun,
            LogicalDb.onKey_actsAsRemoved_iff]
          exact (and_iff_left (Cell.rotate_invisible hexp srcLeft dstLeft)).trans
            (Cell.rotate_eq_none_iff srcLeft dstLeft _)
        · have hrun := fun self : Database =>
            self.lmove_eq env.now db' hdst srcLeft dstLeft
          exact (actsAsRemoved_iff_of_run (.lmove db' key dst srcLeft dstLeft) env hdb key hrun).trans
            (LogicalDb.lmove_src_iff srcLeft dstLeft hexp)
      · rw [if_neg hsrc]
        have hdst : key = dst := hkey.resolve_left hsrc
        subst hdst
        have hrun := fun self : Database =>
          self.lmove_eq env.now db' (Ne.symm hsrc) srcLeft dstLeft
        exact (actsAsRemoved_iff_of_run (.lmove db' src key srcLeft dstLeft) env hdb key hrun).trans
          (LogicalDb.lmove_dst_iff srcLeft dstLeft hsrc hexp)
  | smove db' src dst member =>
      obtain ⟨rfl, hkey⟩ := hop
      have hrun := fun self : Database => self.smove_eq env.now db' src dst member
      rw [FindsNothing]
      by_cases hsrc : key = src
      · rw [if_pos hsrc]
        subst hsrc
        exact (actsAsRemoved_iff_of_run (.smove db' key dst member) env hdb key hrun).trans
          (LogicalDb.smove_src_iff member hexp)
      · rw [if_neg hsrc]
        have hdst : key = dst := hkey.resolve_left hsrc
        subst hdst
        exact (actsAsRemoved_iff_of_run (.smove db' src key member) env hdb key hrun).trans
          (LogicalDb.smove_dst_iff member hsrc hexp)
  | _ => exact hop.elim

def staleList : LogicalDb where
  data := (∅ : StrMap RudisObject).insert "k" (.list [[1]])
  expiry := (∅ : StrMap Instant).insert "k" 10

theorem Op.actsAsRemoved_sample :
    (Op.onKey 0 "k" (.typed (.ltrim 0 5))).ActsAsRemoved (.at 10) 0 "k" ⟨[staleList]⟩ ↔
      (Op.onKey 0 "k" (.typed (.ltrim 0 5))).FindsNothing (.at 10) staleList "k" :=
  Op.actsAsRemoved_iff (.onKey 0 "k" (.typed (.ltrim 0 5))) (.at 10) 0 "k" ⟨[staleList]⟩ staleList
    rfl (by decide) ⟨rfl, rfl, rfl⟩

/-- `LPUSH` on an expired list counts the stale element. -/
theorem Op.lpush_counts_stale :
    ¬ ∀ (α : Type) (op : Op α) (env : Env) (db : Nat) (key : String) (self : Database)
      (ldb : LogicalDb), self.dbs[db]? = some ldb → ldb.isExpired env.now key = true →
      op.WritesInPlace db key → op.ActsAsRemoved env db key self := by
  intro hclaim
  have hreply := (hclaim _ (.onKey 0 "k" (.typed (.lpush [[2]]))) (.at 10) 0 "k" ⟨[staleList]⟩
    staleList rfl (by decide) ⟨rfl, rfl, rfl⟩).1
  exact absurd hreply (by decide)

end MiniRudis
