import MiniRudis.Db.Deadlines
import MiniRudis.Db.Writes

/-!
# Absent keys as empty values

The source deletes what it has emptied and creates what it writes to.  To the typed operations
that do not ask whether their key is there, it is as if every key held an object from the
start.
-/

namespace MiniRudis

open Lib

variable {α τ : Type}

/-! ## Objects that are always there -/

def RudisObject.emptied : RudisObject → RudisObject
  | str _ => .str []
  | list _ => .list []
  | hash _ => .hash ∅
  | set _ => .set ∅
  | zset _ => .zset .new

@[simp] theorem RudisObject.emptied_emptied (o : RudisObject) : o.emptied.emptied = o.emptied := by
  cases o <;> rfl

@[simp] theorem RudisObject.typeName_emptied (o : RudisObject) :
    o.emptied.typeName = o.typeName := by
  cases o <;> rfl

theorem RudisObject.emptied_of_name {o : RudisObject} (fresh : RudisObject)
    (h : fresh.typeName = o.typeName)
    (hfresh : fresh.emptied = fresh) : o.emptied = fresh := by
  rw [← hfresh]
  cases o <;> cases fresh <;> first
    | rfl
    | exact absurd h (by simp [typeName])

namespace Access

/-- The access to an object that is there whatever happens.  One that is emptied starts
afresh. -/
def onObject : Access α → RudisObject → Outcome α × RudisObject
  | .read K _ f, o =>
      match K.proj o with
      | some v => (f v, o)
      | none => (err .wrongType, o)
  | .modify K _ f, o =>
      match K.proj o with
      | some v => ((f v).1, K.inj (f v).2)
      | none => (err .wrongType, o)
  | .create K _ f, o =>
      match K.proj o with
      | some v => ((f v).1, K.inj (f v).2)
      | none => (err .wrongType, o)
  | .inPlace K _ f, o =>
      match K.proj o with
      | some v =>
          ((f v).1, if (f v).1.toBool && K.isEmpty (f v).2 then o.emptied else K.inj (f v).2)
      | none => (err .wrongType, o)

/-- What the access does without a key it does to the object. -/
def FromAbsent (o : RudisObject) : Access α → Prop
  | .read K absent f => ∀ v, K.proj o = some v → f v = .ok absent
  | .modify K absent f => ∀ v, K.proj o = some v → f v = (absent, v)
  | .create K init _ => o = K.inj init
  | .inPlace K absent f => ∀ v, K.proj o = some v → f v = (.ok absent, v)

end Access

/-- The key holds the object, or is absent while the object is a fresh one. -/
def Cell.Shows (o : RudisObject) (c : Cell) : Prop := c.obj = some o ∨ c.obj = none ∧ o.emptied = o

theorem Kind.proj_of_name {K : Kind τ} {o : RudisObject} (h : K.name = o.typeName) :
    ∃ v, K.proj o = some v := by
  cases hproj : K.proj o with
  | none => exact absurd h.symm (K.proj_none.mp hproj)
  | some v => exact ⟨v, rfl⟩

theorem Kind.typeName_inj (K : Kind τ) (v : τ) : (K.inj v).typeName = K.name := by
  by_contra hname
  exact absurd ((K.proj_inj v).symm.trans (K.proj_none.mpr hname)) (by simp)

theorem Access.typeName_onObject (a : Access α) {o : RudisObject} (hname : a.kindName = o.typeName) :
    (a.onObject o).2.typeName = o.typeName := by
  cases a with
  | read K absent f =>
      obtain ⟨v, hv⟩ := K.proj_of_name hname
      rw [onObject, hv]
  | modify K absent f | create K init f =>
      obtain ⟨v, hv⟩ := K.proj_of_name hname
      rw [onObject, hv]
      exact (K.typeName_inj _).trans hname
  | inPlace K absent f =>
      obtain ⟨v, hv⟩ := K.proj_of_name hname
      rw [onObject, hv]
      dsimp only
      split
      · exact o.typeName_emptied
      · exact (K.typeName_inj _).trans hname

theorem Cell.fresh_earlier {c : Cell} {now later : Instant} (hle : now ≤ later)
    (h : c.expired later = false) : c.expired now = false := by
  by_contra hexp
  rw [Bool.not_eq_false] at hexp
  exact absurd ((expired_later hle hexp).symm.trans h) (by simp)

/-- **Absent is empty**, for an access that does not ask whether the key is there. -/
theorem Access.onCell_shows (a : Access α) {now : Instant} {c : Cell} {o : RudisObject}
    (hfresh : c.expired now = false) (hshows : c.Shows o) (hname : a.kindName = o.typeName)
    (habsent : o.emptied = o → a.FromAbsent o) :
    (a.onCell now c).1 = (a.onObject o).1 ∧ (a.onCell now c).2.Shows (a.onObject o).2 := by
  cases a with
  | read K absent f =>
      obtain ⟨v, hv⟩ := K.proj_of_name hname
      rw [onObject, hv, onCell, Cell.live, hfresh, if_neg Bool.false_ne_true]
      obtain hobj | ⟨hobj, hempty⟩ := hshows
      · rw [hobj]
        dsimp only
        rw [hv]
        exact ⟨rfl, Or.inl hobj⟩
      · rw [hobj]
        exact ⟨(habsent hempty v hv).symm, Or.inr ⟨hobj, hempty⟩⟩
  | modify K absent f =>
      obtain ⟨v, hv⟩ := K.proj_of_name hname
      rw [onObject, hv, onCell, hfresh, if_neg Bool.false_ne_true]
      obtain hobj | ⟨hobj, hempty⟩ := hshows
      · rw [hobj]
        dsimp only
        rw [hv]
        exact ⟨rfl, Or.inl rfl⟩
      · rw [hobj]
        dsimp only
        rw [habsent hempty v hv, ← K.inj_proj hv]
        exact ⟨rfl, Or.inr ⟨hobj, hempty⟩⟩
  | create K init f =>
      rw [onObject, onCell]
      obtain hobj | ⟨hobj, hempty⟩ := hshows
      · obtain ⟨v, hv⟩ := K.proj_of_name hname
        rw [hobj]
        dsimp only
        rw [hv]
        exact ⟨rfl, Or.inl rfl⟩
      · obtain rfl := habsent hempty
        rw [hobj, K.proj_inj]
        exact ⟨rfl, Or.inl rfl⟩
  | inPlace K absent f =>
      obtain ⟨v, hv⟩ := K.proj_of_name hname
      rw [onObject, hv, onCell]
      obtain hobj | ⟨hobj, hempty⟩ := hshows
      · rw [hobj]
        dsimp only
        rw [hv]
        dsimp only
        cases hf : f v with
        | mk r v' =>
            cases r with
            | error e => exact ⟨rfl, Or.inl rfl⟩
            | ok r =>
                cases hempty : K.isEmpty v' with
                | true =>
                    dsimp only
                    rw [hempty]
                    exact ⟨rfl, Or.inr ⟨rfl, o.emptied_emptied⟩⟩
                | false =>
                    dsimp only
                    rw [hempty]
                    exact ⟨rfl, Or.inl rfl⟩
      · rw [hobj]
        dsimp only
        rw [habsent hempty v hv, ← K.inj_proj hv, hempty, ite_self]
        exact ⟨rfl, Or.inr ⟨hobj, hempty⟩⟩

theorem Access.onCell_fresh (a : Access α) (now : Instant) {c : Cell} {later : Instant}
    (hfresh : c.expired later = false) : (a.onCell now c).2.expired later = false := by
  cases hobj : c.obj with
  | some o =>
      have hsome : c.obj.isSome := by
        rw [hobj]
        rfl
      obtain ⟨-, hsame⟩ | hgone := a.onCell_deadline now hsome
      · rw [Cell.expired, hsame]
        exact hfresh
      · rw [hgone]
        rfl
  | none =>
      cases a with
      | read K absent f =>
          rw [onCell_read]
          exact hfresh
      | modify K absent f =>
          rw [onCell, hobj]
          split
          · rfl
          · exact hfresh
      | create K init f =>
          rw [onCell, hobj]
          exact hfresh
      | inPlace K absent f =>
          rw [onCell, hobj]
          exact hfresh

/-! ## Values without elements -/

namespace Deque

theorem popLoop_nil (left : Bool) (count : Nat) : popLoop left count [] = ([], []) := by
  cases count with
  | zero => rfl
  | succ count => cases left <;> rfl

theorem pop_nil (left : Bool) {count : Nat} (h : CapacityOk elemSize count) :
    pop left count [] = (.ok [], []) := by
  rw [pop, if_pos h, popLoop_nil]

theorem lrem_nil (count : Int) (value : Bytes) : lrem count value [] = (.ok 0, []) := by
  rw [lrem]
  split
  · rfl
  · split <;> rfl

end Deque

theorem Hash.values_empty : (∅ : StrMap Bytes).values = [] := rfl

theorem Hash.hdel_empty (fields : List String) : hdel fields ∅ = (.ok 0, ∅) := by
  rw [hdel, tally_stay (fun _ => Std.ExtTreeMap.contains_empty) fun _ =>
    Std.ExtTreeMap.erase_empty]

namespace HashSet

theorem srem_empty (members : List String) : srem members ∅ = (.ok 0, ∅) := by
  rw [srem, tally_stay (fun _ => Std.ExtTreeSet.contains_empty) fun _ =>
    Std.ExtTreeSet.erase_empty]

theorem toList_empty : (∅ : StrSet).toList = [] := Std.ExtTreeSet.toList_eq_nil_iff.mpr rfl

theorem choose_nil (chooser : Chooser) (count : Nat) : chooser.choose [] count = [] :=
  List.subperm_nil.mp (chooser.subperm [] count)

theorem spop_empty {chooser : Chooser} {count : Nat} (h : chooser.reserves count = true) :
    spop chooser count ∅ = (.ok [], ∅) := by
  rw [spop, if_pos h, toList_empty, choose_nil]
  rfl

theorem srandmember_empty {chooser : Chooser} (draw : Nat → Nat) {count : Int}
    (h : 0 ≤ count → chooser.reserves count.toNat = true) :
    srandmember chooser draw count ∅ = .ok [] := by
  rw [srandmember, toList_empty]
  split
  · rename_i hcount
    rw [if_pos (h hcount), choose_nil]
  · rfl

end HashSet

namespace ZSetInner

theorem zrem_new (members : List String) : zrem members .new = (.ok 0, .new) := by
  have hremove : ∀ member, new.remove member = (false, new) := by
    intro member
    have hnone : new.scores[member]? = none := by simp [new]
    rw [remove, hnone]
  rw [zrem, tally_stay (fun member => by rw [hremove]) fun member => by rw [hremove]]

@[simp] theorem iter_new : new.sl.iter = [] := SkipIndex.iter_new

@[simp] theorem score_new (member : String) : new.score member = none := by
  simp [score, new]

theorem zmscore_new (members : List String) : members.map new.score = members.map fun _ => none :=
  List.map_congr_left fun member _ => score_new member

@[simp] theorem rank_new (member : String) : new.rank member = none := by
  have hnone : new.scores[member]? = none := score_new member
  rw [rank, hnone]
  rfl

theorem len_new : new.len = 0 := Std.ExtTreeMap.size_empty

theorem windowItems_new (start stop : Int) : new.windowItems start stop = .ok [] := by
  rw [windowItems_eq, iter_new]
  split
  · rfl
  · simp

theorem zrange_new (start stop : Int) (rev withscores : Bool) :
    zrange start stop rev withscores .new = .ok [] := by
  rw [zrange, rangeByIndex, windowItems_new]
  cases rev <;> rfl

theorem page_nil {β : Type} (offset : Nat) (count : Option Nat) :
    page offset count ([] : List β) = [] := by
  cases count <;> simp [page]

theorem removeByRank_new (start stop : Int) : new.removeByRank start stop = (.ok 0, .new) := by
  rw [removeByRank, windowItems_new]
  rfl

end ZSetInner

/-! ## Operations that do not ask whether the key is there -/

/-- The operation does to an absent key what it does to an empty value. -/
def TypedOp.TakesEmpty (env : Env) : TypedOp α → Prop
  | get | incr _ | incrFloat _ | lpushx _ | rpushx _ | lset .. => False
  | lpop count | rpop count => CapacityOk Deque.elemSize count
  | spop count => env.chooser.reserves count = true
  | srandmember count => 0 ≤ count → env.chooser.reserves count.toNat = true
  | _ => True

namespace Access

theorem forall_proj {K : Kind τ} {v : τ} {P : τ → Prop} (h : P v) :
    ∀ w, K.proj (K.inj v) = some w → P w := by
  intro w hw
  rw [K.proj_inj] at hw
  exact Option.some.inj hw ▸ h

end Access

theorem TypedOp.fromAbsent (op : TypedOp α) {env : Env} {o : RudisObject}
    (htakes : op.TakesEmpty env) (hname : op.valueType = o.typeName) (hempty : o.emptied = o) :
    (op.access env).FromAbsent o := by
  rw [← hempty]
  cases op with
  | get | incr | incrFloat | lpushx | rpushx | lset => exact htakes.elim
  | append | setrange => exact RudisObject.emptied_of_name (.str []) hname rfl
  | strlen | getrange =>
      rw [RudisObject.emptied_of_name (.str []) hname rfl]
      exact Access.forall_proj (K := strKind) rfl
  | lpush | rpush => exact RudisObject.emptied_of_name (.list []) hname rfl
  | lpop | rpop | llen | lrange | lindex | linsert | lrem | ltrim =>
      rw [RudisObject.emptied_of_name (.list []) hname rfl]
      refine Access.forall_proj (K := listKind.toKind) ?_
      first
        | rfl
        | exact Deque.pop_nil _ htakes
        | exact Deque.lrem_nil _ _
  | hset | hsetnx | hincrby | hincrbyfloat =>
      exact RudisObject.emptied_of_name (.hash ∅) hname rfl
  | hget | hmget | hdel | hexists | hgetall | hkeys | hvals | hlen =>
      rw [RudisObject.emptied_of_name (.hash ∅) hname rfl]
      refine Access.forall_proj (K := hashKind.toKind) ?_
      first
        | exact Hash.hdel_empty _
        | exact congrArg Except.ok Hash.values_empty
        | simp
  | sadd => exact RudisObject.emptied_of_name (.set ∅) hname rfl
  | srem | smembers | sismember | smismember | scard | spop | srandmember =>
      rw [RudisObject.emptied_of_name (.set ∅) hname rfl]
      refine Access.forall_proj (K := setKind.toKind) ?_
      first
        | exact HashSet.srem_empty _
        | exact HashSet.spop_empty htakes
        | exact HashSet.srandmember_empty _ htakes
        | simp
  | zadd | zincrby => exact RudisObject.emptied_of_name (.zset .new) hname rfl
  | _ =>
      rw [RudisObject.emptied_of_name (.zset .new) hname rfl]
      refine Access.forall_proj (K := zsetKind.toKind) ?_
      first
        | exact ZSetInner.zrem_new _
        | exact congrArg Except.ok (ZSetInner.score_new _)
        | exact congrArg Except.ok (ZSetInner.zmscore_new _)
        | exact congrArg Except.ok (ZSetInner.rank_new _)
        | exact ZSetInner.zrange_new _ _ _ _
        | exact ZSetInner.removeByRank_new _ _
        | simp [ZSetInner.revrank, ZSetInner.len_new, ZSetInner.countByScore, ZSetInner.rangeByScore,
            ZSetInner.revrangeByScore, ZSetInner.page_nil, ZSetInner.removeByScore,
            ZSetInner.popMin, ZSetInner.popMax, ZSetInner.succeed, ZSetInner.removeAll]

end MiniRudis
