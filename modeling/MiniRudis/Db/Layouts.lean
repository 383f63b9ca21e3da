import MiniRudis.Db.Entries
import MiniRudis.Db.Eviction
import MiniRudis.Db.Related

/-!
# Layouts of skip lists

The levels that the nodes of a skip list have drawn show in no reply and in no value.
-/

namespace MiniRudis

open Lib

variable {α τ : Type}

/-! ## Sorted sets -/

namespace ZSetInner

/-- The same members with the same scores in the same order. -/
def Same (z z' : ZSetInner) : Prop := z.scores = z'.scores ∧ z.sl.iter = z'.sl.iter

namespace Same

variable {z z' : ZSetInner}

theorem refl (z : ZSetInner) : z.Same z := ⟨rfl, rfl⟩

theorem score_eq (h : z.Same z') : z.score = z'.score :=
  congrArg (fun (scores : StrMap F64) (member : String) => scores[member]?) h.1

theorem len_eq (h : z.Same z') : z.len = z'.len := congrArg Std.ExtTreeMap.size h.1

theorem isEmpty_eq (h : z.Same z') : z.isEmpty = z'.isEmpty := congrArg Std.ExtTreeMap.isEmpty h.1

theorem rank_eq (h : z.Same z') : z.rank = z'.rank := by
  funext member
  simp only [rank, h.1, SkipIndex.rankOf_eq, h.2]

theorem revrank_eq (h : z.Same z') : z.revrank = z'.revrank := by
  funext member
  rw [revrank, revrank, h.rank_eq, h.len_eq]

theorem iterRev_eq (h : z.Same z') : z.sl.iterRev = z'.sl.iterRev := by
  rw [SkipIndex.iterRev_eq, SkipIndex.iterRev_eq, h.2]

theorem windowItems_eq (h : z.Same z') : z.windowItems = z'.windowItems := by
  funext start stop
  rw [ZSetInner.windowItems_eq, ZSetInner.windowItems_eq, window, window, h.len_eq, h.2]

theorem zrange_eq (h : z.Same z') (start stop : Int) (rev withscores : Bool) :
    zrange start stop rev withscores z = zrange start stop rev withscores z' := by
  rw [zrange, zrange, rangeByIndex, rangeByIndex, h.windowItems_eq]

theorem countByScore_eq (h : z.Same z') (min max : ScoreBound) :
    z.countByScore min max = z'.countByScore min max := by
  rw [countByScore, countByScore, h.2]

theorem rangeByScore_eq (h : z.Same z') (min max : ScoreBound) (withscores : Bool) (offset : Nat)
    (count : Option Nat) :
    z.rangeByScore min max withscores offset count =
      z'.rangeByScore min max withscores offset count := by
  rw [rangeByScore, rangeByScore, h.2]

theorem revrangeByScore_eq (h : z.Same z') (max min : ScoreBound) (withscores : Bool)
    (offset : Nat) (count : Option Nat) :
    z.revrangeByScore max min withscores offset count =
      z'.revrangeByScore max min withscores offset count := by
  rw [revrangeByScore, revrangeByScore, h.iterRev_eq]

theorem add (h : z.Same z') (member : String) (score : F64) (lvl lvl' : Level) :
    Alike Same (z.add member score lvl) (z'.add member score lvl') := by
  refine ⟨?_, ?_, ?_⟩
  · rw [ZSetInner.add, ZSetInner.add, h.1]
  · rw [ZSetInner.add, ZSetInner.add, h.1]
  · simp only [ZSetInner.add, h.1, SkipIndex.iter_insert]
    cases z'.scores[member]? with
    | none => rw [h.2]
    | some old => rw [SkipIndex.iter_remove, SkipIndex.iter_remove, h.2]

theorem remove (h : z.Same z') (member : String) :
    Alike Same (z.remove member) (z'.remove member) := by
  rw [ZSetInner.remove, ZSetInner.remove, h.1]
  cases z'.scores[member]? with
  | none => exact ⟨rfl, h⟩
  | some score =>
      refine ⟨rfl, rfl, ?_⟩
      rw [SkipIndex.iter_remove, SkipIndex.iter_remove, h.2]

theorem removeAll (h : z.Same z') (members : List String) :
    (z.removeAll members).Same (z'.removeAll members) := by
  unfold ZSetInner.removeAll
  induction members generalizing z z' with
  | nil => exact h
  | cons member members ih => exact ih (h.remove member).2

theorem skips_eq (h : z.Same z') (flags : ZAddFlags) (score : F64) (member : String) :
    z.skips flags score member = z'.skips flags score member := by
  rw [skips, skips, h.1]

theorem zaddLoop (h : z.Same z') (flags : ZAddFlags) (levels levels' : Nat → Level) (i : Nat)
    (members : List (F64 × String)) (count : Int) :
    Alike Same (ZSetInner.zaddLoop flags levels i members count z)
      (ZSetInner.zaddLoop flags levels' i members count z') := by
  induction members generalizing z z' i count with
  | nil => exact ⟨rfl, h⟩
  | cons p members ih =>
      obtain ⟨score, member⟩ := p
      rw [ZSetInner.zaddLoop, ZSetInner.zaddLoop, h.skips_eq]
      split
      · exact ⟨rfl, h⟩
      · split
        · exact ih h _ _
        · obtain ⟨hnew, hadded⟩ := h.add member score (levels i) (levels' i)
          dsimp only
          rw [hnew]
          exact ih hadded _ _

theorem zincrby (h : z.Same z') (lvl lvl' : Level) (delta : F64) (member : String) :
    Alike Same (ZSetInner.zincrby lvl delta member z) (ZSetInner.zincrby lvl' delta member z') := by
  rw [ZSetInner.zincrby, ZSetInner.zincrby, h.1]
  split
  · exact ⟨rfl, h⟩
  · exact ⟨rfl, (h.add member _ lvl lvl').2⟩

theorem zrem (h : z.Same z') (members : List String) :
    Alike Same (ZSetInner.zrem members z) (ZSetInner.zrem members z') := by
  rw [ZSetInner.zrem, ZSetInner.zrem]
  dsimp only
  induction members generalizing z z' with
  | nil => exact ⟨rfl, h⟩
  | cons member members ih =>
      obtain ⟨hhit, hremoved⟩ := h.remove member
      obtain ⟨hcount, hrest⟩ := ih hremoved
      rw [tally, tally, hhit, Except.ok.inj hcount]
      exact ⟨rfl, hrest⟩

theorem removeByScore (h : z.Same z') (min max : ScoreBound) :
    Alike Same (z.removeByScore min max) (z'.removeByScore min max) := by
  rw [ZSetInner.removeByScore, ZSetInner.removeByScore, h.2]
  exact ⟨rfl, h.removeAll _⟩

theorem removeByRank (h : z.Same z') (start stop : Int) :
    Alike Same (z.removeByRank start stop) (z'.removeByRank start stop) := by
  rw [ZSetInner.removeByRank, ZSetInner.removeByRank, h.windowItems_eq]
  cases z'.windowItems start stop with
  | error e => exact ⟨rfl, h⟩
  | ok items => exact ⟨rfl, h.removeAll _⟩

theorem popMin (h : z.Same z') (count : Nat) : Alike Same (z.popMin count) (z'.popMin count) := by
  rw [ZSetInner.popMin, ZSetInner.popMin, h.2]
  exact ⟨rfl, h.removeAll _⟩

theorem popMax (h : z.Same z') (count : Nat) : Alike Same (z.popMax count) (z'.popMax count) := by
  rw [ZSetInner.popMax, ZSetInner.popMax, h.iterRev_eq]
  exact ⟨rfl, h.removeAll _⟩

end Same

end ZSetInner

/-! ## Objects -/

theorem RudisObject.same_iff {o o' : RudisObject} :
    o.Same o' ↔ o = o' ∨ ∃ z z', o = .zset z ∧ o' = .zset z' ∧ z.Same z' := by
  constructor
  · intro h
    cases o with
    | zset z =>
        cases o' with
        | zset z' => exact Or.inr ⟨z, z', rfl, rfl, h⟩
        | _ => exact absurd h (by simp [Same])
    | _ => exact Or.inl h
  · rintro (rfl | ⟨z, z', rfl, rfl, h⟩)
    · exact .refl _
    · exact h

theorem RudisObject.Same.typeName_eq {o o' : RudisObject} (h : o.Same o') :
    o.typeName = o'.typeName := by
  obtain rfl | ⟨z, z', rfl, rfl, -⟩ := RudisObject.same_iff.mp h <;> rfl

/-- The values of the type are related as the objects are the same. -/
structure Kind.Lifts (K : Kind τ) (S : τ → τ → Prop) : Prop where
  proj : ∀ {o o' : RudisObject}, o.Same o' → Option.Rel S (K.proj o) (K.proj o')
  inj : ∀ {v v' : τ}, S v v' → (K.inj v).Same (K.inj v')

theorem zsetKind_lifts : zsetKind.Lifts ZSetInner.Same where
  proj {o o'} h := by
    obtain rfl | ⟨z, z', rfl, rfl, hz⟩ := RudisObject.same_iff.mp h
    · cases o with
      | zset z => exact .some (.refl z)
      | _ => exact .none
    · exact .some hz
  inj h := h

theorem Kind.lifts_eq (K : Kind τ) (hname : K.name ≠ "zset") : K.Lifts Eq where
  proj {o o'} h := by
    obtain rfl | ⟨z, z', rfl, rfl, -⟩ := RudisObject.same_iff.mp h
    · cases K.proj o with
      | none => exact .none
      | some v => exact .some rfl
    · have hnone : ∀ z, K.proj (.zset z) = none := fun z => K.proj_none.mpr (Ne.symm hname)
      rw [hnone, hnone]
      exact .none
  inj h := h ▸ .refl _

/-! ## Cells -/

namespace Cell.Same

variable {c d : Cell}

theorem expired_eq (h : c.Same d) : c.expired = d.expired := by
  funext now
  rw [expired, expired, h.1]

theorem live (h : c.Same d) (now : Instant) : Option.Rel RudisObject.Same (c.live now) (d.live now) := by
  rw [Cell.live, Cell.live, h.expired_eq]
  split
  · exact .none
  · exact h.2

theorem isSome_eq (h : c.Same d) : c.obj.isSome = d.obj.isSome := by
  have hobj := h.2
  generalize c.obj = x, d.obj = y at hobj
  cases hobj <;> rfl

theorem isSome_live (h : c.Same d) (now : Instant) :
    (c.live now).isSome = (d.live now).isSome := by
  have hobj := h.live now
  generalize c.live now = x, d.live now = y at hobj
  cases hobj <;> rfl

theorem purge (h : c.Same d) (now : Instant) : (c.purge now).Same (d.purge now) := by
  rw [Cell.purge, Cell.purge, h.expired_eq]
  split
  · exact .refl _
  · exact h

theorem store (h : c.Same d) {o o' : RudisObject} (ho : o.Same o') :
    Cell.Same { c with obj := some o } { d with obj := some o' } :=
  ⟨h.1, .some ho⟩

end Cell.Same

/-! ## Accesses -/

def Access.Same (a a' : Access α) : Prop :=
  ∀ now c d, c.Same d → Alike Cell.Same (a.onCell now c) (a'.onCell now d)

namespace Access.Same

variable {K : Kind τ} {S : τ → τ → Prop}

theorem read (hK : K.Lifts S) (absent : α) {f f' : τ → Outcome α}
    (hf : ∀ v v', S v v' → f v = f' v') : (Access.read K absent f).Same (.read K absent f') := by
  intro now c d h
  have hlive := h.live now
  rw [onCell, onCell]
  generalize c.live now = x, d.live now = y at hlive ⊢
  cases hlive with
  | none => exact ⟨rfl, h⟩
  | @some o o' ho =>
      have hproj := hK.proj ho
      dsimp only
      generalize K.proj o = v, K.proj o' = v' at hproj ⊢
      cases hproj with
      | none => exact ⟨rfl, h⟩
      | some hv => exact ⟨hf _ _ hv, h⟩

theorem total (hK : K.Lifts S) (absent : α) {f f' : τ → α} (hf : ∀ v v', S v v' → f v = f' v') :
    (Access.total K absent f).Same (.total K absent f') :=
  .read hK absent fun v v' hv => congrArg Except.ok (hf v v' hv)

theorem modify (hK : K.Lifts S) (absent : Outcome α) {f f' : τ → Outcome α × τ}
    (hf : ∀ v v', S v v' → Alike S (f v) (f' v')) :
    (Access.modify K absent f).Same (.modify K absent f') := by
  rintro now ⟨x, exp⟩ ⟨y, exp'⟩ h
  obtain rfl : exp = exp' := h.1
  have hobj : Option.Rel RudisObject.Same x y := h.2
  rw [onCell, onCell, Cell.Same.expired_eq h]
  split
  · exact ⟨rfl, .refl _⟩
  · cases hobj with
    | none => exact ⟨rfl, h⟩
    | @some o o' ho =>
        have hproj := hK.proj ho
        dsimp only
        generalize K.proj o = v, K.proj o' = v' at hproj ⊢
        cases hproj with
        | none => exact ⟨rfl, h⟩
        | some hv =>
            obtain ⟨hreply, hvalue⟩ := hf _ _ hv
            exact ⟨hreply, h.store (hK.inj hvalue)⟩

theorem create (hK : K.Lifts S) {init : τ} (hinit : S init init) {f f' : τ → Outcome α × τ}
    (hf : ∀ v v', S v v' → Alike S (f v) (f' v')) :
    (Access.create K init f).Same (.create K init f') := by
  rintro now ⟨x, exp⟩ ⟨y, exp'⟩ h
  obtain rfl : exp = exp' := h.1
  have hobj : Option.Rel RudisObject.Same x y := h.2
  rw [onCell, onCell]
  cases hobj with
  | none =>
      obtain ⟨hreply, hvalue⟩ := hf _ _ hinit
      exact ⟨hreply, h.store (hK.inj hvalue)⟩
  | @some o o' ho =>
      have hproj := hK.proj ho
      dsimp only
      generalize K.proj o = v, K.proj o' = v' at hproj ⊢
      cases hproj with
      | none => exact ⟨rfl, h⟩
      | some hv =>
          obtain ⟨hreply, hvalue⟩ := hf _ _ hv
          exact ⟨hreply, h.store (hK.inj hvalue)⟩

theorem inPlace {K : Aggregate τ} (hK : K.Lifts S)
    (hempty : ∀ v v', S v v' → K.isEmpty v = K.isEmpty v') (absent : α) {f f' : τ → Outcome α × τ} (hf : ∀ v v', S v v' → Alike S (f v) (f' v')) :
    (Access.inPlace K absent f).Same (.inPlace K absent f') := by
  rintro now ⟨x, exp⟩ ⟨y, exp'⟩ h
  obtain rfl : exp = exp' := h.1
  have hobj : Option.Rel RudisObject.Same x y := h.2
  rw [onCell, onCell]
  cases hobj with
  | none => exact ⟨rfl, h⟩
  | @some o o' ho =>
      have hproj := hK.proj ho
      dsimp only
      generalize K.proj o = v, K.proj o' = v' at hproj ⊢
      cases hproj with
      | none => exact ⟨rfl, h⟩
      | @some v v' hv =>
          obtain ⟨hreply, hvalue⟩ := hf _ _ hv
          dsimp only
          generalize f v = r, f' v' = r' at hreply hvalue ⊢
          obtain ⟨reply, w⟩ := r
          obtain ⟨reply', w'⟩ := r'
          obtain rfl : reply = reply' := hreply
          cases reply with
          | error e => exact ⟨rfl, h.store (hK.inj hvalue)⟩
          | ok r =>
              dsimp only
              rw [hempty _ _ hvalue]
              split
              · exact ⟨rfl, .refl _⟩
              · exact ⟨rfl, h.store (hK.inj hvalue)⟩

theorem of_name (a : Access α) (hname : a.kindName ≠ "zset") : a.Same a := by
  cases a with
  | read K absent f => exact .read (K.lifts_eq hname) absent fun v v' hv => hv ▸ rfl
  | modify K absent f => exact .modify (K.lifts_eq hname) absent fun v v' hv => hv ▸ ⟨rfl, rfl⟩
  | create K init f => exact .create (K.lifts_eq hname) rfl fun v v' hv => hv ▸ ⟨rfl, rfl⟩
  | inPlace K absent f =>
      exact .inPlace (K.lifts_eq hname) (fun v v' hv => hv ▸ rfl) absent
        fun v v' hv => hv ▸ ⟨rfl, rfl⟩

end Access.Same

/-! ## Operations on one key -/

/-- The same clocks and choices, whatever levels are drawn. -/
def Env.relevel (levels : Nat → Level) (env : Env) : Env := { env with levels := levels }

@[simp] theorem Env.now_relevel (levels : Nat → Level) (env : Env) :
    (env.relevel levels).now = env.now := rfl

theorem TypedOp.access_same (op : TypedOp α) (env : Env) (levels : Nat → Level) :
    (op.access env).Same (op.access (env.relevel levels)) := by
  have hzset := zsetKind_lifts
  have hempty : ∀ z z' : ZSetInner, z.Same z' → zsetKind.isEmpty z = zsetKind.isEmpty z' :=
    fun _ _ h => h.isEmpty_eq
  cases op with
  | zadd members flags =>
      exact .create hzset (.refl _) fun _ _ h => h.zaddLoop flags _ _ 0 members 0
  | zincrby delta member => exact .create hzset (.refl _) fun _ _ h => h.zincrby _ _ delta member
  | zrem members => exact .inPlace hzset hempty 0 fun _ _ h => h.zrem members
  | zscore member => exact .total hzset none fun _ _ h => congrFun h.score_eq member
  | zmscore members =>
      exact .total hzset _ fun _ _ h => congrArg (fun score => members.map score) h.score_eq
  | zrank member => exact .total hzset none fun _ _ h => congrFun h.rank_eq member
  | zrevrank member => exact .read hzset none fun _ _ h => congrFun h.revrank_eq member
  | zcard => exact .total hzset 0 fun _ _ h => h.len_eq
  | zcount min max => exact .total hzset 0 fun _ _ h => h.countByScore_eq min max
  | zrange start stop rev withscores =>
      exact .read hzset [] fun _ _ h => h.zrange_eq start stop rev withscores
  | zrangebyscore min max withscores offset count =>
      exact .total hzset [] fun _ _ h => h.rangeByScore_eq min max withscores offset count
  | zrevrangebyscore max min withscores offset count =>
      exact .total hzset [] fun _ _ h => h.revrangeByScore_eq max min withscores offset count
  | zremrangebyscore min max =>
      refine .inPlace hzset hempty 0 fun _ _ h => ?_
      obtain ⟨hreply, hvalue⟩ := h.removeByScore min max
      exact ⟨congrArg Except.ok hreply, hvalue⟩
  | zremrangebyrank start stop =>
      exact .inPlace hzset hempty 0 fun _ _ h => h.removeByRank start stop
  | zpopmin count =>
      refine .inPlace hzset hempty [] fun _ _ h => ?_
      obtain ⟨hreply, hvalue⟩ := h.popMin count
      exact ⟨congrArg Except.ok hreply, hvalue⟩
  | zpopmax count =>
      refine .inPlace hzset hempty [] fun _ _ h => ?_
      obtain ⟨hreply, hvalue⟩ := h.popMax count
      exact ⟨congrArg Except.ok hreply, hvalue⟩
  | _ =>
      refine .of_name _ ?_
      rw [kindName_access]
      simp [valueType]

section
variable {c d : Cell}

theorem Cell.Same.setExpiry (h : c.Same d) (now : Instant) (duration : Duration) :
    Alike Cell.Same (c.setExpiry now duration) (d.setExpiry now duration) := by
  rw [Cell.setExpiry, Cell.setExpiry, h.isSome_eq]
  split
  · cases addDuration now duration with
    | error e => exact ⟨rfl, h⟩
    | ok exp => exact ⟨rfl, rfl, h.2⟩
  · exact ⟨rfl, h⟩

theorem Cell.Same.remove (h : c.Same d) : Alike Cell.Same c.remove d.remove :=
  ⟨congrArg Except.ok h.isSome_eq, .refl _⟩

theorem Cell.Same.expireIn (h : c.Same d) (now : Instant) (amount : Int) (duration : Duration) :
    Alike Cell.Same (c.expireIn now amount duration) (d.expireIn now amount duration) := by
  rw [Cell.expireIn, Cell.expireIn]
  split
  · exact h.remove
  · exact h.setExpiry now duration

theorem Cell.Same.expireAt (h : c.Same d) (now : Instant) (sysNow : SystemTime)
    (sinceEpoch : Duration) :
    Alike Cell.Same (c.expireAt now sysNow sinceEpoch) (d.expireAt now sysNow sinceEpoch) := by
  rw [Cell.expireAt, Cell.expireAt]
  split
  · exact ⟨rfl, h⟩
  · exact h.remove
  · rw [Cell.setExpiryAt, Cell.setExpiryAt, h.isSome_eq]
    split
    · exact ⟨rfl, rfl, h.2⟩
    · exact ⟨rfl, h⟩

theorem Cell.Same.ttlMs_eq (h : c.Same d) (now : Instant) : c.ttlMs now = d.ttlMs now := by
  rw [Cell.ttlMs, Cell.ttlMs, h.isSome_eq, h.1]

theorem KeyOp.onCell_same (op : KeyOp α) (env : Env) (levels : Nat → Level) (h : c.Same d) :
    Alike Cell.Same (op.onCell env c) (op.onCell (env.relevel levels) d) := by
  have hlive := h.live env.now
  cases op with
  | typed op => exact op.access_same env levels env.now c d h
  | getset value =>
      rw [onCell, onCell, Env.now_relevel]
      generalize c.live env.now = x, d.live env.now = y at hlive ⊢
      cases hlive with
      | none => exact ⟨rfl, .refl _⟩
      | @some o o' ho =>
          obtain rfl | ⟨z, z', rfl, rfl, -⟩ := RudisObject.same_iff.mp ho
          · cases o with
            | str v => exact ⟨rfl, .refl _⟩
            | _ => exact ⟨rfl, h⟩
          · exact ⟨rfl, h⟩
  | getdel =>
      have hobj := h.2
      rw [onCell, onCell]
      generalize c.obj = x, d.obj = y at hobj ⊢
      cases hobj with
      | none => exact ⟨rfl, .refl _⟩
      | @some o o' ho =>
          obtain rfl | ⟨z, z', rfl, rfl, hz⟩ := RudisObject.same_iff.mp ho
          · cases o with
            | str v => exact ⟨rfl, .refl _⟩
            | _ => exact ⟨rfl, .refl _⟩
          · exact ⟨rfl, rfl, .some hz⟩
  | set value dur => exact ⟨rfl, .refl _⟩
  | setnx value =>
      rw [onCell, onCell, Env.now_relevel, h.isSome_live]
      split
      · exact ⟨rfl, h⟩
      · exact ⟨rfl, .refl _⟩
  | setxx value dur =>
      have hsome := h.isSome_live env.now
      rw [onCell, onCell, Env.now_relevel, ← Option.not_isSome, ← Option.not_isSome, hsome]
      split
      · exact ⟨rfl, h⟩
      · exact ⟨rfl, .refl _⟩
  | typeOf =>
      rw [onCell, onCell, Env.now_relevel]
      generalize c.live env.now = x, d.live env.now = y at hlive ⊢
      cases hlive with
      | none => exact ⟨rfl, h⟩
      | some ho => exact ⟨congrArg Except.ok ho.typeName_eq, h⟩
  | expire secs => exact h.expireIn env.now secs _
  | pexpire ms => exact h.expireIn env.now ms _
  | expireat tsSecs => exact h.expireAt env.now env.sysNow _
  | pexpireat tsMs => exact h.expireAt env.now env.sysNow _
  | pttl => exact ⟨congrArg Except.ok (h.ttlMs_eq env.now), h⟩
  | ttl => exact ⟨congrArg (fun ms => Except.ok (secondsOf ms)) (h.ttlMs_eq env.now), h⟩
  | persist => exact ⟨congrArg (fun exp : Option Instant => Except.ok exp.isSome) h.1, rfl, h.2⟩

end

/-! ## Logical databases -/

namespace LogicalDb

variable {a b : LogicalDb}

theorem get_same (h : a.Related Cell.Same b) (now : Instant) (key : String) :
    Option.Rel RudisObject.Same (a.get now key) (b.get now key) := by
  rw [get_eq, get_eq]
  exact (h key).live now

theorem isSome_get_same (h : a.Related Cell.Same b) (now : Instant) (key : String) :
    (a.get now key).isSome = (b.get now key).isSome := by
  rw [get_eq, get_eq]
  exact (h key).isSome_live now

theorem obj_same (h : a.Related Cell.Same b) (key : String) :
    Option.Rel (fun o o' => Cell.Same ⟨some o, none⟩ ⟨some o', none⟩) (a.cell key).obj
      (b.cell key).obj := by
  have hobj := (h key).2
  generalize (a.cell key).obj = x, (b.cell key).obj = y at hobj
  cases hobj with
  | none => exact .none
  | some ho => exact .some ⟨rfl, .some ho⟩

theorem liveKeys_same (h : a.Related Cell.Same b) (now : Instant) :
    a.liveKeys now = b.liveKeys now :=
  liveKeys_ext fun key => by rw [isSome_get_same h]

theorem readAs_same (h : a.Related Cell.Same b) {K : Kind τ} (hname : K.name ≠ "zset") (absent : α)
    (f : τ → Outcome α) (now : Instant) (key : String) :
    a.readAs K absent f now key = b.readAs K absent f now key := by
  have hget := get_same h now key
  rw [readAs, readAs]
  generalize a.get now key = x, b.get now key = y at hget ⊢
  cases hget with
  | none => rfl
  | @some o o' ho =>
      have hproj := (K.lifts_eq hname).proj ho
      dsimp only
      generalize K.proj o = v, K.proj o' = v' at hproj ⊢
      cases hproj with
      | none => rfl
      | some hv => rw [hv]

theorem removeKeys_same (h : a.Related Cell.Same b) (keys : List String) :
    Alike (LogicalDb.Related Cell.Same) (a.removeKeys keys) (b.removeKeys keys) := by
  unfold removeKeys
  induction keys generalizing a b with
  | nil => exact ⟨rfl, h⟩
  | cons key keys ih =>
      obtain ⟨hcount, hrest⟩ := ih (h.remove (.refl _) key)
      have hhit : (a.remove key).1.isSome = (b.remove key).1.isSome := (h key).isSome_eq
      rw [tally, tally, hcount, hhit]
      exact ⟨rfl, hrest⟩

theorem rotate_same {c d : Cell} (h : c.Same d) (srcLeft dstLeft : Bool) :
    Alike Cell.Same (c.rotate srcLeft dstLeft) (d.rotate srcLeft dstLeft) := by
  have hobj := h.2
  rw [Cell.rotate, Cell.rotate]
  generalize c.obj = x, d.obj = y at hobj ⊢
  cases hobj with
  | none => exact ⟨rfl, h⟩
  | @some o o' ho =>
      obtain rfl | ⟨z, z', rfl, rfl, -⟩ := RudisObject.same_iff.mp ho
      · cases o with
        | list l => exact ⟨rfl, h.store (.refl _)⟩
        | _ => exact ⟨rfl, h⟩
      · exact ⟨rfl, h⟩

theorem takeMember_same {c d : Cell} (h : c.Same d) (member : String) :
    Alike Cell.Same (c.takeMember member) (d.takeMember member) := by
  have hobj := h.2
  rw [Cell.takeMember, Cell.takeMember]
  generalize c.obj = x, d.obj = y at hobj ⊢
  cases hobj with
  | none => exact ⟨rfl, h⟩
  | @some o o' ho =>
      obtain rfl | ⟨z, z', rfl, rfl, -⟩ := RudisObject.same_iff.mp ho
      · cases o with
        | set s =>
            dsimp only
            split
            · refine ⟨rfl, ?_⟩
              split
              · exact .refl _
              · exact h.store (.refl _)
            · exact ⟨rfl, h⟩
        | _ => exact ⟨rfl, h⟩
      · exact ⟨rfl, h⟩

end LogicalDb

/-! ## Operations -/

namespace Database

variable {s t : Database}

theorem getSetClone_same (h : s.Related Cell.Same t) (now : Instant) (db : Nat) :
    s.getSetClone now db = t.getSetClone now db := by
  funext key
  exact h.readDb fun a b hab => LogicalDb.readAs_same hab (by simp [setKind]) ∅ _ now key

theorem sunion_same (h : s.Related Cell.Same t) (now : Instant) (db : Nat) (keys : List String) :
    s.sunion now db keys = t.sunion now db keys := by
  rw [sunion, sunion, getSetClone_same h]

theorem sinter_same (h : s.Related Cell.Same t) (now : Instant) (db : Nat) (keys : List String) :
    s.sinter now db keys = t.sinter now db keys := by
  rw [sinter, sinter, getSetClone_same h]

theorem sdiff_same (h : s.Related Cell.Same t) (now : Instant) (db : Nat) (keys : List String) :
    s.sdiff now db keys = t.sdiff now db keys := by
  cases keys with
  | nil => rfl
  | cons key keys => rw [sdiff, sdiff, getSetClone_same h]

end Database

/-- **Layouts do not show** in what an operation replies and leaves, whatever levels it draws. -/
theorem Op.run_same (op : Op α) (env : Env) (levels : Nat → Level) {s t : Database}
    (h : s.Related Cell.Same t) :
    Alike (Database.Related Cell.Same) (op.run env s) (op.run (env.relevel levels) t) := by
  cases op with
  | onKey db key op =>
      rw [Op.run, Op.run, op.run_eq, op.run_eq]
      exact h.withDb fun a b _ hab => hab.onKey (op.onCell_same env levels (hab key))
  | existsKeys db names =>
      refine ⟨h.readDb fun a b hab => ?_, h⟩
      simp only [Env.now_relevel, LogicalDb.isSome_get_same hab]
  | del db names =>
      refine h.withDb fun a b _ hab => ?_
      obtain ⟨hcount, hrest⟩ := LogicalDb.removeKeys_same hab names
      exact ⟨congrArg (fun n : Nat => Except.ok (n : Int)) hcount, hrest⟩
  | rename db src dst =>
      exact h.withDb fun a b _ hab =>
        hab.insertTaken (.refl _) (LogicalDb.obj_same hab src) dst (err .noSuchKey) ()
  | renamenx db src dst =>
      refine h.withDb fun a b _ hab => ?_
      rw [Env.now_relevel, LogicalDb.isSome_get_same hab]
      split
      · exact ⟨rfl, hab⟩
      · exact hab.insertTaken (.refl _) (LogicalDb.obj_same hab src) dst (err .noSuchKey) true
  | keys db pattern =>
      refine ⟨h.readDb fun a b hab => ?_, h⟩
      rw [Env.now_relevel, LogicalDb.liveKeys_same hab]
  | dbsize db =>
      refine ⟨h.readDb fun a b hab => ?_, h⟩
      rw [Env.now_relevel, LogicalDb.liveKeys_same hab]
  | flushdb db => exact h.withDb fun a b _ _ => ⟨rfl, fun _ => .refl _⟩
  | flushall => exact ⟨rfl, h.flushall Cell.Same.refl⟩
  | randomkey db =>
      refine ⟨h.readDb fun a b hab => ?_, h⟩
      rw [Env.now_relevel, LogicalDb.liveKeys_same hab]
      rfl
  | evictExpired =>
      refine ⟨rfl, h.map fun a b hab key => ?_⟩
      rw [Env.now_relevel, LogicalDb.cell_purge, LogicalDb.cell_purge]
      exact (hab key).purge env.now
  | mset db pairs => exact h.withDb fun a b _ hab => ⟨rfl, hab.insertPairs Cell.Same.refl pairs⟩
  | mget db names =>
      refine ⟨h.readDb fun a b hab => congrArg Except.ok (List.map_congr_left fun key _ => ?_), h⟩
      have hget := LogicalDb.get_same hab env.now key
      rw [Env.now_relevel]
      generalize a.get env.now key = x, b.get env.now key = y at hget ⊢
      cases hget with
      | none => rfl
      | some ho => obtain rfl | ⟨z, z', rfl, rfl, -⟩ := RudisObject.same_iff.mp ho <;> rfl
  | msetnx db pairs =>
      refine h.withDb fun a b _ hab => ?_
      have hany : (pairs.any fun p => (a.get env.now p.1).isSome) =
          pairs.any fun p => (b.get env.now p.1).isSome := by
        simp only [LogicalDb.isSome_get_same hab]
      rw [Env.now_relevel, hany]
      split
      · exact ⟨rfl, hab⟩
      · exact ⟨rfl, hab.insertPairs Cell.Same.refl pairs⟩
  | lmove db src dst srcLeft dstLeft =>
      rw [Op.run, Op.run, Env.now_relevel]
      by_cases hsame : src = dst
      · subst hsame
        rw [Database.lmove_self_eq, Database.lmove_self_eq]
        exact h.withDb fun a b _ hab => hab.onKey (LogicalDb.rotate_same (hab src) srcLeft dstLeft)
      · rw [Database.lmove_eq _ _ _ hsame, Database.lmove_eq _ _ _ hsame]
        refine h.withDb fun a b _ hab => ?_
        have htake : Alike Cell.Same
            ((Access.inPlace listKind none (Deque.take srcLeft)).onCell env.now (a.cell src))
            ((Access.inPlace listKind none (Deque.take srcLeft)).onCell env.now (b.cell src)) :=
          Access.Same.of_name _ (by simp [Access.kindName, listKind]) _ _ _ (hab src)
        refine hab.moveVia htake fun elem g hg => ?_
        cases elem with
        | none => exact absurd hg (by simp [lmovePut])
        | some elem =>
            obtain rfl := Option.some.inj hg
            obtain ⟨hreply, hcell⟩ :=
              Access.Same.of_name (.create listKind.toKind [] (Deque.pushAll dstLeft [elem]))
                (by simp [Access.kindName, listKind]) env.now _ _ ((hab.onKey htake).2 dst)
            exact ⟨congrArg (Except.map fun _ => some elem) hreply, hcell⟩
  | sunion db names => exact ⟨Database.sunion_same h env.now db names, h⟩
  | sinter db names => exact ⟨Database.sinter_same h env.now db names, h⟩
  | sdiff db names => exact ⟨Database.sdiff_same h env.now db names, h⟩
  | sunionstore db dst names =>
      rw [Op.run, Op.run, Database.sunionstore, Database.sunionstore, Env.now_relevel,
        Database.sunion_same h]
      exact h.storeSet Cell.Same.refl db dst _
  | sinterstore db dst names =>
      rw [Op.run, Op.run, Database.sinterstore, Database.sinterstore, Env.now_relevel,
        Database.sinter_same h]
      exact h.storeSet Cell.Same.refl db dst _
  | sdiffstore db dst names =>
      rw [Op.run, Op.run, Database.sdiffstore, Database.sdiffstore, Env.now_relevel,
        Database.sdiff_same h]
      exact h.storeSet Cell.Same.refl db dst _
  | smove db src dst member =>
      rw [Op.run, Op.run, Env.now_relevel, Database.smove_eq, Database.smove_eq]
      refine h.withDb fun a b _ hab => ?_
      have htake := LogicalDb.takeMember_same (hab src) member
      refine hab.moveVia htake fun taken g hg => ?_
      cases taken with
      | false => exact absurd hg (by simp [smovePut])
      | true =>
          obtain rfl := Option.some.inj hg
          exact Access.Same.of_name _ (by simp [Access.kindName, setKind]) _ _ _
            ((hab.onKey htake).2 dst)

end MiniRudis
