import MiniRudis.Db.Invariant
import MiniRudis.Proto.Lines
import MiniRudis.Lib.Returns

/-!
# How the work on a value fails

With an error of fixed text; and with a panic only where memory is reserved by a
count, or where the indexes of a sorted set have drifted apart.
-/

namespace MiniRudis

open Lib

variable {α : Type}

/-! ## Where memory is reserved -/

/-- What `srandmember` reserves: places for the members, or for the repetitions. -/
def HashSet.DrawsFit (chooser : Chooser) (count : Int) (s : StrSet) : Prop :=
  if 0 ≤ count then chooser.reserves count.toNat = true
  else s.isEmpty = false → CapacityOk elemSize count.natAbs

/-- What the operation reserves for its work on the cell can be reserved. -/
def TypedOp.Fits (env : Env) (c : Cell) : TypedOp α → Prop
  | lpop count | rpop count => ∀ l, c.obj = some (.list l) → CapacityOk Deque.elemSize count
  | setrange offset val =>
      ∀ v, (c.obj.getD (.str []) = .str v) →
        v.length < offset + val.length → CapacityOk 1 (offset + val.length)
  | spop count => ∀ s, c.obj = some (.set s) → env.chooser.reserves count = true
  | srandmember count =>
      ∀ s, c.live env.now = some (.set s) → HashSet.DrawsFit env.chooser count s
  | _ => True

/-! ## The work on a value -/

section
variable {E : Fault → Prop}

/-- The computation fails as `E` says, if it fails. -/
abbrev Fails (E : Fault → Prop) (x : Outcome α) : Prop := Returns (fun _ => True) E x

theorem fails_of_reported (hE : ∀ f, f.Reported → E f) {x : Outcome α}
    (h : Fails Fault.Reported x) : Fails E x :=
  h.mono (fun _ _ => trivial) hE

theorem reported_wrongType : Fails Fault.Reported (err .wrongType : Outcome α) := by
  show Plain RedisError.wrongType.text
  decide

theorem Str.incr_fails (delta : Int) (v : Bytes) : Fails Fault.Reported (Str.incr delta v).1 := by
  unfold Str.incr
  split
  · show Plain RedisError.notInteger.text
    decide
  · split
    · show Plain (RedisError.generic _).text
      decide
    · trivial

theorem Str.incrFloatWith_fails (refused : F64 → Bool) {msg : String} (hmsg : Plain msg)
    (delta : F64) (v : Bytes) : Fails Fault.Reported (Str.incrFloatWith refused msg delta v).1 := by
  unfold Str.incrFloatWith
  split
  · show Plain RedisError.notFloat.text
    decide
  · dsimp only
    split
    · exact Plain.append (by decide) hmsg
    · trivial

theorem Str.incrFloat_fails (delta : F64) (v : Bytes) :
    Fails Fault.Reported (Str.incrFloat delta v).1 :=
  Str.incrFloatWith_fails _ (by decide) delta v

/-- `v[s..=e]` is in range, and `v.len() - 1` too. -/
theorem Str.getrange_fails (start stop : Int) (v : Bytes) :
    Fails Fault.Reported (Str.getrange start stop v) := by
  unfold Str.getrange
  dsimp only
  split
  · trivial
  · rename_i hrange
    rw [not_or, Nat.not_lt, Nat.not_le] at hrange
    have hsub : subUsize v.length 1 = .ok (v.length - 1) := by
      rw [subUsize, if_pos (by omega)]
    rw [hsub]
    show Fails Fault.Reported (Str.sliceInclusive v _ _)
    unfold Str.sliceInclusive
    rw [if_pos (by omega)]
    trivial

theorem Str.setrange_fails (offset : Nat) (val v : Bytes)
    (h : (v.length < offset + val.length → CapacityOk 1 (offset + val.length)) ∨ E .panicked) :
    Fails E (Str.setrange offset val v).1 := by
  unfold Str.setrange
  dsimp only
  split
  · rename_i hfull
    exact h.resolve_left fun hfits => hfull.2 (hfits hfull.1)
  · trivial

theorem Deque.pop_fails (left : Bool) (count : Nat) (l : List Bytes)
    (h : CapacityOk elemSize count ∨ E .panicked) : Fails E (Deque.pop left count l).1 := by
  unfold Deque.pop
  split
  · trivial
  · rename_i hfull
    exact h.resolve_left hfull

theorem Deque.lset_fails (index : Int) (value : Bytes) (l : List Bytes) :
    Fails Fault.Reported (Deque.lset index value l).1 := by
  unfold Deque.lset
  dsimp only
  split
  · trivial
  · show Plain RedisError.indexOutOfRange.text
    decide

theorem HashSet.spop_fails (chooser : Chooser) (count : Nat) (s : StrSet)
    (h : chooser.reserves count = true ∨ E .panicked) :
    Fails E (HashSet.spop chooser count s).1 := by
  unfold HashSet.spop
  split
  · trivial
  · rename_i hfull
    exact h.resolve_left hfull

theorem HashSet.srandmember_fails (chooser : Chooser) (draw : Nat → Nat) (count : Int) (s : StrSet)
    (h : DrawsFit chooser count s ∨ E .panicked) :
    Fails E (HashSet.srandmember chooser draw count s) := by
  unfold HashSet.srandmember
  unfold DrawsFit at h
  split
  · rename_i hsign
    rw [if_pos hsign] at h
    split
    · trivial
    · rename_i hfull
      exact h.resolve_left hfull
  · rename_i hsign
    rw [if_neg hsign] at h
    dsimp only
    split
    · trivial
    · rename_i hmembers
      split
      · trivial
      · rename_i hfull
        refine h.resolve_left fun hfits => hfull (hfits ?_)
        rw [Std.ExtTreeSet.isEmpty_toList] at hmembers
        simpa using hmembers

namespace ZSetInner

theorem zaddLoop_fails (flags : ZAddFlags) (levels : Nat → Level) (i : Nat)
    (members : List (F64 × String)) (count : Int) (z : ZSetInner) :
    Fails Fault.Reported (zaddLoop flags levels i members count z).1 := by
  induction members generalizing i count z with
  | nil => trivial
  | cons p members ih =>
      rw [zaddLoop]
      split
      · show Plain RedisError.scoreNaN.text
        decide
      · split
        · exact ih (i + 1) count z
        · exact ih (i + 1) _ _

theorem zincrby_fails (lvl : Level) (delta : F64) (member : String) (z : ZSetInner) :
    Fails Fault.Reported (zincrby lvl delta member z).1 := by
  unfold zincrby
  dsimp only
  split
  · show Plain RedisError.scoreNaN.text
    decide
  · trivial

/-- A rank lies below the length, where the indexes agree. -/
theorem revrank_fails (z : ZSetInner) (member : String) (h : z.Coupled ∨ E .panicked) :
    Fails E (z.revrank member) := by
  unfold revrank
  cases hrank : z.rank member with
  | none => trivial
  | some rank =>
      have hsub : ∀ a b : Nat, (b ≤ a ∨ E .panicked) → Fails E (subUsize a b) := by
        intro a b hle
        unfold subUsize
        split
        · trivial
        · rename_i hover
          exact hle.resolve_left hover
      obtain h | h := h
      · have hlt := h.rank_lt hrank
        have hlast : subUsize z.len 1 = .ok (z.len - 1) := by
          rw [subUsize, if_pos (by omega)]
        dsimp only
        rw [hlast]
        exact (hsub _ _ (Or.inl (by omega))).bind fun r _ => trivial
      · exact (hsub _ _ (Or.inr h)).bind fun last _ => (hsub _ _ (Or.inr h)).bind fun r _ => trivial

theorem zrange_fails (start stop : Int) (rev withscores : Bool) (z : ZSetInner) :
    Fails Fault.Reported (zrange start stop rev withscores z) := by
  rw [zrange, rangeByIndex, windowItems_eq]
  trivial

theorem removeByRank_fails (start stop : Int) (z : ZSetInner) :
    Fails Fault.Reported (z.removeByRank start stop).1 := by
  rw [removeByRank, windowItems_eq]
  trivial

end ZSetInner

end

/-! ## One access -/

section
variable {E : Fault → Prop}

def Access.FailsOn (E : Fault → Prop) (now : Instant) (c : Cell) : Access α → Prop
  | .read K _ f => ∀ v, c.live now = some (K.inj v) → Fails E (f v)
  | .modify K absent f => Fails E absent ∧ ∀ v, c.live now = some (K.inj v) → Fails E (f v).1
  | .create K init f =>
      (c.obj = none → Fails E (f init).1) ∧ ∀ v, c.obj = some (K.inj v) → Fails E (f v).1
  | .inPlace K _ f => ∀ v, c.obj = some (K.inj v) → Fails E (f v).1

theorem Access.onCell_fails (hE : ∀ f, f.Reported → E f) {a : Access α} {now : Instant} {c : Cell}
    (h : a.FailsOn E now c) : Fails E (a.onCell now c).1 := by
  have hwrong : ∀ {β : Type}, Fails E (err .wrongType : Outcome β) :=
    fails_of_reported hE reported_wrongType
  cases a with
  | read K absent f =>
      rw [onCell]
      split
      · trivial
      · rename_i o hlive
        split
        · rename_i v hproj
          rw [K.inj_proj hproj] at hlive
          exact h v hlive
        · exact hwrong
  | modify K absent f =>
      rw [onCell]
      split
      · exact h.1
      · rename_i hexpired
        split
        · exact h.1
        · rename_i o hobj
          have hlive : c.live now = some o := by
            rw [Cell.live, if_neg hexpired, hobj]
          split
          · rename_i v hproj
            rw [K.inj_proj hproj] at hlive
            exact h.2 v hlive
          · exact hwrong
  | create K init f =>
      rw [onCell]
      split
      · rename_i hobj
        exact h.1 hobj
      · rename_i o hobj
        split
        · rename_i v hproj
          rw [K.inj_proj hproj] at hobj
          exact h.2 v hobj
        · exact hwrong
  | inPlace K absent f =>
      rw [onCell]
      split
      · trivial
      · rename_i o hobj
        split
        · exact hwrong
        · rename_i v hproj
          rw [K.inj_proj hproj] at hobj
          have hv := h v hobj
          split
          · rename_i e v' hf
            rw [hf] at hv
            exact hv
          · split <;> trivial

/-- Every operation fails with an error of fixed text, unless what it reserves cannot be
reserved or indexes do not agree. -/
theorem TypedOp.access_fails (op : TypedOp α) (env : Env) (c : Cell) (hE : ∀ f, f.Reported → E f)
    (h : (op.Fits env c ∧ c.Sound RudisObject.Coupled) ∨ E .panicked) :
    (op.access env).FailsOn E env.now c := by
  have hrep : ∀ {β : Type} {x : Outcome β}, Fails Fault.Reported x → Fails E x :=
    fun hx => fails_of_reported hE hx
  cases op with
  | incr delta =>
      exact ⟨fun _ => hrep (Str.incr_fails delta _), fun v _ => hrep (Str.incr_fails delta v)⟩
  | incrFloat delta =>
      have hfails : ∀ v, Fails E (Str.incrFloat delta v).1 := fun v => hrep (Str.incrFloat_fails delta v)
      refine ⟨fun _ => ?_, fun v _ => hfails v⟩
      -- the text is hidden, as a check would parse it
      generalize Str.zeroText = zero
      exact hfails zero
  | getrange start stop => exact fun v _ => hrep (Str.getrange_fails start stop v)
  | setrange offset val =>
      constructor
      · intro hobj
        apply Str.setrange_fails
        exact h.imp_left fun h => h.1 [] (by rw [hobj]; rfl)
      · intro v hobj
        apply Str.setrange_fails
        exact h.imp_left fun h => h.1 v (by rw [hobj]; rfl)
  | lpop count => exact fun l hobj => Deque.pop_fails true count l (h.imp_left fun h => h.1 l hobj)
  | rpop count => exact fun l hobj => Deque.pop_fails false count l (h.imp_left fun h => h.1 l hobj)
  | lset index value =>
      refine ⟨hrep ?_, fun l _ => hrep (Deque.lset_fails index value l)⟩
      show Plain RedisError.noSuchKey.text
      decide
  | linsert before pivot value =>
      refine ⟨trivial, fun l _ => ?_⟩
      show Fails E (Deque.linsert before pivot value l).1
      unfold Deque.linsert
      split <;> trivial
  | lrem count value =>
      refine ⟨trivial, fun l _ => ?_⟩
      show Fails E (Deque.lrem count value l).1
      unfold Deque.lrem
      split
      · trivial
      · split <;> trivial
  | ltrim start stop =>
      intro l _
      rw [Deque.ltrim_eq]
      trivial
  | hincrby field delta =>
      exact ⟨fun _ => hrep (Str.incr_fails delta _), fun h _ => hrep (Str.incr_fails delta _)⟩
  | hincrbyfloat field delta =>
      have hfails : ∀ m, Fails E (Hash.hincrbyfloat field delta m).1 :=
        fun m => hrep (Str.incrFloatWith_fails _ (by decide) delta _)
      exact ⟨fun _ => hfails ∅, fun m _ => hfails m⟩
  | hsetnx field value =>
      have hfails : ∀ m, Fails E (Hash.hsetnx field value m).1 := by
        intro m
        unfold Hash.hsetnx
        split <;> trivial
      exact ⟨fun _ => hfails _, fun m _ => hfails m⟩
  | spop count =>
      exact fun s hobj => HashSet.spop_fails env.chooser count s (h.imp_left fun h => h.1 s hobj)
  | srandmember count =>
      exact fun s hlive => HashSet.srandmember_fails env.chooser env.draw count s
        (h.imp_left fun h => h.1 s hlive)
  | zadd members flags =>
      exact ⟨fun _ => hrep (ZSetInner.zaddLoop_fails flags env.levels 0 members 0 _),
        fun z _ => hrep (ZSetInner.zaddLoop_fails flags env.levels 0 members 0 z)⟩
  | zincrby delta member =>
      exact ⟨fun _ => hrep (ZSetInner.zincrby_fails _ delta member _),
        fun z _ => hrep (ZSetInner.zincrby_fails _ delta member z)⟩
  | zrevrank member =>
      intro z hlive
      apply ZSetInner.revrank_fails
      exact h.imp_left fun h => h.2.good _ (Cell.live_eq_some hlive).2
  | zrange start stop rev withscores =>
      exact fun z _ => hrep (ZSetInner.zrange_fails start stop rev withscores z)
  | zremrangebyrank start stop =>
      exact fun z _ => hrep (ZSetInner.removeByRank_fails start stop z)
  | lpushx | rpushx => exact ⟨trivial, fun _ _ => trivial⟩
  | append | lpush | rpush | hset | sadd => exact ⟨fun _ => trivial, fun _ _ => trivial⟩
  | _ => exact fun _ _ => trivial

end

theorem TypedOp.onCell_plain (op : TypedOp α) (env : Env) (c : Cell) :
    Fails Fault.Plain ((op.access env).onCell env.now c).1 :=
  Access.onCell_fails (fun _ => Fault.Reported.plain)
    (op.access_fails env c (fun _ => Fault.Reported.plain) (Or.inr trivial))

theorem HashSet.srandmember_panics {chooser : Chooser} (draw : Nat → Nat) {count : Int} {s : StrSet}
    (h : ¬ DrawsFit chooser count s) : srandmember chooser draw count s = panicked := by
  unfold DrawsFit at h
  unfold srandmember
  split
  · rename_i hsign
    rw [if_pos hsign] at h
    rw [if_neg h]
  · rename_i hsign
    rw [if_neg hsign, Classical.not_imp] at h
    have hmembers : ¬ s.toList.isEmpty = true := by
      rw [Std.ExtTreeSet.isEmpty_toList, h.1]
      exact Bool.false_ne_true
    dsimp only
    rw [if_neg hmembers, if_neg h.2]

theorem TypedOp.onCell_panics {op : TypedOp α} {env : Env} {c : Cell} (h : ¬ op.Fits env c) :
    ((op.access env).onCell env.now c).1 = panicked := by
  cases op with
  | lpop count | rpop count =>
      obtain ⟨l, h⟩ := not_forall.mp h
      obtain ⟨hobj, hfull⟩ := Classical.not_imp.mp h
      simp [access, Access.onCell, hobj, listKind, Deque.pop, hfull, panicked]
  | setrange offset val =>
      obtain ⟨v, h⟩ := not_forall.mp h
      obtain ⟨hobj, h⟩ := Classical.not_imp.mp h
      have hfull := Classical.not_imp.mp h
      have hpanics : (Str.setrange offset val v).1 = panicked := by
        rw [Str.setrange, if_pos hfull]
      cases hstored : c.obj with
      | none =>
          rw [hstored] at hobj
          obtain rfl := RudisObject.str.inj hobj
          simp [access, Access.onCell, hstored, hpanics]
      | some o =>
          rw [hstored] at hobj
          obtain rfl : o = .str v := hobj
          simp [access, Access.onCell, hstored, strKind, hpanics]
  | spop count =>
      obtain ⟨s, h⟩ := not_forall.mp h
      obtain ⟨hobj, hfull⟩ := Classical.not_imp.mp h
      simp [access, Access.onCell, hobj, setKind, HashSet.spop, hfull, panicked]
  | srandmember count =>
      obtain ⟨s, h⟩ := not_forall.mp h
      obtain ⟨hlive, hfull⟩ := Classical.not_imp.mp h
      simp [access, Access.onCell, hlive, setKind, HashSet.srandmember_panics env.draw hfull]
  | _ => exact absurd trivial h

theorem TypedOp.onCell_panics_iff (op : TypedOp α) (env : Env) {c : Cell}
    (hc : c.Sound RudisObject.Coupled) :
    ((op.access env).onCell env.now c).1 = panicked ↔ ¬ op.Fits env c := by
  constructor
  · intro hpanics hfits
    exact ne_panicked (Access.onCell_fails (fun _ h => h)
      (op.access_fails env c (fun _ h => h) (Or.inl ⟨hfits, hc⟩))) hpanics
  · exact onCell_panics

end MiniRudis
