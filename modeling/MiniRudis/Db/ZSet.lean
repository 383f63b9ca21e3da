import MiniRudis.Db.SkipListRuns
import MiniRudis.Rust.Float
import Std.Data.ExtTreeMap.Lemmas

/-!
# Sorted sets

`ZSetInner` keeps every member twice: in a map to its score and in the skip
list.  Hash maps are extensional tree maps here: two maps with the same entries
are equal, and what the source reads in an unspecified order comes in key order.
-/

namespace MiniRudis

abbrev StrMap (α : Type) := Std.ExtTreeMap String α compare

def normalizeIndex (index len : Int) : Nat :=
  if len = 0 then 0
  else if index < 0 then (max (len + index) 0).toNat
  else index.toNat

/-! ## Score bounds -/

structure ScoreBound where
  value : F64
  exclusive : Bool
  isNegInf : Bool
  isPosInf : Bool
  deriving DecidableEq

namespace ScoreBound

def negInf : ScoreBound := ⟨.negInf, false, true, false⟩
def posInf : ScoreBound := ⟨.posInf, false, false, true⟩
def inclusive (v : F64) : ScoreBound := ⟨v, false, false, false⟩
def exclusiveAt (v : F64) : ScoreBound := ⟨v, true, false, false⟩

def contains (self : ScoreBound) (score : F64) : Bool :=
  if self.isNegInf then true
  else if self.exclusive then F64.lt self.value score
  else F64.le self.value score

def containsUpper (self : ScoreBound) (score : F64) : Bool :=
  if self.isPosInf then true
  else if self.exclusive then F64.lt score self.value
  else F64.le score self.value

/-- `parse_score_bound`, behind both `parse_min` and `parse_max`. -/
def parse (s : String) : Outcome ScoreBound :=
  if s = "+inf" ∨ s = "+Inf" ∨ s = "inf" then .ok posInf
  else if s = "-inf" ∨ s = "-Inf" then .ok negInf
  else
    match s.toList with
    | '(' :: rest =>
        match F64.parse (String.ofList rest) with
        | some v => .ok (exclusiveAt v)
        | none => err .notFloat
    | _ =>
        match F64.parse s with
        | some v => .ok (inclusive v)
        | none => err .notFloat

end ScoreBound

/-! ## The two indexes -/

structure ZSetInner where
  scores : StrMap F64
  sl : SkipIndex F64 String

namespace ZSetInner

def new : ZSetInner := ⟨∅, .new⟩

def add (self : ZSetInner) (member : String) (score : F64) (lvl : Level) : Bool × ZSetInner :=
  let sl := match self.scores[member]? with
    | some old => self.sl.remove old member
    | none => self.sl
  (self.scores[member]?.isNone,
    { scores := self.scores.insert member score, sl := sl.insert score member lvl })

def remove (self : ZSetInner) (member : String) : Bool × ZSetInner :=
  match self.scores[member]? with
  | some score =>
      (true, { scores := self.scores.erase member, sl := self.sl.remove score member })
  | none => (false, self)

def score (self : ZSetInner) (member : String) : Option F64 := self.scores[member]?

def len (self : ZSetInner) : Nat := self.scores.size

def isEmpty (self : ZSetInner) : Bool := self.scores.isEmpty

def rank (self : ZSetInner) (member : String) : Option Nat := do
  let score ← self.scores[member]?
  self.sl.rankOf score member

def revrank (self : ZSetInner) (member : String) : Outcome (Option Nat) :=
  match self.rank member with
  | none => .ok none
  | some rank => do
      let last ← subUsize self.len 1
      let r ← subUsize last rank
      return some r

/-- The index window of `range_by_index` and `remove_by_rank`: how many items to
skip, and the last index. -/
def window (self : ZSetInner) (start stop : Int) : Nat × Nat :=
  let len : Int := self.len
  (min (normalizeIndex start len) self.len, min (normalizeIndex stop len) (self.len - 1))

def windowItems (self : ZSetInner) (start stop : Int) : Outcome (List (String × F64)) :=
  let (start, stop) := self.window start stop
  if stop < start then .ok []
  else do
    let span ← subUsize stop start
    return (self.sl.iter.drop start).take (span + 1)

def scored (withscores : Bool) (p : String × F64) : String × Option F64 :=
  (p.1, if withscores then some p.2 else none)

def rangeByIndex (self : ZSetInner) (start stop : Int) (withscores : Bool) :
    Outcome (List (String × Option F64)) := do
  let items ← self.windowItems start stop
  return items.map (scored withscores)

def inRange (min max : ScoreBound) (p : String × F64) : Bool :=
  min.contains p.2 && max.containsUpper p.2

/-- `skip(offset).take(count.unwrap_or(usize::MAX))`. -/
def page {α : Type} (offset : Nat) (count : Option Nat) (l : List α) : List α :=
  match count with
  | none => l.drop offset
  | some count => (l.drop offset).take count

def rangeByScore (self : ZSetInner) (min max : ScoreBound) (withscores : Bool) (offset : Nat)
    (count : Option Nat) : List (String × Option F64) :=
  (page offset count (self.sl.iter.filter (inRange min max))).map (scored withscores)

def revrangeByScore (self : ZSetInner) (max min : ScoreBound) (withscores : Bool) (offset : Nat)
    (count : Option Nat) : List (String × Option F64) :=
  (page offset count (self.sl.iterRev.filter (inRange min max))).map (scored withscores)

def countByScore (self : ZSetInner) (min max : ScoreBound) : Nat :=
  (self.sl.iter.filter (inRange min max)).length

/-- `for member in members { self.remove(&member); }`. -/
def removeAll (members : List String) (self : ZSetInner) : ZSetInner :=
  members.foldl (fun z member => (z.remove member).2) self

def removeByScore (self : ZSetInner) (min max : ScoreBound) : Nat × ZSetInner :=
  let toRemove := (self.sl.iter.filter (inRange min max)).map Prod.fst
  (toRemove.length, self.removeAll toRemove)

def removeByRank (self : ZSetInner) (start stop : Int) : Outcome Nat × ZSetInner :=
  match self.windowItems start stop with
  | .error e => (.error e, self)
  | .ok items => (.ok items.length, self.removeAll (items.map Prod.fst))

def popMin (self : ZSetInner) (count : Nat) : List (String × F64) × ZSetInner :=
  let keys := self.sl.iter.take count
  (keys, self.removeAll (keys.map Prod.fst))

def popMax (self : ZSetInner) (count : Nat) : List (String × F64) × ZSetInner :=
  let keys := self.sl.iterRev.take count
  (keys, self.removeAll (keys.map Prod.fst))

/-- The window never makes `stop - start` underflow. -/
theorem windowItems_eq (self : ZSetInner) (start stop : Int) :
    self.windowItems start stop = .ok
      (if (self.window start stop).2 < (self.window start stop).1 then []
      else (self.sl.iter.drop (self.window start stop).1).take
        ((self.window start stop).2 - (self.window start stop).1 + 1)) := by
  unfold windowItems
  by_cases hlt : (self.window start stop).2 < (self.window start stop).1
  · simp only [hlt, if_true]
  · have hle : (self.window start stop).1 ≤ (self.window start stop).2 := by omega
    simp only [hlt, if_false, subUsize, hle, if_true]
    rfl

/-! ## The coupling -/

/-- The skip list holds the graph of the score map, in strict order. -/
structure Coupled (z : ZSetInner) : Prop where
  graph : ∀ member score, (member, score) ∈ z.sl.iter ↔ z.scores[member]? = some score
  strict : StrictPairs z.sl.iter

theorem new_coupled : new.Coupled where
  graph member score := by simp [new]
  strict := by
    simp only [new, SkipIndex.iter_new]
    exact ⟨List.Pairwise.nil, by simp⟩

namespace Coupled

variable {z : ZSetInner}

theorem score_not_nan (h : z.Coupled) {member : String} {score : F64}
    (hscore : z.scores[member]? = some score) : isNaN score = false :=
  h.strict.noNaN _ ((h.graph member score).mpr hscore)

theorem mem_without (h : z.Coupled) {member : String} {score : F64}
    (hscore : z.scores[member]? = some score) (p : String × F64) :
    p ∈ (z.sl.remove score member).iter ↔ p ∈ z.sl.iter ∧ p.1 ≠ member := by
  obtain ⟨other, s⟩ := p
  rw [SkipIndex.iter_remove, h.strict.removePair_mem (h.score_not_nan hscore)]
  constructor
  · intro hmem
    refine ⟨hmem.1, ?_⟩
    intro heq
    have hs := (h.graph other s).mp hmem.1
    simp only at heq
    rw [heq, hscore] at hs
    apply hmem.2
    rw [heq, ← Option.some.inj hs]
  · intro hmem
    refine ⟨hmem.1, ?_⟩
    intro heq
    exact hmem.2 (congrArg Prod.fst heq)

theorem remove_coupled (h : z.Coupled) (member : String) : (z.remove member).2.Coupled := by
  unfold remove
  split
  · rename_i score hscore
    constructor
    case graph =>
      intro other s
      show (other, s) ∈ (z.sl.remove score member).iter ↔ (z.scores.erase member)[other]? = _
      rw [h.mem_without hscore, Std.ExtTreeMap.getElem?_erase, h.graph]
      by_cases heq : other = member
      · simp [heq]
      · have hcmp : compare member other ≠ .eq := by simpa using Ne.symm heq
        simp [heq, hcmp]
    case strict =>
      show StrictPairs (z.sl.remove score member).iter
      rw [SkipIndex.iter_remove]
      exact h.strict.removePair_strict score member
  · exact h

theorem removeAll_coupled (h : z.Coupled) (members : List String) :
    (z.removeAll members).Coupled := by
  unfold removeAll
  induction members generalizing z with
  | nil => exact h
  | cons member members ih =>
      rw [List.foldl_cons]
      exact ih (h.remove_coupled member)

theorem add_coupled (h : z.Coupled) (member : String) {score : F64}
    (hscore : isNaN score = false) (lvl : Level) : (z.add member score lvl).2.Coupled := by
  -- the list that `add` inserts into holds every pair of the other members
  obtain ⟨sl, hsl, hmem, hstrict⟩ : ∃ sl : SkipIndex F64 String,
      (z.add member score lvl).2 =
        { scores := z.scores.insert member score, sl := sl.insert score member lvl } ∧
      (∀ p, p ∈ sl.iter ↔ p ∈ z.sl.iter ∧ p.1 ≠ member) ∧ StrictPairs sl.iter := by
    cases hold : z.scores[member]? with
    | some old =>
        refine ⟨z.sl.remove old member, by simp [add, hold], h.mem_without hold, ?_⟩
        rw [SkipIndex.iter_remove]
        exact h.strict.removePair_strict old member
    | none =>
        refine ⟨z.sl, by simp [add, hold], fun p => ?_, h.strict⟩
        constructor
        · intro hp
          refine ⟨hp, fun heq => ?_⟩
          have hs := (h.graph p.1 p.2).mp hp
          rw [heq, hold] at hs
          exact absurd hs (by simp)
        · exact And.left
  rw [hsl]
  constructor
  case graph =>
    intro other s
    show (other, s) ∈ (sl.insert score member lvl).iter ↔
      (z.scores.insert member score)[other]? = some s
    rw [SkipIndex.iter_insert, hstrict.insertPair_mem hscore, hmem,
      Std.ExtTreeMap.getElem?_insert, h.graph]
    by_cases heq : other = member
    · simp [heq, eq_comm]
    · have hcmp : compare member other ≠ .eq := by simpa using Ne.symm heq
      simp [heq, hcmp]
  case strict =>
    show StrictPairs (sl.insert score member lvl).iter
    rw [SkipIndex.iter_insert]
    exact hstrict.insertPair_strict hscore

theorem iter_perm (h : z.Coupled) : z.sl.iter.Perm z.scores.toList := by
  rw [List.perm_ext_iff_of_nodup h.strict.nodup
    (Std.ExtTreeMap.distinct_keys_toList.imp fun hne heq => hne (by simp [heq]))]
  intro p
  rw [Std.ExtTreeMap.mem_toList_iff_getElem?_eq_some]
  exact h.graph p.1 p.2

theorem len_eq (h : z.Coupled) : z.sl.len = z.scores.size := by
  rw [SkipIndex.len_eq, ← Std.ExtTreeMap.length_toList]
  exact h.iter_perm.length_eq

theorem rank_lt (h : z.Coupled) {member : String} {rank : Nat} (hrank : z.rank member = some rank) :
    rank < z.len := by
  obtain ⟨score, -, hindex⟩ := Option.bind_eq_some_iff.mp hrank
  rw [SkipIndex.rankOf_eq] at hindex
  rw [len, ← h.len_eq, SkipIndex.len_eq]
  exact rankPair_lt hindex

theorem members_nodup (h : z.Coupled) : (z.sl.iter.map Prod.fst).Nodup := by
  rw [List.nodup_map_iff_inj_on h.strict.nodup]
  intro p hp q hq heq
  have hscore := (h.graph p.1 p.2).mp hp
  rw [heq, (h.graph q.1 q.2).mp hq] at hscore
  exact Prod.ext heq (Option.some.inj hscore).symm

end Coupled

end ZSetInner

end MiniRudis
