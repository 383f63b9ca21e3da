import MiniRudis.Db.SkipListRefines
import MiniRudis.Rust.Float

/-!
# Runs of the skip list

Any sequence of `insert` and `remove` calls on a new list, with any outcomes of
`random_level`, is the same sequence of insertions and removals on a finite
set.  `SkipIndex` packs a list with its refinement, so that its calls are total.
-/

namespace MiniRudis

open Lib

variable {σ μ : Type} [LinearOrder σ] [LinearOrder μ]

section Runs

variable [HasNaN σ]

inductive Call (σ μ : Type)
  | insert (score : σ) (member : μ) (lvl : Level)
  | remove (score : σ) (member : μ)

namespace Call

def score : Call σ μ → σ
  | insert score _ _ => score
  | remove score _ => score

/-- The call on the skip list; `insert` answers nothing. -/
def run : Call σ μ → SkipList σ μ → Option (Option Bool × SkipList σ μ)
  | insert score member lvl, sl => do
      let sl ← sl.insert score member lvl
      some (none, sl)
  | remove score member, sl => do
      let (removed, sl) ← sl.remove score member
      some (some removed, sl)

def onSet : Call σ μ → Finset (μ × σ) → Option Bool × Finset (μ × σ)
  | insert score member _, s => (none, Insert.insert (member, score) s)
  | remove score member, s => (some (decide ((member, score) ∈ s)), s.erase (member, score))

end Call

def runCalls : List (Call σ μ) → SkipList σ μ → Option (List (Option Bool) × SkipList σ μ)
  | [], sl => some ([], sl)
  | c :: cs, sl => do
      let (reply, sl) ← c.run sl
      let (replies, sl) ← runCalls cs sl
      some (reply :: replies, sl)

def runOnSet : List (Call σ μ) → Finset (μ × σ) → List (Option Bool) × Finset (μ × σ)
  | [], s => ([], s)
  | c :: cs, s => ((c.onSet s).1 :: (runOnSet cs (c.onSet s).2).1, (runOnSet cs (c.onSet s).2).2)

variable [Inhabited σ] [Inhabited μ]

/-- The arena of `sl`, with live nodes `chain`, represents the set `s`. -/
structure SkipList.Represents (sl : SkipList σ μ) (s : Finset (μ × σ)) (chain : List Nat) :
    Prop where
  /-- Every level in use links exactly the live nodes taller than it. -/
  linked : ∀ i < sl.level,
    Path (next sl.nodes i) 0 (chain.filter fun x => decide (i < height sl.nodes x))
  /-- The successors above are all read from cells that exist. -/
  cells : ∀ x ∈ 0 :: chain, ∀ i < height sl.nodes x,
    forwardAt sl.nodes x i = some (next sl.nodes i x)
  above : ∀ i, sl.level ≤ i → i < maxLevel → forwardAt sl.nodes 0 i = some none
  heights : ∀ x ∈ chain, 0 < height sl.nodes x ∧ height sl.nodes x ≤ sl.level
  strict : (chain.map (item sl.nodes)).Pairwise fun p q => keyOf p < keyOf q
  length : sl.length = chain.length
  iter : sl.iter = some (chain.map (item sl.nodes))
  set : (chain.map (item sl.nodes)).toFinset = s

theorem SkipList.Refines.represents {sl : SkipList σ μ} {l : List (μ × σ)}
    (h : sl.Refines l) (hstrict : StrictPairs l) : ∃ chain, sl.Represents l.toFinset chain := by
  have hiter := iter_refines h
  obtain ⟨chain, hlayout, rfl⟩ := h
  have hlevel := hlayout.level_le
  refine ⟨chain, ?_, ?_, ?_, ?_, hstrict.sorted, hlayout.length_eq, hiter, rfl⟩
  · intro i hi
    exact hlayout.linked i (by omega)
  · intro x _ i hi
    exact forwardAt_eq hi
  · intro i hi hmax
    rw [forwardAt_eq (by rw [hlayout.head_height]; exact hmax)]
    have hnil := hlayout.onLevel_eq_nil hi (l := chain) fun x hx => hx
    have hpath := hlayout.linked i hmax
    rw [onLevel] at hnil
    rw [hnil] at hpath
    rw [hpath.head_eq]
    rfl
  · intro x hx
    exact ⟨hlayout.height_pos x hx, hlayout.height_le x hx⟩

/-- One call keeps the list strictly sorted and acts on its set of pairs. -/
theorem Call.run_refines (c : Call σ μ) (hnan : isNaN c.score = false) {sl : SkipList σ μ}
    {l : List (μ × σ)} (h : sl.Refines l) (hstrict : StrictPairs l) :
    ∃ sl' l', c.run sl = some ((c.onSet l.toFinset).1, sl') ∧ sl'.Refines l' ∧
      StrictPairs l' ∧ l'.toFinset = (c.onSet l.toFinset).2 := by
  cases c with
  | insert score member lvl =>
      have hscore : isNaN score = false := hnan
      obtain ⟨sl', hinsert, hrefines⟩ := SkipList.insert_refines h score member lvl
      refine ⟨sl', _, ?_, hrefines, hstrict.insertPair_strict hscore, ?_⟩
      · simp [run, onSet, hinsert]
      · ext p
        simp [onSet, hstrict.insertPair_mem hscore]
  | remove score member =>
      have hscore : isNaN score = false := hnan
      obtain ⟨sl', hremove, hrefines⟩ := SkipList.remove_refines h score member
      refine ⟨sl', _, ?_, hrefines, hstrict.removePair_strict score member, ?_⟩
      · have hfound : (removePair score member l).1 = decide ((member, score) ∈ l) := by
          rw [Bool.eq_iff_iff, hstrict.removePair_fst hscore, decide_eq_true_eq]
        simp [run, onSet, hremove, hfound]
      · ext p
        simp [onSet, hstrict.removePair_mem hscore, and_comm]

theorem runCalls_refines (calls : List (Call σ μ)) (hnan : ∀ c ∈ calls, isNaN c.score = false)
    {sl : SkipList σ μ} {l : List (μ × σ)} (h : sl.Refines l) (hstrict : StrictPairs l) :
    ∃ sl' l', runCalls calls sl = some ((runOnSet calls l.toFinset).1, sl') ∧ sl'.Refines l' ∧
      StrictPairs l' ∧ l'.toFinset = (runOnSet calls l.toFinset).2 := by
  induction calls generalizing sl l with
  | nil => exact ⟨sl, l, rfl, h, hstrict, rfl⟩
  | cons c calls ih =>
      obtain ⟨sl₁, l₁, hrun, hrefines, hstrict₁, hset⟩ := c.run_refines (hnan c (by simp)) h hstrict
      obtain ⟨sl', l', hruns, hrefines', hstrict', hset'⟩ :=
        ih (fun c hc => hnan c (List.mem_cons_of_mem _ hc)) hrefines hstrict₁
      refine ⟨sl', l', ?_, hrefines', hstrict', ?_⟩
      · simp only [runCalls, runOnSet, hrun, Option.bind_eq_bind, Option.bind_some, hruns, hset]
      · rw [hset', hset, runOnSet]

/-- **The skip list refines a sorted set.**  Whatever levels are drawn, no call
accesses a node or a forward pointer out of range, the replies are those of the
set, and the arena represents it. -/
theorem runCalls_represents (calls : List (Call σ μ))
    (hnan : ∀ c ∈ calls, isNaN c.score = false) :
    ∃ sl chain, runCalls calls SkipList.new = some ((runOnSet calls ∅).1, sl) ∧
      sl.Represents (runOnSet calls ∅).2 chain := by
  have hempty : StrictPairs ([] : List (μ × σ)) := ⟨List.Pairwise.nil, by simp⟩
  obtain ⟨sl, l, hruns, hrefines, hstrict, hset⟩ :=
    runCalls_refines calls hnan SkipList.new_refines hempty
  obtain ⟨chain, hrepresents⟩ := hrefines.represents hstrict
  rw [hset] at hrepresents
  exact ⟨sl, chain, hruns, hrepresents⟩

def sampleCalls : List (Call F64 String) :=
  [.insert F64.zero "b" ⟨1, by decide⟩, .insert F64.zero "a" ⟨3, by decide⟩,
    .remove F64.zero "b"]

theorem runCalls_represents_sample :
    ∃ sl chain, runCalls sampleCalls SkipList.new = some ((runOnSet sampleCalls ∅).1, sl) ∧
      sl.Represents (runOnSet sampleCalls ∅).2 chain :=
  runCalls_represents sampleCalls (by decide)

end Runs

/-! ## Skip lists that carry their refinement -/

structure SkipIndex (σ μ : Type) [LinearOrder σ] [LinearOrder μ] [Inhabited σ] [Inhabited μ] where
  list : SkipList σ μ
  refines : ∃ l, list.Refines l

namespace SkipIndex

variable [Inhabited σ] [Inhabited μ]

def new : SkipIndex σ μ := ⟨SkipList.new, [], SkipList.new_refines⟩

def iter (self : SkipIndex σ μ) : List (μ × σ) :=
  self.list.iter.get (by
    obtain ⟨l, h⟩ := self.refines
    rw [SkipList.iter_refines h]
    rfl)

def iterRev (self : SkipIndex σ μ) : List (μ × σ) :=
  self.list.iterRev.get (by
    obtain ⟨l, h⟩ := self.refines
    rw [SkipList.iterRev_refines h]
    rfl)

def rankOf (self : SkipIndex σ μ) (score : σ) (member : μ) : Option Nat :=
  (self.list.rankOf score member).get (by
    obtain ⟨l, h⟩ := self.refines
    rw [SkipList.rankOf_refines h]
    rfl)

def len (self : SkipIndex σ μ) : Nat := self.list.length

theorem iter_eq (self : SkipIndex σ μ) {l : List (μ × σ)} (h : self.list.Refines l) :
    self.iter = l := by
  simp only [iter, SkipList.iter_refines h, Option.get_some]

theorem refines_iter (self : SkipIndex σ μ) : self.list.Refines self.iter := by
  obtain ⟨l, h⟩ := self.refines
  rw [self.iter_eq h]
  exact h

@[simp] theorem iter_new : (new : SkipIndex σ μ).iter = [] := iter_eq _ SkipList.new_refines

@[simp] theorem iterRev_eq (self : SkipIndex σ μ) : self.iterRev = self.iter.reverse := by
  simp only [iterRev, SkipList.iterRev_refines self.refines_iter, Option.get_some]

theorem rankOf_eq (self : SkipIndex σ μ) (score : σ) (member : μ) :
    self.rankOf score member = rankPair score member self.iter := by
  simp only [rankOf, SkipList.rankOf_refines self.refines_iter, Option.get_some]

theorem len_eq (self : SkipIndex σ μ) : self.len = self.iter.length :=
  self.refines_iter.length_eq

variable [HasNaN σ]

theorem insert_isSome (self : SkipIndex σ μ) (score : σ) (member : μ) (lvl : Level) :
    (self.list.insert score member lvl).isSome := by
  obtain ⟨l, h⟩ := self.refines
  obtain ⟨sl', hinsert, -⟩ := SkipList.insert_refines h score member lvl
  rw [hinsert]
  rfl

theorem remove_isSome (self : SkipIndex σ μ) (score : σ) (member : μ) :
    (self.list.remove score member).isSome := by
  obtain ⟨l, h⟩ := self.refines
  obtain ⟨sl', hremove, -⟩ := SkipList.remove_refines h score member
  rw [hremove]
  rfl

def insert (self : SkipIndex σ μ) (score : σ) (member : μ) (lvl : Level) : SkipIndex σ μ where
  list := (self.list.insert score member lvl).get (self.insert_isSome score member lvl)
  refines := by
    obtain ⟨l, h⟩ := self.refines
    obtain ⟨sl', hinsert, hrefines⟩ := SkipList.insert_refines h score member lvl
    simp only [hinsert, Option.get_some]
    exact ⟨_, hrefines⟩

def remove (self : SkipIndex σ μ) (score : σ) (member : μ) : SkipIndex σ μ where
  list := ((self.list.remove score member).get (self.remove_isSome score member)).2
  refines := by
    obtain ⟨l, h⟩ := self.refines
    obtain ⟨sl', hremove, hrefines⟩ := SkipList.remove_refines h score member
    simp only [hremove, Option.get_some]
    exact ⟨_, hrefines⟩

@[simp] theorem iter_insert (self : SkipIndex σ μ) (score : σ) (member : μ) (lvl : Level) :
    (self.insert score member lvl).iter = insertPair score member self.iter := by
  obtain ⟨sl', hinsert, hrefines⟩ := SkipList.insert_refines self.refines_iter score member lvl
  apply iter_eq
  simp only [insert, hinsert, Option.get_some]
  exact hrefines

@[simp] theorem iter_remove (self : SkipIndex σ μ) (score : σ) (member : μ) :
    (self.remove score member).iter = (removePair score member self.iter).2 := by
  obtain ⟨sl', hremove, hrefines⟩ := SkipList.remove_refines self.refines_iter score member
  apply iter_eq
  simp only [remove, hremove, Option.get_some]
  exact hrefines

end SkipIndex

end MiniRudis
