import Mathlib.Data.Prod.Lex
import Mathlib.Order.Compare

/-!
# The skip list

`db/skiplist.rs` keeps its nodes in an arena that only grows; a forward pointer
is an index into the arena or `NIL`.  Every `nodes[..]`, `forward[..]` and
`update[..]` access of the source is a checked access here, so a result `none`
is an access that would panic.  The two `loop`s walk with as much fuel as the
arena has nodes, and running out of it is `none` as well.

The list is generic in the score and the member type.  Of a score it uses the
total order behind `OrderedFloat` and the IEEE `==`.
-/

namespace MiniRudis

/-- The scores that `==` does not equal to themselves. -/
class HasNaN (σ : Type) where
  isNaN : σ → Bool

export HasNaN (isNaN)

/-- IEEE `==` on scores. -/
def feq {σ : Type} [DecidableEq σ] [HasNaN σ] (a b : σ) : Bool :=
  !isNaN a && decide (a = b)

def maxLevel : Nat := 32

/-- What `random_level` can return, all of it (`randomLevel_surjective`). -/
abbrev Level := { l : Nat // 1 ≤ l ∧ l ≤ maxLevel }

/-- The loop of `random_level` from level `lvl` on; `draw l` says whether the
draw made at level `l` fell below `P`. -/
def randomLevelFrom (draw : Nat → Bool) : Nat → Nat → Nat
  | 0, lvl => lvl
  | room + 1, lvl => if draw lvl then randomLevelFrom draw room (lvl + 1) else lvl

theorem randomLevelFrom_bounds (draw : Nat → Bool) (room lvl : Nat) :
    lvl ≤ randomLevelFrom draw room lvl ∧
      randomLevelFrom draw room lvl ≤ lvl + room := by
  induction room generalizing lvl with
  | zero => simp [randomLevelFrom]
  | succ room ih =>
      have hnext := ih (lvl + 1)
      rw [randomLevelFrom]
      split <;> omega

theorem randomLevelFrom_stop (room lvl target : Nat) (hlow : lvl ≤ target)
    (hhigh : target ≤ lvl + room) :
    randomLevelFrom (fun l => decide (l < target)) room lvl = target := by
  induction room generalizing lvl with
  | zero =>
      rw [randomLevelFrom]
      omega
  | succ room ih =>
      rw [randomLevelFrom]
      by_cases hlt : lvl < target
      · simp [hlt, ih (lvl + 1) (by omega) (by omega)]
      · simp [hlt]
        omega

def randomLevel (draw : Nat → Bool) : Level :=
  ⟨randomLevelFrom draw (maxLevel - 1) 1, by
    have hbounds := randomLevelFrom_bounds draw (maxLevel - 1) 1
    simpa [maxLevel] using hbounds⟩

/-- Each of the levels `1..=MAX_LEVEL` can be drawn. -/
theorem randomLevel_surjective : Function.Surjective randomLevel := by
  intro lvl
  obtain ⟨hlow, hhigh⟩ := lvl.property
  refine ⟨fun l => decide (l < lvl.val), Subtype.ext ?_⟩
  apply randomLevelFrom_stop (maxLevel - 1) 1 lvl.val hlow
  simpa [maxLevel] using hhigh

structure Node (σ μ : Type) where
  member : μ
  score : σ
  /-- Level `i` holds the index of the next node, or `none` for `NIL`. -/
  forward : List (Option Nat)
  deriving DecidableEq, Repr

structure SkipList (σ μ : Type) where
  nodes : List (Node σ μ)
  /-- The levels in use, `1..=MAX_LEVEL`. -/
  level : Nat
  length : Nat
  deriving DecidableEq, Repr

def forwardAt {σ μ : Type} (nodes : List (Node σ μ)) (x i : Nat) :
    Option (Option Nat) := do
  let n ← nodes[x]?
  n.forward[i]?

def setForward {σ μ : Type} (nodes : List (Node σ μ)) (x i : Nat)
    (fwd : Option Nat) : Option (List (Node σ μ)) := do
  let n ← nodes[x]?
  if i < n.forward.length then
    some (nodes.set x { n with forward := n.forward.set i fwd })
  else none

section Order

variable {σ μ : Type} [LinearOrder σ] [LinearOrder μ]

def keyCmp (s₁ : σ) (m₁ : μ) (s₂ : σ) (m₂ : μ) : Ordering :=
  (compare s₁ s₂).then (compare m₁ m₂)

theorem keyCmp_lt_iff {s₁ s₂ : σ} {m₁ m₂ : μ} :
    keyCmp s₁ m₁ s₂ m₂ = .lt ↔ toLex (s₁, m₁) < toLex (s₂, m₂) := by
  rw [keyCmp, Ordering.then_eq_lt, compare_lt_iff_lt, compare_eq_iff_eq,
    compare_lt_iff_lt, Prod.Lex.toLex_lt_toLex]

theorem keyCmp_eq_iff {s₁ s₂ : σ} {m₁ m₂ : μ} :
    keyCmp s₁ m₁ s₂ m₂ = .eq ↔ toLex (s₁, m₁) = toLex (s₂, m₂) := by
  rw [keyCmp, Ordering.then_eq_eq, compare_eq_iff_eq, compare_eq_iff_eq]
  simp

end Order

namespace SkipList

variable {σ μ : Type} [LinearOrder σ] [LinearOrder μ] [HasNaN σ]

/-- The head occupies slot 0 with an empty member. -/
def new [Inhabited σ] [Inhabited μ] : SkipList σ μ where
  nodes := [⟨default, default, List.replicate maxLevel none⟩]
  level := 1
  length := 0

/-- The inner `loop` of `insert` and `remove` at level `i`. -/
def advance (nodes : List (Node σ μ)) (i : Nat) (score : σ) (member : μ) :
    Nat → Nat → Option Nat
  | 0, _ => none
  | fuel + 1, x => do
      match ← forwardAt nodes x i with
      | none => some x
      | some fwd =>
          let n ← nodes[fwd]?
          if keyCmp n.score n.member score member = .lt then
            advance nodes i score member fuel fwd
          else some x

/-- `for i in (0..level).rev() { loop { .. } update[i] = x; }`. -/
def descend (nodes : List (Node σ μ)) (score : σ) (member : μ) :
    Nat → Nat → List (Option Nat) → Option (Nat × List (Option Nat))
  | 0, x, update => some (x, update)
  | i + 1, x, update => do
      let x ← advance nodes i score member nodes.length x
      if i < update.length then
        descend nodes score member i x (update.set i (some x))
      else none

/-- The node at `idx`, if there is one, holds the pair: the test that `insert`
makes before it links a node, and `remove` before it unlinks one. -/
def holdsPair (nodes : List (Node σ μ)) (score : σ) (member : μ) : Option Nat → Option Bool
  | none => some false
  | some idx => do
      let n ← nodes[idx]?
      some (feq n.score score && decide (n.member = member))

/-- `if lvl > level { update[level..lvl].fill(0); .. }`. -/
def growUpdate (update : List (Option Nat)) (level lvl : Nat) : Option (List (Option Nat)) :=
  if level < lvl then
    if lvl ≤ update.length then
      some (update.take level ++ List.replicate (lvl - level) (some 0) ++ update.drop lvl)
    else none
  else some update

/-- The loop of `insert` that links node `idx` behind its predecessors, from
level `i` on. -/
def splice (idx : Nat) : Nat → List (Option Nat) → List (Node σ μ) →
    Option (List (Node σ μ))
  | _, [], nodes => some nodes
  | i, pred :: preds, nodes => do
      let pred ← pred
      let fwd ← forwardAt nodes pred i
      let nodes ← setForward nodes idx i fwd
      let nodes ← setForward nodes pred i (some idx)
      splice idx (i + 1) preds nodes

/-- The loop of `remove` that unlinks `target`, from level `i` on. -/
def unsplice (target : Nat) : Nat → List (Option Nat) → List (Node σ μ) →
    Option (List (Node σ μ))
  | _, [], nodes => some nodes
  | i, pred :: preds, nodes => do
      let pred ← pred
      let fwd ← forwardAt nodes pred i
      if fwd ≠ some target then some nodes
      else
        let fwd ← forwardAt nodes target i
        let nodes ← setForward nodes pred i fwd
        unsplice target (i + 1) preds nodes

/-- `while level > 1 && nodes[0].forward[level - 1] == NIL { level -= 1; }`. -/
def shrinkLevel (nodes : List (Node σ μ)) : Nat → Option Nat
  | 0 => some 0
  | 1 => some 1
  | l + 2 => do
      match ← forwardAt nodes 0 (l + 1) with
      | none => shrinkLevel nodes (l + 1)
      | some _ => some (l + 2)

/-- `insert`, with the outcome of `random_level` as `lvl`. -/
def insert (self : SkipList σ μ) (score : σ) (member : μ) (lvl : Level) :
    Option (SkipList σ μ) := do
  let (x, update) ←
    descend self.nodes score member self.level 0 (List.replicate maxLevel none)
  let next0 ← forwardAt self.nodes x 0
  if ← holdsPair self.nodes score member next0 then some self
  else
    let update ← growUpdate update self.level lvl
    let idx := self.nodes.length
    let nodes := self.nodes ++ [⟨member, score, List.replicate lvl none⟩]
    let nodes ← splice idx 0 (update.take lvl) nodes
    some { nodes, level := max self.level lvl, length := self.length + 1 }

def remove (self : SkipList σ μ) (score : σ) (member : μ) :
    Option (Bool × SkipList σ μ) := do
  let (x, update) ←
    descend self.nodes score member self.level 0 (List.replicate maxLevel none)
  match ← forwardAt self.nodes x 0 with
  | none => some (false, self)
  | some target =>
      if ← holdsPair self.nodes score member (some target) then
        let nodes ← unsplice target 0 (update.take self.level) self.nodes
        let level ← shrinkLevel nodes self.level
        -- `self.length -= 1` panics at zero
        if self.length = 0 then none
        else some (true, { nodes, level, length := self.length - 1 })
      else some (false, self)

def rankFrom (nodes : List (Node σ μ)) (score : σ) (member : μ) :
    Nat → Nat → Option Nat → Option (Option Nat)
  | _, _, none => some none
  | 0, _, some _ => none
  | fuel + 1, rank, some idx => do
      let n ← nodes[idx]?
      match keyCmp n.score n.member score member with
      | .lt => do
          let fwd ← n.forward[0]?
          rankFrom nodes score member fuel (rank + 1) fwd
      | .eq => some (some rank)
      | .gt => some none

/-- `rank_of`; the outer `none` is an access out of range. -/
def rankOf (self : SkipList σ μ) (score : σ) (member : μ) : Option (Option Nat) := do
  let first ← forwardAt self.nodes 0 0
  rankFrom self.nodes score member self.nodes.length 0 first

/-- The arena indices that `iter` and `iter_rev` visit from `idx` on. -/
def chainFrom (nodes : List (Node σ μ)) : Nat → Option Nat → Option (List Nat)
  | _, none => some []
  | 0, some _ => none
  | fuel + 1, some idx => do
      let fwd ← forwardAt nodes idx 0
      let rest ← chainFrom nodes fuel fwd
      some (idx :: rest)

def itemAt (nodes : List (Node σ μ)) (idx : Nat) : Option (μ × σ) := do
  let n ← nodes[idx]?
  some (n.member, n.score)

def iter (self : SkipList σ μ) : Option (List (μ × σ)) := do
  let first ← forwardAt self.nodes 0 0
  let chain ← chainFrom self.nodes self.nodes.length first
  chain.mapM (itemAt self.nodes)

def iterRev (self : SkipList σ μ) : Option (List (μ × σ)) := do
  let first ← forwardAt self.nodes 0 0
  let chain ← chainFrom self.nodes self.nodes.length first
  chain.reverse.mapM (itemAt self.nodes)

end SkipList

end MiniRudis
