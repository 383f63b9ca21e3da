import MiniRudis.Db.SkipList
import MiniRudis.Lib.Chain
import Mathlib.Data.List.Nodup
import Mathlib.Data.List.Perm.Subperm
import Mathlib.Data.List.TakeWhile

/-!
# The layout of the arena

`Layout sl chain` says that the arena is a skip list whose live nodes are
`chain`, in level-0 order: the chain of level `i` consists of the live nodes
taller than `i`.  Order is only required weakly, so that the layout survives
every call, whatever the scores are; strictness is a matter of the scores.
-/

namespace MiniRudis

open Lib

variable {σ μ : Type}

def next (nodes : List (Node σ μ)) (i x : Nat) : Option Nat := (forwardAt nodes x i).join

def height (nodes : List (Node σ μ)) (x : Nat) : Nat :=
  (nodes[x]?.map fun n => n.forward.length).getD 0

def item [Inhabited σ] [Inhabited μ] (nodes : List (Node σ μ)) (x : Nat) : μ × σ :=
  (nodes[x]?.map fun n => (n.member, n.score)).getD default

/-- A stored pair in the order of `key_cmp`. -/
def keyOf (p : μ × σ) : σ ×ₗ μ := toLex (p.2, p.1)

@[simp] theorem keyOf_inj {p q : μ × σ} : keyOf p = keyOf q ↔ p = q := by
  constructor
  · intro h
    have hpair := congrArg ofLex h
    simp only [keyOf, ofLex_toLex, Prod.mk.injEq] at hpair
    exact Prod.ext hpair.2 hpair.1
  · rintro rfl
    rfl

/-! ## Cells -/

theorem forwardAt_eq {nodes : List (Node σ μ)} {i x : Nat} (h : i < height nodes x) :
    forwardAt nodes x i = some (next nodes i x) := by
  unfold height at h
  unfold next forwardAt
  cases hx : nodes[x]? with
  | none => simp [hx] at h
  | some n =>
      have hi : i < n.forward.length := by simpa [hx] using h
      simp [List.getElem?_eq_getElem hi]

theorem lt_length_of_height {nodes : List (Node σ μ)} {x : Nat} (h : 0 < height nodes x) :
    x < nodes.length := by
  by_contra hx
  rw [height, List.getElem?_eq_none (by omega)] at h
  simp at h

theorem getElem?_of_height [Inhabited σ] [Inhabited μ] {nodes : List (Node σ μ)} {x : Nat}
    (h : 0 < height nodes x) :
    ∃ n, nodes[x]? = some n ∧ item nodes x = (n.member, n.score) := by
  have hx := lt_length_of_height h
  exact ⟨nodes[x], List.getElem?_eq_getElem hx, by simp [item, hx]⟩

/-- Two arenas with the same nodes up to forward pointers. -/
structure SameShape [Inhabited σ] [Inhabited μ] (nodes nodes' : List (Node σ μ)) : Prop where
  length : nodes'.length = nodes.length
  height : ∀ x, height nodes' x = height nodes x
  item : ∀ x, item nodes' x = item nodes x

theorem SameShape.refl [Inhabited σ] [Inhabited μ] (nodes : List (Node σ μ)) :
    SameShape nodes nodes :=
  ⟨rfl, fun _ => rfl, fun _ => rfl⟩

theorem SameShape.trans [Inhabited σ] [Inhabited μ] {nodes₁ nodes₂ nodes₃ : List (Node σ μ)}
    (h₁ : SameShape nodes₁ nodes₂) (h₂ : SameShape nodes₂ nodes₃) : SameShape nodes₁ nodes₃ :=
  ⟨h₂.length.trans h₁.length, fun x => (h₂.height x).trans (h₁.height x),
    fun x => (h₂.item x).trans (h₁.item x)⟩

theorem setForward_spec [Inhabited σ] [Inhabited μ] {nodes : List (Node σ μ)} {x i : Nat}
    (fwd : Option Nat) (h : i < height nodes x) :
    ∃ nodes', setForward nodes x i fwd = some nodes' ∧ SameShape nodes nodes' ∧
      ∀ j y, next nodes' j y = if y = x ∧ j = i then fwd else next nodes j y := by
  have hx : x < nodes.length := lt_length_of_height (by omega)
  have hi : i < nodes[x].forward.length := by simpa [height, hx] using h
  refine ⟨nodes.set x { nodes[x] with forward := nodes[x].forward.set i fwd }, ?_, ?_, ?_⟩
  · simp [setForward, List.getElem?_eq_getElem hx, hi]
  · constructor
    · simp
    · intro y
      by_cases hy : y = x
      · subst hy
        simp [height, hx]
      · simp [height, List.getElem?_set_ne (Ne.symm hy)]
    · intro y
      by_cases hy : y = x
      · subst hy
        simp [item, hx]
      · simp [item, List.getElem?_set_ne (Ne.symm hy)]
  · intro j y
    by_cases hy : y = x
    · subst hy
      by_cases hj : j = i
      · subst hj
        simp [next, forwardAt, hx, hi]
      · simp [next, forwardAt, hx, hj, List.getElem?_set_ne (Ne.symm hj)]
    · simp [next, forwardAt, hy, List.getElem?_set_ne (Ne.symm hy)]

/-! ## The layout -/

variable [LinearOrder σ] [LinearOrder μ] [Inhabited σ] [Inhabited μ]

structure Layout (sl : SkipList σ μ) (chain : List Nat) : Prop where
  level_pos : 1 ≤ sl.level
  level_le : sl.level ≤ maxLevel
  head_height : height sl.nodes 0 = maxLevel
  nodup : (0 :: chain).Nodup
  height_pos : ∀ x ∈ chain, 0 < height sl.nodes x
  height_le : ∀ x ∈ chain, height sl.nodes x ≤ sl.level
  linked : ∀ i < maxLevel,
    Path (next sl.nodes i) 0 (chain.filter fun x => decide (i < height sl.nodes x))
  sorted : chain.Pairwise fun x y => keyOf (item sl.nodes x) ≤ keyOf (item sl.nodes y)
  length_eq : sl.length = chain.length

/-- The nodes of `chain` that take part in level `i`. -/
def onLevel (nodes : List (Node σ μ)) (i : Nat) (chain : List Nat) : List Nat :=
  chain.filter fun x => decide (i < height nodes x)

def below (nodes : List (Node σ μ)) (key : σ ×ₗ μ) (x : Nat) : Bool :=
  decide (keyOf (item nodes x) < key)

def low (nodes : List (Node σ μ)) (key : σ ×ₗ μ) (chain : List Nat) : List Nat :=
  chain.takeWhile (below nodes key)

def high (nodes : List (Node σ μ)) (key : σ ×ₗ μ) (chain : List Nat) : List Nat :=
  chain.dropWhile (below nodes key)

/-- The last node of level `i` before `key`, the head if there is none. -/
def predOf (nodes : List (Node σ μ)) (key : σ ×ₗ μ) (chain : List Nat) (i : Nat) : Nat :=
  (onLevel nodes i (low nodes key chain)).getLastD 0

theorem low_append_high (nodes : List (Node σ μ)) (key : σ ×ₗ μ) (chain : List Nat) :
    low nodes key chain ++ high nodes key chain = chain :=
  List.takeWhile_append_dropWhile

theorem below_of_mem_low {nodes : List (Node σ μ)} {key : σ ×ₗ μ} {chain : List Nat} {x : Nat}
    (hx : x ∈ low nodes key chain) : keyOf (item nodes x) < key := by
  have h := List.mem_takeWhile_imp hx
  simpa [below] using h

namespace Layout

variable {sl : SkipList σ μ} {chain : List Nat} {key : σ ×ₗ μ}

theorem le_of_mem_high (h : Layout sl chain) {x : Nat}
    (hx : x ∈ high sl.nodes key chain) : key ≤ keyOf (item sl.nodes x) := by
  have hmono : chain.Pairwise fun x y =>
      below sl.nodes key y = true → below sl.nodes key x = true := by
    apply h.sorted.imp
    intro x y hxy hy
    simp only [below, decide_eq_true_eq] at hy ⊢
    exact hxy.trans_lt hy
  have hnot := not_of_mem_dropWhile hmono hx
  simpa [below] using hnot

theorem linked_split (h : Layout sl chain) (key : σ ×ₗ μ) {i : Nat} (hi : i < maxLevel) :
    Path (next sl.nodes i) 0
      (onLevel sl.nodes i (low sl.nodes key chain) ++
        onLevel sl.nodes i (high sl.nodes key chain)) := by
  have hpath := h.linked i hi
  rw [← low_append_high sl.nodes key chain, List.filter_append] at hpath
  exact hpath

theorem mem_of_mem_low {x : Nat} (hx : x ∈ low sl.nodes key chain) : x ∈ chain := by
  rw [← low_append_high sl.nodes key chain]
  exact List.mem_append_left _ hx

theorem mem_of_mem_high {x : Nat} (hx : x ∈ high sl.nodes key chain) : x ∈ chain := by
  rw [← low_append_high sl.nodes key chain]
  exact List.mem_append_right _ hx

theorem length_lt (h : Layout sl chain) : chain.length < sl.nodes.length := by
  have hsub : 0 :: chain ⊆ List.range sl.nodes.length := by
    intro x hx
    rw [List.mem_range]
    apply lt_length_of_height
    rcases List.mem_cons.mp hx with rfl | hx
    · rw [h.head_height]
      decide
    · exact h.height_pos x hx
  have hle := (List.subperm_of_subset h.nodup hsub).length_le
  rw [List.length_cons, List.length_range] at hle
  omega

/-- Above the levels in use no live node takes part. -/
theorem onLevel_eq_nil (h : Layout sl chain) {i : Nat} (hi : sl.level ≤ i) {l : List Nat}
    (hl : ∀ x ∈ l, x ∈ chain) : onLevel sl.nodes i l = [] := by
  rw [onLevel, List.filter_eq_nil_iff]
  intro x hx
  have := h.height_le x (hl x hx)
  simp
  omega

theorem predOf_eq_zero (h : Layout sl chain) {i : Nat} (hi : sl.level ≤ i) :
    predOf sl.nodes key chain i = 0 := by
  rw [predOf, h.onLevel_eq_nil hi fun x hx => mem_of_mem_low hx]
  rfl

theorem predOf_mem (sl : SkipList σ μ) (key : σ ×ₗ μ) (chain : List Nat) (i : Nat) :
    predOf sl.nodes key chain i ∈ 0 :: onLevel sl.nodes i (low sl.nodes key chain) :=
  List.getLastD_mem_cons

theorem predOf_mem_chain (sl : SkipList σ μ) (key : σ ×ₗ μ) (chain : List Nat) (i : Nat) :
    predOf sl.nodes key chain i ∈ 0 :: chain := by
  rcases List.mem_cons.mp (predOf_mem sl key chain i) with hzero | hmem
  · simp [hzero]
  · exact List.mem_cons_of_mem _ (mem_of_mem_low (List.mem_filter.mp hmem).1)

theorem lt_height_predOf (h : Layout sl chain) (key : σ ×ₗ μ) {i : Nat} (hi : i < maxLevel) :
    i < height sl.nodes (predOf sl.nodes key chain i) := by
  rcases List.mem_cons.mp (predOf_mem sl key chain i) with hzero | hmem
  · rw [hzero, h.head_height]
    exact hi
  · simpa using (List.mem_filter.mp hmem).2

end Layout

/-! ## The search -/

namespace SkipList

variable {sl : SkipList σ μ} {chain : List Nat}

/-- One inner `loop` runs to the last node of the run below the key. -/
theorem advance_eq {nodes : List (Node σ μ)} {i : Nat} {score : σ} {member : μ} {x fuel : Nat}
    {l : List Nat} (hpath : Path (next nodes i) x l) (hheight : ∀ y ∈ x :: l, i < height nodes y)
    (hfuel : l.length < fuel) :
    advance nodes i score member fuel x =
      some ((l.takeWhile (below nodes (toLex (score, member)))).getLastD x) := by
  induction l generalizing x fuel with
  | nil =>
      obtain ⟨fuel, rfl⟩ : ∃ n, fuel = n + 1 := ⟨fuel - 1, by omega⟩
      have hnext : next nodes i x = none := hpath
      simp [advance, forwardAt_eq (hheight x (by simp)), hnext]
  | cons b l ih =>
      obtain ⟨fuel, rfl⟩ : ∃ n, fuel = n + 1 := ⟨fuel - 1, by omega⟩
      have hb : i < height nodes b := hheight b (by simp)
      have hpos : 0 < height nodes b := by omega
      obtain ⟨n, hn, hitem⟩ := getElem?_of_height hpos
      have hcmp : keyCmp n.score n.member score member = .lt ↔
          below nodes (toLex (score, member)) b = true := by
        rw [keyCmp_lt_iff, below, decide_eq_true_eq, hitem, keyOf]
      simp only [advance, forwardAt_eq (hheight x (by simp)), hpath.1, hn, Option.bind_eq_bind,
        Option.bind_some, hcmp]
      by_cases hbelow : below nodes (toLex (score, member)) b = true
      · rw [if_pos hbelow, List.takeWhile_cons_of_pos hbelow, List.getLastD_cons]
        apply ih hpath.2
        · intro y hy
          exact hheight y (List.mem_cons_of_mem _ hy)
        · simp only [List.length_cons] at hfuel
          omega
      · rw [if_neg hbelow, List.takeWhile_cons_of_neg hbelow]
        rfl

/-- From the predecessor found one level up, the inner `loop` reaches the
predecessor of its own level. -/
theorem advance_predOf (h : Layout sl chain) (score : σ) (member : μ) {i : Nat}
    (hi : i < maxLevel) :
    advance sl.nodes i score member sl.nodes.length
        (predOf sl.nodes (toLex (score, member)) chain (i + 1)) =
      some (predOf sl.nodes (toLex (score, member)) chain i) := by
  set key := toLex (score, member) with hkey
  -- the predecessor one level up lies on the chain of level `i` too
  have hmem : predOf sl.nodes key chain (i + 1) ∈
      0 :: onLevel sl.nodes i (low sl.nodes key chain) := by
    rcases List.mem_cons.mp (Layout.predOf_mem sl key chain (i + 1)) with hzero | hmem
    · simp [hzero]
    · apply List.mem_cons_of_mem
      simp only [onLevel, List.mem_filter, decide_eq_true_eq] at hmem ⊢
      exact ⟨hmem.1, by omega⟩
  obtain ⟨seen, rest, hsplit, hlast⟩ := exists_prefix_getLastD hmem
  have hpath := h.linked_split key hi
  rw [hsplit, List.append_assoc] at hpath
  have htail := hpath.drop
  rw [hlast] at htail
  have hrest : ∀ y ∈ rest, y ∈ onLevel sl.nodes i (low sl.nodes key chain) := by
    intro y hy
    rw [hsplit]
    exact List.mem_append_right _ hy
  rw [advance_eq htail, ← hkey]
  · -- the run below the key is exactly what is left of the low part
    have hrun : (rest ++ onLevel sl.nodes i (high sl.nodes key chain)).takeWhile
        (below sl.nodes key) = rest := by
      rw [List.takeWhile_append_of_pos]
      · have hstop : (onLevel sl.nodes i (high sl.nodes key chain)).takeWhile
            (below sl.nodes key) = [] := by
          rw [List.takeWhile_eq_nil_iff]
          intro hpos
          have hhigh := h.le_of_mem_high (List.mem_filter.mp (List.getElem_mem hpos)).1
          simpa [below] using hhigh
        rw [hstop, List.append_nil]
      · intro y hy
        have hlow := below_of_mem_low (List.mem_filter.mp (hrest y hy)).1
        simpa [below] using hlow
    rw [hrun, ← hlast, ← getLastD_append, ← hsplit, predOf]
  · intro y hy
    rcases List.mem_cons.mp hy with rfl | hy
    · rcases List.mem_cons.mp hmem with hzero | hmem
      · rw [hzero, h.head_height]
        exact hi
      · simpa using (List.mem_filter.mp hmem).2
    · rcases List.mem_append.mp hy with hy | hy
      · simpa using (List.mem_filter.mp (hrest y hy)).2
      · simpa using (List.mem_filter.mp hy).2
  · have hsub : (seen ++ (rest ++ onLevel sl.nodes i (high sl.nodes key chain))).length ≤
        chain.length := by
      rw [← List.append_assoc, ← hsplit, onLevel, onLevel, ← List.filter_append,
        low_append_high]
      exact List.length_filter_le _ _
    have hlen := h.length_lt
    simp only [List.length_append] at hsub ⊢
    omega

/-- The search leaves the predecessors of all its levels in `update`. -/
theorem descend_eq (h : Layout sl chain) (score : σ) (member : μ) {n : Nat} (hn : n ≤ maxLevel)
    {update : List (Option Nat)} (hupdate : update.length = maxLevel) :
    descend sl.nodes score member n (predOf sl.nodes (toLex (score, member)) chain n) update =
      some (predOf sl.nodes (toLex (score, member)) chain 0,
        (List.range n).map (fun i => some (predOf sl.nodes (toLex (score, member)) chain i)) ++
          update.drop n) := by
  induction n generalizing update with
  | zero => simp [descend]
  | succ n ih =>
      have hlt : n < update.length := by omega
      rw [descend, advance_predOf h score member (by omega)]
      simp only [Option.bind_eq_bind, Option.bind_some, if_pos hlt]
      rw [ih (by omega) (by simpa using hupdate), List.range_succ, List.map_append,
        List.append_assoc]
      congr 3
      rw [List.drop_eq_getElem_cons (by simpa using hlt), List.getElem_set_self,
        List.drop_set_of_lt (by omega)]
      rfl

theorem descend_start (h : Layout sl chain) (score : σ) (member : μ) :
    descend sl.nodes score member sl.level 0 (List.replicate maxLevel none) =
      some (predOf sl.nodes (toLex (score, member)) chain 0,
        (List.range sl.level).map
            (fun i => some (predOf sl.nodes (toLex (score, member)) chain i)) ++
          List.replicate (maxLevel - sl.level) none) := by
  have hstart := descend_eq h score member h.level_le (List.length_replicate (a := none))
  rwa [h.predOf_eq_zero le_rfl, List.drop_replicate] at hstart

theorem next_predOf_zero (h : Layout sl chain) (key : σ ×ₗ μ) :
    next sl.nodes 0 (predOf sl.nodes key chain 0) = (high sl.nodes key chain).head? := by
  have hpath := (h.linked_split key (show 0 < maxLevel by decide)).drop
  have hall : onLevel sl.nodes 0 (high sl.nodes key chain) = high sl.nodes key chain := by
    rw [onLevel, List.filter_eq_self]
    intro x hx
    simpa using h.height_pos x (Layout.mem_of_mem_high hx)
  rw [hall] at hpath
  exact hpath.head_eq

end SkipList

end MiniRudis
