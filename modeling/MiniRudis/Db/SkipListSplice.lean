import MiniRudis.Db.SkipListLayout

/-!
# Splicing nodes in and out of the arena

What the loops of `insert` and `remove` do to the forward pointers, and that
the layout survives both calls, for every choice of the random level.  None of
their accesses is out of range.
-/

namespace MiniRudis

open Lib

variable {σ μ : Type}

/-! ## The splice loops -/

section Loops

variable [Inhabited σ] [Inhabited μ]

/-- Linking node `idx` behind the predecessors of the levels `i, …, i + n - 1`. -/
theorem SkipList.splice_spec {idx : Nat} {pred : Nat → Nat} {n i : Nat}
    {nodes : List (Node σ μ)} (hidx : i + n ≤ height nodes idx)
    (hpred : ∀ j, i ≤ j → j < i + n → j < height nodes (pred j) ∧ pred j ≠ idx) :
    ∃ nodes', splice idx i ((List.range' i n).map fun j => some (pred j)) nodes = some nodes' ∧
      SameShape nodes nodes' ∧ ∀ j x, next nodes' j x =
        if i ≤ j ∧ j < i + n then
          if x = pred j then some idx
          else if x = idx then next nodes j (pred j)
          else next nodes j x
        else next nodes j x := by
  induction n generalizing i nodes with
  | zero =>
      refine ⟨nodes, rfl, SameShape.refl nodes, fun j x => ?_⟩
      rw [if_neg (by omega)]
  | succ n ih =>
      obtain ⟨hheight, hne⟩ := hpred i le_rfl (by omega)
      have hown : i < height nodes idx := by omega
      obtain ⟨nodes₁, hset₁, hshape₁, hnext₁⟩ := setForward_spec (next nodes i (pred i)) hown
      have hheight₁ : i < height nodes₁ (pred i) := by
        rw [hshape₁.height]
        exact hheight
      obtain ⟨nodes₂, hset₂, hshape₂, hnext₂⟩ := setForward_spec (some idx) hheight₁
      have hshape := hshape₁.trans hshape₂
      have hidx₂ : i + 1 + n ≤ height nodes₂ idx := by
        rw [hshape.height]
        omega
      have hpred₂ : ∀ j, i + 1 ≤ j → j < i + 1 + n →
          j < height nodes₂ (pred j) ∧ pred j ≠ idx := by
        intro j hij hjn
        rw [hshape.height]
        exact hpred j (by omega) (by omega)
      obtain ⟨nodes', hsplice, hshape', hnext'⟩ := ih hidx₂ hpred₂
      refine ⟨nodes', ?_, hshape.trans hshape', fun j x => ?_⟩
      · simp only [List.range'_succ, List.map_cons, splice, Option.bind_eq_bind,
          Option.bind_some, forwardAt_eq hheight, hset₁, hset₂, hsplice]
      · rw [hnext']
        by_cases hj : j = i
        · subst hj
          rw [if_neg (by omega), if_pos (show j ≤ j ∧ j < j + (n + 1) by omega), hnext₂, hnext₁]
          by_cases hx : x = pred j <;> simp [hx]
        · have hother : ∀ y, next nodes₂ j y = next nodes j y := fun y => by
            rw [hnext₂, if_neg (by omega), hnext₁, if_neg (by omega)]
          simp only [hother]
          by_cases hrange : i + 1 ≤ j ∧ j < i + 1 + n
          · rw [if_pos hrange, if_pos (show i ≤ j ∧ j < i + (n + 1) by omega)]
          · rw [if_neg hrange, if_neg (show ¬(i ≤ j ∧ j < i + (n + 1)) by omega)]

/-- Unlinking `target` at the levels it takes part in, from level `i` on. -/
theorem SkipList.unsplice_spec {target : Nat} {pred : Nat → Nat} {n i : Nat}
    {nodes : List (Node σ μ)}
    (hpred : ∀ j, i ≤ j → j < i + n → j < height nodes (pred j) ∧
      (next nodes j (pred j) = some target ↔ j < height nodes target)) :
    ∃ nodes', unsplice target i ((List.range' i n).map fun j => some (pred j)) nodes =
        some nodes' ∧
      SameShape nodes nodes' ∧ ∀ j x, next nodes' j x =
        if i ≤ j ∧ j < i + n ∧ j < height nodes target ∧ x = pred j then next nodes j target
        else next nodes j x := by
  induction n generalizing i nodes with
  | zero =>
      refine ⟨nodes, rfl, SameShape.refl nodes, fun j x => ?_⟩
      rw [if_neg (by omega)]
  | succ n ih =>
      obtain ⟨hheight, hlink⟩ := hpred i le_rfl (by omega)
      by_cases htarget : i < height nodes target
      · obtain ⟨nodes₁, hset, hshape₁, hnext₁⟩ := setForward_spec (next nodes i target) hheight
        have hpred₁ : ∀ j, i + 1 ≤ j → j < i + 1 + n → j < height nodes₁ (pred j) ∧
            (next nodes₁ j (pred j) = some target ↔ j < height nodes₁ target) := by
          intro j hij hjn
          obtain ⟨hj, hiff⟩ := hpred j (by omega) (by omega)
          rw [hshape₁.height, hshape₁.height, hnext₁, if_neg (by omega)]
          exact ⟨hj, hiff⟩
        obtain ⟨nodes', hun, hshape', hnext'⟩ := ih hpred₁
        refine ⟨nodes', ?_, hshape₁.trans hshape', fun j x => ?_⟩
        · simp only [List.range'_succ, List.map_cons, unsplice, Option.bind_eq_bind,
            Option.bind_some, forwardAt_eq hheight, hlink.mpr htarget, ne_eq, not_true_eq_false,
            if_false, forwardAt_eq htarget, hset, hun]
        · rw [hnext', hshape₁.height, hnext₁, hnext₁]
          by_cases hj : j = i
          · subst hj
            by_cases hx : x = pred j <;> simp [hx, htarget]
          · simp only [hj, and_false, if_false]
            have hiff : (i + 1 ≤ j ∧ j < i + 1 + n ∧ j < height nodes target ∧ x = pred j) ↔
                (i ≤ j ∧ j < i + (n + 1) ∧ j < height nodes target ∧ x = pred j) := by
              omega
            simp only [hiff]
      · refine ⟨nodes, ?_, SameShape.refl nodes, fun j x => ?_⟩
        · have hother : next nodes i (pred i) ≠ some target := fun h => htarget (hlink.mp h)
          simp only [List.range'_succ, List.map_cons, unsplice, Option.bind_eq_bind,
            Option.bind_some, forwardAt_eq hheight, ne_eq, hother, not_false_eq_true, if_true]
        · rw [if_neg (by omega)]

omit [Inhabited σ] [Inhabited μ] in
/-- The level shrinks to the tallest level whose chain is not empty, or to 1. -/
theorem SkipList.shrinkLevel_spec {nodes : List (Node σ μ)} {l : Nat} (hpos : 1 ≤ l)
    (hheight : l ≤ height nodes 0) :
    ∃ l', shrinkLevel nodes l = some l' ∧ 1 ≤ l' ∧ l' ≤ l ∧
      ∀ i, l' ≤ i → i < l → next nodes i 0 = none := by
  induction l with
  | zero => omega
  | succ l ih =>
      cases l with
      | zero => exact ⟨1, rfl, le_rfl, le_rfl, fun i _ _ => by omega⟩
      | succ l =>
          rw [shrinkLevel, forwardAt_eq (by omega)]
          simp only [Option.bind_eq_bind, Option.bind_some]
          cases hnext : next nodes (l + 1) 0 with
          | some x => exact ⟨l + 2, rfl, by omega, le_rfl, fun i _ _ => by omega⟩
          | none =>
              obtain ⟨l', hshrink, hone, hle, hnone⟩ := ih (by omega) (by omega)
              refine ⟨l', hshrink, hone, by omega, fun i hl hi => ?_⟩
              by_cases htop : i = l + 1
              · rw [htop, hnext]
              · exact hnone i hl (by omega)

end Loops

/-! ## A fresh node -/

section Push

variable (nodes : List (Node σ μ)) (member : μ) (score : σ) (lvl : Nat)

/-- The arena after `nodes.push(Node { member, score, forward: vec![NIL; lvl] })`. -/
def pushNode : List (Node σ μ) := nodes ++ [⟨member, score, List.replicate lvl none⟩]

theorem height_pushNode (x : Nat) : height (pushNode nodes member score lvl) x =
    if x = nodes.length then lvl else height nodes x := by
  by_cases hx : x = nodes.length
  · subst hx
    simp [height, pushNode]
  · rw [if_neg hx, height, height, pushNode, List.getElem?_append]
    by_cases hlt : x < nodes.length
    · rw [if_pos hlt]
    · rw [if_neg hlt, List.getElem?_eq_none (by simp; omega), List.getElem?_eq_none (by omega)]

theorem item_pushNode [Inhabited σ] [Inhabited μ] (x : Nat) :
    item (pushNode nodes member score lvl) x =
      if x = nodes.length then (member, score) else item nodes x := by
  by_cases hx : x = nodes.length
  · subst hx
    simp [item, pushNode]
  · rw [if_neg hx, item, item, pushNode, List.getElem?_append]
    by_cases hlt : x < nodes.length
    · rw [if_pos hlt]
    · rw [if_neg hlt, List.getElem?_eq_none (by simp; omega), List.getElem?_eq_none (by omega)]

theorem next_pushNode {x : Nat} (hx : x ≠ nodes.length) (i : Nat) :
    next (pushNode nodes member score lvl) i x = next nodes i x := by
  rw [next, next, forwardAt, forwardAt, pushNode, List.getElem?_append]
  by_cases hlt : x < nodes.length
  · rw [if_pos hlt]
  · rw [if_neg hlt, List.getElem?_eq_none (by simp; omega), List.getElem?_eq_none (by omega)]

end Push

theorem onLevel_append (nodes : List (Node σ μ)) (i : Nat) (l₁ l₂ : List Nat) :
    onLevel nodes i (l₁ ++ l₂) = onLevel nodes i l₁ ++ onLevel nodes i l₂ :=
  List.filter_append _ _

theorem onLevel_congr {nodes nodes' : List (Node σ μ)} {i : Nat} {l : List Nat}
    (h : ∀ x ∈ l, height nodes' x = height nodes x) : onLevel nodes' i l = onLevel nodes i l :=
  List.filter_congr fun x hx => by rw [h x hx]

variable [LinearOrder σ] [LinearOrder μ] [Inhabited σ] [Inhabited μ]

namespace Layout

variable {sl : SkipList σ μ} {chain : List Nat}

theorem mem_lt (h : Layout sl chain) {x : Nat} (hx : x ∈ 0 :: chain) : x < sl.nodes.length := by
  apply lt_length_of_height
  rcases List.mem_cons.mp hx with rfl | hx
  · rw [h.head_height]
    decide
  · exact h.height_pos x hx

theorem onLevel_sublist (nodes : List (Node σ μ)) (i : Nat) (key : σ ×ₗ μ) (chain : List Nat) :
    (0 :: (onLevel nodes i (low nodes key chain) ++ onLevel nodes i (high nodes key chain))).Sublist
      (0 :: chain) := by
  rw [← onLevel_append, low_append_high]
  exact List.filter_sublist.cons_cons 0

/-- The arena that `insert` leaves, level by level. -/
structure Inserted (sl sl' : SkipList σ μ) (key : σ ×ₗ μ) (chain : List Nat) (member : μ)
    (score : σ) (lvl : Nat) : Prop where
  level : sl'.level = max sl.level lvl
  length : sl'.length = sl.length + 1
  shape : SameShape (pushNode sl.nodes member score lvl) sl'.nodes
  next : ∀ j x, next sl'.nodes j x =
    if 0 ≤ j ∧ j < 0 + lvl then
      if x = predOf sl.nodes key chain j then some sl.nodes.length
      else if x = sl.nodes.length then
        next (pushNode sl.nodes member score lvl) j (predOf sl.nodes key chain j)
      else next (pushNode sl.nodes member score lvl) j x
    else next (pushNode sl.nodes member score lvl) j x

theorem inserted_height {sl' : SkipList σ μ} {key : σ ×ₗ μ} {member : μ} {score : σ} {lvl : Nat}
    (h' : Inserted sl sl' key chain member score lvl) (x : Nat) : height sl'.nodes x =
      if x = sl.nodes.length then lvl else height sl.nodes x := by
  rw [h'.shape.height, height_pushNode]

theorem inserted_item {sl' : SkipList σ μ} {key : σ ×ₗ μ} {member : μ} {score : σ} {lvl : Nat}
    (h' : Inserted sl sl' key chain member score lvl) (x : Nat) : item sl'.nodes x =
      if x = sl.nodes.length then (member, score) else item sl.nodes x := by
  rw [h'.shape.item, item_pushNode]

theorem inserted_linked (h : Layout sl chain) {sl' : SkipList σ μ} {key : σ ×ₗ μ} {member : μ}
    {score : σ} {lvl : Nat} (h' : Inserted sl sl' key chain member score lvl) {i : Nat}
    (hi : i < maxLevel) :
    Path (next sl'.nodes i) 0
      (onLevel sl'.nodes i
        (low sl.nodes key chain ++ sl.nodes.length :: high sl.nodes key chain)) := by
  have hold : ∀ x ∈ 0 :: chain, x ≠ sl.nodes.length := fun x hx => by
    have := h.mem_lt hx
    omega
  have hheight : ∀ x ∈ chain, height sl'.nodes x = height sl.nodes x := fun x hx => by
    rw [inserted_height h', if_neg (hold x (List.mem_cons_of_mem _ hx))]
  have hlow : onLevel sl'.nodes i (low sl.nodes key chain) =
      onLevel sl.nodes i (low sl.nodes key chain) :=
    onLevel_congr fun x hx => hheight x (mem_of_mem_low hx)
  have hhigh : onLevel sl'.nodes i (high sl.nodes key chain) =
      onLevel sl.nodes i (high sl.nodes key chain) :=
    onLevel_congr fun x hx => hheight x (mem_of_mem_high hx)
  have hnew : onLevel sl'.nodes i [sl.nodes.length] =
      if i < lvl then [sl.nodes.length] else [] := by
    simp [onLevel, List.filter_cons, inserted_height h']
  have hpath := h.linked_split key hi
  have hsublist := onLevel_sublist sl.nodes i key chain
  have hpred := hold _ (predOf_mem_chain sl key chain i)
  rw [← List.singleton_append, onLevel_append, onLevel_append, hlow, hhigh, hnew]
  by_cases hlvl : i < lvl
  · rw [if_pos hlvl, List.singleton_append]
    refine hpath.splice (h.nodup.sublist hsublist) ?_ ?_ fun x hx hne => ?_
    · rw [h'.next, if_pos ⟨Nat.zero_le _, by omega⟩]
      exact if_pos rfl
    · rw [h'.next, if_pos ⟨Nat.zero_le _, by omega⟩, if_neg hpred.symm, if_pos rfl,
        next_pushNode _ _ _ _ hpred]
      rfl
    · have hxold := hold x (hsublist.subset hx)
      have hnotPred : x ≠ predOf sl.nodes key chain i := hne
      rw [h'.next, if_pos ⟨Nat.zero_le _, by omega⟩, if_neg hnotPred, if_neg hxold,
        next_pushNode _ _ _ _ hxold]
  · rw [if_neg hlvl, List.nil_append]
    refine hpath.congr fun x hx => ?_
    rw [h'.next, if_neg (by omega), next_pushNode _ _ _ _ (hold x (hsublist.subset hx))]

/-- `insert` keeps the layout: the new node goes between the low and the high part. -/
theorem inserted_layout (h : Layout sl chain) {sl' : SkipList σ μ} {member : μ} {score : σ}
    {lvl : Nat} (hlvl : 1 ≤ lvl ∧ lvl ≤ maxLevel)
    (h' : Inserted sl sl' (toLex (score, member)) chain member score lvl) :
    Layout sl' (low sl.nodes (toLex (score, member)) chain ++
      sl.nodes.length :: high sl.nodes (toLex (score, member)) chain) := by
  set key := toLex (score, member) with hkey
  have hold : ∀ x ∈ 0 :: chain, x ≠ sl.nodes.length := fun x hx => by
    have := h.mem_lt hx
    omega
  have hcases : ∀ x ∈ low sl.nodes key chain ++ sl.nodes.length :: high sl.nodes key chain,
      x ∈ chain ∨ x = sl.nodes.length := by
    intro x hx
    simp only [List.mem_append, List.mem_cons] at hx
    rcases hx with hx | hx | hx
    · exact Or.inl (mem_of_mem_low hx)
    · exact Or.inr hx
    · exact Or.inl (mem_of_mem_high hx)
  have hitem : ∀ x ∈ chain, item sl'.nodes x = item sl.nodes x := fun x hx => by
    rw [inserted_item h', if_neg (hold x (List.mem_cons_of_mem _ hx))]
  have hnewItem : keyOf (item sl'.nodes sl.nodes.length) = key := by
    rw [inserted_item h', if_pos rfl, keyOf]
  have hlevel : sl.level ≤ sl'.level ∧ lvl ≤ sl'.level ∧ sl'.level ≤ maxLevel := by
    have := h.level_le
    rw [h'.level]
    omega
  constructor
  case level_pos => exact hlvl.1.trans hlevel.2.1
  case level_le => exact hlevel.2.2
  case head_height =>
    rw [inserted_height h', if_neg (hold 0 (by simp)), h.head_height]
  case nodup =>
    have hperm : (0 :: (low sl.nodes key chain ++
        sl.nodes.length :: high sl.nodes key chain)).Perm (sl.nodes.length :: 0 :: chain) := by
      have hmid : (low sl.nodes key chain ++ sl.nodes.length :: high sl.nodes key chain).Perm
          (sl.nodes.length :: chain) := by
        have hswap := @List.perm_middle _ sl.nodes.length (low sl.nodes key chain)
          (high sl.nodes key chain)
        rwa [low_append_high] at hswap
      exact (hmid.cons 0).trans (List.Perm.swap _ _ _)
    rw [hperm.nodup_iff, List.nodup_cons]
    exact ⟨fun hmem => hold _ hmem rfl, h.nodup⟩
  case height_pos =>
    intro x hx
    rw [inserted_height h']
    rcases hcases x hx with hx | hx
    · rw [if_neg (hold x (List.mem_cons_of_mem _ hx))]
      exact h.height_pos x hx
    · rw [if_pos hx]
      exact hlvl.1
  case height_le =>
    intro x hx
    rw [inserted_height h']
    rcases hcases x hx with hx | hx
    · rw [if_neg (hold x (List.mem_cons_of_mem _ hx))]
      exact (h.height_le x hx).trans hlevel.1
    · rw [if_pos hx]
      exact hlevel.2.1
  case linked =>
    intro i hi
    exact inserted_linked h h' hi
  case sorted =>
    have hsorted : (low sl.nodes key chain ++ high sl.nodes key chain).Pairwise
        fun x y => keyOf (item sl.nodes x) ≤ keyOf (item sl.nodes y) := by
      rw [low_append_high]
      exact h.sorted
    rw [List.pairwise_append] at hsorted ⊢
    obtain ⟨hlow, hhigh, hcross⟩ := hsorted
    refine ⟨?_, ?_, ?_⟩
    · refine hlow.imp_of_mem fun {x y} hx hy hxy => ?_
      rw [hitem x (mem_of_mem_low hx), hitem y (mem_of_mem_low hy)]
      exact hxy
    · rw [List.pairwise_cons]
      refine ⟨fun y hy => ?_, hhigh.imp_of_mem fun {x y} hx hy hxy => ?_⟩
      · rw [hnewItem, hitem y (mem_of_mem_high hy)]
        exact h.le_of_mem_high hy
      · rw [hitem x (mem_of_mem_high hx), hitem y (mem_of_mem_high hy)]
        exact hxy
    · intro x hx y hy
      rw [hitem x (mem_of_mem_low hx)]
      rcases List.mem_cons.mp hy with rfl | hy
      · rw [hnewItem]
        exact (below_of_mem_low hx).le
      · rw [hitem y (mem_of_mem_high hy)]
        exact hcross x hx y hy
  case length_eq =>
    rw [h'.length, h.length_eq]
    conv_lhs => rw [← low_append_high sl.nodes key chain]
    simp only [List.length_append, List.length_cons]
    omega

/-- The arena that `remove` leaves when it unlinks `target`, level by level. -/
structure Removed (sl sl' : SkipList σ μ) (key : σ ×ₗ μ) (chain : List Nat) (target : Nat) :
    Prop where
  level_pos : 1 ≤ sl'.level
  level_le : sl'.level ≤ sl.level
  top : ∀ i, sl'.level ≤ i → i < sl.level → next sl'.nodes i 0 = none
  length : sl'.length = sl.length - 1
  shape : SameShape sl.nodes sl'.nodes
  next : ∀ j x, next sl'.nodes j x =
    if 0 ≤ j ∧ j < 0 + sl.level ∧ j < height sl.nodes target ∧
        x = predOf sl.nodes key chain j then
      next sl.nodes j target
    else next sl.nodes j x

theorem removed_linked (h : Layout sl chain) {sl' : SkipList σ μ} {key : σ ×ₗ μ} {target : Nat}
    {rest : List Nat} (hhigh : high sl.nodes key chain = target :: rest)
    (h' : Removed sl sl' key chain target) {i : Nat} (hi : i < maxLevel) :
    Path (next sl'.nodes i) 0 (onLevel sl'.nodes i (low sl.nodes key chain ++ rest)) := by
  have hheight : ∀ x, height sl'.nodes x = height sl.nodes x := h'.shape.height
  have hpath := h.linked_split key hi
  have hsublist := onLevel_sublist sl.nodes i key chain
  have hfirst : target ∈ high sl.nodes key chain := by
    rw [hhigh]
    simp
  have htarget : target ∈ chain := mem_of_mem_high hfirst
  have hcons : onLevel sl.nodes i (target :: rest) =
      if i < height sl.nodes target then target :: onLevel sl.nodes i rest
      else onLevel sl.nodes i rest := by
    simp [onLevel, List.filter_cons]
  rw [hhigh, hcons] at hpath hsublist
  rw [onLevel_congr fun x _ => hheight x, onLevel_append]
  by_cases hpart : i < height sl.nodes target
  · rw [if_pos hpart] at hpath hsublist
    have hlevel : i < sl.level := hpart.trans_le (h.height_le target htarget)
    refine hpath.unlink (h.nodup.sublist hsublist) ?_ fun x _ hne => ?_
    · rw [h'.next]
      exact if_pos ⟨Nat.zero_le _, by omega, hpart, rfl⟩
    · have hnotPred : x ≠ predOf sl.nodes key chain i := hne
      rw [h'.next, if_neg fun hx => hnotPred hx.2.2.2]
  · rw [if_neg hpart] at hpath
    refine hpath.congr fun x _ => ?_
    rw [h'.next, if_neg fun hx => hpart hx.2.2.1]

/-- `remove` keeps the layout: the removed node drops out of every chain. -/
theorem removed_layout (h : Layout sl chain) {sl' : SkipList σ μ} {key : σ ×ₗ μ} {target : Nat}
    {rest : List Nat} (hhigh : high sl.nodes key chain = target :: rest)
    (h' : Removed sl sl' key chain target) : Layout sl' (low sl.nodes key chain ++ rest) := by
  have hheight : ∀ x, height sl'.nodes x = height sl.nodes x := h'.shape.height
  have hsub : (low sl.nodes key chain ++ rest).Sublist chain := by
    conv_rhs => rw [← low_append_high sl.nodes key chain, hhigh]
    exact (List.Sublist.refl _).append (List.sublist_cons_self target rest)
  constructor
  case level_pos => exact h'.level_pos
  case level_le => exact h'.level_le.trans h.level_le
  case head_height => rw [hheight, h.head_height]
  case nodup => exact h.nodup.sublist (hsub.cons_cons 0)
  case height_pos =>
    intro x hx
    rw [hheight]
    exact h.height_pos x (hsub.subset hx)
  case height_le =>
    intro x hx
    rw [hheight]
    by_contra htall
    -- at the top level `x` takes part in, the new chain would be empty
    have hpos := h.height_pos x (hsub.subset hx)
    have hle := h.height_le x (hsub.subset hx)
    have hlevel := h.level_le
    have hpath := removed_linked h hhigh h' (i := height sl.nodes x - 1) (by omega)
    have hmem : x ∈ onLevel sl'.nodes (height sl.nodes x - 1) (low sl.nodes key chain ++ rest) := by
      simp only [onLevel, List.mem_filter, hheight, decide_eq_true_eq]
      exact ⟨hx, by omega⟩
    have hnone := h'.top (height sl.nodes x - 1) (by omega) (by omega)
    rw [hpath.head_eq, List.head?_eq_none_iff] at hnone
    rw [hnone] at hmem
    simp at hmem
  case linked =>
    intro i hi
    exact removed_linked h hhigh h' hi
  case sorted =>
    refine (h.sorted.sublist hsub).imp fun {x y} hxy => ?_
    rw [h'.shape.item, h'.shape.item]
    exact hxy
  case length_eq =>
    have hlen := congrArg List.length (low_append_high sl.nodes key chain)
    rw [hhigh] at hlen
    rw [h'.length, h.length_eq]
    simp only [List.length_append, List.length_cons] at hlen ⊢
    omega

end Layout

/-! ## The two calls -/

def present [HasNaN σ] (score : σ) (member : μ) : List (μ × σ) → Bool
  | [] => false
  | p :: _ => feq p.2 score && decide (p.1 = member)

namespace SkipList

variable {sl : SkipList σ μ} {chain : List Nat}

theorem growUpdate_eq (h : Layout sl chain) (key : σ ×ₗ μ) (lvl : Level) :
    ∃ update, growUpdate ((List.range sl.level).map
          (fun i => some (predOf sl.nodes key chain i)) ++
          List.replicate (maxLevel - sl.level) none) sl.level lvl = some update ∧
      update.take lvl = (List.range' 0 lvl).map fun i => some (predOf sl.nodes key chain i) := by
  obtain ⟨lvl, hlvl⟩ := lvl
  have hle := h.level_le
  simp only
  by_cases hlt : sl.level < lvl
  · have hrange : List.range' 0 lvl =
        List.range sl.level ++ List.range' sl.level (lvl - sl.level) := by
      have happend := List.range'_append_1 (s := 0) (m := sl.level) (n := lvl - sl.level)
      rw [Nat.zero_add, Nat.add_sub_cancel' hlt.le] at happend
      rw [List.range_eq_range', happend]
    have hhead : (List.range' sl.level (lvl - sl.level)).map
        (fun i => some (predOf sl.nodes key chain i)) =
        List.replicate (lvl - sl.level) (some 0) := by
      rw [List.map_congr_left (g := fun _ => some 0), List.map_const', List.length_range']
      intro i hi
      rw [List.mem_range'_1] at hi
      rw [h.predOf_eq_zero hi.1]
    rw [growUpdate, if_pos hlt, if_pos (by simp; omega)]
    refine ⟨_, rfl, ?_⟩
    have hlength : ((List.range sl.level).map (fun i => some (predOf sl.nodes key chain i)) ++
        List.replicate (lvl - sl.level) (some 0)).length = lvl := by
      simp
      omega
    have hkept : ((List.range sl.level).map (fun i => some (predOf sl.nodes key chain i)) ++
        List.replicate (maxLevel - sl.level) none).take sl.level =
        (List.range sl.level).map fun i => some (predOf sl.nodes key chain i) :=
      List.take_left' (by simp)
    rw [hkept, List.take_left' hlength, hrange, List.map_append, hhead]
  · rw [growUpdate, if_neg hlt]
    refine ⟨_, rfl, ?_⟩
    rw [List.take_append_of_le_length (by simp; omega), ← List.map_take, List.take_range,
      Nat.min_eq_left (by omega), List.range_eq_range']

variable [HasNaN σ]

theorem holdsPair_eq (h : Layout sl chain) (score : σ) (member : μ) {l : List Nat}
    (hl : ∀ x ∈ l, x ∈ chain) :
    holdsPair sl.nodes score member l.head? =
      some (present score member (l.map (item sl.nodes))) := by
  cases l with
  | nil => rfl
  | cons t rest =>
      obtain ⟨n, hn, hitem⟩ := getElem?_of_height (h.height_pos t (hl t (by simp)))
      simp [holdsPair, present, hn, hitem]

theorem insert_present (h : Layout sl chain) {score : σ} {member : μ} (lvl : Level)
    (hpresent : present score member
      ((high sl.nodes (toLex (score, member)) chain).map (item sl.nodes)) = true) :
    sl.insert score member lvl = some sl := by
  have hholds := holdsPair_eq h score member
    (l := high sl.nodes (toLex (score, member)) chain) fun x hx => Layout.mem_of_mem_high hx
  rw [insert, descend_start h]
  simp only [Option.bind_eq_bind, Option.bind_some,
    forwardAt_eq (h.lt_height_predOf _ (show 0 < maxLevel by decide)),
    next_predOf_zero h, hholds, hpresent, if_true]

theorem insert_absent (h : Layout sl chain) {score : σ} {member : μ} (lvl : Level)
    (habsent : present score member
      ((high sl.nodes (toLex (score, member)) chain).map (item sl.nodes)) = false) :
    ∃ sl', sl.insert score member lvl = some sl' ∧
      Layout.Inserted sl sl' (toLex (score, member)) chain member score lvl := by
  set key := toLex (score, member) with hkey
  have hpred : ∀ j, 0 ≤ j → j < 0 + (lvl : Nat) →
      j < height (pushNode sl.nodes member score lvl) (predOf sl.nodes key chain j) ∧
        predOf sl.nodes key chain j ≠ sl.nodes.length := by
    intro j _ hj
    have hlt := h.mem_lt (Layout.predOf_mem_chain sl key chain j)
    refine ⟨?_, by omega⟩
    rw [height_pushNode, if_neg (by omega)]
    have hmax := lvl.2.2
    exact h.lt_height_predOf key (by omega)
  have hown : 0 + (lvl : Nat) ≤
      height (pushNode sl.nodes member score lvl) sl.nodes.length := by
    rw [height_pushNode, if_pos rfl, Nat.zero_add]
  obtain ⟨nodes, hsplice, hshape, hnext⟩ := splice_spec hown hpred
  obtain ⟨update, hupdate, htake⟩ := growUpdate_eq h key lvl
  have hholds := holdsPair_eq h score member (l := high sl.nodes key chain)
    fun x hx => Layout.mem_of_mem_high hx
  refine ⟨⟨nodes, max sl.level lvl, sl.length + 1⟩, ?_, ⟨rfl, rfl, hshape, hnext⟩⟩
  rw [insert, descend_start h, ← hkey]
  rw [pushNode] at hsplice
  simp only [Option.bind_eq_bind, Option.bind_some,
    forwardAt_eq (h.lt_height_predOf key (show 0 < maxLevel by decide)),
    next_predOf_zero h key, hholds, habsent, Bool.false_eq_true, if_false, hupdate, htake, hsplice]

theorem remove_absent (h : Layout sl chain) {score : σ} {member : μ}
    (habsent : present score member
      ((high sl.nodes (toLex (score, member)) chain).map (item sl.nodes)) = false) :
    sl.remove score member = some (false, sl) := by
  have hholds := holdsPair_eq h score member
    (l := high sl.nodes (toLex (score, member)) chain) fun x hx => Layout.mem_of_mem_high hx
  rw [remove, descend_start h]
  simp only [Option.bind_eq_bind, Option.bind_some,
    forwardAt_eq (h.lt_height_predOf _ (show 0 < maxLevel by decide)), next_predOf_zero h]
  cases hhead : (high sl.nodes (toLex (score, member)) chain).head? with
  | none => rfl
  | some target =>
      rw [hhead] at hholds
      simp only [hholds, habsent, Option.bind_some, Bool.false_eq_true, if_false]

theorem remove_present (h : Layout sl chain) {score : σ} {member : μ} {target : Nat}
    {rest : List Nat} (hhigh : high sl.nodes (toLex (score, member)) chain = target :: rest)
    (hpresent : present score member
      ((high sl.nodes (toLex (score, member)) chain).map (item sl.nodes)) = true) :
    ∃ sl', sl.remove score member = some (true, sl') ∧
      Layout.Removed sl sl' (toLex (score, member)) chain target := by
  set key := toLex (score, member) with hkey
  have hlink : ∀ j, 0 ≤ j → j < 0 + sl.level → j < height sl.nodes (predOf sl.nodes key chain j) ∧
      (next sl.nodes j (predOf sl.nodes key chain j) = some target ↔
        j < height sl.nodes target) := by
    intro j _ hj
    have hmax : j < maxLevel := by
      have := h.level_le
      omega
    refine ⟨h.lt_height_predOf key hmax, ?_⟩
    have hpath := (h.linked_split key hmax).drop
    have hnodup : (target :: rest).Nodup := by
      rw [← hhigh]
      exact ((List.nodup_cons.mp h.nodup).2).sublist (List.dropWhile_sublist _)
    change next sl.nodes j ((onLevel sl.nodes j (low sl.nodes key chain)).getLastD 0) = _ ↔ _
    rw [hpath.head_eq, hhigh, onLevel, List.filter_cons]
    by_cases htall : j < height sl.nodes target
    · simp [htall]
    · simp only [htall, decide_false, Bool.false_eq_true, if_false, iff_false]
      intro hhead
      have hmem := (List.mem_filter.mp (List.mem_of_mem_head? hhead)).1
      exact (List.nodup_cons.mp hnodup).1 hmem
  obtain ⟨nodes, hunsplice, hshape, hnext⟩ := unsplice_spec (i := 0) hlink
  have hhead : sl.level ≤ height nodes 0 := by
    rw [hshape.height, h.head_height]
    exact h.level_le
  obtain ⟨level, hshrink, hone, hle, htop⟩ := shrinkLevel_spec h.level_pos hhead
  have hlength : sl.length ≠ 0 := by
    have hlen := congrArg List.length (low_append_high sl.nodes key chain)
    rw [hhigh] at hlen
    rw [h.length_eq]
    simp only [List.length_append, List.length_cons] at hlen
    omega
  have hholds := holdsPair_eq h score member (l := high sl.nodes key chain)
    fun x hx => Layout.mem_of_mem_high hx
  rw [hpresent, hhigh, List.head?_cons] at hholds
  refine ⟨⟨nodes, level, sl.length - 1⟩, ?_, ⟨hone, hle, htop, rfl, hshape, hnext⟩⟩
  have htake : ((List.range sl.level).map (fun i => some (predOf sl.nodes key chain i)) ++
      List.replicate (maxLevel - sl.level) none).take sl.level =
      (List.range' 0 sl.level).map fun i => some (predOf sl.nodes key chain i) := by
    rw [List.take_left' (by simp), List.range_eq_range']
  rw [remove, descend_start h, ← hkey]
  simp only [Option.bind_eq_bind, Option.bind_some,
    forwardAt_eq (h.lt_height_predOf key (show 0 < maxLevel by decide)), next_predOf_zero h key,
    hhigh, List.head?_cons, hholds, if_true, htake, hunsplice, hshrink, hlength, if_false]

end SkipList

end MiniRudis
