import MiniRudis.Db.SkipListSplice
import Mathlib.Data.Finset.Basic

/-!
# The skip list as a sorted list and as a set

A skip list stands for the list of pairs its level-0 chain stores.  The calls
are operations on that list; without NaN scores the list is strictly sorted and
the operations are those of a finite set.
-/

namespace MiniRudis

open Lib

variable {σ μ : Type} [LinearOrder σ] [LinearOrder μ]

/-! ## Sorted lists of pairs -/

def lowPairs (key : σ ×ₗ μ) (l : List (μ × σ)) : List (μ × σ) :=
  l.takeWhile fun p => decide (keyOf p < key)

def highPairs (key : σ ×ₗ μ) (l : List (μ × σ)) : List (μ × σ) :=
  l.dropWhile fun p => decide (keyOf p < key)

def insertPair [HasNaN σ] (score : σ) (member : μ) (l : List (μ × σ)) : List (μ × σ) :=
  if present score member (highPairs (toLex (score, member)) l) then l
  else lowPairs (toLex (score, member)) l ++
    (member, score) :: highPairs (toLex (score, member)) l

def removePair [HasNaN σ] (score : σ) (member : μ) (l : List (μ × σ)) :
    Bool × List (μ × σ) :=
  if present score member (highPairs (toLex (score, member)) l) then
    (true, lowPairs (toLex (score, member)) l ++ (highPairs (toLex (score, member)) l).tail)
  else (false, l)

def rankPair (score : σ) (member : μ) (l : List (μ × σ)) : Option Nat :=
  match highPairs (toLex (score, member)) l with
  | [] => none
  | p :: _ => if p = (member, score) then some (lowPairs (toLex (score, member)) l).length else none

theorem lowPairs_append_highPairs (key : σ ×ₗ μ) (l : List (μ × σ)) :
    lowPairs key l ++ highPairs key l = l :=
  List.takeWhile_append_dropWhile

theorem rankPair_lt {score : σ} {member : μ} {l : List (μ × σ)} {rank : Nat}
    (h : rankPair score member l = some rank) : rank < l.length := by
  have hsplit := congrArg List.length (lowPairs_append_highPairs (toLex (score, member)) l)
  rw [List.length_append] at hsplit
  unfold rankPair at h
  split at h
  · exact absurd h (by simp)
  · rename_i p high hhigh
    rw [hhigh, List.length_cons] at hsplit
    split at h
    · obtain rfl := Option.some.inj h
      omega
    · exact absurd h (by simp)

theorem keyOf_lt_of_mem_lowPairs {key : σ ×ₗ μ} {l : List (μ × σ)} {p : μ × σ}
    (hp : p ∈ lowPairs key l) : keyOf p < key := by
  have h := List.mem_takeWhile_imp hp
  simpa using h

theorem le_keyOf_of_mem_highPairs {key : σ ×ₗ μ} {l : List (μ × σ)}
    (hsorted : l.Pairwise fun p q => keyOf p ≤ keyOf q) {p : μ × σ}
    (hp : p ∈ highPairs key l) : key ≤ keyOf p := by
  have hmono : l.Pairwise fun p q =>
      decide (keyOf q < key) = true → decide (keyOf p < key) = true := by
    apply hsorted.imp
    intro p q hpq hq
    simp only [decide_eq_true_eq] at hq ⊢
    exact hpq.trans_lt hq
  have hnot := not_of_mem_dropWhile hmono hp
  simpa using hnot

/-! ## The refinement -/

section Refines

variable [Inhabited σ] [Inhabited μ]

/-- The live nodes of `sl` store the pairs `l`, in level-0 order. -/
def SkipList.Refines (sl : SkipList σ μ) (l : List (μ × σ)) : Prop :=
  ∃ chain, Layout sl chain ∧ chain.map (item sl.nodes) = l

theorem lowPairs_map (nodes : List (Node σ μ)) (key : σ ×ₗ μ) (chain : List Nat) :
    lowPairs key (chain.map (item nodes)) = (low nodes key chain).map (item nodes) :=
  List.takeWhile_map

theorem highPairs_map (nodes : List (Node σ μ)) (key : σ ×ₗ μ) (chain : List Nat) :
    highPairs key (chain.map (item nodes)) = (high nodes key chain).map (item nodes) :=
  List.dropWhile_map

namespace SkipList

variable {sl : SkipList σ μ} {l : List (μ × σ)} {chain : List Nat}

theorem Refines.length_eq (h : sl.Refines l) : sl.length = l.length := by
  obtain ⟨chain, hlayout, rfl⟩ := h
  rw [hlayout.length_eq, List.length_map]

theorem new_refines : (new : SkipList σ μ).Refines [] := by
  refine ⟨[], ?_, rfl⟩
  constructor
  case linked =>
    intro i hi
    have hcell : (List.replicate maxLevel (none : Option Nat))[i]? = some none := by
      rw [List.getElem?_replicate, if_pos hi]
    have hnone : next (new : SkipList σ μ).nodes i 0 = none := by
      simp [next, forwardAt, new, hcell]
    exact hnone
  case level_pos => exact le_rfl
  case level_le => exact (show 1 ≤ maxLevel by decide)
  case head_height => simp [height, new]
  case nodup => simp
  case height_pos => simp
  case height_le => simp
  case sorted => exact List.Pairwise.nil
  case length_eq => rfl

theorem insert_refines [HasNaN σ] (h : sl.Refines l) (score : σ) (member : μ) (lvl : Level) :
    ∃ sl', sl.insert score member lvl = some sl' ∧ sl'.Refines (insertPair score member l) := by
  obtain ⟨chain, hlayout, rfl⟩ := h
  rw [insertPair, highPairs_map, lowPairs_map]
  cases hpresent : present score member
      ((high sl.nodes (toLex (score, member)) chain).map (item sl.nodes)) with
  | true =>
      rw [if_pos rfl]
      exact ⟨sl, insert_present hlayout lvl hpresent, chain, hlayout, rfl⟩
  | false =>
      obtain ⟨sl', hinsert, hinserted⟩ := insert_absent hlayout lvl hpresent
      refine ⟨sl', hinsert, _, hlayout.inserted_layout lvl.2 hinserted, ?_⟩
      have hold : ∀ x ∈ chain, item sl'.nodes x = item sl.nodes x := fun x hx => by
        have hlt := hlayout.mem_lt (List.mem_cons_of_mem 0 hx)
        rw [Layout.inserted_item hinserted, if_neg (by omega)]
      rw [if_neg Bool.false_ne_true, List.map_append, List.map_cons,
        Layout.inserted_item hinserted, if_pos rfl,
        List.map_congr_left fun x hx => hold x (Layout.mem_of_mem_low hx),
        List.map_congr_left fun x hx => hold x (Layout.mem_of_mem_high hx)]

theorem remove_refines [HasNaN σ] (h : sl.Refines l) (score : σ) (member : μ) :
    ∃ sl', sl.remove score member = some ((removePair score member l).1, sl') ∧
      sl'.Refines (removePair score member l).2 := by
  obtain ⟨chain, hlayout, rfl⟩ := h
  rw [removePair, highPairs_map, lowPairs_map]
  cases hpresent : present score member
      ((high sl.nodes (toLex (score, member)) chain).map (item sl.nodes)) with
  | false =>
      rw [if_neg Bool.false_ne_true]
      exact ⟨sl, remove_absent hlayout hpresent, chain, hlayout, rfl⟩
  | true =>
      cases hhigh : high sl.nodes (toLex (score, member)) chain with
      | nil => simp [hhigh, present] at hpresent
      | cons target rest =>
          obtain ⟨sl', hremove, hremoved⟩ := remove_present hlayout hhigh hpresent
          refine ⟨sl', hremove, _, hlayout.removed_layout hhigh hremoved, ?_⟩
          rw [if_pos rfl, List.map_cons, List.tail_cons, ← List.map_append]
          exact List.map_congr_left fun x _ => hremoved.shape.item x

omit [LinearOrder σ] [LinearOrder μ] [Inhabited σ] [Inhabited μ] in
theorem chainFrom_eq {nodes : List (Node σ μ)} {chain : List Nat} {x fuel : Nat}
    (hpath : Path (next nodes 0) x chain) (hheight : ∀ y ∈ x :: chain, 0 < height nodes y)
    (hfuel : chain.length ≤ fuel) : chainFrom nodes fuel (next nodes 0 x) = some chain := by
  induction chain generalizing x fuel with
  | nil =>
      have hnext : next nodes 0 x = none := hpath
      simp [hnext, chainFrom]
  | cons b chain ih =>
      obtain ⟨fuel, rfl⟩ : ∃ n, fuel = n + 1 := ⟨fuel - 1, by
        rw [List.length_cons] at hfuel
        omega⟩
      rw [hpath.1, chainFrom, forwardAt_eq (hheight b (by simp))]
      simp only [Option.bind_eq_bind, Option.bind_some]
      rw [ih hpath.2 (fun y hy => hheight y (List.mem_cons_of_mem _ hy)) (by simpa using hfuel)]
      rfl

omit [LinearOrder σ] [LinearOrder μ] in
theorem mapM_itemAt {nodes : List (Node σ μ)} {chain : List Nat}
    (hheight : ∀ x ∈ chain, 0 < height nodes x) :
    chain.mapM (itemAt nodes) = some (chain.map (item nodes)) := by
  induction chain with
  | nil => rfl
  | cons x chain ih =>
      obtain ⟨n, hn, hitem⟩ := getElem?_of_height (hheight x (by simp))
      have hrest := ih fun y hy => hheight y (List.mem_cons_of_mem _ hy)
      simp [List.mapM_cons, itemAt, hn, hitem, hrest]

theorem level_zero (h : Layout sl chain) : Path (next sl.nodes 0) 0 chain := by
  have hpath := h.linked 0 (by decide)
  rwa [List.filter_eq_self.mpr fun x hx => by simpa using h.height_pos x hx] at hpath

/-- The walk along level 0 that `iter`, `iter_rev` and `rank_of` make. -/
theorem chainFrom_layout (h : Layout sl chain) :
    (do let first ← forwardAt sl.nodes 0 0
        chainFrom sl.nodes sl.nodes.length first) = some chain := by
  have hhead : 0 < height sl.nodes 0 := by
    rw [h.head_height]
    decide
  have hheight : ∀ y ∈ 0 :: chain, 0 < height sl.nodes y := fun y hy => by
    rcases List.mem_cons.mp hy with rfl | hy
    · exact hhead
    · exact h.height_pos y hy
  rw [forwardAt_eq hhead]
  exact chainFrom_eq (level_zero h) hheight h.length_lt.le

theorem iter_refines (h : sl.Refines l) : sl.iter = some l := by
  obtain ⟨chain, hlayout, rfl⟩ := h
  have hwalk := chainFrom_layout hlayout
  simp only [Option.bind_eq_bind] at hwalk
  simp only [iter, Option.bind_eq_bind]
  rw [← Option.bind_assoc, hwalk, Option.bind_some, mapM_itemAt hlayout.height_pos]

theorem iterRev_refines (h : sl.Refines l) : sl.iterRev = some l.reverse := by
  obtain ⟨chain, hlayout, rfl⟩ := h
  have hwalk := chainFrom_layout hlayout
  simp only [Option.bind_eq_bind] at hwalk
  simp only [iterRev, Option.bind_eq_bind]
  rw [← Option.bind_assoc, hwalk, Option.bind_some, mapM_itemAt, List.map_reverse]
  intro x hx
  exact hlayout.height_pos x (List.mem_reverse.mp hx)

theorem rankFrom_eq {nodes : List (Node σ μ)} {score : σ} {member : μ} {chain : List Nat}
    {x fuel rank : Nat} (hpath : Path (next nodes 0) x chain)
    (hheight : ∀ y ∈ chain, 0 < height nodes y) (hfuel : chain.length ≤ fuel) :
    rankFrom nodes score member fuel rank (next nodes 0 x) =
      some ((rankPair score member (chain.map (item nodes))).map (rank + ·)) := by
  induction chain generalizing x fuel rank with
  | nil =>
      have hnext : next nodes 0 x = none := hpath
      simp [hnext, rankFrom, rankPair, highPairs]
  | cons b chain ih =>
      obtain ⟨fuel, rfl⟩ : ∃ n, fuel = n + 1 := ⟨fuel - 1, by
        rw [List.length_cons] at hfuel
        omega⟩
      have hb := hheight b (by simp)
      obtain ⟨n, hn, hitem⟩ := getElem?_of_height hb
      have hforward : n.forward[0]? = some (next nodes 0 b) := by
        have hcell := forwardAt_eq hb
        simpa [forwardAt, hn] using hcell
      have hkey : keyOf (item nodes b) = toLex (n.score, n.member) := by rw [hitem, keyOf]
      rw [hpath.1, rankFrom]
      simp only [hn, Option.bind_eq_bind, Option.bind_some]
      cases hcmp : keyCmp n.score n.member score member with
      | lt =>
          have hlt : keyOf (item nodes b) < toLex (score, member) := by
            rw [hkey]
            exact keyCmp_lt_iff.mp hcmp
          have hrest := @ih b fuel (rank + 1) hpath.2
            (fun y hy => hheight y (List.mem_cons_of_mem _ hy)) (by simpa using hfuel)
          simp only [hforward, Option.bind_some, hrest]
          rw [rankPair, rankPair, List.map_cons, highPairs, highPairs, lowPairs, lowPairs,
            List.dropWhile_cons_of_pos (by simpa using hlt),
            List.takeWhile_cons_of_pos (by simpa using hlt), List.length_cons]
          split
          · rfl
          · split <;> simp
            omega
      | eq =>
          have heq : item nodes b = (member, score) := by
            rw [← keyOf_inj, hkey]
            exact keyCmp_eq_iff.mp hcmp
          have hnot : ¬keyOf (item nodes b) < toLex (score, member) := by
            rw [heq, keyOf]
            exact lt_irrefl _
          rw [rankPair, List.map_cons, highPairs, lowPairs,
            List.dropWhile_cons_of_neg (by simpa using hnot),
            List.takeWhile_cons_of_neg (by simpa using hnot)]
          simp [heq]
      | gt =>
          have hne : item nodes b ≠ (member, score) := by
            intro heq
            have hkeys : keyOf (item nodes b) = toLex (score, member) := by rw [heq, keyOf]
            rw [hkey, ← keyCmp_eq_iff, hcmp] at hkeys
            cases hkeys
          have hnot : ¬keyOf (item nodes b) < toLex (score, member) := by
            rw [hkey, ← keyCmp_lt_iff, hcmp]
            intro hlt
            cases hlt
          rw [rankPair, List.map_cons, highPairs,
            List.dropWhile_cons_of_neg (by simpa using hnot)]
          simp [hne]

theorem rankOf_refines (h : sl.Refines l) (score : σ) (member : μ) :
    sl.rankOf score member = some (rankPair score member l) := by
  obtain ⟨chain, hlayout, rfl⟩ := h
  have hhead : 0 < height sl.nodes 0 := by
    rw [hlayout.head_height]
    decide
  simp only [rankOf, forwardAt_eq hhead, Option.bind_eq_bind, Option.bind_some]
  rw [rankFrom_eq (level_zero hlayout) hlayout.height_pos hlayout.length_lt.le]
  simp

end SkipList

end Refines

/-! ## The list as a set -/

section Strict

variable [HasNaN σ]

/-- Strictly sorted, and free of NaN scores: such a list is a set of pairs. -/
structure StrictPairs (l : List (μ × σ)) : Prop where
  sorted : l.Pairwise fun p q => keyOf p < keyOf q
  noNaN : ∀ p ∈ l, isNaN p.2 = false

namespace StrictPairs

variable {l : List (μ × σ)} {score : σ} {member : μ}

theorem weak (h : StrictPairs l) : l.Pairwise fun p q => keyOf p ≤ keyOf q :=
  h.sorted.imp le_of_lt

theorem nodup (h : StrictPairs l) : l.Nodup := by
  refine h.sorted.imp fun {p q} hpq heq => ?_
  rw [heq] at hpq
  exact lt_irrefl _ hpq

omit [HasNaN σ] in
theorem mem_split (key : σ ×ₗ μ) {p : μ × σ} :
    p ∈ l ↔ p ∈ lowPairs key l ∨ p ∈ highPairs key l := by
  rw [← List.mem_append, lowPairs_append_highPairs]

/-- The test at the node the search ended at decides membership. -/
theorem present_iff (h : StrictPairs l) (hscore : isNaN score = false) :
    present score member (highPairs (toLex (score, member)) l) = true ↔ (member, score) ∈ l := by
  have hsplit := lowPairs_append_highPairs (toLex (score, member)) l
  have hmem := mem_split (l := l) (toLex (score, member)) (p := (member, score))
  have hlow : (member, score) ∉ lowPairs (toLex (score, member)) l := fun hp =>
    lt_irrefl _ (keyOf_lt_of_mem_lowPairs hp)
  cases hhigh : highPairs (toLex (score, member)) l with
  | nil => simp [present, hmem, hlow, hhigh]
  | cons p rest =>
      have hp : p ∈ l := by
        rw [← hsplit, hhigh]
        simp
      constructor
      · intro hpresent
        simp only [present, feq, Bool.and_eq_true, decide_eq_true_eq] at hpresent
        obtain ⟨⟨-, hs⟩, hm⟩ := hpresent
        rwa [show (member, score) = p from Prod.ext hm.symm hs.symm]
      · intro hin
        have hpair : (member, score) = p := by
          rcases hmem.mp hin with hin | hin
          · exact absurd hin hlow
          · rw [hhigh, List.mem_cons] at hin
            rcases hin with heq | hrest
            · exact heq
            · -- a later pair is larger than the first one, which is not below the key
              have hfirst : p ∈ highPairs (toLex (score, member)) l := by
                rw [hhigh]
                simp
              have hge := le_keyOf_of_mem_highPairs h.weak hfirst
              have hsorted := h.sorted
              rw [← hsplit, hhigh, List.pairwise_append, List.pairwise_cons] at hsorted
              have hlt := hsorted.2.1.1 _ hrest
              exact absurd (hge.trans_lt hlt) (lt_irrefl _)
        rw [← hpair]
        simp [present, feq, hscore]

theorem insertPair_mem (h : StrictPairs l) (hscore : isNaN score = false) {p : μ × σ} :
    p ∈ insertPair score member l ↔ p = (member, score) ∨ p ∈ l := by
  rw [insertPair]
  split
  · rename_i hpresent
    have hin := (h.present_iff hscore).mp hpresent
    constructor
    · exact Or.inr
    · rintro (rfl | hp)
      · exact hin
      · exact hp
  · rw [mem_split (l := l) (toLex (score, member)), List.mem_append, List.mem_cons]
    tauto

theorem insertPair_strict (h : StrictPairs l) (hscore : isNaN score = false) :
    StrictPairs (insertPair score member l) := by
  refine ⟨?_, fun p hp => ?_⟩
  · rw [insertPair]
    split
    · exact h.sorted
    · rename_i hpresent
      have hnot : (member, score) ∉ l := fun hin => hpresent ((h.present_iff hscore).mpr hin)
      have hsorted := h.sorted
      rw [← lowPairs_append_highPairs (toLex (score, member)) l, List.pairwise_append] at hsorted
      obtain ⟨hlow, hhigh, hcross⟩ := hsorted
      rw [List.pairwise_append, List.pairwise_cons]
      refine ⟨hlow, ⟨fun q hq => ?_, hhigh⟩, fun p hp q hq => ?_⟩
      · refine lt_of_le_of_ne (le_keyOf_of_mem_highPairs h.weak hq) fun heq => hnot ?_
        have hpair : (member, score) = q := keyOf_inj.mp heq
        rw [hpair]
        exact (mem_split (toLex (score, member))).mpr (Or.inr hq)
      · rcases List.mem_cons.mp hq with rfl | hq
        · exact keyOf_lt_of_mem_lowPairs hp
        · exact hcross p hp q hq
  · rcases (h.insertPair_mem hscore).mp hp with rfl | hp
    · exact hscore
    · exact h.noNaN p hp

theorem removePair_fst (h : StrictPairs l) (hscore : isNaN score = false) :
    (removePair score member l).1 = true ↔ (member, score) ∈ l := by
  rw [← h.present_iff hscore, removePair]
  split <;> simp_all

theorem removePair_sublist (score : σ) (member : μ) (l : List (μ × σ)) :
    (removePair score member l).2.Sublist l := by
  rw [removePair]
  split
  · conv_rhs => rw [← lowPairs_append_highPairs (toLex (score, member)) l]
    exact (List.Sublist.refl _).append (List.tail_sublist _)
  · exact List.Sublist.refl _

theorem removePair_strict (h : StrictPairs l) (score : σ) (member : μ) :
    StrictPairs (removePair score member l).2 :=
  ⟨h.sorted.sublist (removePair_sublist score member l),
    fun p hp => h.noNaN p ((removePair_sublist score member l).subset hp)⟩

theorem removePair_mem (h : StrictPairs l) (hscore : isNaN score = false) {p : μ × σ} :
    p ∈ (removePair score member l).2 ↔ p ∈ l ∧ p ≠ (member, score) := by
  rw [removePair]
  split
  · rename_i hpresent
    have hsplit := lowPairs_append_highPairs (toLex (score, member)) l
    cases hhigh : highPairs (toLex (score, member)) l with
    | nil => simp [hhigh, present] at hpresent
    | cons q rest =>
        have hq : q = (member, score) := by
          rw [hhigh, present] at hpresent
          simp only [feq, Bool.and_eq_true, decide_eq_true_eq] at hpresent
          exact Prod.ext hpresent.2 hpresent.1.2
        have hnodup := h.nodup
        rw [← hsplit, hhigh, List.nodup_append, List.nodup_cons] at hnodup
        obtain ⟨-, ⟨hrest, -⟩, hdisjoint⟩ := hnodup
        rw [mem_split (l := l) (toLex (score, member)), hhigh, List.tail_cons, List.mem_append,
          List.mem_cons, ← hq]
        constructor
        · rintro (hp | hp)
          · exact ⟨Or.inl hp, fun heq => hdisjoint p hp q (by simp) heq⟩
          · exact ⟨Or.inr (Or.inr hp), fun heq => hrest (heq ▸ hp)⟩
        · rintro ⟨hp | hp | hp, hne⟩
          · exact Or.inl hp
          · exact absurd hp hne
          · exact Or.inr hp
  · rename_i hpresent
    have hnot : (member, score) ∉ l := fun hin => hpresent ((h.present_iff hscore).mpr hin)
    constructor
    · intro hp
      exact ⟨hp, fun heq => hnot (heq ▸ hp)⟩
    · exact And.left

end StrictPairs

end Strict

end MiniRudis
