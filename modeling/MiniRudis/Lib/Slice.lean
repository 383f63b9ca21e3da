import Mathlib.Data.List.Basic
import Mathlib.Order.Lattice

/-!
# Slices by signed bounds

A bound below zero counts from the end of the list.  A slice holds the elements at the
positions between its bounds, which may lie outside the list.
-/

namespace MiniRudis.Lib

variable {α : Type}

/-- A bound on a list of `n` elements: `n` is added to a negative one. -/
def signed (n : Nat) (i : Int) : Int := if i < 0 then n + i else i

def position (n : Nat) (i : Int) : Option Nat :=
  if 0 ≤ signed n i ∧ signed n i < n then some (signed n i).toNat else none

def element (i : Int) (l : List α) : Option α := (position l.length i).bind (l[·]?)

/-- The elements at the positions from `lo` to `hi`. -/
def between (lo hi : Int) (l : List α) : List α :=
  (l.zipIdx.filter fun p => decide (lo ≤ p.2 ∧ p.2 ≤ hi)).map Prod.fst

def slice (start stop : Int) (l : List α) : List α :=
  between (signed l.length start) (signed l.length stop) l

theorem position_eq_some {n p : Nat} {i : Int} : position n i = some p ↔ p < n ∧ signed n i = p := by
  unfold position
  split
  · rw [Option.some.injEq]
    omega
  · simp only [reduceCtorEq, false_iff]
    omega

theorem position_eq_none {n : Nat} {i : Int} :
    position n i = none ↔ signed n i < 0 ∨ n ≤ signed n i := by
  unfold position
  split
  · simp only [reduceCtorEq, false_iff]
    omega
  · simp only [true_iff]
    omega

theorem element_eq (i : Int) (l : List α) :
    element i l = if signed l.length i < 0 then none else l[(signed l.length i).toNat]? := by
  unfold element position
  by_cases hneg : signed l.length i < 0
  · rw [if_pos hneg, if_neg (by omega)]
    rfl
  · rw [if_neg hneg]
    split
    · rfl
    · rw [List.getElem?_eq_none (by omega)]
      rfl

theorem element_set {l : List α} {i : Int} {p : Nat} (h : position l.length i = some p) (v : α) :
    element i (l.set p v) = some v := by
  rw [element, List.length_set, h]
  exact List.getElem?_set_self (position_eq_some.mp h).1

theorem element_set_ne {l : List α} {i : Int} {p : Nat} (h : position l.length i ≠ some p) (v : α) :
    element i (l.set p v) = element i l := by
  rw [element, element, List.length_set]
  cases hpos : position l.length i with
  | none => rfl
  | some q =>
      have hne : p ≠ q := fun heq => h (heq ▸ hpos)
      exact List.getElem?_set_ne hne

theorem map_fst_filter_zipIdx (a b k : Nat) (l : List α) :
    ((l.zipIdx k).filter fun p => decide (a ≤ p.2 ∧ p.2 < b)).map Prod.fst =
      (l.drop (a - k)).take (b - max a k) := by
  induction l generalizing k with
  | nil => simp
  | cons x l ih =>
      rw [List.zipIdx_cons, List.filter_cons]
      by_cases hak : a ≤ k
      · have hdrop : a - k = 0 := by omega
        rw [hdrop, List.drop_zero, Nat.max_eq_right hak]
        by_cases hkb : k < b
        · have htake : b - k = b - (k + 1) + 1 := by omega
          have hnext : a - (k + 1) = 0 := by omega
          rw [if_pos (by simpa using ⟨hak, hkb⟩), List.map_cons, ih, htake, hnext, List.drop_zero,
            List.take_succ_cons, Nat.max_eq_right (by omega)]
        · have htake : b - k = 0 := by omega
          rw [if_neg (by simpa using fun _ => Nat.not_lt.mp hkb), ih, htake, List.take_zero]
          simp only [List.take_eq_nil_iff]
          omega
      · have hdrop : a - k = a - (k + 1) + 1 := by omega
        rw [if_neg (by simpa using fun h => absurd h hak), ih, hdrop, List.drop_succ_cons,
          Nat.max_eq_left (by omega), Nat.max_eq_left (by omega)]

theorem between_eq (lo hi : Int) (l : List α) :
    between lo hi l = (l.drop lo.toNat).take ((hi + 1).toNat - lo.toNat) := by
  have hbounds : ∀ p : α × Nat, decide (lo ≤ p.2 ∧ (p.2 : Int) ≤ hi) =
      decide (lo.toNat ≤ p.2 ∧ p.2 < (hi + 1).toNat) := by
    intro p
    rw [decide_eq_decide]
    omega
  rw [between, funext hbounds, map_fst_filter_zipIdx, Nat.sub_zero, Nat.max_eq_left (Nat.zero_le _)]

/-- Where a window ends at the last element, it may as well end at any position
behind it. -/
theorem window_eq_between (lo hi : Int) (l : List α) {s : Nat}
    (hs : min s l.length = min lo.toNat l.length) :
    (if min hi.toNat (l.length - 1) < s then []
      else (l.drop s).take (min hi.toNat (l.length - 1) - s + 1)) = between lo (max hi 0) l := by
  have hend : (max hi 0 + 1).toNat = hi.toNat + 1 := by omega
  rw [between_eq, hend]
  by_cases hpast : l.length ≤ lo.toNat
  · have hskip : l.length ≤ s := by omega
    rw [List.drop_eq_nil_of_le hpast, List.take_nil, List.drop_eq_nil_of_le hskip, List.take_nil]
    split <;> rfl
  · have hsame : s = lo.toNat := by omega
    subst hsame
    split
    · have hnone : hi.toNat + 1 - lo.toNat = 0 := by omega
      rw [hnone, List.take_zero]
    · rw [List.take_eq_take_iff, List.length_drop]
      omega

/-- A window whose end was raised to the first element shows that element where the slice
is empty. -/
theorem between_raised_iff (lo hi : Int) (l : List α) :
    between lo (max hi 0) l = between lo hi l ↔ l = [] ∨ 0 < lo ∨ 0 ≤ hi := by
  by_cases hhi : 0 ≤ hi
  · rw [Int.max_eq_left hhi]
    exact iff_of_true rfl (Or.inr (Or.inr hhi))
  · have hslice : between lo hi l = [] := by
      have hcount : (hi + 1).toNat - lo.toNat = 0 := by omega
      rw [between_eq, hcount, List.take_zero]
    rw [hslice, Int.max_eq_right (by omega), between_eq]
    rw [← List.length_eq_zero_iff, ← List.length_eq_zero_iff, List.length_take, List.length_drop]
    omega

theorem between_map {β : Type} (f : α → β) (lo hi : Int) (l : List α) :
    between lo hi (l.map f) = (between lo hi l).map f := by
  rw [between_eq, between_eq, List.map_take, List.map_drop]

theorem getElem_mem_between {l : List α} (hnodup : l.Nodup) {i : Nat} (hi : i < l.length)
    (lo hi' : Int) : l[i] ∈ between lo hi' l ↔ lo ≤ i ∧ i ≤ hi' := by
  rw [between, List.mem_map]
  constructor
  · rintro ⟨⟨a, j⟩, hmem, ha⟩
    obtain ⟨hzip, hbounds⟩ := List.mem_filter.mp hmem
    obtain ⟨hj, rfl⟩ := List.getElem?_eq_some_iff.mp (List.mk_mem_zipIdx_iff_getElem?.mp hzip)
    have hsame : j = i := (List.getElem_inj hnodup).mp ha
    rw [← hsame]
    simpa using hbounds
  · intro hbounds
    refine ⟨(l[i], i), List.mem_filter.mpr ⟨?_, by simpa using hbounds⟩, rfl⟩
    exact List.mk_mem_zipIdx_iff_getElem?.mpr (List.getElem?_eq_getElem hi)

theorem between_eq_between_iff {l : List α} (hnodup : l.Nodup) (lo hi lo' hi' : Int) :
    between lo hi l = between lo' hi' l ↔
      ∀ i : Nat, i < l.length → (lo ≤ i ∧ i ≤ hi ↔ lo' ≤ i ∧ i ≤ hi') := by
  constructor
  · intro heq i hlt
    rw [← getElem_mem_between hnodup hlt lo hi, heq, getElem_mem_between hnodup hlt]
  · intro hall
    unfold between
    congr 1
    apply List.filter_congr
    intro p hp
    rw [decide_eq_decide]
    exact hall p.2 (by simpa using List.snd_lt_of_mem_zipIdx hp)

theorem filter_index_eq {f : α → Option Nat} {l : List α} (lo hi : Int)
    (h : ∀ p ∈ l.zipIdx, f p.1 = some p.2) :
    l.filter (fun a => (f a).any fun i : Nat => decide (lo ≤ (i : Int) ∧ (i : Int) ≤ hi)) =
      between lo hi l := by
  have hfst : l = l.zipIdx.map Prod.fst := by simp
  conv_lhs => rw [hfst]
  rw [List.filter_map, between]
  congr 1
  apply List.filter_congr
  intro p hp
  rw [Function.comp_apply, h p hp]
  rfl

theorem between_single {l : List α} {i : Nat} {x : α} (hi : l[i]? = some x) :
    between i i l = [x] := by
  obtain ⟨hlt, hget⟩ := List.getElem?_eq_some_iff.mp hi
  have hone : ((i : Int) + 1).toNat - (i : Int).toNat = 1 := by omega
  rw [between_eq, hone, Int.toNat_natCast, List.drop_eq_getElem_cons hlt, hget]
  rfl

theorem length_filter_lt {κ : Type} [LinearOrder κ] {f : α → κ} {l : List α}
    (hsorted : l.Pairwise fun x y => f x < f y) {i : Nat} {x : α} (hi : l[i]? = some x) :
    (l.filter fun y => decide (f y < f x)).length = i := by
  obtain ⟨hlt, hget⟩ := List.getElem?_eq_some_iff.mp hi
  have hsplit : l = l.take i ++ x :: l.drop (i + 1) := by
    rw [← hget, List.getElem_cons_drop, List.take_append_drop]
  have horder := hsorted
  rw [hsplit, List.pairwise_append, List.pairwise_cons] at horder
  obtain ⟨-, ⟨hafter, -⟩, hbefore⟩ := horder
  have hlow : ((l.take i).filter fun y => decide (f y < f x)) = l.take i := by
    rw [List.filter_eq_self]
    exact fun y hy => decide_eq_true (hbefore y hy x List.mem_cons_self)
  have hhigh : ((x :: l.drop (i + 1)).filter fun y => decide (f y < f x)) = [] := by
    rw [List.filter_eq_nil_iff]
    intro y hy
    obtain rfl | hy := List.mem_cons.mp hy
    · simp
    · simpa using le_of_lt (hafter y hy)
  calc (l.filter fun y => decide (f y < f x)).length
      = ((l.take i ++ x :: l.drop (i + 1)).filter fun y => decide (f y < f x)).length := by
        rw [← hsplit]
    _ = (l.take i).length := by rw [List.filter_append, hlow, hhigh, List.append_nil]
    _ = i := List.length_take_of_le (Nat.le_of_lt hlt)

end MiniRudis.Lib
