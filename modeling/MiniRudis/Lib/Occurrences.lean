import Mathlib.Data.List.Basic
import Mathlib.Data.List.Count

/-!
# Occurrences from either end

The first occurrences of a value in a list, and the last, are told by the number of
occurrences before them and behind them.
-/

namespace MiniRudis.Lib

variable {α : Type}

def dropAt (out : Nat → Bool) (l : List α) : List α :=
  (l.zipIdx.filter fun p => !out p.2).map Prod.fst

theorem dropAt_cons (out : Nat → Bool) (x : α) (l : List α) :
    dropAt out (x :: l) =
      if out 0 then dropAt (fun i => out (i + 1)) l else x :: dropAt (fun i => out (i + 1)) l := by
  have hshift : (((l.zipIdx 1).filter fun p => !out p.2).map Prod.fst) =
      dropAt (fun i => out (i + 1)) l := by
    rw [List.zipIdx_succ, List.filter_map, List.map_map]
    rfl
  rw [dropAt, List.zipIdx_cons, List.filter_cons]
  cases hout : out 0 with
  | true => simpa [hout] using hshift
  | false => simpa [hout] using hshift

section
variable [DecidableEq α] [BEq α] (v : α)

def isFirst (n : Nat) (l : List α) (i : Nat) : Bool :=
  decide (l[i]? = some v ∧ (l.take i).count v < n)

def isLast (n : Nat) (l : List α) (i : Nat) : Bool :=
  decide (l[i]? = some v ∧ (l.drop (i + 1)).count v < n)

def withoutFirst (n : Nat) (l : List α) : List α := dropAt (isFirst v n l) l

def withoutLast (n : Nat) (l : List α) : List α := dropAt (isLast v n l) l

@[simp] theorem withoutFirst_nil (n : Nat) : withoutFirst v n [] = [] := rfl

@[simp] theorem withoutLast_nil (n : Nat) : withoutLast v n [] = [] := rfl

theorem withoutLast_cons (n : Nat) (x : α) (l : List α) :
    withoutLast v n (x :: l) =
      if l.count v < n ∧ x = v then withoutLast v n l else x :: withoutLast v n l := by
  have hhead : isLast v n (x :: l) 0 = decide (l.count v < n ∧ x = v) := by
    simp [isLast, and_comm]
  have htail : (fun i => isLast v n (x :: l) (i + 1)) = isLast v n l := by
    funext i
    rw [isLast, isLast, List.getElem?_cons_succ, List.drop_succ_cons]
  rw [withoutLast, dropAt_cons, hhead, htail]
  simp only [decide_eq_true_eq]
  rfl

variable [LawfulBEq α]

theorem count_cons_of_kept {v x : α} {n : Nat} (h : ¬ (0 < n ∧ x = v)) (l : List α) :
    n = 0 ∨ (x :: l).count v = l.count v := by
  by_cases hx : x = v
  · exact Or.inl (Nat.eq_zero_of_not_pos fun hn => h ⟨hn, hx⟩)
  · exact Or.inr (List.count_cons_of_ne hx)

theorem withoutFirst_cons (n : Nat) (x : α) (l : List α) :
    withoutFirst v n (x :: l) =
      if 0 < n ∧ x = v then withoutFirst v (n - 1) l else x :: withoutFirst v n l := by
  have hhead : isFirst v n (x :: l) 0 = decide (0 < n ∧ x = v) := by
    simp [isFirst, and_comm]
  rw [withoutFirst, dropAt_cons, hhead]
  by_cases hout : 0 < n ∧ x = v
  · have htail : (fun i => isFirst v n (x :: l) (i + 1)) = isFirst v (n - 1) l := by
      funext i
      rw [isFirst, isFirst, hout.2, List.getElem?_cons_succ, List.take_succ_cons,
        List.count_cons_self, decide_eq_decide]
      exact and_congr_right fun _ => by omega
    rw [if_pos (decide_eq_true hout), if_pos hout, htail]
    rfl
  · have htail : (fun i => isFirst v n (x :: l) (i + 1)) = isFirst v n l := by
      funext i
      have hcount := count_cons_of_kept hout (l.take i)
      rw [isFirst, isFirst, List.getElem?_cons_succ, List.take_succ_cons, decide_eq_decide]
      exact and_congr_right fun _ => by omega
    rw [if_neg (by simpa using hout), if_neg hout, htail]
    rfl

theorem withoutFirst_concat (n : Nat) (l : List α) (x : α) :
    withoutFirst v n (l ++ [x]) =
      if l.count v < n ∧ x = v then withoutFirst v n l else withoutFirst v n l ++ [x] := by
  induction l generalizing n with
  | nil => by_cases h : 0 < n ∧ x = v <;> simp [withoutFirst_cons, h]
  | cons y l ih =>
      rw [List.cons_append, withoutFirst_cons, withoutFirst_cons, ih, ih]
      by_cases hy : 0 < n ∧ y = v
      · have hcount : (y :: l).count v < n ↔ l.count v < n - 1 := by
          rw [hy.2, List.count_cons_self]
          omega
        rw [if_pos hy, if_pos hy]
        simp only [hcount]
      · have hcount : (y :: l).count v < n ↔ l.count v < n := by
          have hkept := count_cons_of_kept hy l
          omega
        rw [if_neg hy, if_neg hy]
        simp only [hcount]
        split <;> rfl

theorem count_withoutFirst (n : Nat) (l : List α) (u : α) :
    (withoutFirst v n l).count u + (List.replicate (min n (l.count v)) v).count u = l.count u := by
  induction l generalizing n with
  | nil => simp
  | cons x l ih =>
      rw [withoutFirst_cons]
      by_cases hout : 0 < n ∧ x = v
      · obtain ⟨hpos, rfl⟩ := hout
        have hmin : min n ((x :: l).count x) = min (n - 1) (l.count x) + 1 := by
          rw [List.count_cons_self]
          omega
        have hrest := ih (n - 1)
        rw [if_pos ⟨hpos, rfl⟩, hmin, List.replicate_succ, List.count_cons, List.count_cons]
        omega
      · have hmin : min n ((x :: l).count v) = min n (l.count v) := by
          have hkept := count_cons_of_kept hout l
          omega
        have hrest := ih n
        rw [if_neg hout, hmin, List.count_cons, List.count_cons]
        omega

theorem withoutLast_eq_reverse (n : Nat) (l : List α) :
    withoutLast v n l = (withoutFirst v n l.reverse).reverse := by
  induction l with
  | nil => rfl
  | cons x l ih =>
      rw [withoutLast_cons, List.reverse_cons, withoutFirst_concat, List.count_reverse, ih]
      split
      · rfl
      · rw [List.reverse_append]
        rfl

end

/-! ## Counts with a sign -/

section
variable [BEq α] (v : α)

/-- How many occurrences are out for a count: as many as its magnitude, or all for zero. -/
def selected (c : Int) (l : List α) : Nat :=
  if c = 0 then l.count v else min c.natAbs (l.count v)

theorem selected_reverse (c : Int) (l : List α) : selected v (-c) l.reverse = selected v c l := by
  unfold selected
  rw [Int.natAbs_neg, List.count_reverse]
  simp only [Int.neg_eq_zero]

variable [DecidableEq α]

/-- The first `c` occurrences are out, for a negative `c` the last `-c`, and all for zero. -/
def without (c : Int) (l : List α) : List α :=
  if c = 0 then l.filter (· != v)
  else if 0 < c then withoutFirst v c.natAbs l
  else withoutLast v c.natAbs l

variable [LawfulBEq α]

theorem count_without (c : Int) (l : List α) (u : α) :
    (without v c l).count u + (List.replicate (selected v c l) v).count u = l.count u := by
  unfold without selected
  by_cases hzero : c = 0
  · rw [if_pos hzero, if_pos hzero, List.count_replicate]
    by_cases hu : u = v
    · simp [hu, List.count_eq_zero]
    · have hne : (v == u) = false := by simpa using Ne.symm hu
      rw [hne, List.count_filter (by simpa using hu)]
      simp
  · rw [if_neg hzero, if_neg hzero]
    by_cases hpos : 0 < c
    · rw [if_pos hpos]
      exact count_withoutFirst v _ l u
    · have hreversed := count_withoutFirst v c.natAbs l.reverse u
      rw [List.count_reverse, List.count_reverse] at hreversed
      rw [if_neg hpos, withoutLast_eq_reverse, List.count_reverse]
      exact hreversed

theorem without_reverse (c : Int) (l : List α) :
    without v (-c) l.reverse = (without v c l).reverse := by
  unfold without
  rw [Int.natAbs_neg]
  simp only [Int.neg_eq_zero]
  by_cases hzero : c = 0
  · rw [if_pos hzero, if_pos hzero, List.filter_reverse]
  · rw [if_neg hzero, if_neg hzero]
    by_cases hpos : 0 < c
    · rw [if_pos hpos, if_neg (by omega), withoutLast_eq_reverse, List.reverse_reverse]
    · rw [if_neg hpos, if_pos (by omega), withoutLast_eq_reverse, List.reverse_reverse]

end

end MiniRudis.Lib
