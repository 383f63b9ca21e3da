import Mathlib.Algebra.BigOperators.Group.List.Basic

/-!
# Sums that stay in range

An accumulator that refuses each summand by which it would leave its range.
-/

namespace MiniRudis.Lib

variable {M : Type} [AddMonoid M] (fits : M → Prop) [DecidablePred fits]

/-- The sum after each summand, `none` where the summand is refused, and the last sum. -/
def accumulate : List M → M → List (Option M) × M
  | [], total => ([], total)
  | x :: xs, total =>
      if fits (total + x) then
        (some (total + x) :: (accumulate xs (total + x)).1, (accumulate xs (total + x)).2)
      else (none :: (accumulate xs total).1, (accumulate xs total).2)

def accepted (xs : List M) (sums : List (Option M)) : List M :=
  ((xs.zip sums).filter fun p => p.2.isSome).map Prod.fst

variable {fits}

theorem accumulate_concat (xs : List M) (x total : M) :
    accumulate fits (xs ++ [x]) total =
      if fits ((accumulate fits xs total).2 + x) then
        ((accumulate fits xs total).1 ++ [some ((accumulate fits xs total).2 + x)],
          (accumulate fits xs total).2 + x)
      else ((accumulate fits xs total).1 ++ [none], (accumulate fits xs total).2) := by
  induction xs generalizing total with
  | nil => rfl
  | cons y xs ih =>
      rw [List.cons_append, accumulate, accumulate]
      split
      · rw [ih]
        split <;> rfl
      · rw [ih]
        split <;> rfl

theorem accumulate_fits (xs : List M) {total : M} (h : fits total) :
    fits (accumulate fits xs total).2 := by
  induction xs generalizing total with
  | nil => exact h
  | cons x xs ih =>
      rw [accumulate]
      split
      · rename_i hfits
        exact ih hfits
      · exact ih h

/-- **No summand gets lost**, apart from those that are refused. -/
theorem accumulate_total (xs : List M) (total : M) :
    (accumulate fits xs total).2 = total + (accepted xs (accumulate fits xs total).1).sum := by
  induction xs generalizing total with
  | nil => exact (add_zero total).symm
  | cons x xs ih =>
      rw [accumulate]
      split
      · calc (accumulate fits xs (total + x)).2
            = total + x + (accepted xs (accumulate fits xs (total + x)).1).sum := ih (total + x)
          _ = total + (x :: accepted xs (accumulate fits xs (total + x)).1).sum := by
              rw [List.sum_cons, add_assoc]
      · exact ih total

end MiniRudis.Lib
