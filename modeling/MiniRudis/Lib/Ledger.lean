import Mathlib.Algebra.BigOperators.Group.Finset.Basic

/-!
# Ledgers

What several accounts hold together changes by what is put in and what is taken out.  Each
account is a list, and holdings are compared by the copies of each value in them.
-/

namespace MiniRudis.Lib

/-- What a call puts in and what it takes out. -/
structure Flow (α : Type) where
  put : List α
  taken : List α

namespace Flow

variable {α : Type} [BEq α]

def nothing : Flow α := ⟨[], []⟩

def Turns (flow : Flow α) (before after : List α) : Prop :=
  ∀ v, after.count v + flow.taken.count v = before.count v + flow.put.count v

theorem nothing_turns (l : List α) : nothing.Turns l l := fun _ => rfl

def putIn (v : α) (flows : List (Flow α)) : Nat := (flows.flatMap Flow.put).count v

def takenOut (v : α) (flows : List (Flow α)) : Nat := (flows.flatMap Flow.taken).count v

theorem putIn_concat (v : α) (flows : List (Flow α)) (flow : Flow α) :
    putIn v (flows ++ [flow]) = putIn v flows + flow.put.count v := by
  simp [putIn]

theorem takenOut_concat (v : α) (flows : List (Flow α)) (flow : Flow α) :
    takenOut v (flows ++ [flow]) = takenOut v flows + flow.taken.count v := by
  simp [takenOut]

end Flow

theorem sum_entry {K : Type} [DecidableEq K] {keys : Finset K} {f g : K → Nat} {a : K}
    (ha : a ∈ keys) (hothers : ∀ b, b ≠ a → g b = f b) {put taken : Nat}
    (hentry : g a + taken = f a + put) :
    (∑ b ∈ keys, g b) + taken = (∑ b ∈ keys, f b) + put := by
  have hrest : ∑ b ∈ keys.erase a, g b = ∑ b ∈ keys.erase a, f b :=
    Finset.sum_congr rfl fun b hb => hothers b (Finset.ne_of_mem_erase hb)
  have hf := Finset.add_sum_erase keys f ha
  have hg := Finset.add_sum_erase keys g ha
  omega

end MiniRudis.Lib
