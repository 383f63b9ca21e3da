import MiniRudis.Lib.Observe
import Mathlib.Order.Lattice

/-!
# Leases

A lock that is held until it is released or until its deadline.  A claim is granted exactly if
nobody holds the lock at its time.
-/

namespace MiniRudis.Lib

structure Lease (τ β : Type) where
  token : β
  deadline : Option τ
  deriving DecidableEq

inductive LeaseCall (τ β : Type)
  | claim (time : τ) (lease : Lease τ β) (granted : Bool)
  | release

variable {τ β : Type} [LinearOrder τ]

namespace Lease

def Over (lease : Lease τ β) (t : τ) : Prop := ∃ d, lease.deadline = some d ∧ d ≤ t

theorem Over.later {lease : Lease τ β} {t t' : τ} (h : lease.Over t) (hle : t ≤ t') :
    lease.Over t' := by
  obtain ⟨d, hd, hdt⟩ := h
  exact ⟨d, hd, le_trans hdt hle⟩

instance (lease : Lease τ β) (t : τ) : Decidable (lease.Over t) :=
  match h : lease.deadline with
  | none => isFalse fun hover => by
      obtain ⟨d, hd, -⟩ := hover
      exact absurd (h.symm.trans hd) (Option.some_ne_none d).symm
  | some d => decidable_of_iff (d ≤ t) (by simp [Over, h])

/-- The token of the lease that still runs at the time `t`. -/
def holder : Option (Lease τ β) → τ → Option β
  | none, _ => none
  | some lease, t => if lease.Over t then none else some lease.token

theorem holder_eq_none {held : Option (Lease τ β)} {t : τ} :
    holder held t = none ↔ ∀ lease, held = some lease → lease.Over t := by
  cases held with
  | none => simp [holder]
  | some lease =>
      by_cases hover : lease.Over t
      · simp [holder, hover]
      · simp [holder, hover]

end Lease

namespace LeaseCall

open Lease

/-- What a call makes of the lease that is held. -/
def Step : LeaseCall τ β → Option (Lease τ β) → Option (Lease τ β) → Prop
  | claim t lease true, held, next => holder held t = none ∧ next = some lease
  | claim t _ false, held, next => holder held t ≠ none ∧ next = held
  | release, _, next => next = none

def time : LeaseCall τ β → Option τ
  | claim t _ _ => some t
  | release => none

def NotAfter (call call' : LeaseCall τ β) : Prop := ∀ t ∈ call.time, ∀ t' ∈ call'.time, t ≤ t'

variable {calls : List (LeaseCall τ β)} {first held last : Option (Lease τ β)}
  {lease lease' : Lease τ β} {t t' : τ}

theorem over_of_history (h : History Step calls held last) (hkept : release ∉ calls)
    (htimes : ∀ u l granted, claim u l granted ∈ calls → u ≤ t')
    (hheld : held = some lease ∨ lease.Over t') : last = some lease ∨ lease.Over t' := by
  induction h with
  | nil held => exact hheld
  | cons hstep hrest ih =>
      rename_i call rest held next last
      refine ih (fun hmem => hkept (List.mem_cons_of_mem _ hmem))
        (fun u l granted hmem => htimes u l granted (List.mem_cons_of_mem _ hmem)) ?_
      cases call with
      | release => exact absurd List.mem_cons_self hkept
      | claim u l granted =>
          have hu : u ≤ t' := htimes u l granted List.mem_cons_self
          cases granted with
          | false =>
              obtain ⟨-, rfl⟩ := hstep
              exact hheld
          | true =>
              obtain ⟨hfree, rfl⟩ := hstep
              right
              obtain hlease | hover := hheld
              · exact (holder_eq_none.mp hfree lease hlease).later hu
              · exact hover

/-- **Exclusion.**  Of two claims that are granted with no release between them, the second is
made when the lease of the first has ended. -/
theorem exclusive {before between after : List (LeaseCall τ β)}
    (h : History Step (before ++ claim t lease true :: (between ++ claim t' lease' true :: after))
      first last)
    (hclock : (before ++ claim t lease true ::
      (between ++ claim t' lease' true :: after)).Pairwise NotAfter)
    (hkept : release ∉ between) : lease.Over t' := by
  have htimes : ∀ u l granted, claim u l granted ∈ between → u ≤ t' := by
    intro u l granted hmem
    have hrest := (List.pairwise_cons.mp (List.pairwise_append.mp hclock).2.1).2
    have hpair := (List.pairwise_append.mp hrest).2.2 _ hmem _ List.mem_cons_self
    exact hpair u rfl t' rfl
  obtain ⟨_, -, h⟩ := h.split
  cases h with
  | cons hgranted h =>
      obtain ⟨-, rfl⟩ := hgranted
      obtain ⟨held, hbetween, h⟩ := h.split
      cases h with
      | cons hagain h =>
          obtain ⟨hfree, -⟩ := hagain
          obtain hheld | hover := over_of_history hbetween hkept htimes (Or.inl rfl)
          · exact holder_eq_none.mp hfree lease hheld
          · exact hover

end LeaseCall

end MiniRudis.Lib
