import Mathlib.Data.List.Basic

/-!
# Counting while updating

`xs.iter().filter(|x| s.update(x)).count()`: a fold over a state that counts the
elements at which a test of the state succeeds.
-/

namespace MiniRudis.Lib

variable {σ ι : Type}

/-- Update `s` at each element, and count those at which `hit` held before. -/
def tally (hit : σ → ι → Bool) (step : σ → ι → σ) : List ι → σ → Nat × σ
  | [], s => (0, s)
  | x :: xs, s =>
      ((tally hit step xs (step s x)).1 + (hit s x).toNat, (tally hit step xs (step s x)).2)

variable {hit : σ → ι → Bool} {step : σ → ι → σ}

theorem tally_stay {s : σ} (hmiss : ∀ x, hit s x = false) (hstay : ∀ x, step s x = s)
    (xs : List ι) : tally hit step xs s = (0, s) := by
  induction xs with
  | nil => rfl
  | cons x xs ih =>
      rw [tally, hstay, ih, hmiss]
      rfl

theorem tally_invariant {P : σ → Prop} (h : ∀ s x, P s → P (step s x)) (xs : List ι) {s : σ}
    (hs : P s) : P (tally hit step xs s).2 := by
  induction xs generalizing s with
  | nil => exact hs
  | cons x xs ih => exact ih (h s x hs)

/-- Nothing is counted exactly if nothing hits at the start, provided that a miss
changes nothing. -/
theorem tally_eq_zero (hmiss : ∀ s x, hit s x = false → step s x = s) (xs : List ι) (s : σ) :
    (tally hit step xs s).1 = 0 ↔ ∀ x ∈ xs, hit s x = false := by
  induction xs with
  | nil => simp [tally]
  | cons x xs ih =>
      rw [tally]
      cases hx : hit s x with
      | true => simp [hx]
      | false => simp [hx, hmiss s x hx, ih]

theorem tally_grows (size : σ → Nat) (h : ∀ s x, size (step s x) = size s + (hit s x).toNat)
    (xs : List ι) (s : σ) : size (tally hit step xs s).2 = size s + (tally hit step xs s).1 := by
  induction xs generalizing s with
  | nil => rfl
  | cons x xs ih =>
      have hfirst := h s x
      rw [tally]
      dsimp only
      rw [ih]
      omega

theorem tally_shrinks (size : σ → Nat) {P : σ → Prop} {xs : List ι}
    (hkeep : ∀ s, ∀ x ∈ xs, P s → P (step s x))
    (h : ∀ s, ∀ x ∈ xs, P s → size (step s x) + (hit s x).toNat = size s) {s : σ} (hs : P s) :
    size (tally hit step xs s).2 + (tally hit step xs s).1 = size s := by
  induction xs generalizing s with
  | nil => rfl
  | cons x xs ih =>
      have hfirst := h s x List.mem_cons_self hs
      have hrest := ih (fun s x hx => hkeep s x (List.mem_cons_of_mem _ hx))
        (fun s x hx => h s x (List.mem_cons_of_mem _ hx)) (hkeep s x List.mem_cons_self hs)
      rw [tally]
      dsimp only
      omega

theorem tally_add {hit₁ hit₂ : σ → ι → Bool} {xs : List ι}
    (h : ∀ s, ∀ x ∈ xs, (hit s x).toNat = (hit₁ s x).toNat + (hit₂ s x).toNat) (s : σ) :
    (tally hit step xs s).1 = (tally hit₁ step xs s).1 + (tally hit₂ step xs s).1 := by
  induction xs generalizing s with
  | nil => rfl
  | cons x xs ih =>
      have hfirst := h s x List.mem_cons_self
      rw [tally, tally, tally]
      dsimp only
      rw [ih fun s x hx => h s x (List.mem_cons_of_mem _ hx)]
      omega

end MiniRudis.Lib
