/-!
# Normal forms

An operation respects a normal form when it cannot tell apart two states with the
same one, and leaves them with the same one.
-/

namespace MiniRudis.Lib

variable {σ ν α β : Type}

def Respects (n : σ → ν) (f : σ → α × σ) : Prop :=
  ∀ s t, n s = n t → (f s).1 = (f t).1 ∧ n (f s).2 = n (f t).2

namespace Respects

variable {n : σ → ν} {f g : σ → α × σ}

theorem read {r : σ → α} (h : ∀ s t, n s = n t → r s = r t) : Respects n fun s => (r s, s) :=
  fun s t hst => ⟨h s t hst, hst⟩

theorem congr (hf : Respects n f) (heq : ∀ s, g s = f s) : Respects n g := by
  intro s t hst
  rw [heq, heq]
  exact hf s t hst

theorem normal {n : σ → σ} {f : σ → α × σ} (hf : Respects n f) (hidem : ∀ s, n (n s) = n s)
    (s : σ) : (f s).1 = (f (n s)).1 ∧ n (f s).2 = n (f (n s)).2 :=
  hf s (n s) (hidem s).symm

end Respects

theorem foldl_normal {n : σ → ν} {step : σ → β → σ}
    (hstep : ∀ s t b, n s = n t → n (step s b) = n (step t b)) (bs : List β) {s t : σ}
    (hst : n s = n t) : n (bs.foldl step s) = n (bs.foldl step t) := by
  induction bs generalizing s t with
  | nil => exact hst
  | cons b bs ih => exact ih (hstep s t b hst)

end MiniRudis.Lib
