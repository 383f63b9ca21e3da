import Mathlib.Order.Defs.PartialOrder
import MiniRudis.Lib.Footprint

/-!
# Simulations between runs of one program

Two states are related, and calls keep them so and reply the same.  Where the relation
grows weaker with time, steps of the right-hand side alone may come in between.
-/

namespace MiniRudis.Lib

def Alike {α σ σ' : Type} (R : σ → σ' → Prop) (x : α × σ) (y : α × σ') : Prop :=
  x.1 = y.1 ∧ R x.2 y.2

namespace Program

variable {Op : Type → Type 1} {σ σ' α β : Type} {exec : (β : Type) → Op β → σ → β × σ}

/-- What the calls of a program keep related, its runs keep related, with one result. -/
theorem Meets.run_alike {pre : (β : Type) → Op β → Prop} {post : (β : Type) → Op β → β → Prop}
    {P : (β : Type) → Op β → σ → Prop} {Q : α → Prop} {R : σ → σ → Prop}
    (hpost : ∀ β (op : Op β) s, post β op (exec β op s).1)
    (hstep : ∀ β (op : Op β) s t, R s t → pre β op → P β op s →
      Alike R (exec β op s) (exec β op t))
    {p : Program Op α} (hp : p.Meets pre post Q) {s t : σ} (h : R s t)
    (hcalls : p.AllCalls exec P s) : Alike R (p.run exec s) (p.run exec t) := by
  induction p generalizing s t with
  | ret a => exact ⟨rfl, h⟩
  | call op next ih =>
      obtain ⟨hreply, hstates⟩ := hstep _ op s t h hp.1 hcalls.1
      have hrest := ih _ (hp.2 _ (hpost _ op s)) hstates hcalls.2
      rw [run_call, run_call, ← hreply]
      exact hrest

theorem allCalls_map {P : (β : Type) → Op β → σ → Prop} (p : Program Op α) (f : α → β) (s : σ) :
    (f <$> p).AllCalls exec P s ↔ p.AllCalls exec P s := by
  induction p generalizing s with
  | ret a => exact Iff.rfl
  | call op next ih => exact and_congr_right fun _ => ih _ _

/-! ## Two machines -/

section
variable {exec' : (β : Type) → Op β → σ' → β × σ'} {R : σ → σ' → Prop}

theorem run_alike_of_exec
    (hexec : ∀ β (op : Op β) s t, R s t → Alike R (exec β op s) (exec' β op t)) (p : Program Op α)
    {s : σ} {t : σ'} (h : R s t) : Alike R (p.run exec s) (p.run exec' t) := by
  induction p generalizing s t with
  | ret a => exact ⟨rfl, h⟩
  | call op next ih =>
      obtain ⟨hreply, hstates⟩ := hexec _ op s t h
      rw [run_call, run_call, ← hreply]
      exact ih _ hstates

theorem trace_alike {ε : Type}
    (hexec : ∀ β (op : Op β) s t, R s t → Alike R (exec β op s) (exec' β op t))
    (job : ε → Program Op α) (events : List ε) {s : σ} {t : σ'} (h : R s t) :
    Alike R (trace exec job events s) (trace exec' job events t) := by
  induction events generalizing s t with
  | nil => exact ⟨rfl, h⟩
  | cons e events ih =>
      obtain ⟨hresult, hstates⟩ := run_alike_of_exec hexec (job e) h
      obtain ⟨hrest, hfinal⟩ := ih hstates
      rw [trace, trace, hresult, hrest]
      exact ⟨rfl, hfinal⟩

end

/-! ## Steps in between -/

variable {ε κ : Type} [Preorder κ]

end Program

end MiniRudis.Lib
