import Mathlib.Data.List.Basic
import MiniRudis.Lib.Program

/-!
# What is seen of a run

The calls of a run that an observer looks at, each with its reply, in the order in which they
are made, and when they are the history of one sequential object.
-/

namespace MiniRudis.Lib

universe u

variable {Op : Type → Type 1} {σ τ α : Type} {γ : Type u}

/-! ## Observations -/

namespace Program

variable (exec : (β : Type) → Op β → σ → β × σ) (see : (β : Type) → Op β → β → Option γ)

def observe : Program Op α → σ → List γ
  | ret _, _ => []
  | call op next, s =>
      (see _ op (exec _ op s).1).toList ++ (next (exec _ op s).1).observe (exec _ op s).2

variable {exec see}

/-- What each call keeps of what was seen and of the state, the run keeps. -/
theorem Meets.observe_keeps {pre : (β : Type) → Op β → Prop} {post : (β : Type) → Op β → β → Prop}
    {P : (β : Type) → Op β → σ → Prop} {Q : α → Prop} {I : List γ → σ → Prop}
    (hpost : ∀ β (op : Op β) s, post β op (exec β op s).1)
    (hkeeps : ∀ β (op : Op β) s seen, I seen s → pre β op → P β op s →
      I (seen ++ (see β op (exec β op s).1).toList) (exec β op s).2)
    {p : Program Op α} (hp : p.Meets pre post Q) {s : σ} {seen : List γ} (hs : I seen s)
    (hcalls : p.AllCalls exec P s) : I (seen ++ p.observe exec see s) (p.run exec s).2 := by
  induction p generalizing s seen with
  | ret a =>
      rw [observe, List.append_nil]
      exact hs
  | call op next ih =>
      have hnext := hkeeps _ op s seen hs hp.1 hcalls.1
      rw [observe, ← List.append_assoc]
      exact ih _ (hp.2 _ (hpost _ op s)) hnext hcalls.2

end Program

/-! ## Histories -/

/-- The observations are, one after the other, steps of an object from one value to
another. -/
inductive History (step : γ → τ → τ → Prop) : List γ → τ → τ → Prop
  | nil (v : τ) : History step [] v v
  | cons {a : γ} {rest : List γ} {v next last : τ} (hstep : step a v next)
      (hrest : History step rest next last) : History step (a :: rest) v last

namespace History

variable {step : γ → τ → τ → Prop} {v next last : τ}

theorem concat {seen : List γ} {a : γ} (h : History step seen v next) (hstep : step a next last) :
    History step (seen ++ [a]) v last := by
  induction h with
  | nil v => exact .cons hstep (.nil last)
  | cons hfirst _ ih => exact .cons hfirst (ih hstep)

theorem append {seen rest : List γ} (h : History step seen v next) (hrest : History step rest next last) :
    History step (seen ++ rest) v last := by
  induction h with
  | nil v => exact hrest
  | cons hfirst _ ih => exact .cons hfirst (ih hrest)

theorem split {seen rest : List γ} (h : History step (seen ++ rest) v last) :
    ∃ next, History step seen v next ∧ History step rest next last := by
  induction seen generalizing v with
  | nil => exact ⟨v, .nil v, h⟩
  | cons a seen ih =>
      cases h with
      | cons hfirst h =>
          obtain ⟨next, hseen, hrest⟩ := ih h
          exact ⟨next, .cons hfirst hseen, hrest⟩

end History

end MiniRudis.Lib
