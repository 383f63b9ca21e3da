/-!
# Programs of calls

A program computes a result from the replies to the calls it makes of some
machine.  What one call does to the machine's state says what a run does.
-/

namespace MiniRudis.Lib

inductive Program (Op : Type → Type 1) (α : Type) : Type 1
  | ret (a : α)
  | call {β : Type} (op : Op β) (next : β → Program Op α)

namespace Program

variable {Op : Type → Type 1} {σ α β γ : Type}

def bind : Program Op α → (α → Program Op β) → Program Op β
  | ret a, f => f a
  | call op next, f => call op fun reply => (next reply).bind f

instance : Monad (Program Op) where
  pure := ret
  bind := bind

def lift (op : Op α) : Program Op α := call op ret

@[simp] theorem pure_eq (a : α) : (pure a : Program Op α) = ret a := rfl

@[simp] theorem ret_bind (a : α) (f : α → Program Op β) : (ret a >>= f) = f a := rfl

@[simp] theorem call_bind (op : Op γ) (next : γ → Program Op α) (f : α → Program Op β) :
    (call op next >>= f) = call op fun reply => next reply >>= f := rfl

@[simp] theorem map_ret (a : α) (f : α → β) : f <$> (ret a : Program Op α) = ret (f a) := rfl

@[simp] theorem map_call (op : Op γ) (next : γ → Program Op α) (f : α → β) :
    f <$> call op next = call op fun reply => f <$> next reply := rfl

/-! ## Runs -/

variable (exec : (β : Type) → Op β → σ → β × σ)

def run : Program Op α → σ → α × σ
  | ret a, s => (a, s)
  | call op next, s => (next (exec _ op s).1).run (exec _ op s).2

@[simp] theorem run_ret (a : α) (s : σ) : (ret a : Program Op α).run exec s = (a, s) := rfl

@[simp] theorem run_call (op : Op β) (next : β → Program Op α) (s : σ) :
    (call op next).run exec s = (next (exec _ op s).1).run exec (exec _ op s).2 := rfl

theorem run_bind (p : Program Op α) (f : α → Program Op β) (s : σ) :
    (p >>= f).run exec s = (f (p.run exec s).1).run exec (p.run exec s).2 := by
  induction p generalizing s with
  | ret a => rfl
  | call op next ih => exact ih (exec _ op s).1 (exec _ op s).2

theorem run_map (p : Program Op α) (f : α → β) (s : σ) :
    (f <$> p).run exec s = (f (p.run exec s).1, (p.run exec s).2) :=
  p.run_bind exec (fun a => ret (f a)) s

/-- Each call of the run from `s` satisfies `P` in the state in which it is made. -/
def AllCalls (P : (β : Type) → Op β → σ → Prop) : Program Op α → σ → Prop
  | ret _, _ => True
  | call op next, s => P _ op s ∧ (next (exec _ op s).1).AllCalls P (exec _ op s).2

/-! ## What a program calls and returns -/

/-- Whatever replies it gets that satisfy `post`, the program makes only calls that
satisfy `pre`, and its result satisfies `Q`. -/
def Meets (pre : (β : Type) → Op β → Prop) (post : (β : Type) → Op β → β → Prop)
    (Q : α → Prop) : Program Op α → Prop
  | ret a => Q a
  | call op next => pre _ op ∧ ∀ reply, post _ op reply → (next reply).Meets pre post Q

variable {pre : (β : Type) → Op β → Prop} {post : (β : Type) → Op β → β → Prop}
  {Q : α → Prop} {R : β → Prop}

namespace Meets

theorem ret {a : α} (h : Q a) : (Program.ret a : Program Op α).Meets pre post Q := h

theorem call {op : Op γ} {next : γ → Program Op α} (hop : pre _ op)
    (hnext : ∀ reply, post _ op reply → (next reply).Meets pre post Q) :
    (Program.call op next).Meets pre post Q := ⟨hop, hnext⟩

theorem bind {p : Program Op α} {f : α → Program Op β} (hp : p.Meets pre post Q)
    (hf : ∀ a, Q a → (f a).Meets pre post R) : (p >>= f).Meets pre post R := by
  induction p with
  | ret a => exact hf a hp
  | call op next ih => exact ⟨hp.1, fun reply hreply => ih reply (hp.2 reply hreply)⟩

theorem map {p : Program Op α} {f : α → β} (hp : p.Meets pre post Q) (hf : ∀ a, Q a → R (f a)) :
    (f <$> p).Meets pre post R :=
  hp.bind fun a ha => .ret (hf a ha)

theorem mono {Q' : α → Prop} {p : Program Op α} (hp : p.Meets pre post Q)
    (h : ∀ a, Q a → Q' a) : p.Meets pre post Q' := by
  induction p with
  | ret a => exact h a hp
  | call op next ih => exact ⟨hp.1, fun reply hreply => ih reply (hp.2 reply hreply)⟩

variable {exec : (β : Type) → Op β → σ → β × σ}

theorem result (hpost : ∀ β (op : Op β) s, post β op (exec β op s).1) {p : Program Op α}
    (hp : p.Meets pre post Q) (s : σ) : Q (p.run exec s).1 := by
  induction p generalizing s with
  | ret a => exact hp
  | call op next ih => exact ih _ (hp.2 _ (hpost _ op s)) _

/-- What every call keeps that the program makes, its run keeps. -/
theorem keeps {P : (β : Type) → Op β → σ → Prop} {I : σ → Prop}
    (hpost : ∀ β (op : Op β) s, post β op (exec β op s).1)
    (hkeeps : ∀ β (op : Op β) s, I s → pre β op → P β op s → I (exec β op s).2)
    {p : Program Op α} (hp : p.Meets pre post Q) {s : σ} (hs : I s)
    (hcalls : p.AllCalls exec P s) : I (p.run exec s).2 := by
  induction p generalizing s with
  | ret a => exact hs
  | call op next ih =>
      exact ih _ (hp.2 _ (hpost _ op s)) (hkeeps _ op s hs hp.1 hcalls.1) hcalls.2

end Meets

end Program

end MiniRudis.Lib
