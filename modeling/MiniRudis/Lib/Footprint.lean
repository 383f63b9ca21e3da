import Mathlib.Data.List.Basic
import MiniRudis.Lib.Local
import MiniRudis.Lib.Program

/-!
# Footprints

A part of a state is seen through a `view`.  A call sees only the part if its reply and the
part behind it are functions of the part, and it spares the part if it leaves it as it was.
Programs that spare the part can be purged from a run without a trace in the replies of the
others.
-/

namespace MiniRudis.Lib

/-! ## Local operations one after another -/

namespace LocalAt

variable {S K V α β : Type} {view : S → K → V} {a : K}

theorem ofRead (a : K) (r : V → α) : LocalAt view a fun s => (r (view s a), s) where
  agree _ _ h := ⟨congrArg r h, h⟩
  frame _ _ _ := rfl

theorem const (a : K) (r : α) : LocalAt view a fun s => (r, s) := ofRead a fun _ => r

theorem andThen {f : S → α × S} {g : α → S → β × S} (hf : LocalAt view a f)
    (hg : ∀ x, LocalAt view a (g x)) : LocalAt view a fun s => g (f s).1 (f s).2 where
  agree s t h := by
    obtain ⟨hreply, hentry⟩ := hf.agree s t h
    rw [← hreply]
    exact (hg (f s).1).agree _ _ hentry
  frame s b hne := by
    rw [(hg (f s).1).frame _ b hne, hf.frame s b hne]

end LocalAt

/-! ## Programs -/

namespace Program

variable {Op : Type → Type 1} {σ τ α β : Type} (exec : (β : Type) → Op β → σ → β × σ)
  (view : σ → τ)

def SeesOnly (β : Type) (op : Op β) : Prop :=
  ∀ s t, view s = view t →
    (exec β op s).1 = (exec β op t).1 ∧ view (exec β op s).2 = view (exec β op t).2

def Spares (β : Type) (op : Op β) : Prop := ∀ s, view (exec β op s).2 = view s

variable {exec view} {post : (β : Type) → Op β → β → Prop} {Q : α → Prop}

theorem Meets.run_sees (hpost : ∀ β (op : Op β) s, post β op (exec β op s).1) {p : Program Op α}
    (hp : p.Meets (SeesOnly exec view) post Q) {s t : σ} (h : view s = view t) :
    (p.run exec s).1 = (p.run exec t).1 ∧ view (p.run exec s).2 = view (p.run exec t).2 := by
  induction p generalizing s t with
  | ret a => exact ⟨rfl, h⟩
  | call op next ih =>
      obtain ⟨hreply, hview⟩ := hp.1 s t h
      have hrest := ih _ (hp.2 _ (hpost _ op s)) hview
      rw [run_call, run_call, hreply]
      rwa [hreply] at hrest

theorem AllCalls.run_spares {p : Program Op α} {s : σ}
    (hp : p.AllCalls exec (fun β op _ => Spares exec view β op) s) :
    view (p.run exec s).2 = view s := by
  induction p generalizing s with
  | ret a => rfl
  | call op next ih =>
      rw [run_call, ih _ hp.2]
      exact hp.1 s

theorem Meets.allCalls {pre : (β : Type) → Op β → Prop} {P : (β : Type) → Op β → σ → Prop}
    (hpost : ∀ β (op : Op β) s, post β op (exec β op s).1)
    (hpre : ∀ β (op : Op β) s, pre β op → P β op s) {p : Program Op α} (hp : p.Meets pre post Q)
    (s : σ) : p.AllCalls exec P s := by
  induction p generalizing s with
  | ret a => trivial
  | call op next ih => exact ⟨hpre _ op s hp.1, ih _ (hp.2 _ (hpost _ op s)) _⟩

theorem Meets.weaken {pre pre' : (β : Type) → Op β → Prop} (hpre : ∀ β (op : Op β), pre β op → pre' β op)
    {p : Program Op α} (hp : p.Meets pre post Q) : p.Meets pre' post Q := by
  induction p with
  | ret a => exact hp
  | call op next ih => exact ⟨hpre _ op hp.1, fun reply hreply => ih reply (hp.2 reply hreply)⟩

/-! ## Purging a run -/

variable {ε : Type} (exec) (job : ε → Program Op α)

/-- The events of a run with their results, and the state behind them. -/
def trace : List ε → σ → List (ε × α) × σ
  | [], s => ([], s)
  | e :: events, s =>
      ((e, ((job e).run exec s).1) :: (trace events ((job e).run exec s).2).1,
        (trace events ((job e).run exec s).2).2)

/-- **Purge.**  Events after which a state is as related to another as it was can be left out:
the others, which have one result in related states and keep them related, have the same
results as before. -/
theorem trace_purge {R : σ → σ → Prop} {keep : ε → Bool} {events : List ε}
    (hkept : ∀ e ∈ events, keep e = true → ∀ s t, R s t →
      ((job e).run exec s).1 = ((job e).run exec t).1 ∧
        R ((job e).run exec s).2 ((job e).run exec t).2)
    (hpurged : ∀ e ∈ events, keep e = false → ∀ s t, R s t → R ((job e).run exec s).2 t)
    {s t : σ} (h : R s t) :
    (trace exec job events s).1.filter (fun p => keep p.1) =
        (trace exec job (events.filter keep) t).1 ∧
      R (trace exec job events s).2 (trace exec job (events.filter keep) t).2 := by
  induction events generalizing s t with
  | nil => exact ⟨rfl, h⟩
  | cons e events ih =>
      have hrest := fun (s' t' : σ) (h' : R s' t') =>
        ih (fun e' he' => hkept e' (List.mem_cons_of_mem _ he'))
          (fun e' he' => hpurged e' (List.mem_cons_of_mem _ he')) h'
      cases he : keep e with
      | true =>
          obtain ⟨hreply, hstates⟩ := hkept e List.mem_cons_self he s t h
          obtain ⟨htrace, hfinal⟩ := hrest _ _ hstates
          rw [List.filter_cons_of_pos he, trace, trace]
          refine ⟨?_, hfinal⟩
          simp only [List.filter_cons, he, if_true, hreply, htrace]
      | false =>
          have hne : ¬ keep e = true := by rw [he]; exact Bool.false_ne_true
          obtain ⟨htrace, hfinal⟩ := hrest _ _ (hpurged e List.mem_cons_self he s t h)
          rw [List.filter_cons_of_neg hne, trace]
          refine ⟨?_, hfinal⟩
          simp only [List.filter_cons, he, Bool.false_eq_true, if_false, htrace]

end Program

end MiniRudis.Lib
