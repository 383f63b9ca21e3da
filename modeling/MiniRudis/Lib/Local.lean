/-!
# Local operations on a keyed store

A store is seen through a `view` of its entries.  An operation is local at a key
when it reads and writes that entry only; local operations at different keys
commute.
-/

namespace MiniRudis.Lib

variable {S K V α β : Type} (view : S → K → V)

structure LocalAt (a : K) (f : S → α × S) : Prop where
  /-- The reply and the new entry are functions of the old entry. -/
  agree : ∀ s t, view s a = view t a →
    (f s).1 = (f t).1 ∧ view (f s).2 a = view (f t).2 a
  frame : ∀ s b, b ≠ a → view (f s).2 b = view s b

namespace LocalAt

variable {view} {a : K}

theorem congr {f g : S → α × S} (hf : LocalAt view a f) (h : ∀ s, g s = f s) :
    LocalAt view a g := by
  have hfun : g = f := funext h
  rw [hfun]
  exact hf

/-- Local operations at different keys give the same replies and leave the same
entries in either order. -/
theorem comm {b : K} (hne : a ≠ b) {f : S → α × S} {g : S → β × S}
    (hf : LocalAt view a f) (hg : LocalAt view b g) (s : S) :
    (g (f s).2).1 = (g s).1 ∧ (f (g s).2).1 = (f s).1 ∧
      ∀ c, view (g (f s).2).2 c = view (f (g s).2).2 c := by
  have hb := hg.agree (f s).2 s (hf.frame s b hne.symm)
  have ha := hf.agree (g s).2 s (hg.frame s a hne)
  refine ⟨hb.1, ha.1, fun c => ?_⟩
  by_cases hca : c = a
  · subst hca
    rw [hg.frame _ _ hne, ha.2]
  · by_cases hcb : c = b
    · subst hcb
      rw [hb.2, hf.frame _ _ hca]
    · rw [hg.frame _ _ hcb, hf.frame _ _ hca, hf.frame _ _ hca, hg.frame _ _ hcb]

end LocalAt

end MiniRudis.Lib
