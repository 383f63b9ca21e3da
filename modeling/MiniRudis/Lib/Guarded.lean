import Mathlib.Data.List.Basic
import Mathlib.Order.Defs.Unbundled

/-!
# Guarded overwrites

A place that is overwritten by one value after another, by each unless a guard keeps
what is there.  Two kinds of guard are told apart by whether the place can come back to
its first value: under a guard that lets values through in one direction only, and
under one that lets all of them through.
-/

namespace MiniRudis.Lib

variable {α : Type}

/-- What is in the place after `new`. -/
def overwrite (skip : Option α → α → Bool) (old : Option α) (new : α) : Option α :=
  if skip old new then old else some new

variable {skip : Option α → α → Bool} {old : Option α} {news : List α}

theorem overwrites_skipped (h : ∀ new ∈ news, skip old new = true) :
    news.foldl (overwrite skip) old = old := by
  induction news with
  | nil => rfl
  | cons new rest ih =>
      rw [List.foldl_cons, overwrite, if_pos (h new List.mem_cons_self)]
      exact ih fun later hlater => h later (List.mem_cons_of_mem _ hlater)

/-! ## Guards with a direction -/

section
variable {P : α → Prop} {R : Option α → Option α → Prop}
variable (hstep : ∀ old new, (∀ v, old = some v → P v) → P new → skip old new = false →
  R old (some new))
include hstep

theorem overwrites_moved (htrans : ∀ a b c, R a b → R b c → R a c) (hold : ∀ v, old = some v → P v)
    (hnews : ∀ new ∈ news, P new) :
    (∀ new ∈ news, skip old new = true) ∨ R old (news.foldl (overwrite skip) old) := by
  induction news generalizing old with
  | nil => exact Or.inl (by simp)
  | cons new rest ih =>
      obtain ⟨hnew, hrest⟩ := List.forall_mem_cons.mp hnews
      rw [List.foldl_cons, overwrite, List.forall_mem_cons]
      cases hskip : skip old new with
      | true =>
          obtain hall | hmoved := ih hold hrest
          · exact Or.inl ⟨rfl, hall⟩
          · exact Or.inr hmoved
      | false =>
          right
          have hfirst := hstep old new hold hnew hskip
          have hsome : ∀ v, some new = some v → P v := by
            intro v hv
            rwa [← Option.some.inj hv]
          rw [if_neg Bool.false_ne_true]
          obtain hall | hmoved := ih hsome hrest
          · rwa [overwrites_skipped hall]
          · exact htrans _ _ _ hfirst hmoved

/-- A value that moves in one direction comes back only if it never moves. -/
theorem overwrites_directed_iff (htrans : ∀ a b c, R a b → R b c → R a c) (hirrefl : ∀ a, ¬ R a a)
    (hold : ∀ v, old = some v → P v) (hnews : ∀ new ∈ news, P new) :
    news.foldl (overwrite skip) old = old ↔ ∀ new ∈ news, skip old new = true := by
  constructor
  · intro hsame
    obtain hall | hmoved := overwrites_moved hstep htrans hold hnews
    · exact hall
    · rw [hsame] at hmoved
      exact absurd hmoved (hirrefl old)
  · exact overwrites_skipped

end

/-! ## Guards that let everything through -/

section
variable (hopen : ∀ v new, skip (some v) new = false) (hfirst : ∀ new, skip old new = false)
include hopen hfirst

theorem overwrites_last : news.foldl (overwrite skip) old = news.getLast?.or old := by
  induction news generalizing old with
  | nil => rfl
  | cons new rest ih =>
      rw [List.foldl_cons, overwrite, hfirst, if_neg Bool.false_ne_true, ih (hopen new),
        List.getLast?_cons]
      cases rest.getLast? <;> rfl

theorem overwrites_open_iff :
    news.foldl (overwrite skip) old = old ↔
      (∀ new ∈ news, skip old new = true) ∨ news.getLast? = old := by
  rw [overwrites_last hopen hfirst]
  cases hlast : news.getLast? with
  | none =>
      rw [List.getLast?_eq_none_iff.mp hlast]
      simp
  | some last =>
      have hskip : ¬ ∀ new ∈ news, skip old new = true := by
        intro hall
        have htrue := hall last (List.mem_of_getLast? hlast)
        rw [hfirst] at htrue
        exact Bool.false_ne_true htrue
      rw [or_iff_right hskip]
      rfl

end

/-! ## Guards that choose between the old value and the new -/

section
variable {P : α → Prop} {op : α → α → α}
variable (hop : ∀ v new, P v → P new → overwrite skip (some v) new = some (op v new))
variable (hkeep : ∀ v new, P v → P new → P (op v new))
include hop hkeep

theorem overwrites_chosen {v : α} (hv : P v) (hnews : ∀ new ∈ news, P new) :
    news.foldl (overwrite skip) (some v) = some (news.foldl op v) := by
  induction news generalizing v with
  | nil => rfl
  | cons new rest ih =>
      obtain ⟨hnew, hrest⟩ := List.forall_mem_cons.mp hnews
      rw [List.foldl_cons, List.foldl_cons, hop v new hv hnew]
      exact ih (hkeep v new hv hnew) hrest

theorem overwrites_chosen_first (hfirst : ∀ new, skip none new = false) {new : α}
    (hnews : ∀ later ∈ new :: news, P later) :
    (new :: news).foldl (overwrite skip) none = some (news.foldl op new) := by
  obtain ⟨hnew, hrest⟩ := List.forall_mem_cons.mp hnews
  rw [List.foldl_cons, overwrite, hfirst, if_neg Bool.false_ne_true]
  exact overwrites_chosen hop hkeep hnew hrest

end

/-! ## Values that are let through -/

/-- No value that is let through is the one that it replaces. -/
def Alters (skip : Option α → α → Bool) : Option α → List α → Prop
  | _, [] => True
  | old, new :: rest =>
      (skip old new = true ∨ old ≠ some new) ∧ Alters skip (overwrite skip old new) rest

theorem alters_of_differ {P : α → Prop}
    (h : ∀ old new, P new → skip old new = false → old ≠ some new) (hnews : ∀ new ∈ news, P new) :
    Alters skip old news := by
  induction news generalizing old with
  | nil => trivial
  | cons new rest ih =>
      obtain ⟨hnew, hrest⟩ := List.forall_mem_cons.mp hnews
      refine ⟨?_, ih hrest⟩
      cases hskip : skip old new with
      | true => exact Or.inl rfl
      | false => exact Or.inr (h old new hnew hskip)

theorem alters_skipped (h : ∀ new ∈ news, skip old new = true) : Alters skip old news := by
  induction news with
  | nil => trivial
  | cons new rest ih =>
      obtain ⟨hnew, hrest⟩ := List.forall_mem_cons.mp h
      refine ⟨Or.inl hnew, ?_⟩
      rw [overwrite, if_pos hnew]
      exact ih hrest

theorem alters_open_iff (hopen : ∀ v new, skip (some v) new = false)
    (hfirst : ∀ new, skip old new = false) :
    Alters skip old news ↔ (old.toList ++ news).IsChain (· ≠ ·) := by
  induction news generalizing old with
  | nil => cases old <;> simp [Alters]
  | cons new rest ih =>
      rw [Alters, overwrite, hfirst, if_neg Bool.false_ne_true, ih (hopen new)]
      cases old with
      | none => simp
      | some v => simp

end MiniRudis.Lib
