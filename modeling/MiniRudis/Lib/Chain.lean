import Mathlib.Data.List.Basic
import Mathlib.Data.List.Pairwise

/-!
# Chains of forward pointers

A singly linked list is a successor function `next` together with the list of
cells that following it from a start cell visits.  The lemmas below say how
that list changes when one cell is spliced in or unlinked.  They mention no
arena and no payload, so every level of a multi-level list can use them.
-/

namespace MiniRudis.Lib

variable {ι : Type*}

/-- Following `next` from `a` visits exactly the cells of `l`, in order, and
then stops. -/
def Path (next : ι → Option ι) : ι → List ι → Prop
  | a, [] => next a = none
  | a, b :: l => next a = some b ∧ Path next b l

namespace Path

variable {next next' : ι → Option ι} {a new : ι} {l l₁ l₂ : List ι}

@[simp] theorem nil_iff : Path next a [] ↔ next a = none := Iff.rfl

@[simp] theorem cons_iff {b : ι} :
    Path next a (b :: l) ↔ next a = some b ∧ Path next b l := Iff.rfl

theorem head_eq (h : Path next a l) : next a = l.head? := by
  cases l with
  | nil => exact h
  | cons b l => exact h.1

theorem drop (h : Path next a (l₁ ++ l₂)) : Path next (l₁.getLastD a) l₂ := by
  induction l₁ generalizing a with
  | nil => exact h
  | cons b l₁ ih =>
      rw [List.getLastD_cons]
      exact ih h.2

theorem congr (hsame : ∀ x ∈ a :: l, next' x = next x) (h : Path next a l) :
    Path next' a l := by
  induction l generalizing a with
  | nil =>
      rw [nil_iff, hsame a (by simp)]
      exact h
  | cons b l ih =>
      refine ⟨?_, ih (fun x hx => hsame x (by simp [List.mem_cons.mp hx])) h.2⟩
      rw [hsame a (by simp)]
      exact h.1

theorem of_next_eq {b : ι} (hnext : next' b = next a) (h : Path next a l)
    (hsame : ∀ x ∈ l, next' x = next x) : Path next' b l := by
  cases l with
  | nil =>
      rw [nil_iff, hnext]
      exact h
  | cons c l =>
      refine ⟨hnext.trans h.1, h.2.congr ?_⟩
      exact hsame

theorem head_ne_getLastD {b : ι} (hnodup : (a :: b :: l).Nodup) :
    a ≠ l.getLastD b := by
  intro heq
  apply (List.nodup_cons.mp hnodup).1
  rw [heq]
  exact List.getLastD_mem_cons

/-- A chain is redirected at the last cell of a prefix. -/
theorem redirect {l₂' : List ι} (h : Path next a (l₁ ++ l₂)) (hnodup : (a :: (l₁ ++ l₂)).Nodup)
    (htail : Path next' (l₁.getLastD a) l₂')
    (hsame : ∀ x ∈ a :: l₁, x ≠ l₁.getLastD a → next' x = next x) :
    Path next' a (l₁ ++ l₂') := by
  induction l₁ generalizing a with
  | nil => exact htail
  | cons b l₁ ih =>
      simp only [List.getLastD_cons] at htail hsame
      have hnodup' := (List.nodup_cons.mp hnodup).2
      refine ⟨?_, ih h.2 hnodup' htail fun x hx => ?_⟩
      · have hprefix : (a :: b :: l₁).Nodup :=
          hnodup.sublist (List.sublist_append_left (a :: b :: l₁) _)
        rw [hsame a (by simp) (head_ne_getLastD hprefix)]
        exact h.1
      · exact hsame x (List.mem_cons_of_mem _ hx)

theorem ne_getLastD (hnodup : (a :: (l₁ ++ l₂)).Nodup) {x : ι} (hx : x ∈ l₂) :
    x ≠ l₁.getLastD a := by
  rw [← List.cons_append, List.nodup_append] at hnodup
  exact (hnodup.2.2 _ List.getLastD_mem_cons x hx).symm

/-- Splicing a fresh cell in after the last cell of a prefix. -/
theorem splice (h : Path next a (l₁ ++ l₂)) (hnodup : (a :: (l₁ ++ l₂)).Nodup)
    (hpred : next' (l₁.getLastD a) = some new)
    (hnew : next' new = next (l₁.getLastD a))
    (hsame : ∀ x ∈ a :: (l₁ ++ l₂), x ≠ l₁.getLastD a → next' x = next x) :
    Path next' a (l₁ ++ new :: l₂) := by
  have hkept : ∀ x ∈ a :: l₁, x ∈ a :: (l₁ ++ l₂) := by
    rw [← List.cons_append]
    exact fun x hx => List.mem_append_left _ hx
  apply h.redirect hnodup _ fun x hx => hsame x (hkept x hx)
  refine ⟨hpred, of_next_eq hnew h.drop fun x hx => ?_⟩
  exact hsame x (by simp [hx]) (ne_getLastD hnodup hx)

/-- Unlinking the cell after the last cell of a prefix. -/
theorem unlink {t : ι} (h : Path next a (l₁ ++ t :: l₂))
    (hnodup : (a :: (l₁ ++ t :: l₂)).Nodup)
    (hpred : next' (l₁.getLastD a) = next t)
    (hsame : ∀ x ∈ a :: (l₁ ++ l₂), x ≠ l₁.getLastD a → next' x = next x) :
    Path next' a (l₁ ++ l₂) := by
  have hkept : ∀ x ∈ a :: l₁, x ∈ a :: (l₁ ++ l₂) := by
    rw [← List.cons_append]
    exact fun x hx => List.mem_append_left _ hx
  apply h.redirect hnodup _ fun x hx => hsame x (hkept x hx)
  refine of_next_eq hpred h.drop.2 fun x hx => ?_
  exact hsame x (by simp [hx]) (ne_getLastD hnodup (List.mem_cons_of_mem t hx))

end Path

theorem getLastD_append (l₁ l₂ : List ι) (a : ι) :
    (l₁ ++ l₂).getLastD a = l₂.getLastD (l₁.getLastD a) := by
  induction l₁ generalizing a with
  | nil => rfl
  | cons b l₁ ih => rw [List.cons_append, List.getLastD_cons, List.getLastD_cons, ih]

theorem exists_prefix_getLastD {a b : ι} {l : List ι} (hb : b ∈ a :: l) :
    ∃ l₁ l₂, l = l₁ ++ l₂ ∧ l₁.getLastD a = b := by
  rcases List.mem_cons.mp hb with rfl | hb
  · exact ⟨[], l, rfl, rfl⟩
  · obtain ⟨l₁, l₂, rfl⟩ := List.append_of_mem hb
    exact ⟨l₁ ++ [b], l₂, by simp, by rw [List.getLastD_concat]⟩

/-! ## Cutting a sorted list at a predicate -/

theorem not_of_mem_dropWhile {α : Type*} {p : α → Bool} {l : List α}
    (hmono : l.Pairwise fun x y => p y = true → p x = true) {y : α}
    (hy : y ∈ l.dropWhile p) : p y = false := by
  induction l with
  | nil => simp at hy
  | cons x l ih =>
      rw [List.pairwise_cons] at hmono
      cases hx : p x with
      | true =>
          rw [List.dropWhile_cons_of_pos hx] at hy
          exact ih hmono.2 hy
      | false =>
          rw [List.dropWhile_cons_of_neg (by simp [hx])] at hy
          rcases List.mem_cons.mp hy with rfl | hy
          · exact hx
          · cases hpy : p y with
            | false => rfl
            | true => simp [hmono.1 y hy hpy] at hx

end MiniRudis.Lib
