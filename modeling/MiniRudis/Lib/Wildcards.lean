import Mathlib.Computability.Language
import Mathlib.Data.List.Forall2

/-!
# Wildcard patterns

A pattern of literals and wildcards denotes a language, the product of what its symbols
take.  The rules tell whether a word is in it from the first symbols of both.
-/

namespace MiniRudis.Lib

variable {α : Type}

inductive Wildcard (α : Type)
  | run
  | any
  | lit (a : α)

namespace Wildcard

/-- The words that a symbol takes: any, those of one letter, or a single one. -/
def takes : Wildcard α → Language α
  | run => ⊤
  | any => Set.range fun a => [a]
  | lit a => {[a]}

def language (pat : List (Wildcard α)) : Language α := (pat.map takes).prod

variable {pat : List (Wildcard α)} {a c : α} {w : List α}

theorem mem_language_iff :
    w ∈ language pat ↔
      ∃ parts : List (List α), w = parts.flatten ∧
        List.Forall₂ (fun symbol part => part ∈ takes symbol) pat parts := by
  induction pat generalizing w with
  | nil =>
      rw [language, List.map_nil, List.prod_nil, Language.mem_one]
      constructor
      · rintro rfl
        exact ⟨[], rfl, .nil⟩
      · rintro ⟨parts, rfl, hparts⟩
        rw [List.forall₂_nil_left_iff.mp hparts]
        rfl
  | cons symbol pat ih =>
      rw [language, List.map_cons, List.prod_cons, Language.mem_mul]
      constructor
      · rintro ⟨part, hpart, rest, hrest, rfl⟩
        obtain ⟨parts, rfl, hparts⟩ := ih.mp hrest
        exact ⟨part :: parts, rfl, .cons hpart hparts⟩
      · rintro ⟨parts, rfl, hparts⟩
        obtain ⟨part, rest, hpart, hrest, rfl⟩ := List.forall₂_cons_left_iff.mp hparts
        exact ⟨part, hpart, rest.flatten, ih.mpr ⟨rest, rfl, hrest⟩, rfl⟩

theorem language_append (pat pat' : List (Wildcard α)) :
    language (pat ++ pat') = language pat * language pat' := by
  rw [language, List.map_append, List.prod_append]
  rfl

theorem language_cons (symbol : Wildcard α) (pat : List (Wildcard α)) :
    language (symbol :: pat) = takes symbol * language pat := by
  rw [language, List.map_cons, List.prod_cons]
  rfl

theorem mem_takes_run (w : List α) : w ∈ takes (.run : Wildcard α) := trivial

theorem run_mul_run : takes .run * takes .run = (takes .run : Language α) := by
  ext w
  rw [Language.mem_mul]
  exact iff_of_true ⟨[], mem_takes_run [], w, mem_takes_run w, rfl⟩ (mem_takes_run w)

theorem language_runs (n : Nat) : language (List.replicate (n + 1) (.run : Wildcard α)) = takes .run := by
  induction n with
  | zero => rw [List.replicate_one, language_cons]; exact mul_one _
  | succ n ih => rw [List.replicate_succ, language_cons, ih, run_mul_run]

/-! ## The first letter -/

theorem nil_mem_language_nil : [] ∈ language ([] : List (Wildcard α)) := rfl

theorem cons_not_mem_language_nil : c :: w ∉ language ([] : List (Wildcard α)) := by
  rw [language, List.map_nil, List.prod_nil, Language.mem_one]
  exact List.cons_ne_nil c w

theorem nil_mem_run : [] ∈ language (.run :: pat) ↔ [] ∈ language pat := by
  rw [language_cons, Language.mem_mul]
  constructor
  · rintro ⟨first, -, rest, hrest, heq⟩
    rwa [(List.append_eq_nil_iff.mp heq).2] at hrest
  · exact fun h => ⟨[], mem_takes_run [], [], h, rfl⟩

theorem cons_mem_run :
    c :: w ∈ language (.run :: pat) ↔ c :: w ∈ language pat ∨ w ∈ language (.run :: pat) := by
  rw [language_cons, Language.mem_mul, Language.mem_mul]
  constructor
  · rintro ⟨first, -, rest, hrest, heq⟩
    cases first with
    | nil => exact Or.inl (heq ▸ hrest)
    | cons x first =>
        obtain ⟨-, rfl⟩ := List.cons.inj heq
        exact Or.inr ⟨first, mem_takes_run first, rest, hrest, rfl⟩
  · rintro (h | ⟨first, -, rest, hrest, rfl⟩)
    · exact ⟨[], mem_takes_run [], c :: w, h, rfl⟩
    · exact ⟨c :: first, mem_takes_run _, rest, hrest, rfl⟩

theorem nil_not_mem_any : [] ∉ language (.any :: pat) := by
  rw [language_cons, Language.mem_mul]
  rintro ⟨first, ⟨x, rfl⟩, rest, -, heq⟩
  exact List.cons_ne_nil x rest heq

theorem cons_mem_any : c :: w ∈ language (.any :: pat) ↔ w ∈ language pat := by
  rw [language_cons, Language.mem_mul]
  constructor
  · rintro ⟨first, ⟨x, rfl⟩, rest, hrest, heq⟩
    obtain ⟨-, rfl⟩ := List.cons.inj heq
    exact hrest
  · exact fun h => ⟨[c], ⟨c, rfl⟩, w, h, rfl⟩

theorem nil_not_mem_lit : [] ∉ language (.lit a :: pat) := by
  rw [language_cons, Language.mem_mul]
  rintro ⟨first, rfl, rest, -, heq⟩
  exact List.cons_ne_nil a rest heq

theorem cons_mem_lit : c :: w ∈ language (.lit a :: pat) ↔ a = c ∧ w ∈ language pat := by
  rw [language_cons, Language.mem_mul]
  constructor
  · rintro ⟨first, rfl, rest, hrest, heq⟩
    obtain ⟨rfl, rfl⟩ := List.cons.inj heq
    exact ⟨rfl, hrest⟩
  · rintro ⟨rfl, h⟩
    exact ⟨[a], rfl, w, h, rfl⟩

end Wildcard

end MiniRudis.Lib
