import MiniRudis.Db.Database
import MiniRudis.Lib.Wildcards

/-!
# The patterns of `KEYS`

The matcher decides the language of its pattern, read byte by byte: a star is a run, a
question mark any byte, and every other byte a literal.
-/

namespace MiniRudis

open Lib

def star : UInt8 := 42

def questionMark : UInt8 := 63

def wildcardOf (b : UInt8) : Wildcard UInt8 :=
  if b = star then .run else if b = questionMark then .any else .lit b

def globSymbols (pat : Bytes) : List (Wildcard UInt8) := pat.map wildcardOf

variable {b : UInt8} {pat pat' s : Bytes}

theorem wildcardOf_star : wildcardOf star = .run := if_pos rfl

theorem wildcardOf_questionMark : wildcardOf questionMark = .any := by
  rw [wildcardOf, if_neg (by decide), if_pos rfl]

theorem wildcardOf_lit (hstar : b ≠ star) (hmark : b ≠ questionMark) : wildcardOf b = .lit b := by
  rw [wildcardOf, if_neg hstar, if_neg hmark]

/-- The induction is that of the matcher, on the length of both its arguments. -/
theorem globMatchBytes_iff (pat s : Bytes) :
    globMatchBytes pat s = true ↔ s ∈ Wildcard.language (globSymbols pat) := by
  induction pat, s using globMatchBytes.induct with
  | case1 => rw [globMatchBytes]; exact iff_of_true rfl Wildcard.nil_mem_language_nil
  | case2 c cs =>
      rw [globMatchBytes]
      exact iff_of_false Bool.false_ne_true Wildcard.cons_not_mem_language_nil
  | case3 ps ih =>
      rw [globMatchBytes, if_pos rfl, ih]
      exact Wildcard.nil_mem_run.symm
  | case4 p ps hstar =>
      rw [globMatchBytes, if_neg hstar, globSymbols, List.map_cons]
      by_cases hmark : p = questionMark
      · rw [hmark, wildcardOf_questionMark]
        exact iff_of_false Bool.false_ne_true Wildcard.nil_not_mem_any
      · rw [wildcardOf_lit hstar hmark]
        exact iff_of_false Bool.false_ne_true Wildcard.nil_not_mem_lit
  | case5 ps c cs ih₁ ih₂ =>
      rw [globMatchBytes, if_pos rfl, Bool.or_eq_true, ih₁, ih₂]
      exact Wildcard.cons_mem_run.symm
  | case6 p ps c cs hstar htakes ih =>
      rw [globMatchBytes, if_neg hstar, if_pos htakes, ih, globSymbols, globSymbols, List.map_cons]
      by_cases hmark : p = questionMark
      · rw [hmark, wildcardOf_questionMark]
        exact Wildcard.cons_mem_any.symm
      · have hc : p = c := htakes.resolve_left hmark
        rw [wildcardOf_lit hstar hmark, Wildcard.cons_mem_lit]
        exact (and_iff_right hc).symm
  | case7 p ps c cs hstar htakes =>
      rw [not_or] at htakes
      rw [globMatchBytes, if_neg hstar, if_neg (not_or.mpr htakes), globSymbols, List.map_cons,
        wildcardOf_lit hstar htakes.1, Wildcard.cons_mem_lit]
      exact iff_of_false Bool.false_ne_true fun h => htakes.2 h.1

/-! ## Patterns put together -/

theorem globSymbols_append (pat pat' : Bytes) :
    globSymbols (pat ++ pat') = globSymbols pat ++ globSymbols pat' := List.map_append

theorem globMatchBytes_append :
    globMatchBytes (pat ++ pat') s = true ↔
      ∃ a b, s = a ++ b ∧ globMatchBytes pat a = true ∧ globMatchBytes pat' b = true := by
  rw [globMatchBytes_iff, globSymbols_append, Wildcard.language_append, Language.mem_mul]
  simp only [globMatchBytes_iff]
  constructor
  · rintro ⟨a, ha, b, hb, rfl⟩
    exact ⟨a, b, rfl, ha, hb⟩
  · rintro ⟨a, b, rfl, ha, hb⟩
    exact ⟨a, ha, b, hb, rfl⟩

theorem language_stars (n : Nat) :
    Wildcard.language (globSymbols (.replicate (n + 1) star)) = Wildcard.takes .run := by
  rw [globSymbols, List.map_replicate, wildcardOf_star, Wildcard.language_runs]

theorem globMatchBytes_stars (n : Nat) :
    globMatchBytes (pat ++ .replicate (n + 1) star ++ pat') s =
      globMatchBytes (pat ++ [star] ++ pat') s := by
  rw [Bool.eq_iff_iff, globMatchBytes_iff, globMatchBytes_iff]
  simp only [globSymbols_append, Wildcard.language_append]
  rw [language_stars, ← List.replicate_one, language_stars 0]

theorem globMatchBytes_star (s : Bytes) : globMatchBytes [star] s = true := by
  rw [globMatchBytes_iff, ← List.replicate_one, language_stars 0]
  exact Wildcard.mem_takes_run s

/-! ## Patterns and keys -/

/-- What one byte of a pattern takes of the key. -/
def GlobPart (p : UInt8) (part : Bytes) : Prop :=
  if p = star then True else if p = questionMark then part.length = 1 else part = [p]

theorem globPart_iff (p : UInt8) (part : Bytes) :
    part ∈ Wildcard.takes (wildcardOf p) ↔ GlobPart p part := by
  rw [wildcardOf, GlobPart]
  by_cases hstar : p = star
  · rw [if_pos hstar, if_pos hstar]
    exact iff_of_true (Wildcard.mem_takes_run part) trivial
  rw [if_neg hstar, if_neg hstar]
  by_cases hmark : p = questionMark
  · rw [if_pos hmark, if_pos hmark, List.length_eq_one_iff]
    exact exists_congr fun a => eq_comm
  · rw [if_neg hmark, if_neg hmark]
    rfl

theorem globMatch_iff (pattern s : String) :
    globMatch pattern s = true ↔
      ∃ parts : List Bytes, asBytes s = parts.flatten ∧
        List.Forall₂ GlobPart (asBytes pattern) parts := by
  rw [globMatch, globMatchBytes_iff, Wildcard.mem_language_iff]
  simp only [globSymbols, List.forall₂_map_left_iff, globPart_iff]

def stars (n : Nat) : String := .ofList (.replicate n '*')

theorem asBytes_stars (n : Nat) : asBytes (stars n) = .replicate n star := by
  rw [stars, asBytes_eq, String.toList_ofList]
  induction n with
  | zero => rfl
  | succ n ih => rw [List.replicate_succ, List.flatMap_cons, ih]; rfl

theorem globMatch_star (s : String) : globMatch "*" s = true := by
  have hstar : asBytes "*" = [star] := by decide
  rw [globMatch, hstar]
  exact globMatchBytes_star (asBytes s)

theorem glob_law :
    (∀ pattern s : String, globMatch pattern s = true ↔
      ∃ parts : List Bytes, asBytes s = parts.flatten ∧
        List.Forall₂ GlobPart (asBytes pattern) parts) ∧
    (∀ (p q s : String) (n : Nat),
      globMatch (p ++ stars (n + 1) ++ q) s = globMatch (p ++ "*" ++ q) s) ∧
    (∀ s : String, globMatch "*" s = true) ∧
    ∀ p q s : String, globMatch (p ++ q) s = true ↔
      ∃ a b : Bytes, asBytes s = a ++ b ∧
        globMatchBytes (asBytes p) a = true ∧ globMatchBytes (asBytes q) b = true := by
  have hstar : asBytes "*" = [star] := by decide
  refine ⟨globMatch_iff, fun p q s n => ?_, globMatch_star, fun p q s => ?_⟩
  · simp only [globMatch, asBytes_append, asBytes_stars, hstar]
    exact globMatchBytes_stars n
  · rw [globMatch, asBytes_append]
    exact globMatchBytes_append

end MiniRudis
