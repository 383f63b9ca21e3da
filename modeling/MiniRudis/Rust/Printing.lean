import MiniRudis.Rust.Rounding
import MiniRudis.Lib.Decimals

/-!
# Printed floats

`format_float` prints 17 places after the point, whatever the magnitude.  Its text tells the
sign and the number rounded to these places, and so it tells two floats apart if one of the
boundaries of rounding lies between them.
-/

namespace MiniRudis

open Lib

namespace F64

theorem divHalfEven_le_iff {b : Nat} (hb : 0 < b) (a k : Nat) :
    divHalfEven a b ≤ k ↔ 2 * a < (2 * k + 1) * b ∨ 2 * a = (2 * k + 1) * b ∧ k % 2 = 0 := by
  have hsplit := Nat.div_add_mod a b
  have hrem := Nat.mod_lt a hb
  have hmiddle : (2 * k + 1) * b = 2 * (b * k) + b := by ring
  rw [hmiddle]
  obtain hlt | heq | hgt := Nat.lt_trichotomy (a / b) k
  · have hle := divHalfEven_le a b
    have hmul := Nat.mul_le_mul_left b (Nat.succ_le_of_lt hlt)
    rw [Nat.mul_succ] at hmul
    exact iff_of_true (by omega) (by omega)
  · rw [heq] at hsplit
    rw [divHalfEven, heq]
    split
    · exact iff_of_true (Nat.le_refl k) (by omega)
    · split
      · exact iff_of_false (by omega) (by omega)
      · split
        · exact iff_of_true (Nat.le_refl k) (by omega)
        · exact iff_of_false (by omega) (by omega)
  · have hle := le_divHalfEven a b
    have hmul := Nat.mul_le_mul_left b (Nat.succ_le_of_lt hgt)
    rw [Nat.mul_succ] at hmul
    exact iff_of_false (by omega) (by omega)

/-- The magnitude of `n` units, in places of `format_float`, rounded. -/
def places17 (n : Int) : Nat := divHalfEven (n.natAbs * 10 ^ 17) (2 ^ unitBits)

theorem fixed17_eq (n : Int) : fixed17 n = fixedPoint 17 (decide (n < 0)) (places17 n) := by
  have htext : ∀ scaled : Nat,
      (if n < 0 then ['-'] else []) ++ Nat.toDigits 10 (scaled / 10 ^ 17) ++
        '.' :: List.replicate (17 - (Nat.toDigits 10 (scaled % 10 ^ 17)).length) '0' ++
          Nat.toDigits 10 (scaled % 10 ^ 17) = fixedPoint 17 (decide (n < 0)) scaled := by
    intro scaled
    rw [fixedPoint, whole, fraction]
    simp only [decide_eq_true_eq, List.append_assoc, List.cons_append]
  exact htext (places17 n)

theorem places17_of_dvd {n : Int} (h : 2 ^ unitBits ∣ n.natAbs) :
    places17 n = n.natAbs / 2 ^ unitBits * 10 ^ 17 := by
  have hpos : 0 < 2 ^ unitBits := Nat.two_pow_pos unitBits
  calc places17 n = n.natAbs * 10 ^ 17 / 2 ^ unitBits := divHalfEven_of_dvd hpos (h.mul_right _)
    _ = n.natAbs / 2 ^ unitBits * 10 ^ 17 := (Nat.div_mul_right_comm h _).symm

theorem decimal_toList (n : Int) : (decimal n).toList = whole (decide (n < 0)) n.natAbs := by
  cases n with
  | ofNat m =>
      have hneg : ¬ Int.ofNat m < 0 := Int.not_lt.mpr (Int.natCast_nonneg m)
      rw [whole, decide_eq_false hneg]
      exact decimal_toList_of_nonneg m
  | negSucc m =>
      rw [whole, decide_eq_true (Int.negSucc_lt_zero m)]
      exact decimal_toList_of_neg m

theorem formatFloat_eq {n : Int} (h : Representable n) :
    (formatFloat (finite n h)).toList = trimmed 17 (decide (n < 0)) (places17 n) := by
  rw [formatFloat]
  split
  · rename_i hsmall
    have hcast : (2 ^ unitBits : Int) = ((2 ^ unitBits : Nat) : Int) := by push_cast; rfl
    have hdvd : (2 ^ unitBits : Int) ∣ n := by
      rw [hcast]
      exact Int.ofNat_dvd_left.mpr hsmall.1
    have hpos : (0 : Int) < 2 ^ unitBits := by
      rw [hcast]
      exact Int.natCast_pos.mpr (Nat.two_pow_pos unitBits)
    have hsign : n / 2 ^ unitBits < 0 ↔ n < 0 := by
      rw [← Int.not_le, ← Int.not_le, Int.ediv_nonneg_iff_of_pos hpos]
    have habs : (n / 2 ^ unitBits).natAbs = n.natAbs / 2 ^ unitBits := by
      rw [Int.natAbs_ediv_of_dvd hdvd, hcast, Int.natAbs_natCast]
    rw [decimal_toList, habs, places17_of_dvd hsmall.1, trimmed_whole]
    congr 1
    exact decide_eq_decide.mpr hsign
  · rw [String.toList_ofList, fixed17_eq]
    rfl

/-! ## Boundaries of rounding -/

/-- `|n|` units lie before the middle between `k` and `k + 1` places, or at the middle where
that is rounded down. -/
def Below (n : Int) (k : Nat) : Prop :=
  2 * (n.natAbs * 10 ^ 17) < (2 * k + 1) * 2 ^ unitBits ∨
    2 * (n.natAbs * 10 ^ 17) = (2 * k + 1) * 2 ^ unitBits ∧ k % 2 = 0

instance (n : Int) (k : Nat) : Decidable (Below n k) := inferInstanceAs (Decidable (_ ∨ _))

theorem places17_le_iff (n : Int) (k : Nat) : places17 n ≤ k ↔ Below n k := by
  rw [places17, Below]
  exact divHalfEven_le_iff (Nat.two_pow_pos unitBits) _ k

theorem places17_eq_iff (m n : Int) : places17 m = places17 n ↔ ∀ k, Below m k ↔ Below n k := by
  simp only [← places17_le_iff]
  constructor
  · intro h k
    rw [h]
  · intro h
    exact Nat.le_antisymm ((h _).mpr (Nat.le_refl _)) ((h _).mp (Nat.le_refl _))

variable {m n : Int} {hm : Representable m} {hn : Representable n}

/-- The text of a finite float is its sign and its magnitude in places. -/
theorem formatFloat_eq_iff :
    formatFloat (finite m hm) = formatFloat (finite n hn) ↔
      (m < 0 ↔ n < 0) ∧ places17 m = places17 n := by
  rw [← String.toList_inj, formatFloat_eq, formatFloat_eq]
  constructor
  · intro h
    obtain ⟨hsign, hplaces⟩ := trimmed_inj (by decide) h
    exact ⟨decide_eq_decide.mp hsign, hplaces⟩
  · intro h
    rw [decide_eq_decide.mpr h.1, h.2]

theorem formatFloat_tells_apart (hm : Representable m) (hn : Representable n) :
    (formatFloat (finite m hm) = formatFloat (finite n hn) → finite m hm = finite n hn) ↔
      m = n ∨ ¬ (m < 0 ↔ n < 0) ∨ ∃ k, ¬ (Below m k ↔ Below n k) := by
  rw [formatFloat_eq_iff, places17_eq_iff, F64.finite.injEq, ← not_forall, ← not_and_or,
    ← imp_iff_or_not]

theorem formatFloat_tells_apart_one :
    ∃ (hm : Representable 1) (hn : Representable (2 ^ unitBits)),
      formatFloat (finite 1 hm) = formatFloat (finite (2 ^ unitBits) hn) →
        finite 1 hm = finite (2 ^ unitBits) hn :=
  ⟨by decide +kernel, by decide +kernel,
    (formatFloat_tells_apart _ _).mpr (.inr (.inr ⟨0, by decide +kernel⟩))⟩

theorem formatFloat_eq_zero_iff :
    formatFloat (finite n hn) = formatFloat zero ↔
      0 ≤ n ∧ 2 * n.natAbs * 10 ^ 17 ≤ 2 ^ unitBits := by
  have hzero : places17 0 = 0 := by
    rw [places17, Int.natAbs_zero, Nat.zero_mul, divHalfEven_of_dvd (Nat.two_pow_pos _)
      (Nat.dvd_zero _), Nat.zero_div]
  have hhalf : places17 n = 0 ↔ 2 * n.natAbs * 10 ^ 17 ≤ 2 ^ unitBits := by
    rw [← Nat.le_zero, places17_le_iff, Below, ← Nat.mul_assoc]
    omega
  rw [zero, formatFloat_eq_iff, hzero, hhalf, Int.not_lt.symm]
  simp only [lt_irrefl, iff_false]

/-- The least positive float prints as `0`. -/
theorem not_formatFloat_injective :
    ¬ ∀ f g : F64, f.isFinite = true → g.isFinite = true → formatFloat f = formatFloat g →
      f = g := by
  intro hclaim
  have hone : Representable 1 := by decide +kernel
  have htext : formatFloat (finite 1 hone) = formatFloat zero :=
    formatFloat_eq_zero_iff.mpr ⟨by decide, by decide +kernel⟩
  have heq := hclaim (finite 1 hone) zero rfl rfl htext
  exact absurd (finite.inj heq) (by decide)

end F64

end MiniRudis
