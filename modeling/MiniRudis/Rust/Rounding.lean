import MiniRudis.Rust.Float
import Mathlib.Tactic.Ring

/-!
# Sums of floats

The nearest double to an integer number of units, and when a sum overflows.
-/

namespace MiniRudis

namespace F64

/-! ## Halves to even -/

theorem le_divHalfEven (a b : Nat) : a / b ≤ divHalfEven a b := by
  unfold divHalfEven
  dsimp only
  split
  · exact le_rfl
  · split
    · omega
    · split <;> omega

theorem divHalfEven_le (a b : Nat) : divHalfEven a b ≤ a / b + 1 := by
  unfold divHalfEven
  dsimp only
  split
  · omega
  · split
    · omega
    · split <;> omega

theorem divHalfEven_of_dvd {a b : Nat} (hb : 0 < b) (h : b ∣ a) : divHalfEven a b = a / b := by
  have hrem : 2 * (a % b) < b := by
    rw [Nat.mod_eq_zero_of_dvd h]
    exact hb
  rw [divHalfEven]
  exact if_pos hrem

theorem divHalfEven_lt_iff {bound c : Nat} (hc : 0 < c) (hpos : 0 < bound) (heven : bound % 2 = 0)
    (a : Nat) : divHalfEven a (2 * c) < bound ↔ a < (2 * bound - 1) * c := by
  obtain ⟨top, rfl⟩ : ∃ top, bound = top + 1 := ⟨bound - 1, by omega⟩
  have hsplit := Nat.div_add_mod a (2 * c)
  have hrem := Nat.mod_lt a (by omega : 0 < 2 * c)
  have hbound : (2 * (top + 1) - 1) * c = 2 * c * top + c := by
    have htwice : 2 * (top + 1) - 1 = 2 * top + 1 := by omega
    rw [htwice]
    ring
  rw [hbound]
  -- the quotient lies below the last place, at it, or beyond
  obtain hlt | heq | hgt := Nat.lt_trichotomy (a / (2 * c)) top
  · have hle := divHalfEven_le a (2 * c)
    have hmul := Nat.mul_le_mul_left (2 * c) (Nat.succ_le_of_lt hlt)
    rw [Nat.mul_succ] at hmul
    constructor <;> intro <;> omega
  · have hodd : top % 2 = 1 := by omega
    rw [heq] at hsplit
    rw [divHalfEven, heq]
    rw [if_neg (by omega : ¬ top % 2 = 0)]
    split
    · constructor <;> intro <;> omega
    · constructor
      · split <;> intro <;> omega
      · intro
        omega
  · have hle := le_divHalfEven a (2 * c)
    have hmul := Nat.mul_le_mul_left (2 * c) (Nat.succ_le_of_lt hgt)
    rw [Nat.mul_succ] at hmul
    constructor <;> intro <;> omega

/-! ## Rounding to 53 bits -/

theorem roundUnits_one (m : Nat) :
    roundUnits m 1 = divHalfEven m (2 ^ (m.log2 - 52)) * 2 ^ (m.log2 - 52) := by
  rw [roundUnits, Nat.div_one, Nat.one_mul]

theorem roundUnits_exact {m : Nat} (h : 2 ^ (m.log2 - 52) ∣ m) : roundUnits m 1 = m := by
  rw [roundUnits_one, divHalfEven_of_dvd (Nat.two_pow_pos _) h, Nat.div_mul_cancel h]

theorem lt_two_pow_places (m : Nat) : m < 2 ^ 53 * 2 ^ (m.log2 - 52) := by
  have hlog : m < 2 ^ (m.log2 + 1) := Nat.lt_log2_self
  rw [← Nat.pow_add]
  exact hlog.trans_le (Nat.pow_le_pow_right (by omega) (by omega))

theorem roundUnits_grid (m : Nat) : 2 ^ ((roundUnits m 1).log2 - 52) ∣ roundUnits m 1 := by
  have hquot : m / 2 ^ (m.log2 - 52) < 2 ^ 53 := by
    rw [Nat.div_lt_iff_lt_mul (Nat.two_pow_pos _)]
    exact lt_two_pow_places m
  have hround := divHalfEven_le m (2 ^ (m.log2 - 52))
  rw [roundUnits_one]
  generalize divHalfEven m (2 ^ (m.log2 - 52)) = q at hround
  generalize m.log2 - 52 = shift at hround hquot
  obtain rfl | hpos := Nat.eq_zero_or_pos q
  · rw [Nat.zero_mul]
    exact Nat.dvd_zero _
  obtain hlt | heq := Nat.lt_or_eq_of_le (by omega : q ≤ 2 ^ 53)
  · have hne : q * 2 ^ shift ≠ 0 := Nat.ne_of_gt (Nat.mul_pos hpos (Nat.two_pow_pos _))
    have hlog : (q * 2 ^ shift).log2 < 53 + shift := by
      rw [Nat.log2_lt hne, Nat.pow_add]
      exact Nat.mul_lt_mul_of_pos_right hlt (Nat.two_pow_pos _)
    exact Nat.dvd_trans (Nat.pow_dvd_pow 2 (by omega)) (Nat.dvd_mul_left _ _)
  · -- the rounding has carried into the next place
    rw [heq, ← Nat.pow_add, Nat.log2_two_pow]
    exact Nat.pow_dvd_pow 2 (by omega)

/-- A magnitude overflows from half a place beyond the last one on. -/
theorem roundUnits_lt_iff (m places : Nat) :
    roundUnits m 1 < 2 ^ (places + 54) ↔ m < (2 ^ 54 - 1) * 2 ^ places := by
  have htop : 2 ^ (places + 54) = 2 ^ 54 * 2 ^ places := by rw [Nat.pow_add, Nat.mul_comm]
  have hhalf : 2 ^ (places + 53) = 2 ^ 53 * 2 ^ places := by rw [Nat.pow_add, Nat.mul_comm]
  have hplace := Nat.two_pow_pos places
  obtain hbelow | habove := Nat.lt_or_ge m (2 ^ (places + 53))
  · have hshift : 2 ^ (m.log2 - 52) ≤ 2 ^ places := by
      obtain rfl | hne := eq_or_ne m 0
      · exact hplace
      · have hlog := (Nat.log2_lt hne).mpr hbelow
        exact Nat.pow_le_pow_right (by omega) (by omega)
    have hround := Nat.mul_le_mul_right (2 ^ (m.log2 - 52)) (divHalfEven_le m (2 ^ (m.log2 - 52)))
    rw [← roundUnits_one, Nat.succ_mul] at hround
    have hquot := Nat.div_mul_le_self m (2 ^ (m.log2 - 52))
    constructor <;> intro <;> omega
  obtain hwithin | hbeyond := Nat.lt_or_ge m (2 ^ (places + 54))
  · have hne : m ≠ 0 := by
      have := Nat.two_pow_pos (places + 53)
      omega
    have hlog : m.log2 = places + 53 := by
      have hlow := (Nat.le_log2 hne).mpr habove
      have hhigh := (Nat.log2_lt hne).mpr hwithin
      omega
    have hshift : 2 ^ (m.log2 - 52) = 2 * 2 ^ places := by
      rw [hlog, ← Nat.pow_succ']
      rfl
    have hscale : 2 ^ (places + 54) = 2 ^ 53 * (2 * 2 ^ places) := by
      rw [htop]
      ring
    rw [roundUnits_one, hshift, hscale, Nat.mul_lt_mul_right (by omega)]
    exact divHalfEven_lt_iff hplace (by omega) (by omega) m
  · have hne : m ≠ 0 := by
      have := Nat.two_pow_pos (places + 54)
      omega
    have hlog := (Nat.le_log2 hne).mpr hbeyond
    have hlow : 2 ^ 52 * 2 ^ (m.log2 - 52) ≤ m := by
      rw [← Nat.pow_add, Nat.add_sub_cancel' (by omega)]
      exact Nat.log2_self_le hne
    have hquot := (Nat.le_div_iff_mul_le (Nat.two_pow_pos _)).mpr hlow
    have hround := Nat.mul_le_mul_right (2 ^ (m.log2 - 52))
      (hquot.trans (le_divHalfEven m (2 ^ (m.log2 - 52))))
    rw [← roundUnits_one, ← Nat.pow_add, Nat.add_sub_cancel' (by omega)] at hround
    have hscale := Nat.pow_le_pow_right (n := 2) (by omega) hlog
    constructor <;> intro <;> omega

/-! ## Sums -/

/-- From here on a magnitude rounds to an infinity: half a place beyond the largest double. -/
def overflowUnits : Nat := (2 ^ 54 - 1) * 2 ^ (970 + unitBits)

theorem representable_round_iff (n : Int) (m : Nat) (hn : n.natAbs = roundUnits m 1) :
    Representable n ↔ m < overflowUnits := by
  have hplaces : 1024 + unitBits = 970 + unitBits + 54 := by omega
  rw [Representable, hn, and_iff_left (roundUnits_grid m), hplaces]
  exact roundUnits_lt_iff m (970 + unitBits)

theorem isInfinite_ofUnits (n : Int) : (ofUnits n).isInfinite = false ↔ Representable n := by
  unfold ofUnits
  split
  · rename_i h
    exact iff_of_true rfl h
  · rename_i h
    apply iff_of_false _ h
    split <;> exact Bool.noConfusion

theorem isInfinite_round (n : Int) : (round n 1).isInfinite = false ↔ n.natAbs < overflowUnits := by
  rw [round, isInfinite_ofUnits]
  apply representable_round_iff
  split
  · exact Int.natAbs_neg _
  · rfl

theorem zero_add (a : F64) : zero.add a = a := by
  cases a with
  | nan | negInf | posInf => rfl
  | finite n h =>
      have hadd : zero.add (finite n h) = round (0 + n) 1 := rfl
      rw [hadd, Int.zero_add, round, roundUnits_exact h.2]
      have hn : (if n < 0 then -(n.natAbs : Int) else n.natAbs) = n := by
        split <;> omega
      rw [hn, ofUnits, dif_pos h]

def isFinite (a : F64) : Bool := !isNaN a && !a.isInfinite

theorem isFinite_iff {a : F64} : a.isFinite = true ↔ isNaN a = false ∧ a.isInfinite = false := by
  rw [isFinite, Bool.and_eq_true, Bool.not_eq_true', Bool.not_eq_true']

theorem isInfinite_of_isNaN {a : F64} (h : isNaN a = true) : a.isInfinite = false := by
  cases a with
  | nan | finite _ _ => rfl
  | negInf | posInf => exact absurd h Bool.false_ne_true

/-- The sum is in range: below the overflow, or refused as no number. -/
def Addable : F64 → F64 → Prop
  | finite a _, finite b _ => (a + b).natAbs < overflowUnits
  | nan, _ | _, nan => True
  | negInf, posInf | posInf, negInf => True
  | _, _ => False

theorem isInfinite_add (a b : F64) : (a.add b).isInfinite = false ↔ a.Addable b := by
  cases a <;> cases b
  case finite.finite => exact isInfinite_round _
  all_goals simp [add, isInfinite, Addable]

end F64

end MiniRudis
