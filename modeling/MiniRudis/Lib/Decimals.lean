import Mathlib.Algebra.Group.Nat.Defs
import Mathlib.Data.List.DropRight

/-!
# Decimal texts

A number of so many decimal places as a text, with its zeros at the end and then its point
taken off.  The text still tells the number.
-/

namespace MiniRudis.Lib

/-! ## Lists that are trimmed at the end -/

variable {α : Type} {p : α → Bool}

theorem rdropWhile_inj {c : α} (hp : ∀ x, p x = true → x = c) {l l' : List α}
    (hlen : l.length = l'.length) (h : l.rdropWhile p = l'.rdropWhile p) : l = l' := by
  have htail : ∀ l : List α, l.rtakeWhile p = .replicate (l.rtakeWhile p).length c := fun l =>
    List.eq_replicate_of_mem fun x hx => hp x (List.mem_rtakeWhile_imp hx)
  have hsplit : ∀ l : List α, l.rdropWhile p ++ l.rtakeWhile p = l := fun l =>
    List.rdropWhile_append_rtakeWhile
  have hcount : (l.rtakeWhile p).length = (l'.rtakeWhile p).length := by
    have hl := congrArg List.length (hsplit l)
    have hl' := congrArg List.length (hsplit l')
    rw [List.length_append] at hl hl'
    rw [h] at hl
    omega
  calc l = l.rdropWhile p ++ l.rtakeWhile p := (hsplit l).symm
    _ = l'.rdropWhile p ++ l'.rtakeWhile p := by rw [h, htail l, htail l', hcount]
    _ = l' := hsplit l'

theorem rdropWhile_append_cons {x : α} (hx : ¬ p x) (l l' : List α) :
    (l ++ x :: l').rdropWhile p = l ++ x :: l'.rdropWhile p := by
  induction l' using List.reverseRecOn with
  | nil => rw [List.rdropWhile_concat_neg p l x hx, List.rdropWhile_nil]
  | append_singleton l' y ih =>
      rw [← List.cons_append, ← List.append_assoc]
      by_cases hy : p y
      · rw [List.rdropWhile_concat_pos p _ y hy, List.rdropWhile_concat_pos p _ y hy, ih]
      · rw [List.rdropWhile_concat_neg p _ y hy, List.rdropWhile_concat_neg p _ y hy]
        simp

/-! ## Fixed-point numbers -/

def whole (neg : Bool) (q : Nat) : List Char :=
  (if neg then ['-'] else []) ++ Nat.toDigits 10 q

def fraction (places r : Nat) : List Char :=
  List.replicate (places - (Nat.toDigits 10 r).length) '0' ++ Nat.toDigits 10 r

/-- The number `scaled / 10 ^ places`. -/
def fixedPoint (places : Nat) (neg : Bool) (scaled : Nat) : List Char :=
  whole neg (scaled / 10 ^ places) ++ '.' :: fraction places (scaled % 10 ^ places)

def trimmed (places : Nat) (neg : Bool) (scaled : Nat) : List Char :=
  ((fixedPoint places neg scaled).rdropWhile (· == '0')).rdropWhile (· == '.')

variable {places : Nat} {neg neg' : Bool} {q q' r r' scaled scaled' : Nat}

theorem isDigit_of_mem_toDigits {c : Char} (h : c ∈ Nat.toDigits 10 q) : c.isDigit = true :=
  Nat.isDigit_of_mem_toDigits (by decide) (by decide) h

theorem toDigits_inj (h : Nat.toDigits 10 q = Nat.toDigits 10 q') : q = q' := by
  have hvalue := congrArg (fun ds => Nat.ofDigitChars 10 ds 0) h
  simpa only [Nat.ofDigitChars_ten_toDigits] using hvalue

theorem point_not_mem_whole : '.' ∉ whole neg q := by
  rw [whole, List.mem_append, not_or]
  constructor
  · cases neg <;> simp
  · exact fun h => absurd (isDigit_of_mem_toDigits h) (by decide)

/-- A sign is no digit. -/
theorem whole_inj (h : whole neg q = whole neg' q') : neg = neg' ∧ q = q' := by
  have hminus : ∀ q rest, Nat.toDigits 10 q ≠ '-' :: rest := by
    intro q rest hdigits
    have hmem : '-' ∈ Nat.toDigits 10 q := by
      rw [hdigits]
      exact List.mem_cons_self
    exact absurd (isDigit_of_mem_toDigits hmem) (by decide)
  unfold whole at h
  cases neg with
  | false =>
      cases neg' with
      | false => exact ⟨rfl, toDigits_inj h⟩
      | true => exact absurd h (hminus q _)
  | true =>
      cases neg' with
      | false => exact absurd h.symm (hminus q' _)
      | true => exact ⟨rfl, toDigits_inj (List.cons.inj h).2⟩

theorem length_fraction (hplaces : 0 < places) (hr : r < 10 ^ places) :
    (fraction places r).length = places := by
  have hle := (Nat.length_toDigits_le_iff (by decide : 1 < 10) hplaces).mpr hr
  rw [fraction, List.length_append, List.length_replicate]
  omega

theorem fraction_inj (h : fraction places r = fraction places r') : r = r' := by
  have hvalue := congrArg (fun ds => Nat.ofDigitChars 10 ds 0) h
  simpa only [fraction, Nat.ofDigitChars_append, Nat.ofDigitChars_replicate_zero, Nat.mul_zero,
    Nat.ofDigitChars_ten_toDigits] using hvalue

theorem point_not_mem_fraction : '.' ∉ fraction places r := by
  rw [fraction, List.mem_append, not_or]
  constructor
  · exact fun h => absurd (List.eq_of_mem_replicate h) (by decide)
  · exact fun h => absurd (isDigit_of_mem_toDigits h) (by decide)

/-! ## The trimmed text -/

def tail (places r : Nat) : List Char :=
  let digits := (fraction places r).rdropWhile (· == '0')
  if digits = [] then [] else '.' :: digits

theorem rdropWhile_point {l : List Char} (h : '.' ∉ l) : l.rdropWhile (· == '.') = l := by
  rw [List.rdropWhile_eq_self_iff]
  intro hl hlast
  have hpoint : l.getLast hl = '.' := eq_of_beq hlast
  exact h (hpoint ▸ List.getLast_mem hl)

theorem trimmed_eq :
    trimmed places neg scaled =
      whole neg (scaled / 10 ^ places) ++ tail places (scaled % 10 ^ places) := by
  rw [trimmed, fixedPoint, rdropWhile_append_cons (by decide), tail]
  by_cases hnil : (fraction places (scaled % 10 ^ places)).rdropWhile (· == '0') = []
  · rw [hnil, if_pos rfl, List.append_nil, List.rdropWhile_concat_pos _ _ _ (by decide),
      rdropWhile_point point_not_mem_whole]
  · rw [if_neg hnil, List.rdropWhile_eq_self_iff]
    intro hne hlast
    have hpoint : '.' ∈ (fraction places (scaled % 10 ^ places)).rdropWhile (· == '0') := by
      have hbeq := eq_of_beq hlast
      rw [List.getLast_append_of_ne_nil _ (List.cons_ne_nil _ _), List.getLast_cons hnil] at hbeq
      exact hbeq ▸ List.getLast_mem hnil
    exact point_not_mem_fraction ((List.rdropWhile_prefix _ _).subset hpoint)

theorem tail_inj (hplaces : 0 < places) (hr : r < 10 ^ places) (hr' : r' < 10 ^ places)
    (h : tail places r = tail places r') : r = r' := by
  apply fraction_inj
  apply rdropWhile_inj fun x hx => eq_of_beq (b := '0') hx
  · rw [length_fraction hplaces hr, length_fraction hplaces hr']
  · unfold tail at h
    dsimp only at h
    split at h
    · rename_i hnil
      split at h
      · rename_i hnil'
        rw [hnil, hnil']
      · exact absurd h (by simp)
    · split at h
      · exact absurd h (by simp)
      · exact (List.cons.inj h).2

theorem takeWhile_whole (neg : Bool) (q places r : Nat) :
    (whole neg q ++ tail places r).takeWhile (· ≠ '.') = whole neg q := by
  have hall : ∀ c ∈ whole neg q, decide (c ≠ '.') = true := by
    intro c hc
    rw [decide_eq_true_eq]
    rintro rfl
    exact point_not_mem_whole hc
  rw [List.takeWhile_append_of_pos hall]
  have hnone : (tail places r).takeWhile (· ≠ '.') = [] := by
    unfold tail
    dsimp only
    split
    · rfl
    · rfl
  rw [hnone, List.append_nil]

theorem trimmed_inj (hplaces : 0 < places)
    (h : trimmed places neg scaled = trimmed places neg' scaled') :
    neg = neg' ∧ scaled = scaled' := by
  rw [trimmed_eq, trimmed_eq] at h
  have hpos : 0 < 10 ^ places := Nat.pow_pos (by decide)
  have hwhole : whole neg (scaled / 10 ^ places) = whole neg' (scaled' / 10 ^ places) := by
    have hfirst := congrArg (List.takeWhile (· ≠ '.')) h
    rwa [takeWhile_whole, takeWhile_whole] at hfirst
  obtain ⟨hneg, hquot⟩ := whole_inj hwhole
  rw [hwhole] at h
  have hrem := tail_inj hplaces (Nat.mod_lt _ hpos) (Nat.mod_lt _ hpos) (List.append_cancel_left h)
  refine ⟨hneg, ?_⟩
  calc scaled = 10 ^ places * (scaled / 10 ^ places) + scaled % 10 ^ places :=
        (Nat.div_add_mod scaled _).symm
    _ = 10 ^ places * (scaled' / 10 ^ places) + scaled' % 10 ^ places := by rw [hquot, hrem]
    _ = scaled' := Nat.div_add_mod scaled' _

theorem trimmed_whole (places : Nat) (neg : Bool) (q : Nat) :
    trimmed places neg (q * 10 ^ places) = whole neg q := by
  have hpos : 0 < 10 ^ places := Nat.pow_pos (by decide)
  have hzeros : (fraction places 0).rdropWhile (· == '0') = [] := by
    rw [List.rdropWhile_eq_nil_iff]
    intro c hc
    rw [fraction, Nat.toDigits_zero, List.mem_append, List.mem_singleton] at hc
    rw [beq_iff_eq]
    exact hc.elim List.eq_of_mem_replicate id
  rw [trimmed_eq, Nat.mul_div_cancel q hpos, Nat.mul_mod_left, tail, hzeros, if_pos rfl,
    List.append_nil]

end MiniRudis.Lib
