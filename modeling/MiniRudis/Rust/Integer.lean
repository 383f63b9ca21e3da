import MiniRudis.Error
import Mathlib.Algebra.Ring.Int.Defs
import Mathlib.Algebra.Ring.Nat

/-!
# Machine integers

An `i64` is an `Int` and a `usize` or `u64` a `Nat`.  Parsing, checked addition
and the casts keep the values in range, so the range shows up only here.  What
computes with the bounds is irreducible and compares natural numbers, lest a
check unfold the bounds in unary.
-/

namespace MiniRudis

def i64Min : Int := -2 ^ 63
def i64Max : Int := 2 ^ 63 - 1
def isizeMax : Nat := 2 ^ 63 - 1

/-- What an `i64` can hold. -/
def InI64 (n : Int) : Prop := i64Min ≤ n ∧ n ≤ i64Max

instance (n : Int) : Decidable (InI64 n) := inferInstanceAs (Decidable (_ ∧ _))

/-- `as u64` and `as usize` of an `i64`. -/
@[irreducible] def asU64 (n : Int) : Nat := (n % 2 ^ 64).toNat

@[irreducible] def asI64 (n : Int) : Int :=
  if asU64 n < 2 ^ 63 then asU64 n else asU64 n - 2 ^ 64

@[irreducible] def checkedAdd (a b : Int) : Option Int :=
  if InI64 (a + b) then some (a + b) else none

/-- An `i64` operation with exact result `n`: out of range it panics in a build
with overflow checks and wraps in one without. -/
@[irreducible] def arithI64 (overflowChecks : Bool) (n : Int) : Outcome Int :=
  if InI64 n then .ok n else if overflowChecks then panicked else .ok (asI64 n)

@[irreducible] def addUsize (a b : Nat) : Outcome Nat :=
  if a + b < 2 ^ 64 then .ok (a + b) else panicked

def subUsize (a b : Nat) : Outcome Nat := if b ≤ a then .ok (a - b) else panicked

/-- The panic of `Vec::with_capacity(n)` for elements of `size` bytes. -/
def CapacityOk (size n : Nat) : Prop := n * size ≤ isizeMax

instance (size n : Nat) : Decidable (CapacityOk size n) := inferInstanceAs (Decidable (_ ≤ _))

theorem asI64_of_inI64 {n : Int} (h : InI64 n) : asI64 n = n := by
  unfold InI64 i64Min i64Max at h
  unfold asI64 asU64
  split <;> omega

theorem asU64_of_nonneg {n : Int} (h : InI64 n) (hnonneg : 0 ≤ n) : asU64 n = n.toNat := by
  unfold InI64 i64Max at h
  unfold asU64
  omega

theorem arithI64_panics_iff {overflowChecks : Bool} {n : Int} :
    arithI64 overflowChecks n = panicked ↔ overflowChecks = true ∧ ¬ InI64 n := by
  rw [arithI64]
  split
  · rename_i hrange
    simp [hrange]
  · rename_i hrange
    split
    · rename_i hchecks
      simp [hchecks, hrange]
    · rename_i hchecks
      simp [hchecks]

theorem arithI64_error {overflowChecks : Bool} {n : Int} {e : Fault}
    (h : arithI64 overflowChecks n = .error e) : e = .panicked := by
  rw [arithI64] at h
  split at h
  · exact absurd h (by simp)
  · split at h
    · exact (Except.error.inj h).symm
    · exact absurd h (by simp)

theorem inI64_asI64 (n : Int) : InI64 (asI64 n) := by
  unfold InI64 i64Min i64Max asI64 asU64
  split <;> omega

theorem arithI64_inI64 {overflowChecks : Bool} {n m : Int}
    (h : arithI64 overflowChecks n = .ok m) : InI64 m := by
  rw [arithI64] at h
  split at h
  · rename_i hrange
    obtain rfl := Except.ok.inj h
    exact hrange
  · split at h
    · exact absurd h (by simp)
    · obtain rfl := Except.ok.inj h
      exact inI64_asI64 n

theorem addUsize_ok {a b : Nat} (h : a + b < 2 ^ 64) : addUsize a b = .ok (a + b) := by
  rw [addUsize, if_pos h]

theorem addUsize_eq_ok {a b n : Nat} (h : addUsize a b = .ok n) : n = a + b := by
  rw [addUsize] at h
  split at h
  · exact (Except.ok.inj h).symm
  · exact absurd h (by simp)

/-! ## Decimal text -/

/-- The value of `+`/`-` and digits, as `str::parse::<i64>` reads them. -/
def decimal? : List Char → Option Int
  | [] => none
  | '-' :: ds => if ds ≠ [] ∧ ds.all Char.isDigit then some (-(Nat.ofDigitChars 10 ds 0 : Nat)) else none
  | '+' :: ds => if ds ≠ [] ∧ ds.all Char.isDigit then some ((Nat.ofDigitChars 10 ds 0 : Nat) : Int) else none
  | ds => if ds.all Char.isDigit then some ((Nat.ofDigitChars 10 ds 0 : Nat) : Int) else none

def parseI64 (s : String) : Option Int := do
  let n ← decimal? s.toList
  if InI64 n then some n else none

theorem parseI64_inI64 {s : String} {n : Int} (h : parseI64 s = some n) : InI64 n := by
  unfold parseI64 at h
  obtain ⟨m, -, hm⟩ := Option.bind_eq_some_iff.mp h
  split at hm
  · rename_i hrange
    obtain rfl := Option.some.inj hm
    exact hrange
  · exact absurd hm (by simp)

def decimal (n : Int) : String := n.repr

theorem decimal_toList_of_nonneg (n : Nat) :
    (decimal n).toList = Nat.toDigits 10 n := by
  simp [decimal, Int.repr]

theorem decimal_toList_of_neg (n : Nat) :
    (decimal (Int.negSucc n)).toList = '-' :: Nat.toDigits 10 (n + 1) := by
  simp [decimal, Int.repr]

theorem all_isDigit_toDigits (n : Nat) : (Nat.toDigits 10 n).all Char.isDigit = true := by
  rw [List.all_eq_true]
  intro c hc
  exact Nat.isDigit_of_mem_toDigits (by decide) (by decide) hc

theorem toDigits_ne_nil (n : Nat) : Nat.toDigits 10 n ≠ [] := by
  intro h
  have hlen := Nat.length_toDigits_pos (b := 10) (n := n)
  rw [h] at hlen
  exact absurd hlen (by decide)

theorem decimal?_digits {ds : List Char} (hne : ds ≠ []) (hdigits : ds.all Char.isDigit = true) :
    decimal? ds = some ((Nat.ofDigitChars 10 ds 0 : Nat) : Int) := by
  cases ds with
  | nil => exact absurd rfl hne
  | cons d ds =>
      have hd : d.isDigit = true := by
        rw [List.all_cons, Bool.and_eq_true] at hdigits
        exact hdigits.1
      have hminus : d ≠ '-' := by
        rintro rfl
        exact absurd hd (by decide)
      have hplus : d ≠ '+' := by
        rintro rfl
        exact absurd hd (by decide)
      unfold decimal?
      split <;> simp_all

theorem parseI64_decimal {n : Int} (h : InI64 n) : parseI64 (decimal n) = some n := by
  have hread : decimal? (decimal n).toList = some n := by
    cases n with
    | ofNat n =>
        have hlist := decimal_toList_of_nonneg n
        rw [Int.ofNat_eq_natCast, hlist,
          decimal?_digits (toDigits_ne_nil n) (all_isDigit_toDigits n), Nat.ofDigitChars_ten_toDigits]
    | negSucc n =>
        rw [decimal_toList_of_neg]
        have hdigits := all_isDigit_toDigits (n + 1)
        have hne := toDigits_ne_nil (n + 1)
        simp only [decimal?, hdigits, ne_eq, hne, not_false_eq_true, and_self, if_true,
          Nat.ofDigitChars_ten_toDigits]
        rfl
  simp [parseI64, hread, h]

end MiniRudis
