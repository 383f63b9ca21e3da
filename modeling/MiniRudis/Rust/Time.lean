import MiniRudis.Rust.Integer

/-!
# Clocks

Instants and durations count nanoseconds.  Behind both clocks is a `Timespec`
with an `i64` of seconds, and an addition beyond it panics.
-/

namespace MiniRudis

/-- `std::time::Instant`, from the clock's origin. -/
abbrev Instant := Int

/-- `std::time::SystemTime`, from the Unix epoch. -/
abbrev SystemTime := Int

abbrev Duration := Nat

def nanosPerSec : Nat := 10 ^ 9
def nanosPerMilli : Nat := 10 ^ 6

namespace Duration

/-- `Duration::from_secs` of an `i64` cast `as u64`. -/
@[irreducible] def fromSecs (secs : Int) : Duration := asU64 secs * nanosPerSec

@[irreducible] def fromMillis (ms : Int) : Duration := asU64 ms * nanosPerMilli

/-- `as_secs() as i64`. -/
@[irreducible] def asSecs (d : Duration) : Int := asI64 ((d / nanosPerSec : Nat) : Int)

@[irreducible] def asMillis (d : Duration) : Int := asI64 ((d / nanosPerMilli : Nat) : Int)

end Duration

/-- The first instant beyond the clocks. -/
def clockEnd : Nat := 2 ^ 63 * nanosPerSec

/-- `t + d` on either clock. -/
@[irreducible] def addDuration (t : Int) (d : Duration) : Outcome Int :=
  if (t + d).toNat < clockEnd then .ok (t + d) else panicked

theorem addDuration_eq_ok_iff {t : Int} {d : Duration} :
    addDuration t d = .ok (t + d) ↔ (t + d).toNat < clockEnd := by
  rw [addDuration]
  split
  · rename_i h
    exact iff_of_true rfl h
  · rename_i h
    exact iff_of_false (by simp) h

theorem addDuration_error {t : Int} {d : Duration} {e : Fault} (h : addDuration t d = .error e) :
    e = .panicked := by
  unfold addDuration at h
  split at h
  · exact absurd h (by simp)
  · exact (Except.error.inj h).symm

/-! ## Durations of options -/

theorem toNat_lt_of_inI64 {n : Int} (h : InI64 n) : n.toNat < 2 ^ 63 := by
  unfold InI64 i64Max at h
  omega

theorem fromSecs_lt {n : Int} (h : InI64 n) (hnonneg : 0 ≤ n) :
    Duration.fromSecs n < clockEnd := by
  rw [Duration.fromSecs, asU64_of_nonneg h hnonneg]
  exact Nat.mul_lt_mul_of_pos_right (toNat_lt_of_inI64 h) (by decide)

theorem fromMillis_lt {n : Int} (h : InI64 n) (hnonneg : 0 ≤ n) :
    Duration.fromMillis n < clockEnd := by
  rw [Duration.fromMillis, asU64_of_nonneg h hnonneg]
  calc n.toNat * nanosPerMilli ≤ n.toNat * nanosPerSec := Nat.mul_le_mul_left _ (by decide)
    _ < clockEnd := Nat.mul_lt_mul_of_pos_right (toNat_lt_of_inI64 h) (by decide)

/-- No number of milliseconds is beyond the clocks. -/
theorem fromMillis_lt_clockEnd (n : Int) : Duration.fromMillis n < clockEnd := by
  have hcast : asU64 n < 2 ^ 63 * 1000 := by
    unfold asU64
    omega
  rw [Duration.fromMillis]
  calc asU64 n * nanosPerMilli < 2 ^ 63 * 1000 * nanosPerMilli :=
        Nat.mul_lt_mul_of_pos_right hcast (by decide)
    _ = clockEnd := by rw [Nat.mul_assoc]; rfl

theorem fromSecs_eq {n : Int} (h : InI64 n) (hnonneg : 0 ≤ n) :
    Duration.fromSecs n = n.toNat * nanosPerSec := by
  rw [Duration.fromSecs, asU64_of_nonneg h hnonneg]

theorem fromMillis_eq {n : Int} (h : InI64 n) (hnonneg : 0 ≤ n) :
    Duration.fromMillis n = n.toNat * nanosPerMilli := by
  rw [Duration.fromMillis, asU64_of_nonneg h hnonneg]

theorem asMillis_eq {d : Duration} (h : ((d / nanosPerMilli : Nat) : Int) ≤ i64Max) :
    Duration.asMillis d = (d / nanosPerMilli : Nat) := by
  have hmin : i64Min ≤ 0 := by decide
  rw [Duration.asMillis, asI64_of_inI64 ⟨Int.le_trans hmin (Int.natCast_nonneg _), h⟩]

theorem asMillis_mul {k : Nat} (h : (k : Int) ≤ i64Max) :
    Duration.asMillis (k * nanosPerMilli) = k := by
  have hcancel : k * nanosPerMilli / nanosPerMilli = k := Nat.mul_div_cancel _ (by decide)
  rw [asMillis_eq (by rwa [hcancel]), hcancel]

theorem inI64_secs {d : Nat} (h : d < clockEnd) : InI64 ((d / nanosPerSec : Nat) : Int) := by
  have hsecs : d / nanosPerSec < 2 ^ 63 := (Nat.div_lt_iff_lt_mul (by decide)).mpr h
  generalize d / nanosPerSec = secs at hsecs ⊢
  unfold InI64 i64Min i64Max
  omega

theorem asSecs_nonneg {d : Duration} (h : d < clockEnd) : 0 ≤ Duration.asSecs d := by
  rw [Duration.asSecs, asI64_of_inI64 (inI64_secs h)]
  exact Int.natCast_nonneg _

theorem fromSecs_asSecs {d : Duration} (h : d < clockEnd) :
    Duration.fromSecs (Duration.asSecs d) = d / nanosPerSec * nanosPerSec := by
  have hrange := inI64_secs h
  rw [Duration.fromSecs, Duration.asSecs, asI64_of_inI64 hrange,
    asU64_of_nonneg hrange (Int.natCast_nonneg _), Int.toNat_natCast]

end MiniRudis
