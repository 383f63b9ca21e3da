import MiniRudis.Lib.Slice

/-!
# Windows that are written

A list is patched by writing another over it at an offset.  Where the window reaches
beyond the end the list grows, and a gap before the window is padded.
-/

namespace MiniRudis.Lib

variable {α : Type}

def patch (pad : α) (o : Nat) (v l : List α) : List α :=
  let padded := l ++ List.replicate (o + v.length - l.length) pad
  padded.take o ++ v ++ padded.drop (o + v.length)

variable (pad : α) {o i : Nat} {v l : List α}

theorem length_patch (o : Nat) (v l : List α) :
    (patch pad o v l).length = max l.length (o + v.length) := by
  simp only [patch, List.length_append, List.length_take, List.length_drop, List.length_replicate]
  omega

theorem length_before_patch (o : Nat) (v l : List α) :
    ((l ++ List.replicate (o + v.length - l.length) pad).take o).length = o := by
  simp only [List.length_append, List.length_take, List.length_replicate]
  omega

theorem take_drop_patch (o : Nat) (v l : List α) :
    ((patch pad o v l).drop o).take v.length = v := by
  have hbefore := length_before_patch pad o v l
  rw [patch, List.append_assoc, List.drop_left' hbefore, List.take_left]

theorem getElem?_patch (hi : i < max l.length (o + v.length)) (hout : ¬ (o ≤ i ∧ i < o + v.length)) :
    (patch pad o v l)[i]? = some (l[i]?.getD pad) := by
  have hpadded : i < l.length + (o + v.length - l.length) := by omega
  have hget : (l ++ List.replicate (o + v.length - l.length) pad)[i]? = some (l[i]?.getD pad) := by
    rw [List.getElem?_append]
    by_cases hlt : i < l.length
    · rw [if_pos hlt, List.getElem?_eq_getElem hlt]
      rfl
    · rw [if_neg hlt, List.getElem?_replicate, if_pos (by omega),
        List.getElem?_eq_none (Nat.not_lt.mp hlt)]
      rfl
  have hbefore := length_before_patch pad o v l
  rw [patch, List.append_assoc, List.getElem?_append, hbefore]
  by_cases hlow : i < o
  · rw [if_pos hlow, List.getElem?_take_of_lt hlow, hget]
  · have hhigh : ¬ i - o < v.length := by omega
    have hindex : o + v.length + (i - o - v.length) = i := by omega
    rw [if_neg hlow, List.getElem?_append_right (Nat.not_lt.mp hhigh), List.getElem?_drop, hindex,
      hget]

theorem patch_length (v l : List α) : patch pad l.length v l = l ++ v := by
  rw [patch, List.take_left, List.drop_eq_nil_of_le, List.append_nil]
  simp only [List.length_append, List.length_replicate]
  omega

theorem between_patch (hv : v ≠ []) :
    between o (o + v.length - 1) (patch pad o v l) = v := by
  have hpos : 0 < v.length := List.length_pos_iff.mpr hv
  have hcount : ((o : Int) + v.length - 1 + 1).toNat - (o : Int).toNat = v.length := by omega
  rw [between_eq, hcount, Int.toNat_natCast]
  exact take_drop_patch pad o v l

theorem between_append_between (hi : i ≤ l.length) :
    between 0 ((i : Int) - 1) l ++ between i ((l.length : Int) - 1) l = l := by
  have hfirst : ((i : Int) - 1 + 1).toNat - (0 : Int).toNat = i := by omega
  have hsecond : ((l.length : Int) - 1 + 1).toNat - (i : Int).toNat = l.length - i := by omega
  rw [between_eq, between_eq, hfirst, hsecond, Int.toNat_zero, Int.toNat_natCast, List.drop_zero,
    List.take_of_length_le (Nat.le_of_eq List.length_drop), List.take_append_drop]

end MiniRudis.Lib
