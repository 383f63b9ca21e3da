import MiniRudis.Db.Cardinalities
import MiniRudis.Lib.Occurrences

/-!
# Removals from a list

`lrem` has a loop for each sign of its count.  All three take out the occurrences that the
count selects, and the two signs are mirror images.
-/

namespace MiniRudis

open Lib

namespace Deque

theorem removeFirst_eq (value : Bytes) (n : Nat) (l : List Bytes) :
    removeFirst value n l = (min n (l.count value), withoutFirst value n l) := by
  induction l generalizing n with
  | nil => simp [removeFirst]
  | cons e l ih =>
      rw [removeFirst, withoutFirst_cons, ih, ih]
      by_cases hout : 0 < n ∧ e = value
      · rw [if_pos hout, if_pos hout, hout.2, List.count_cons_self]
        refine Prod.ext ?_ rfl
        dsimp only
        omega
      · have hcount : min n ((e :: l).count value) = min n (l.count value) := by
          have hkept := count_cons_of_kept hout l
          omega
        rw [if_neg hout, if_neg hout, hcount]

theorem retainFlags_eq (value : Bytes) (n : Nat) (l : List Bytes) :
    retainFlags l (keepFlags value n l).1 = withoutLast value n l := by
  induction l with
  | nil => rfl
  | cons e l ih =>
      rw [keepFlags_cons, keepFlags_remaining, withoutLast_cons, ← ih]
      simp only [Nat.sub_pos_iff_lt]
      by_cases hout : l.count value < n ∧ e = value
      · rw [if_pos hout, if_pos hout, retainFlags_cons, if_neg Bool.false_ne_true]
      · rw [if_neg hout, if_neg hout, retainFlags_cons, if_pos rfl]

theorem keepFlags_removed (value : Bytes) (n : Nat) (l : List Bytes) :
    (keepFlags value n l).2.2 = min n (l.count value) := by
  induction l with
  | nil => simp [keepFlags]
  | cons e l ih =>
      rw [keepFlags_cons, keepFlags_remaining]
      simp only [Nat.sub_pos_iff_lt]
      split
      · rename_i hout
        dsimp only
        rw [ih, hout.2, List.count_cons_self]
        omega
      · rename_i hkeep
        dsimp only
        rw [ih]
        by_cases he : e = value
        · have hle : n ≤ l.count value := by
            by_contra hlt
            exact hkeep ⟨by omega, he⟩
          rw [he, List.count_cons_self]
          omega
        · rw [List.count_cons_of_ne he]

theorem lrem_eq (count : Int) (value : Bytes) (l : List Bytes) :
    lrem count value l = (.ok (selected value count l), without value count l) := by
  unfold lrem selected without
  by_cases hzero : count = 0
  · rw [if_pos hzero, if_pos hzero, if_pos hzero, List.count_eq_length_filter]
  · rw [if_neg hzero, if_neg hzero, if_neg hzero]
    by_cases hpos : 0 < count
    · have habs : count.toNat = count.natAbs := by omega
      rw [if_pos hpos, if_pos hpos, habs, removeFirst_eq]
    · rw [if_neg hpos, if_neg hpos]
      dsimp only
      rw [keepFlags_removed, retainFlags_eq]

end Deque

namespace Database

variable {self : Database} {db : Nat} {now : Instant} {key : String} {l : List Bytes}

/-- `LREM` deletes the occurrences that its count selects and replies their number; with the
opposite count it does on the reversed list what it does on the list. -/
structure RemovalLaw (before : Database) (now : Instant) (db : Nat) (key : String)
    (l : List Bytes) (count : Int) (value : Bytes) : Prop where
  removes : before.lrem now db key count value =
    (.ok (selected value count l), before.putCell db key
      { before.cellAt db key with obj := some (.list (without value count l)) })
  total : (without value count l).length + selected value count l = l.length
  mirror : ∀ other : Database, (other.cellAt db key).live now = some (.list l.reverse) →
    other.lrem now db key (-count) value =
      (.ok (selected value count l), other.putCell db key
        { other.cellAt db key with obj := some (.list (without value count l).reverse) })

theorem lrem_live (hlive : (self.cellAt db key).live now = some (.list l)) (count : Int)
    (value : Bytes) :
    self.lrem now db key count value =
      (.ok (selected value count l), self.putCell db key
        { self.cellAt db key with obj := some (.list (without value count l)) }) := by
  rw [lrem, access_live listKind.toKind hlive, Deque.lrem_eq]
  rfl

/-- **`LREM` removes the right occurrences.** -/
theorem removal_law (hlive : (self.cellAt db key).live now = some (.list l)) (count : Int)
    (value : Bytes) : self.RemovalLaw now db key l count value := by
  constructor
  case removes => exact lrem_live hlive count value
  case total =>
    have hlength := Deque.lrem_length (congrArg Prod.fst (Deque.lrem_eq count value l))
    rwa [Deque.lrem_eq] at hlength
  case mirror =>
    intro other hother
    rw [lrem_live hother, selected_reverse, without_reverse]

theorem removal_law_last :
    (withList [[97], [98], [97], [97]]).RemovalLaw 0 0 "k" [[97], [98], [97], [97]] (-1) [97] :=
  removal_law (withList_live _) (-1) [97]

end Database

end MiniRudis
