import MiniRudis.Db.Slices
import MiniRudis.Lib.Patch

/-!
# Byte ranges

`str_setrange` patches a string and `str_getrange` reads a slice of it.  The one computes
its positions in `usize`, the other in `i64` from either end; what is read at the positions
that were written is what was written.
-/

namespace MiniRudis

open Lib

namespace Str

theorem sliceInclusive_eq {v : Bytes} {p q : Nat} (hle : p ≤ q) (hlt : q < v.length) :
    sliceInclusive v p (min q (v.length - 1)) = .ok ((v.drop p).take (q - p + 1)) := by
  have hmin : min q (v.length - 1) = q := by omega
  have hcount : q + 1 - p = q - p + 1 := by omega
  rw [sliceInclusive, hmin, if_pos ⟨by omega, hlt⟩, hcount]

theorem getrange_eq (start stop : Int) (s : Bytes) :
    getrange start stop s =
      .ok (between (signed s.length start) (max (signed s.length stop) 0) s) := by
  by_cases hnil : s = []
  · subst hnil
    simp [getrange, between]
  · have hlen : 0 < s.length := List.length_pos_iff.mpr hnil
    have hstart : normalizeIndex start s.length = (signed s.length start).toNat := by
      rw [normalizeIndex_eq, if_neg (by omega)]
    have hlast : min (normalizeIndex stop s.length) (max ((s.length : Int) - 1) 0).toNat =
        min (signed s.length stop).toNat (s.length - 1) := by
      rw [normalizeIndex_eq, if_neg (by omega)]
      omega
    have hsub : subUsize s.length 1 = .ok (s.length - 1) := if_pos hlen
    rw [← window_eq_between _ _ s rfl, getrange, hstart, hlast, hsub]
    by_cases hlt : min (signed s.length stop).toNat (s.length - 1) < (signed s.length start).toNat
    · rw [if_pos (Or.inl hlt), if_pos hlt]
    · rw [if_neg (by omega), if_neg hlt]
      exact sliceInclusive_eq (Nat.not_lt.mp hlt) (by omega)

theorem getrange_of_nonneg {start stop : Int} (hstart : 0 ≤ start) (hstop : 0 ≤ stop) (s : Bytes) :
    getrange start stop s = .ok (between start stop s) := by
  rw [getrange_eq, signed, signed, if_neg (by omega), if_neg (by omega), Int.max_eq_left hstop]

theorem setrange_eq {o : Nat} {v : Bytes} (hfits : CapacityOk 1 (o + v.length)) (s : Bytes) :
    setrange o v s = (.ok (max s.length (o + v.length)), patch 0 o v s) := by
  rw [setrange]
  dsimp only
  rw [if_neg fun h => h.2 hfits, ← length_patch 0 o v s]
  rfl

theorem append_eq (v s : Bytes) : append v s = (.ok (s.length + v.length), patch 0 s.length v s) := by
  rw [append, patch_length, List.length_append]

theorem getrange_patch {o : Nat} {v : Bytes} (hv : v ≠ []) (s : Bytes) :
    getrange o (o + v.length - 1) (patch 0 o v s) = .ok v := by
  have hpos : 0 < v.length := List.length_pos_iff.mpr hv
  rw [getrange_of_nonneg (by omega) (by omega), between_patch 0 hv]

theorem getrange_patch_ne {o i : Nat} {v s : Bytes} (hi : i < max s.length (o + v.length))
    (hout : ¬ (o ≤ i ∧ i < o + v.length)) :
    getrange i i (patch 0 o v s) = .ok [s[i]?.getD 0] := by
  rw [getrange_of_nonneg (by omega) (by omega), between_single (getElem?_patch 0 hi hout)]

theorem getrange_split {i : Nat} {s : Bytes} (hpos : 0 < i) (hi : i < s.length) :
    getrange 0 (i - 1) s = .ok (between 0 ((i : Int) - 1) s) ∧
      getrange i (-1) s = .ok (between i ((s.length : Int) - 1) s) := by
  have hend : signed s.length (-1) = (s.length : Int) - 1 := by
    rw [signed, if_pos (by decide)]
    omega
  have hstart : signed s.length i = i := if_neg (by omega)
  refine ⟨getrange_of_nonneg (by omega) (by omega) s, ?_⟩
  rw [getrange_eq, hstart, hend, Int.max_eq_left (by omega)]

theorem getrange_last {j : Nat} (hj : 0 < j) (s : Bytes) :
    getrange (-j) (-1) s = .ok (s.drop (s.length - j)) := by
  have hstart : (signed s.length (-j)).toNat = s.length - j := by
    rw [signed, if_pos (by omega)]
    omega
  rw [getrange_eq, between_eq, hstart, List.take_of_length_le]
  rw [List.length_drop, signed, if_pos (by decide)]
  omega

end Str

namespace Database

variable {self : Database} {db : Nat} {now : Instant} {key : String} {s : Bytes}

structure Reads (before : Database) (now : Instant) (db : Nat) (key : String) (s : Bytes) :
    Prop where
  inRange : db < before.dbs.length
  unexpired : (before.cellAt db key).expired now = false
  value : (before.cellAt db key).valueAs strKind [] = some s

theorem Reads.readAs {α : Type} (h : self.Reads now db key s) {absent : α} {f : Bytes → Outcome α}
    (habsent : f [] = .ok absent) : self.readDb db (LogicalDb.readAs strKind absent f now key) = f s := by
  have hlive : (self.cellAt db key).live now = (self.cellAt db key).obj := by
    rw [Cell.live, h.unexpired, if_neg Bool.false_ne_true]
  rcases Cell.valueAs_eq_some.mp h.value with ⟨hobj, rfl⟩ | hobj
  · rw [readDb_absent strKind h.inRange (hlive.trans hobj), habsent]
  · exact readDb_live strKind (hlive.trans hobj) absent f

theorem Reads.getrange (h : self.Reads now db key s) (start stop : Int) :
    self.strGetrange now db key start stop = Str.getrange start stop s :=
  h.readAs (by simp [Str.getrange])

theorem Reads.strlen (h : self.Reads now db key s) :
    self.strStrlen now db key = .ok s.length :=
  h.readAs rfl

theorem Reads.create {α : Type} (h : self.Reads now db key s) {f : Bytes → Outcome α × Bytes} :
    self.access now db key (.create strKind [] f) =
      ((f s).1, self.putCell db key { self.cellAt db key with obj := some (.str (f s).2) }) := by
  rw [access_cellAt h.inRange, Access.onCell_create, h.value]
  rfl

theorem Reads.putCell (h : self.Reads now db key s) (s' : Bytes) :
    (self.putCell db key { self.cellAt db key with obj := some (.str s') }).Reads now db key s' := by
  constructor
  case inRange => rw [length_putCell]; exact h.inRange
  case unexpired =>
    rw [cellAt_putCell h.inRange]
    exact h.unexpired
  case value =>
    rw [cellAt_putCell h.inRange]
    rfl

/-- What `SETRANGE` has written at `o` is read back, and no other byte has changed. -/
structure SetrangeLaw (before : Database) (now : Instant) (db : Nat) (key : String) (s : Bytes)
    (o : Nat) (v : Bytes) : Prop where
  reply : (before.strSetrange now db key o v).1 = .ok (max s.length (o + v.length))
  window : (before.strSetrange now db key o v).2.strGetrange now db key o (o + v.length - 1) = .ok v
  outside : ∀ i : Nat, i < max s.length (o + v.length) → ¬ (o ≤ i ∧ i < o + v.length) →
    (before.strSetrange now db key o v).2.strGetrange now db key i i = .ok [s[i]?.getD 0]
  total : (before.strSetrange now db key o v).2.strStrlen now db key =
    .ok (max s.length (o + v.length))

theorem Reads.setrange_eq (h : self.Reads now db key s) {o : Nat} {v : Bytes}
    (hfits : CapacityOk 1 (o + v.length)) :
    self.strSetrange now db key o v = (.ok (max s.length (o + v.length)),
      self.putCell db key { self.cellAt db key with obj := some (.str (patch 0 o v s)) }) := by
  rw [strSetrange, h.create, Str.setrange_eq hfits]

theorem Reads.setrange (h : self.Reads now db key s) {o : Nat} {v : Bytes} (hv : v ≠ [])
    (hfits : CapacityOk 1 (o + v.length)) : self.SetrangeLaw now db key s o v := by
  have hafter := h.putCell (patch 0 o v s)
  have heq := h.setrange_eq hfits
  constructor
  case reply => rw [heq]
  case window => rw [heq, hafter.getrange, Str.getrange_patch hv]
  case outside =>
    intro i hi hout
    rw [heq, hafter.getrange, Str.getrange_patch_ne hi hout]
  case total => rw [heq, hafter.strlen, length_patch]

/-- **Byte ranges read back what was written**: the law of each `SETRANGE`, `APPEND` as the
one at the end, and the slices that a string is made of. -/
structure ByteRanges (before : Database) (now : Instant) (db : Nat) (key : String) (s : Bytes) :
    Prop where
  setrange : ∀ (o : Nat) (v : Bytes), v ≠ [] → CapacityOk 1 (o + v.length) →
    before.SetrangeLaw now db key s o v
  append : ∀ v : Bytes, v ≠ [] → CapacityOk 1 (s.length + v.length) →
    ∃ len, before.strStrlen now db key = .ok len ∧
      before.strAppend now db key v = before.strSetrange now db key len v
  split : ∀ i : Nat, 0 < i → i < s.length → ∃ a b,
    before.strGetrange now db key 0 (i - 1) = .ok a ∧
      before.strGetrange now db key i (-1) = .ok b ∧ a ++ b = s
  last : ∀ j : Nat, 0 < j →
    before.strGetrange now db key (-j) (-1) = .ok (s.drop (s.length - j))

theorem byte_ranges (h : self.Reads now db key s) : self.ByteRanges now db key s := by
  constructor
  case setrange => exact fun o v hv hfits => h.setrange hv hfits
  case append =>
    intro v _ hfits
    refine ⟨s.length, h.strlen, ?_⟩
    rw [h.setrange_eq hfits, strAppend, h.create, Str.append_eq,
      Nat.max_eq_right (Nat.le_add_right s.length v.length)]
  case split =>
    intro i hpos hi
    obtain ⟨hfirst, hsecond⟩ := Str.getrange_split hpos hi
    rw [h.getrange, h.getrange]
    exact ⟨_, _, hfirst, hsecond, between_append_between (Nat.le_of_lt hi)⟩
  case last =>
    intro j hj
    rw [h.getrange, Str.getrange_last hj]

def greeting : Database := (Database.new 1).putCell 0 "k" ⟨some (.str (asBytes "hello")), none⟩

theorem byte_ranges_greeting :
    greeting.ByteRanges 0 0 "k" (asBytes "hello") ∧
      (greeting.strSetrange 0 0 "k" 1 (asBytes "ipp")).1 = .ok 5 ∧
      (greeting.strSetrange 0 0 "k" 7 (asBytes "!")).1 = .ok 8 := by
  have hcell : greeting.cellAt 0 "k" = ⟨some (.str (asBytes "hello")), none⟩ :=
    cellAt_putCell (by decide) "k" _
  have hreads : greeting.Reads 0 0 "k" (asBytes "hello") :=
    ⟨by decide, by rw [hcell]; rfl, by rw [hcell]; rfl⟩
  have hranges := byte_ranges hreads
  exact ⟨hranges, (hranges.setrange 1 (asBytes "ipp") (by decide) (by decide)).reply,
    (hranges.setrange 7 (asBytes "!") (by decide) (by decide)).reply⟩

end Database

end MiniRudis
