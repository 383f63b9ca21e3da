import MiniRudis.Db.Transfers
import MiniRudis.Lib.Slice

/-!
# Lists by signed positions

`normalize_index` clamps a position before the first element to the first element.  So
the ranges and the accesses of a list are those of signed positions as long as their
bounds stay behind its beginning.
-/

namespace MiniRudis

open Lib

theorem normalizeIndex_eq (n : Nat) (i : Int) :
    normalizeIndex i n = if n = 0 then 0 else (signed n i).toNat := by
  unfold normalizeIndex signed
  by_cases hn : n = 0
  · simp [hn]
  · rw [if_neg (Int.natCast_ne_zero.mpr hn), if_neg hn]
    split <;> omega

namespace Deque

theorem lrange_eq (start stop : Int) (l : List Bytes) :
    lrange start stop l =
      between (signed l.length start) (max (signed l.length stop) 0) l := by
  by_cases hnil : l = []
  · subst hnil
    simp [lrange, between]
  · have hlen : 0 < l.length := List.length_pos_iff.mpr hnil
    have hstart : normalizeIndex start l.length = (signed l.length start).toNat := by
      rw [normalizeIndex_eq, if_neg (by omega)]
    have hlast : lastIndex stop l = min (signed l.length stop).toNat (l.length - 1) := by
      rw [lastIndex, normalizeIndex_eq, if_neg (by omega)]
      omega
    rw [← window_eq_between _ _ l rfl, lrange, ← hstart, ← hlast]
    by_cases hlt : lastIndex stop l < normalizeIndex start l.length
    · have hnone : emptyRange start stop l := Or.inr ⟨hlen, hlt⟩
      rw [if_pos hlt, if_pos hnone]
    · have hnot : ¬ emptyRange start stop l := by
        unfold emptyRange
        omega
      rw [if_neg hlt, if_neg hnot]

theorem lrange_eq_slice_iff (start stop : Int) (l : List Bytes) :
    lrange start stop l = slice start stop l ↔
      l = [] ∨ 0 < signed l.length start ∨ 0 ≤ signed l.length stop := by
  rw [lrange_eq, slice, between_raised_iff]

theorem lindex_eq_element_iff (index : Int) (l : List Bytes) :
    lindex index l = element index l ↔ l = [] ∨ 0 ≤ signed l.length index := by
  rw [lindex, element_eq, normalizeIndex_eq]
  by_cases hnil : l = []
  · simp [hnil]
  · have hlen : 0 < l.length := List.length_pos_iff.mpr hnil
    rw [if_neg (Nat.ne_of_gt hlen)]
    by_cases hneg : signed l.length index < 0
    · have hfirst : (signed l.length index).toNat = 0 := Int.toNat_of_nonpos (Int.le_of_lt hneg)
      rw [if_pos hneg, hfirst, List.getElem?_eq_getElem hlen]
      apply iff_of_false (Option.some_ne_none _)
      simp [hnil, hneg]
    · rw [if_neg hneg]
      exact iff_of_true rfl (Or.inr (Int.not_lt.mp hneg))

theorem lset_eq {index : Int} {l : List Bytes} (h : l = [] ∨ 0 ≤ signed l.length index)
    (value : Bytes) :
    lset index value l =
      match position l.length index with
      | some p => (.ok (), l.set p value)
      | none => (err .indexOutOfRange, l) := by
  unfold lset
  dsimp only
  rw [normalizeIndex_eq]
  rcases h with rfl | hnonneg
  · have hnone : position 0 index = none := position_eq_none.mpr (by omega)
    simp [hnone]
  · cases hpos : position l.length index with
    | none =>
        have hout := position_eq_none.mp hpos
        rw [if_neg]
        split <;> omega
    | some p =>
        have hin := position_eq_some.mp hpos
        have hp : (if l.length = 0 then 0 else (signed l.length index).toNat) = p := by
          rw [if_neg (by omega)]
          omega
        rw [hp, if_pos hin.1]

end Deque

namespace Database

variable {self : Database} {db : Nat} {now : Instant} {key : String} {l : List Bytes}

section
variable (hlive : (self.cellAt db key).live now = some (.list l))
include hlive

theorem lrange_live (start stop : Int) :
    self.lrange now db key start stop = .ok (Deque.lrange start stop l) := by
  rw [lrange, readDb_live listKind.toKind hlive]

theorem lindex_live (index : Int) :
    self.lindex now db key index = .ok (Deque.lindex index l) := by
  rw [lindex, readDb_live listKind.toKind hlive]

theorem ltrim_live (start stop : Int) :
    self.ltrim now db key start stop =
      (.ok (), self.putCell db key (remnant (Deque.lrange start stop l) (self.cellAt db key))) := by
  have hobj : (self.cellAt db key).obj = some (.list l) := (Cell.live_eq_some hlive).2
  exact access_stored listKind () (lt_of_live hlive) hobj (Deque.ltrim_eq start stop l) now

theorem lset_live (index : Int) (value : Bytes) :
    self.lset now db key index value =
      ((Deque.lset index value l).1,
        self.putCell db key
          { self.cellAt db key with obj := some (.list (Deque.lset index value l).2) }) := by
  rw [lset, access_live listKind.toKind hlive]
  rfl

end

/-! ## Ranges -/

/-- `LRANGE` shows the slice of the list, and `LTRIM` leaves exactly that. -/
structure RangeLaw (before : Database) (now : Instant) (db : Nat) (key : String) (l : List Bytes)
    (start stop : Int) : Prop where
  shows : before.lrange now db key start stop = .ok (slice start stop l)
  leaves : before.ltrim now db key start stop =
    (.ok (), before.putCell db key (remnant (slice start stop l) (before.cellAt db key)))

/-- **The ranges of a list are signed slices**, exactly if the list is empty, or the start
lies behind the first element, or the stop does not lie before it. -/
theorem range_law_iff (hlive : (self.cellAt db key).live now = some (.list l)) (start stop : Int) :
    self.RangeLaw now db key l start stop ↔
      l = [] ∨ 0 < signed l.length start ∨ 0 ≤ signed l.length stop := by
  rw [← Deque.lrange_eq_slice_iff]
  constructor
  · intro hlaw
    have hshows := hlaw.shows
    rw [lrange_live hlive] at hshows
    exact Except.ok.inj hshows
  · intro hslice
    constructor
    · rw [lrange_live hlive, hslice]
    · rw [ltrim_live hlive, hslice]

def withList (l : List Bytes) : Database :=
  (Database.new 1).putCell 0 "k" ⟨some (.list l), none⟩

theorem withList_live (l : List Bytes) : ((withList l).cellAt 0 "k").live 0 = some (.list l) := by
  rw [withList, cellAt_putCell (by decide +kernel)]
  rfl

theorem range_law_last_two :
    (withList [[97], [98]]).RangeLaw 0 0 "k" [[97], [98]] (-2) (-1) ↔
      [[97], [98]] = ([] : List Bytes) ∨ 0 < signed 2 (-2) ∨ 0 ≤ signed 2 (-1) :=
  range_law_iff (withList_live _) (-2) (-1)

/-- A stop before the first element selects that element. -/
theorem range_law_stop_before_first :
    ¬ ∀ (self : Database) (now : Instant) (db : Nat) (key : String) (l : List Bytes)
      (start stop : Int), (self.cellAt db key).live now = some (.list l) →
      self.RangeLaw now db key l start stop := by
  intro hclaim
  have hlive := withList_live [[97]]
  have hshows := (hclaim _ 0 0 "k" [[97]] 0 (-5) hlive).shows
  rw [lrange_live hlive] at hshows
  exact absurd (Except.ok.inj hshows) (by decide)

/-! ## Elements -/

/-- `LINDEX` and `LSET` reach the element that an index denotes, and no other. -/
structure ElementLaw (before : Database) (now : Instant) (db : Nat) (key : String) (l : List Bytes)
    (index : Int) (value : Bytes) : Prop where
  read : before.lindex now db key index = .ok (element index l)
  write : before.lset now db key index value =
    match position l.length index with
    | some p => (.ok (), before.putCell db key
        { before.cellAt db key with obj := some (.list (l.set p value)) })
    | none => (err .indexOutOfRange, before)
  readBack : ∀ after, before.lset now db key index value = (.ok (), after) →
    after.lindex now db key index = .ok (some value)
  frame : ∀ after, before.lset now db key index value = (.ok (), after) →
    ∀ other p, position l.length other = some p → position l.length index ≠ some p →
      after.lindex now db key other = before.lindex now db key other

theorem putCell_list_live (hlive : (self.cellAt db key).live now = some (.list l))
    (l' : List Bytes) :
    ((self.putCell db key { self.cellAt db key with obj := some (.list l') }).cellAt db key).live
      now = some (.list l') := by
  have hexp : ({ self.cellAt db key with obj := some (.list l') } : Cell).expired now = false :=
    (Cell.live_eq_some hlive).1
  rw [cellAt_putCell (lt_of_live hlive), Cell.live, hexp]
  rfl

theorem lset_within (hlive : (self.cellAt db key).live now = some (.list l)) {index : Int}
    (h : l = [] ∨ 0 ≤ signed l.length index) (value : Bytes) :
    self.lset now db key index value =
      match position l.length index with
      | some p => (.ok (), self.putCell db key
          { self.cellAt db key with obj := some (.list (l.set p value)) })
      | none => (err .indexOutOfRange, self) := by
  rw [lset_live hlive, Deque.lset_eq h]
  cases position l.length index with
  | some p => rfl
  | none =>
      dsimp only
      rw [← (Cell.live_eq_some hlive).2, putCell_cellAt]

theorem lindex_within (hlive : (self.cellAt db key).live now = some (.list l)) {index : Int}
    (h : l = [] ∨ 0 ≤ signed l.length index) :
    self.lindex now db key index = .ok (element index l) := by
  rw [lindex_live hlive, (Deque.lindex_eq_element_iff index l).mpr h]

theorem signed_of_position {n p : Nat} {index : Int} (h : position n index = some p) :
    0 ≤ signed n index := by
  have hin := position_eq_some.mp h
  omega

theorem lindex_of_lset (hlive : (self.cellAt db key).live now = some (.list l)) {index : Int}
    (h : l = [] ∨ 0 ≤ signed l.length index) {value : Bytes} {after : Database}
    (hset : self.lset now db key index value = (.ok (), after)) :
    ∃ p, position l.length index = some p ∧ ∀ other q, position l.length other = some q →
      after.lindex now db key other = .ok (element other (l.set p value)) := by
  rw [lset_within hlive h] at hset
  cases hpos : position l.length index with
  | none =>
      rw [hpos] at hset
      exact absurd (congrArg Prod.fst hset) (by simp [err])
  | some p =>
      rw [hpos] at hset
      obtain rfl := (Prod.mk.inj hset).2
      refine ⟨p, rfl, fun other q hother => ?_⟩
      have hreach : 0 ≤ signed (l.set p value).length other := by
        rw [List.length_set]
        exact signed_of_position hother
      exact lindex_within (putCell_list_live hlive _) (Or.inr hreach)

theorem element_law (hlive : (self.cellAt db key).live now = some (.list l)) {index : Int}
    (h : l = [] ∨ 0 ≤ signed l.length index) (value : Bytes) :
    self.ElementLaw now db key l index value := by
  constructor
  case read => exact lindex_within hlive h
  case write => exact lset_within hlive h value
  case readBack =>
    intro after hset
    obtain ⟨p, hpos, hreads⟩ := lindex_of_lset hlive h hset
    rw [hreads index p hpos, element_set hpos]
  case frame =>
    intro after hset other q hother hne
    obtain ⟨p, hpos, hreads⟩ := lindex_of_lset hlive h hset
    have hother' : position l.length other ≠ some p := by
      rw [hother]
      rw [hpos] at hne
      exact Ne.symm hne
    have hreach : 0 ≤ signed l.length other := signed_of_position hother
    rw [hreads other q hother, element_set_ne hother', lindex_within hlive (Or.inr hreach)]

/-- **List accesses respect the bounds**, exactly if the list is empty or the index does not
lie before its first element. -/
theorem element_law_iff (hlive : (self.cellAt db key).live now = some (.list l)) (index : Int)
    (value : Bytes) :
    self.ElementLaw now db key l index value ↔ l = [] ∨ 0 ≤ signed l.length index := by
  constructor
  · intro hlaw
    have hread := hlaw.read
    rw [lindex_live hlive] at hread
    exact (Deque.lindex_eq_element_iff index l).mp (Except.ok.inj hread)
  · exact fun h => element_law hlive h value

theorem element_law_last :
    (withList [[97], [98]]).ElementLaw 0 0 "k" [[97], [98]] (-1) [99] ↔
      [[97], [98]] = ([] : List Bytes) ∨ 0 ≤ signed 2 (-1) :=
  element_law_iff (withList_live _) (-1) [99]

/-- An index before the first element reaches that element. -/
theorem element_law_before_first :
    ¬ ∀ (self : Database) (now : Instant) (db : Nat) (key : String) (l : List Bytes) (index : Int)
      (value : Bytes), (self.cellAt db key).live now = some (.list l) →
      self.ElementLaw now db key l index value := by
  intro hclaim
  have hlive := withList_live [[97]]
  have hread := (hclaim _ 0 0 "k" [[97]] (-2) [98] hlive).read
  rw [lindex_live hlive] at hread
  exact absurd (Except.ok.inj hread) (by decide)

end Database

end MiniRudis
