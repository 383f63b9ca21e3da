import MiniRudis.Db.Entries
import MiniRudis.Lib.Accumulator

/-!
# Counters

A counter is a text in a string key or in a field of a hash, which every call parses, adds
to and prints again.  All the same it is an exact accumulator over the range of an `i64`.
-/

namespace MiniRudis

open Lib

namespace Str

def integer (v : Bytes) : Option Int := (fromUtf8 v).bind parseTrimmedI64

def digits (n : Int) : Bytes := asBytes (decimal n)

theorem integer_digits {n : Int} (h : InI64 n) : integer (digits n) = some n := by
  rw [integer, digits, fromUtf8_asBytes, Option.bind_some, parseTrimmedI64_decimal h]

theorem integer_zeroText : integer zeroText = some 0 := integer_digits (n := 0) (by decide)

def incrReply : Option Int → Outcome Int
  | some n => .ok n
  | none => err (.generic "ERR increment or decrement would overflow")

theorem incr_eq {v : Bytes} {n : Int} (h : integer v = some n) (delta : Int) :
    incr delta v =
      if InI64 (n + delta) then (.ok (n + delta), digits (n + delta)) else (incrReply none, v) := by
  have hparse : (fromUtf8 v).bind parseTrimmedI64 = some n := h
  rw [incr, hparse]
  dsimp only
  rw [checkedAdd]
  by_cases hrange : InI64 (n + delta)
  · rw [if_pos hrange, if_pos hrange]
    rfl
  · rw [if_neg hrange, if_neg hrange]
    rfl

theorem incr_not_integer {v : Bytes} (h : integer v = none) (delta : Int) :
    incr delta v = (err .notInteger, v) := by
  have hparse : (fromUtf8 v).bind parseTrimmedI64 = none := h
  rw [incr, hparse]

end Str

/-! ## The place of a counter -/

inductive Counter
  | string
  | field (name : String)

namespace Counter

/-- The text at the place, if there is one, where the key is of the right type. -/
def stored : Counter → Cell → Option (Option Bytes)
  | string, c =>
      match c.obj with
      | none => some none
      | some o => (strKind.proj o).map some
  | field name, c => (c.valueAs hashKind.toKind ∅).map fun h => h[name]?

def write : Counter → Cell → Bytes → Cell
  | string, c, v => { c with obj := some (.str v) }
  | field name, c, v =>
      { c with obj := some (.hash (((c.valueAs hashKind.toKind ∅).getD ∅).insert name v)) }

def incr (place : Counter) (self : Database) (now : Instant) (db : Nat) (key : String)
    (delta : Int) : Outcome Int × Database :=
  match place with
  | string => self.strIncr now db key delta
  | field name => self.hincrby now db key name delta

def access (delta : Int) : Counter → Access Int
  | string => .create strKind Str.zeroText (Str.incr delta)
  | field name => .create hashKind.toKind ∅ (Hash.hincrby name delta)

variable {place : Counter} {c : Cell}

theorem stored_string_cases (c : Cell) :
    c.obj = none ∧ string.stored c = some none ∨
      (∃ v, c.obj = some (.str v) ∧ string.stored c = some (some v)) ∨
        ∃ o, c.obj = some o ∧ strKind.proj o = none ∧ string.stored c = none := by
  rw [stored]
  cases c.obj with
  | none => exact Or.inl ⟨rfl, rfl⟩
  | some o =>
      cases hproj : strKind.proj o with
      | none => exact Or.inr (Or.inr ⟨o, rfl, hproj, by simp [hproj]⟩)
      | some v =>
          rw [strKind.inj_proj hproj]
          exact Or.inr (Or.inl ⟨v, rfl, rfl⟩)

theorem stored_write {text : Option Bytes} (h : place.stored c = some text) (v : Bytes) :
    place.stored (place.write c v) = some (some v) := by
  cases place with
  | string => rfl
  | field name => simp [stored, write, Cell.valueAs, hashKind]

theorem write_stored {v : Bytes} (h : place.stored c = some (some v)) : place.write c v = c := by
  cases place with
  | string =>
      rcases stored_string_cases c with ⟨-, hs⟩ | ⟨w, hobj, hs⟩ | ⟨o, -, -, hs⟩
      · exact absurd (hs.symm.trans h) (by simp)
      · obtain rfl := Option.some.inj (Option.some.inj (hs.symm.trans h))
        rw [write, ← hobj]
      · exact absurd (hs.symm.trans h) (by simp)
  | field name =>
      obtain ⟨m, hm, hv⟩ := Option.map_eq_some_iff.mp h
      have hsame : m.insert name v = m := by
        have hget := (Hash.insert_getD_iff m name v).mpr (by rw [hv]; rfl)
        rwa [hv] at hget
      rw [write, hm, Option.getD_some, hsame]
      obtain ⟨-, rfl⟩ | hobj := Cell.valueAs_eq_some.mp hm
      · exact absurd hv (by simp)
      · exact congrArg (fun o => ({ c with obj := o } : Cell)) hobj.symm

/-- A call updates the text at its place, from `0` on where there is none. -/
theorem onCell_access {text : Option Bytes} (h : place.stored c = some text) (now : Instant)
    (delta : Int) :
    (place.access delta).onCell now c =
      ((Str.incr delta (text.getD Str.zeroText)).1,
        place.write c (Str.incr delta (text.getD Str.zeroText)).2) := by
  cases place with
  | string =>
      rw [access, Access.onCell]
      rcases stored_string_cases c with ⟨hobj, hs⟩ | ⟨w, hobj, hs⟩ | ⟨o, -, -, hs⟩
      · obtain rfl := Option.some.inj (hs.symm.trans h)
        rw [hobj]
        rfl
      · obtain rfl := Option.some.inj (hs.symm.trans h)
        rw [hobj]
        rfl
      · exact absurd (hs.symm.trans h) (by simp)
  | field name =>
      obtain ⟨m, hm, rfl⟩ := Option.map_eq_some_iff.mp h
      rw [access, Access.onCell_create, write, hm]
      rfl

theorem onCell_access_wrongType (h : place.stored c = none) (now : Instant) (delta : Int) :
    (place.access delta).onCell now c = (err .wrongType, c) := by
  cases place with
  | string =>
      rw [access, Access.onCell]
      rcases stored_string_cases c with ⟨-, hs⟩ | ⟨w, -, hs⟩ | ⟨o, hobj, hproj, -⟩
      · exact absurd (hs.symm.trans h) (by simp)
      · exact absurd (hs.symm.trans h) (by simp)
      · rw [hobj]
        dsimp only
        rw [hproj]
  | field name => rw [access, Access.onCell_create, Option.map_eq_none_iff.mp h]

end Counter

/-! ## Sequences of calls -/

namespace Counter

/-- No text, which counts as zero, or the decimal form of `n`. -/
def Holds (place : Counter) (c : Cell) (n : Int) : Prop :=
  place.stored c = some none ∧ n = 0 ∨ place.stored c = some (some (Str.digits n))

/-- The integer from which a call would count on. -/
def number (place : Counter) (c : Cell) : Option Int :=
  (place.stored c).bind fun text => Str.integer (text.getD Str.zeroText)

def incrs (place : Counter) (self : Database) (db : Nat) (key : String) :
    List (Instant × Int) → List (Outcome Int) × Database
  | [] => ([], self)
  | (now, delta) :: calls =>
      let (reply, self) := place.incr self now db key delta
      let (replies, self) := place.incrs self db key calls
      (reply :: replies, self)

def succeeded (calls : List (Instant × Int)) (replies : List (Outcome Int)) : List Int :=
  ((calls.zip replies).filter fun p => p.2.toBool).map fun p => p.1.2

variable {place : Counter} {self : Database} {db : Nat} {key : String} {n : Int}

theorem incr_cellAt (hdb : db < self.dbs.length) (now : Instant) (delta : Int) :
    place.incr self now db key delta =
      (((place.access delta).onCell now (self.cellAt db key)).1,
        self.putCell db key ((place.access delta).onCell now (self.cellAt db key)).2) := by
  rw [← Database.access_cellAt hdb]
  cases place <;> rfl

theorem Holds.number {c : Cell} (h : place.Holds c n) (hn : InI64 n) : place.number c = some n := by
  obtain ⟨hnone, rfl⟩ | hsome := h
  · rw [Counter.number, hnone]
    exact Str.integer_zeroText
  · rw [Counter.number, hsome, Option.bind_some]
    exact Str.integer_digits hn

theorem stored_of_number {c : Cell} (h : place.number c = some n) :
    ∃ text, place.stored c = some text ∧ Str.integer (text.getD Str.zeroText) = some n :=
  Option.bind_eq_some_iff.mp h

theorem present_of_overflow {c : Cell} (h : place.number c = some n) {delta : Int}
    (hdelta : InI64 delta) (hrange : ¬ InI64 (n + delta)) : place.stored c ≠ some none := by
  intro hnone
  rw [number, hnone, Option.bind_some] at h
  obtain rfl : 0 = n := Option.some.inj (Str.integer_zeroText.symm.trans h)
  rw [Int.zero_add] at hrange
  exact hrange hdelta

/-- One call adds its amount, or is refused and changes nothing. -/
theorem onCell_number {c : Cell} (h : place.number c = some n) (now : Instant) {delta : Int}
    (hdelta : InI64 delta) :
    (place.access delta).onCell now c =
      if InI64 (n + delta) then (.ok (n + delta), place.write c (Str.digits (n + delta)))
      else (Str.incrReply none, c) := by
  obtain ⟨text, htext, hparse⟩ := stored_of_number h
  rw [onCell_access htext, Str.incr_eq hparse]
  by_cases hrange : InI64 (n + delta)
  · rw [if_pos hrange, if_pos hrange]
  · rw [if_neg hrange, if_neg hrange]
    cases text with
    | none => exact absurd htext (present_of_overflow h hdelta hrange)
    | some v =>
        dsimp only
        rw [Option.getD_some, write_stored htext]

theorem incr_number (hdb : db < self.dbs.length)
    (h : place.number (self.cellAt db key) = some n) (now : Instant) {delta : Int}
    (hdelta : InI64 delta) :
    place.incr self now db key delta =
      if InI64 (n + delta) then
        (.ok (n + delta),
          self.putCell db key (place.write (self.cellAt db key) (Str.digits (n + delta))))
      else (Str.incrReply none, self) := by
  rw [incr_cellAt hdb, onCell_number h now hdelta]
  split
  · rfl
  · exact congrArg (Prod.mk _) (Database.putCell_cellAt self db key)

theorem incr_not_number (hdb : db < self.dbs.length)
    (hnone : place.number (self.cellAt db key) = none) (now : Instant) (delta : Int) :
    ∃ e, place.incr self now db key delta = (.error e, self) := by
  rw [incr_cellAt hdb]
  cases hstored : place.stored (self.cellAt db key) with
  | none =>
      rw [onCell_access_wrongType hstored, Database.putCell_cellAt]
      exact ⟨_, rfl⟩
  | some text =>
      rw [number, hstored, Option.bind_some] at hnone
      rw [onCell_access hstored, Str.incr_not_integer hnone]
      cases text with
      | none => exact absurd (Str.integer_zeroText.symm.trans hnone) (by simp)
      | some v =>
          dsimp only
          rw [Option.getD_some, write_stored hstored, Database.putCell_cellAt]
          exact ⟨_, rfl⟩

theorem incr_step (hdb : db < self.dbs.length) (hholds : place.Holds (self.cellAt db key) n)
    (hn : InI64 n) (now : Instant) {delta : Int} (hdelta : InI64 delta) :
    ∃ after, place.incr self now db key delta =
        (Str.incrReply (if InI64 (n + delta) then some (n + delta) else none), after) ∧
      place.stored (after.cellAt db key) =
        some (some (Str.digits (if InI64 (n + delta) then n + delta else n))) ∧
      db < after.dbs.length := by
  have hnumber := hholds.number hn
  obtain ⟨text, htext, -⟩ := stored_of_number hnumber
  rw [incr_number hdb hnumber now hdelta]
  by_cases hrange : InI64 (n + delta)
  · rw [if_pos hrange, if_pos hrange, if_pos hrange]
    refine ⟨_, rfl, ?_, by simpa using hdb⟩
    rw [Database.cellAt_putCell hdb]
    exact stored_write htext _
  · rw [if_neg hrange, if_neg hrange, if_neg hrange]
    refine ⟨self, rfl, ?_, hdb⟩
    exact hholds.resolve_left fun hnone =>
      present_of_overflow hnumber hdelta hrange hnone.1

/-- The calls are those of an accumulator, from the text on that the first of them leaves. -/
theorem incrs_run (hdb : db < self.dbs.length) (hholds : place.Holds (self.cellAt db key) n)
    (hn : InI64 n) {calls : List (Instant × Int)} (hcalls : ∀ p ∈ calls, InI64 p.2) :
    (place.incrs self db key calls).1 =
        (accumulate InI64 (calls.map Prod.snd) n).1.map Str.incrReply ∧
      place.Holds ((place.incrs self db key calls).2.cellAt db key)
        (accumulate InI64 (calls.map Prod.snd) n).2 ∧
      (calls ≠ [] ∨ place.stored (self.cellAt db key) ≠ some none →
        place.stored ((place.incrs self db key calls).2.cellAt db key) ≠ some none) ∧
      db < (place.incrs self db key calls).2.dbs.length := by
  induction calls generalizing self n with
  | nil => exact ⟨rfl, hholds, fun h => h.resolve_left fun hne => hne rfl, hdb⟩
  | cons p calls ih =>
      obtain ⟨now, delta⟩ := p
      obtain ⟨hdelta, hrest⟩ := List.forall_mem_cons.mp hcalls
      obtain ⟨after, hcall, hstored, hdb'⟩ := incr_step hdb hholds hn now hdelta
      have hpresent : place.stored (after.cellAt db key) ≠ some none := by
        rw [hstored]
        simp
      rw [incrs, hcall, List.map_cons, accumulate]
      by_cases hrange : InI64 (n + delta)
      · rw [if_pos hrange] at hstored
        obtain ⟨hreplies, hfinal, htext, hdb''⟩ := ih hdb' (Or.inr hstored) hrange hrest
        rw [if_pos hrange, if_pos hrange]
        exact ⟨congrArg (List.cons _) hreplies, hfinal, fun _ => htext (Or.inr hpresent), hdb''⟩
      · rw [if_neg hrange] at hstored
        obtain ⟨hreplies, hfinal, htext, hdb''⟩ := ih hdb' (Or.inr hstored) hn hrest
        rw [if_neg hrange, if_neg hrange]
        exact ⟨congrArg (List.cons _) hreplies, hfinal, fun _ => htext (Or.inr hpresent), hdb''⟩

theorem succeeded_map (calls : List (Instant × Int)) (sums : List (Option Int)) :
    succeeded calls (sums.map Str.incrReply) = accepted (calls.map Prod.snd) sums := by
  induction calls generalizing sums with
  | nil => rfl
  | cons p calls ih =>
      cases sums with
      | nil => rfl
      | cons sum sums =>
          have hrest := ih sums
          cases sum with
          | none => exact hrest
          | some n => exact congrArg (List.cons p.2) hrest

/-- What a sequence of calls on a counter that starts from `n` replies and leaves, and what
a further call does that would overflow. -/
structure CounterLaw (place : Counter) (before : Database) (db : Nat) (key : String) (n : Int)
    (calls : List (Instant × Int)) (replies : List (Outcome Int)) (after : Database) : Prop where
  answers : replies = (accumulate InI64 (calls.map Prod.snd) n).1.map Str.incrReply
  text : calls ≠ [] ∨ place.stored (before.cellAt db key) ≠ some none →
    place.stored (after.cellAt db key) =
      some (some (Str.digits (n + (succeeded calls replies).sum)))
  parses : place.number (after.cellAt db key) = some (n + (succeeded calls replies).sum)
  refused : ∀ now delta, InI64 delta → ¬ InI64 (n + (succeeded calls replies).sum + delta) →
    place.incr after now db key delta = (Str.incrReply none, after)

theorem incrs_law (hdb : db < self.dbs.length) (hholds : place.Holds (self.cellAt db key) n)
    (hn : InI64 n) {calls : List (Instant × Int)} (hcalls : ∀ p ∈ calls, InI64 p.2) :
    CounterLaw place self db key n calls (place.incrs self db key calls).1
      (place.incrs self db key calls).2 := by
  obtain ⟨hreplies, hfinal, htext, hdb'⟩ := incrs_run hdb hholds hn hcalls
  have htotal : (accumulate InI64 (calls.map Prod.snd) n).2 =
      n + (succeeded calls (place.incrs self db key calls).1).sum := by
    rw [hreplies, succeeded_map, accumulate_total]
  have hrange : InI64 (accumulate InI64 (calls.map Prod.snd) n).2 := accumulate_fits _ hn
  rw [htotal] at hfinal hrange
  refine ⟨hreplies, fun h => ?_, hfinal.number hrange, fun now delta hdelta hover => ?_⟩
  · obtain ⟨hnone, -⟩ | hsome := hfinal
    · exact absurd hnone (htext h)
    · exact hsome
  · rw [incr_number hdb' (hfinal.number hrange) now hdelta, if_neg hover]

theorem incrs_not_number (hdb : db < self.dbs.length)
    (hnone : place.number (self.cellAt db key) = none) (calls : List (Instant × Int)) :
    (∀ reply ∈ (place.incrs self db key calls).1, ∃ e, reply = .error e) ∧
      (place.incrs self db key calls).2 = self := by
  induction calls with
  | nil => exact ⟨by simp [incrs], rfl⟩
  | cons p calls ih =>
      obtain ⟨now, delta⟩ := p
      obtain ⟨e, hcall⟩ := incr_not_number hdb hnone now delta
      rw [incrs, hcall]
      exact ⟨List.forall_mem_cons.mpr ⟨⟨e, rfl⟩, ih.1⟩, ih.2⟩

/-- **Counters are exact.**  A text that is not an integer makes every call fail and change
nothing; otherwise no update is lost or rounded. -/
theorem counters_exact (place : Counter) (hdb : db < self.dbs.length) :
    (∀ n, InI64 n → place.Holds (self.cellAt db key) n →
      ∀ calls : List (Instant × Int), (∀ p ∈ calls, InI64 p.2) →
        CounterLaw place self db key n calls (place.incrs self db key calls).1
          (place.incrs self db key calls).2) ∧
      (place.number (self.cellAt db key) = none → ∀ calls : List (Instant × Int),
        (∀ reply ∈ (place.incrs self db key calls).1, ∃ e, reply = .error e) ∧
          (place.incrs self db key calls).2 = self) :=
  ⟨fun _ hn hholds _ hcalls => incrs_law hdb hholds hn hcalls, incrs_not_number hdb⟩

theorem counters_exact_overflow :
    CounterLaw (.field "f") (Database.new 1) 0 "h" 0 [(0, i64Max), (1, 1), (2, -1)]
      (incrs (.field "f") (Database.new 1) 0 "h" [(0, i64Max), (1, 1), (2, -1)]).1
      (incrs (.field "f") (Database.new 1) 0 "h" [(0, i64Max), (1, 1), (2, -1)]).2 :=
  (counters_exact (.field "f") (by decide +kernel)).1 0 (by decide) (Or.inl ⟨rfl, rfl⟩) _
    (by decide)

end Counter

end MiniRudis
