import MiniRudis.Db.Entries
import MiniRudis.Db.Ranks
import MiniRudis.Db.ZSetRuns
import MiniRudis.Lib.Guarded

/-!
# The scores that `ZADD` gives

The loop of `zadd` overwrites the score of each member by the scores of the member's own
pairs, up to the first that is not a number.  Whether all scores end where they were can be
told from the flags, the pairs and the scores before.
-/

namespace MiniRudis

open Lib

/-- The tests on a pair, given the score that its member has. -/
def ZAddFlags.skips (flags : ZAddFlags) (old : Option F64) (score : F64) : Bool :=
  flags.nx && old.isSome || flags.xx && old.isNone ||
    flags.gt && old.any (fun s => F64.le score s) || flags.lt && old.any (fun s => F64.le s score)

theorem ZAddFlags.skips_none (flags : ZAddFlags) (s : F64) : flags.skips none s = flags.xx := by
  simp [skips]

def beforeNaN (members : List (F64 × String)) : List (F64 × String) :=
  members.takeWhile fun p => !isNaN p.1

theorem beforeNaN_eq_self {members : List (F64 × String)}
    (hnum : ∀ p ∈ members, isNaN p.1 = false) : beforeNaN members = members := by
  rw [beforeNaN, List.takeWhile_eq_self_iff]
  intro p hp
  rw [hnum p hp]
  rfl

def scoresOf (member : String) (members : List (F64 × String)) : List F64 :=
  (members.filter fun p => p.2 = member).map Prod.fst

theorem scoresOf_cons_self (p : F64 × String) (members : List (F64 × String)) :
    scoresOf p.2 (p :: members) = p.1 :: scoresOf p.2 members := by
  simp [scoresOf]

theorem scoresOf_cons_ne {p : F64 × String} {member : String} (h : p.2 ≠ member)
    (members : List (F64 × String)) : scoresOf member (p :: members) = scoresOf member members := by
  simp [scoresOf, h]

theorem scoresOf_beforeNaN {member : String} {members : List (F64 × String)} :
    ∀ s ∈ scoresOf member (beforeNaN members), isNaN s = false := by
  intro s hs
  obtain ⟨p, hp, rfl⟩ := List.mem_map.mp hs
  have hnum := List.mem_takeWhile_imp (List.mem_of_mem_filter hp)
  simpa using hnum

namespace ZSetInner

variable {z : ZSetInner}

theorem skips_eq (flags : ZAddFlags) (score : F64) (member : String) (z : ZSetInner) :
    z.skips flags score member = flags.skips z.scores[member]? score := by
  have hmem : z.scores.contains member = (z.scores[member]?).isSome := by
    rw [Std.ExtTreeMap.isSome_getElem?_eq_contains]
  rw [skips, ZAddFlags.skips, hmem, Option.not_isSome]

/-- Each member's score is overwritten by the member's own pairs, as the flags let them. -/
theorem zaddLoop_scores (flags : ZAddFlags) (levels : Nat → Level) (i : Nat)
    (members : List (F64 × String)) (count : Int) (z : ZSetInner) (member : String) :
    (zaddLoop flags levels i members count z).2.scores[member]? =
      (scoresOf member (beforeNaN members)).foldl (overwrite flags.skips) z.scores[member]? := by
  induction members generalizing i count z with
  | nil => rfl
  | cons p members ih =>
      obtain ⟨score, name⟩ := p
      rw [zaddLoop]
      cases hnan : isNaN score with
      | true => simp [beforeNaN, hnan, scoresOf]
      | false =>
          have hrest : beforeNaN ((score, name) :: members) = (score, name) :: beforeNaN members := by
            simp [beforeNaN, hnan]
          rw [if_neg Bool.false_ne_true, hrest, skips_eq]
          by_cases heq : name = member
          · subst heq
            rw [scoresOf_cons_self (score, name), List.foldl_cons, overwrite]
            split
            · rw [ih]
            · dsimp only
              rw [ih]
              simp [add]
          · rw [scoresOf_cons_ne heq]
            split
            · rw [ih]
            · dsimp only
              rw [ih]
              have hcmp : compare name member ≠ .eq := by simpa using heq
              simp [add, Std.ExtTreeMap.getElem?_insert, hcmp]

theorem zaddLoop_fails_iff (flags : ZAddFlags) (levels : Nat → Level) (i : Nat)
    (members : List (F64 × String)) (count : Int) (z : ZSetInner) :
    (∃ e, (zaddLoop flags levels i members count z).1 = .error e) ↔
      members.any fun p => isNaN p.1 := by
  induction members generalizing i count z with
  | nil => simp [zaddLoop]
  | cons p members ih =>
      obtain ⟨score, name⟩ := p
      rw [zaddLoop, List.any_cons]
      cases isNaN score with
      | true => simp [err]
      | false =>
          rw [if_neg Bool.false_ne_true, Bool.false_or]
          split
          · exact ih _ _ _
          · exact ih _ _ _

theorem Coupled.same_iff {z' : ZSetInner} (h : z.Coupled) (h' : z'.Coupled) :
    (RudisObject.zset z).Same (.zset z') ↔
      ∀ member : String, z'.scores[member]? = z.scores[member]? := by
  constructor
  · intro hsame member
    rw [hsame.1]
  · intro hscores
    have hmap : z.scores = z'.scores :=
      Std.ExtTreeMap.ext_getElem? fun member => (hscores member).symm
    refine ⟨hmap, h.strict.ext h'.strict fun p => ?_⟩
    rw [h.graph p.1 p.2, h'.graph p.1 p.2, hmap]

end ZSetInner

namespace ZAddFlags

variable {flags : ZAddFlags} {old : Option F64} {scores : List F64}

/-- The scores given to a member leave it with the score it had. -/
def Unmoved (flags : ZAddFlags) (old : Option F64) (scores : List F64) : Prop :=
  (∀ s ∈ scores, flags.skips old s = true) ∨
    (flags.gt = false ∧ flags.lt = false ∧ scores.getLast? = old)

/-- A member is there, and its score has moved the way the flags let it. -/
def Onward (flags : ZAddFlags) (old new : Option F64) : Prop :=
  ∃ s, new = some s ∧ ∀ v, old = some v →
    flags.nx = false ∧ (flags.gt = true → v < s) ∧ (flags.lt = true → s < v)

theorem onward_of_not_skips {score : F64} (hold : ∀ v, old = some v → isNaN v = false)
    (hscore : isNaN score = false) (hskip : flags.skips old score = false) :
    flags.Onward old (some score) := by
  refine ⟨score, rfl, ?_⟩
  rintro v rfl
  have hv := hold v rfl
  simp only [skips, Option.isSome_some, Option.isNone_some, Option.any_some, F64.le, hv, hscore,
    Bool.and_true, Bool.and_false, Bool.or_false, Bool.not_false, Bool.true_and,
    Bool.or_eq_false_iff, Bool.and_eq_false_imp, decide_eq_false_iff_not, not_le] at hskip
  exact ⟨hskip.1.1, hskip.1.2, hskip.2⟩

theorem Onward.trans {a b c : Option F64} (hab : flags.Onward a b) (hbc : flags.Onward b c) :
    flags.Onward a c := by
  obtain ⟨s, rfl, hs⟩ := hab
  obtain ⟨t, rfl, ht⟩ := hbc
  obtain ⟨-, hgt, hlt⟩ := ht s rfl
  refine ⟨t, rfl, fun v hv => ?_⟩
  obtain ⟨hnx, hgt', hlt'⟩ := hs v hv
  exact ⟨hnx, fun h => (hgt' h).trans (hgt h), fun h => (hlt h).trans (hlt' h)⟩

/-- A flag that keeps some scores lets no member come back to its score. -/
theorem Onward.irrefl (hdir : flags.nx = true ∨ flags.gt = true ∨ flags.lt = true)
    (a : Option F64) : ¬ flags.Onward a a := by
  rintro ⟨s, rfl, hs⟩
  obtain ⟨hnx, hgt, hlt⟩ := hs s rfl
  obtain h | h | h := hdir
  · exact Bool.false_ne_true (hnx.symm.trans h)
  · exact lt_irrefl s (hgt h)
  · exact lt_irrefl s (hlt h)

theorem overwrites_iff (hold : ∀ v, old = some v → isNaN v = false)
    (hscores : ∀ s ∈ scores, isNaN s = false) :
    scores.foldl (overwrite flags.skips) old = old ↔ flags.Unmoved old scores := by
  by_cases hdir : flags.nx = true ∨ flags.gt = true ∨ flags.lt = true
  · rw [overwrites_directed_iff (fun _ _ => onward_of_not_skips) (fun _ _ _ => Onward.trans)
      (Onward.irrefl hdir) hold hscores]
    constructor
    · exact Or.inl
    · rintro (hall | ⟨hgt, hlt, hlast⟩)
      · exact hall
      · have hnx : flags.nx = true := by simpa [hgt, hlt] using hdir
        cases old with
        | none =>
            rw [List.getLast?_eq_none_iff.mp hlast]
            simp
        | some v => simp [skips, hnx]
  · obtain ⟨hnx, hgt, hlt⟩ : flags.nx = false ∧ flags.gt = false ∧ flags.lt = false := by
      simpa using hdir
    by_cases hxx : flags.xx = true ∧ old = none
    · have hall : ∀ s ∈ scores, flags.skips old s = true := by simp [skips, hxx.1, hxx.2]
      exact iff_of_true (overwrites_skipped hall) (Or.inl hall)
    · have hopen : ∀ v new, flags.skips (some v) new = false := by simp [skips, hnx, hgt, hlt]
      have hfirst : ∀ new, flags.skips old new = false := by
        cases old with
        | none => simpa [skips, hnx, hgt, hlt] using hxx
        | some v => exact hopen v
      rw [overwrites_open_iff hopen hfirst, Unmoved, and_iff_right hgt, and_iff_right hlt]

end ZAddFlags

theorem Database.zadd_eq {self : Database} {db : Nat} {key : String} {z : ZSetInner}
    (hz : (self.cellAt db key).valueAs zsetKind.toKind .new = some z) (hdb : db < self.dbs.length)
    (now : Instant) (levels : Nat → Level) (members : List (F64 × String)) (flags : ZAddFlags) :
    self.zadd now levels db key members flags =
      ((ZSetInner.zadd flags levels members z).1,
        self.putCell db key { self.cellAt db key with
          obj := some (.zset (ZSetInner.zadd flags levels members z).2) }) := by
  rw [zadd, access_cellAt hdb, Access.onCell_create, hz]
  rfl

end MiniRudis
