import MiniRudis.Db.Scores
import MiniRudis.Lib.Tally

/-!
# What `ZADD CH` counts

With `CH` the loop of `zadd` counts every pair that is stored.  Such a pair adds its
member, changes the member's score, or gives the member the score it has.
-/

namespace MiniRudis

open Lib

namespace ZSetInner

variable {z : ZSetInner} {flags : ZAddFlags} {levels : Nat → Level}

def after (flags : ZAddFlags) (levels : Nat → Level) (z : ZSetInner)
    (x : (F64 × String) × Nat) : ZSetInner :=
  (zaddLoop flags levels x.2 [x.1] 0 z).2

def stored (flags : ZAddFlags) (z : ZSetInner) (x : (F64 × String) × Nat) : Bool :=
  !flags.skips z.scores[x.1.2]? x.1.1

def changed (flags : ZAddFlags) (levels : Nat → Level) (z : ZSetInner)
    (x : (F64 × String) × Nat) : Bool :=
  decide ((after flags levels z x).scores[x.1.2]? ≠ z.scores[x.1.2]?)

/-- The pair stores the score that its member has. -/
def idle (flags : ZAddFlags) (z : ZSetInner) (x : (F64 × String) × Nat) : Bool :=
  stored flags z x && decide (z.scores[x.1.2]? = some x.1.1)

/-- The number of pairs whose processing adds a member or changes a member's score. -/
def changes (flags : ZAddFlags) (levels : Nat → Level) (members : List (F64 × String))
    (z : ZSetInner) : Nat :=
  (tally (changed flags levels) (after flags levels) members.zipIdx z).1

/-! ## One pair -/

section
variable {x : (F64 × String) × Nat}

theorem after_scores (hx : isNaN x.1.1 = false) (member : String) :
    (after flags levels z x).scores[member]? =
      (scoresOf member [x.1]).foldl (overwrite flags.skips) z.scores[member]? := by
  have hnum : ∀ p ∈ [x.1], isNaN p.1 = false := by
    intro p hp
    rwa [List.mem_singleton.mp hp]
  rw [after, zaddLoop_scores, beforeNaN_eq_self hnum]

theorem after_scores_self (hx : isNaN x.1.1 = false) :
    (after flags levels z x).scores[x.1.2]? = overwrite flags.skips z.scores[x.1.2]? x.1.1 := by
  rw [after_scores hx]
  simp [scoresOf]

theorem after_scores_ne (hx : isNaN x.1.1 = false) {member : String} (h : x.1.2 ≠ member) :
    (after flags levels z x).scores[member]? = z.scores[member]? := by
  rw [after_scores hx]
  simp [scoresOf, h]

theorem after_of_not_stored (h : stored flags z x = false) : after flags levels z x = z := by
  obtain ⟨⟨score, member⟩, i⟩ := x
  have hskip : z.skips flags score member = true := by
    rw [skips_eq]
    simpa [stored] using h
  rw [after, zaddLoop, hskip]
  split
  · rfl
  · rfl

theorem stored_eq (hx : isNaN x.1.1 = false) :
    (stored flags z x).toNat =
      (changed flags levels z x).toNat + (idle flags z x).toNat := by
  rw [changed, idle, after_scores_self hx, overwrite]
  cases hskip : flags.skips z.scores[x.1.2]? x.1.1 with
  | true => simp [stored, hskip]
  | false =>
      by_cases hsame : z.scores[x.1.2]? = some x.1.1
      · simp [stored, hsame]
      · simp [stored, hskip, hsame, Ne.symm hsame]

end

/-! ## All pairs -/

section
variable {members : List (F64 × String)}

theorem zaddLoop_counts (hch : flags.ch = true) (hnum : ∀ p ∈ members, isNaN p.1 = false)
    (i : Nat) (count : Int) (z : ZSetInner) :
    (zaddLoop flags levels i members count z).1 =
      .ok (count + (tally (stored flags) (after flags levels) (members.zipIdx i) z).1) := by
  induction members generalizing i count z with
  | nil => simp [zaddLoop, tally]
  | cons p members ih =>
      obtain ⟨score, member⟩ := p
      obtain ⟨hscore, hrest⟩ := List.forall_mem_cons.mp hnum
      have hloop := ih hrest (i + 1)
      rw [List.zipIdx_cons, tally, zaddLoop, if_neg (by simp [hscore]), skips_eq]
      cases hskip : flags.skips z.scores[member]? score with
      | true =>
          have hstored : stored flags z ((score, member), i) = false := by simp [stored, hskip]
          rw [if_pos rfl, hloop, after_of_not_stored hstored, hstored]
          rfl
      | false =>
          have hstored : stored flags z ((score, member), i) = true := by simp [stored, hskip]
          have hafter : after flags levels z ((score, member), i) =
              (z.add member score (levels i)).2 := by
            rw [after, zaddLoop, if_neg (by simp [hscore]), skips_eq, hskip,
              if_neg Bool.false_ne_true]
            rfl
          rw [if_neg Bool.false_ne_true, hafter, hstored]
          dsimp only
          rw [hch, Bool.true_or, if_pos rfl, hloop, Bool.toNat_true]
          congr 1
          push_cast
          omega

theorem idle_eq_zero_iff (hnum : ∀ p ∈ members, isNaN p.1 = false) (levels : Nat → Level)
    (i : Nat) (z : ZSetInner) :
    (tally (idle flags) (after flags levels) (members.zipIdx i) z).1 = 0 ↔
      ∀ member : String, Alters flags.skips z.scores[member]? (scoresOf member members) := by
  induction members generalizing i z with
  | nil => simp [tally, scoresOf, Alters]
  | cons p members ih =>
      obtain ⟨hp, hrest⟩ := List.forall_mem_cons.mp hnum
      have hidle : idle flags z (p, i) = false ↔
          flags.skips z.scores[p.2]? p.1 = true ∨ z.scores[p.2]? ≠ some p.1 := by
        rw [idle, stored]
        cases flags.skips z.scores[p.2]? p.1 <;> simp
      have hself : (after flags levels z (p, i)).scores[p.2]? =
          overwrite flags.skips z.scores[p.2]? p.1 := after_scores_self hp
      rw [List.zipIdx_cons, tally, Nat.add_eq_zero_iff, Bool.toNat_eq_zero, ih hrest, hidle]
      constructor
      · rintro ⟨hlater, hfirst⟩ member
        by_cases heq : p.2 = member
        · subst heq
          rw [scoresOf_cons_self]
          refine ⟨hfirst, ?_⟩
          rw [← hself]
          exact hlater p.2
        · rw [scoresOf_cons_ne heq, ← after_scores_ne (x := (p, i)) hp heq]
          exact hlater member
      · intro h
        have hmember := h p.2
        rw [scoresOf_cons_self] at hmember
        refine ⟨fun member => ?_, hmember.1⟩
        by_cases heq : p.2 = member
        · subst heq
          rw [hself]
          exact hmember.2
        · rw [after_scores_ne hp heq, ← scoresOf_cons_ne heq]
          exact h member

theorem zadd_counts (hch : flags.ch = true) (hnum : ∀ p ∈ members, isNaN p.1 = false)
    (levels : Nat → Level) (z : ZSetInner) :
    (zadd flags levels members z).1 =
      .ok (tally (stored flags) (after flags levels) members.zipIdx z).1 := by
  rw [zadd, zaddLoop_counts hch hnum, Int.zero_add]

/-- The count is right exactly if no pair is idle. -/
theorem zadd_changes_iff (hch : flags.ch = true) (hnum : ∀ p ∈ members, isNaN p.1 = false)
    (levels : Nat → Level) (z : ZSetInner) :
    (zadd flags levels members z).1 = .ok (changes flags levels members z) ↔
      ∀ member : String, Alters flags.skips z.scores[member]? (scoresOf member members) := by
  have hnumIdx : ∀ x ∈ members.zipIdx, isNaN x.1.1 = false :=
    fun x hx => hnum x.1 (List.fst_mem_of_mem_zipIdx hx)
  have hsplit : (tally (stored flags) (after flags levels) members.zipIdx z).1 =
      changes flags levels members z +
        (tally (idle flags) (after flags levels) members.zipIdx z).1 :=
    tally_add (fun _ x hx => stored_eq (hnumIdx x hx)) z
  rw [zadd_counts hch hnum, ← idle_eq_zero_iff hnum levels 0 z, hsplit,
    Except.ok.injEq, Nat.cast_inj]
  omega

/-- The count is zero exactly if every pair is skipped on the set as it is. -/
theorem zadd_zero_iff (hch : flags.ch = true) (hnum : ∀ p ∈ members, isNaN p.1 = false)
    (levels : Nat → Level) (z : ZSetInner) :
    (zadd flags levels members z).1 = .ok 0 ↔
      ∀ p ∈ members, flags.skips z.scores[p.2]? p.1 = true := by
  have hzero : (tally (stored flags) (after flags levels) members.zipIdx z).1 = 0 ↔
      ∀ x ∈ members.zipIdx, stored flags z x = false :=
    tally_eq_zero (fun _ _ => after_of_not_stored) members.zipIdx z
  have hall : (∀ p ∈ members, flags.skips z.scores[p.2]? p.1 = true) ↔
      ∀ x ∈ members.zipIdx, stored flags z x = false := by
    conv_lhs => rw [← List.zipIdx_map_fst 0 members, List.forall_mem_map]
    simp [stored]
  rw [zadd_counts hch hnum, hall, ← hzero, Except.ok.injEq, Int.natCast_eq_zero]

end

end ZSetInner

/-! ## The flags -/

namespace ZAddFlags

variable {flags : ZAddFlags} {old : Option F64} {scores : List F64}

theorem differ_of_directed (hdir : flags.nx = true ∨ flags.gt = true ∨ flags.lt = true)
    (old : Option F64) (score : F64) (hscore : isNaN score = false)
    (hskip : flags.skips old score = false) : old ≠ some score := by
  rintro rfl
  obtain h | h | h := hdir
  · simp [skips, h] at hskip
  · simp [skips, h, F64.le, hscore] at hskip
  · simp [skips, h, F64.le, hscore] at hskip

theorem skips_undirected (hnx : flags.nx = false) (hgt : flags.gt = false)
    (hlt : flags.lt = false) (old : Option F64) (score : F64) :
    flags.skips old score = (flags.xx && old.isNone) := by
  simp [skips, hnx, hgt, hlt]

theorem alters_undirected_iff (hnx : flags.nx = false) (hgt : flags.gt = false)
    (hlt : flags.lt = false) :
    Alters flags.skips old scores ↔
      (flags.xx = true → old.isSome) → (old.toList ++ scores).IsChain (· ≠ ·) := by
  have hskip := skips_undirected hnx hgt hlt
  by_cases hxx : flags.xx = true → old.isSome
  · rw [alters_open_iff, imp_iff_right hxx]
    · intro v new
      simp [hskip]
    · intro new
      rw [hskip]
      simpa using hxx
  · obtain ⟨hxx, hold⟩ := Classical.not_imp.mp hxx
    have hall : ∀ s ∈ scores, flags.skips old s = true := by
      intro s _
      rw [hskip, hxx]
      simpa using hold
    exact iff_of_true (alters_skipped hall) fun h => absurd (h hxx) hold

theorem skips_again_iff {score : F64} (hscore : isNaN score = false) :
    flags.skips (overwrite flags.skips old score) score = true ↔
      flags.nx = true ∨ flags.gt = true ∨ flags.lt = true ∨ (flags.xx = true ∧ old = none) := by
  rw [overwrite]
  by_cases hdir : flags.nx = true ∨ flags.gt = true ∨ flags.lt = true
  · have hagain : flags.skips (some score) score = true := by
      by_contra hskip
      exact differ_of_directed hdir (some score) score hscore (by simpa using hskip) rfl
    refine iff_of_true ?_ (hdir.imp_right (Or.imp_right Or.inl))
    split
    · assumption
    · exact hagain
  · obtain ⟨hnx, hgt, hlt⟩ : flags.nx = false ∧ flags.gt = false ∧ flags.lt = false := by
      simpa using hdir
    rw [skips_undirected hnx hgt hlt]
    cases hxx : flags.xx with
    | true => cases old <;> simp [hnx, hgt, hlt, skips_undirected, hxx]
    | false => simp [hnx, hgt, hlt, skips_undirected, hxx]

end ZAddFlags

/-! ## The law -/

theorem scoresOf_of_nodup {members : List (F64 × String)} (h : (members.map Prod.snd).Nodup)
    {p : F64 × String} (hp : p ∈ members) : scoresOf p.2 members = [p.1] := by
  induction members with
  | nil => exact absurd hp List.not_mem_nil
  | cons q members ih =>
      obtain ⟨hq, hrest⟩ := List.nodup_cons.mp h
      obtain rfl | hp := List.mem_cons.mp hp
      · have hnone : scoresOf p.2 members = [] := by
          rw [scoresOf, List.map_eq_nil_iff, List.filter_eq_nil_iff]
          intro r hr heq
          exact hq (List.mem_map.mpr ⟨r, hr, of_decide_eq_true heq⟩)
        rw [scoresOf_cons_self, hnone]
      · have hne : q.2 ≠ p.2 := by
          intro heq
          exact hq (heq ▸ List.mem_map_of_mem hp)
        rw [scoresOf_cons_ne hne, ih hrest hp]

namespace Database

variable {self : Database} {db : Nat} {key : String} {z : ZSetInner} {flags : ZAddFlags}
  {members : List (F64 × String)}

/-- `ZADD CH` counts the changes, and distinct members given a second time change nothing. -/
structure ChLaw (before : Database) (now : Instant) (levels : Nat → Level) (db : Nat)
    (key : String) (z : ZSetInner) (members : List (F64 × String)) (flags : ZAddFlags) :
    Prop where
  reply : (before.zadd now levels db key members flags).1 =
    .ok (z.changes flags levels members)
  again : (members.map Prod.snd).Nodup → ∀ now' levels',
    ((before.zadd now levels db key members flags).2.zadd now' levels' db key members flags).1 =
      .ok 0

/-- The second time, each member has the score that its only pair left. -/
theorem zadd_again_iff (hz : (self.cellAt db key).valueAs zsetKind.toKind .new = some z)
    (hdb : db < self.dbs.length) (hch : flags.ch = true) (hnum : ∀ p ∈ members, isNaN p.1 = false)
    (hnodup : (members.map Prod.snd).Nodup) (now now' : Instant) (levels levels' : Nat → Level) :
    ((self.zadd now levels db key members flags).2.zadd now' levels' db key members flags).1 =
        .ok 0 ↔
      ∀ p ∈ members, flags.nx = true ∨ flags.gt = true ∨ flags.lt = true ∨
        (flags.xx = true ∧ z.scores[p.2]? = none) := by
  rw [zadd_eq hz hdb]
  have hcell := cellAt_putCell hdb key { self.cellAt db key with
    obj := some (.zset (ZSetInner.zadd flags levels members z).2) }
  have hagain := zadd_eq (z := (ZSetInner.zadd flags levels members z).2)
    (by rw [hcell]; rfl) (by simpa using hdb) now' levels' members flags
  rw [hagain, ZSetInner.zadd_zero_iff hch hnum]
  refine forall₂_congr fun p hp => ?_
  have hscore : (ZSetInner.zadd flags levels members z).2.scores[p.2]? =
      overwrite flags.skips z.scores[p.2]? p.1 := by
    rw [ZSetInner.zadd, ZSetInner.zaddLoop_scores, beforeNaN_eq_self hnum,
      scoresOf_of_nodup hnodup hp]
    rfl
  rw [hscore, ZAddFlags.skips_again_iff (hnum p hp)]

/-- **The changes that `ZADD CH` counts.**  The count is right exactly if one of `NX`, `GT`
and `LT` is given, or no pair stores the score that its member has, and distinct members are
not stored at all. -/
theorem ch_law_iff (hz : (self.cellAt db key).valueAs zsetKind.toKind .new = some z)
    (hdb : db < self.dbs.length) (hch : flags.ch = true) (hnum : ∀ p ∈ members, isNaN p.1 = false)
    (now : Instant) (levels : Nat → Level) :
    self.ChLaw now levels db key z members flags ↔
      flags.nx = true ∨ flags.gt = true ∨ flags.lt = true ∨
        (∀ member : String, (flags.xx = true → member ∈ z.scores) →
          ((z.scores[member]?).toList ++ scoresOf member members).IsChain (· ≠ ·)) ∧
        ((members.map Prod.snd).Nodup → ∀ p ∈ members, flags.xx = true ∧ p.2 ∉ z.scores) := by
  have hreply : (self.zadd now levels db key members flags).1 =
        .ok (z.changes flags levels members) ↔
      ∀ member : String, Alters flags.skips z.scores[member]? (scoresOf member members) := by
    rw [zadd_eq hz hdb, ← ZSetInner.zadd_changes_iff hch hnum levels z]
  have hagain := zadd_again_iff hz hdb hch hnum
  by_cases hdir : flags.nx = true ∨ flags.gt = true ∨ flags.lt = true
  · refine iff_of_true ⟨?_, ?_⟩ (hdir.imp_right (Or.imp_right Or.inl))
    · rw [hreply]
      intro member
      refine alters_of_differ (ZAddFlags.differ_of_directed hdir) fun s hs => ?_
      obtain ⟨p, hp, rfl⟩ := List.mem_map.mp hs
      exact hnum p (List.mem_of_mem_filter hp)
    · intro hnodup now' levels'
      rw [hagain hnodup now now' levels levels']
      exact fun p _ => hdir.imp_right (Or.imp_right Or.inl)
  · obtain ⟨hnx, hgt, hlt⟩ : flags.nx = false ∧ flags.gt = false ∧ flags.lt = false := by
      simpa using hdir
    have hchain : (∀ member : String,
          Alters flags.skips z.scores[member]? (scoresOf member members)) ↔
        ∀ member : String, (flags.xx = true → member ∈ z.scores) →
          ((z.scores[member]?).toList ++ scoresOf member members).IsChain (· ≠ ·) := by
      refine forall_congr' fun member => ?_
      rw [ZAddFlags.alters_undirected_iff hnx hgt hlt, Std.ExtTreeMap.mem_iff_isSome_getElem?]
    have hlisted : ∀ p ∈ members,
        (flags.nx = true ∨ flags.gt = true ∨ flags.lt = true ∨
          (flags.xx = true ∧ z.scores[p.2]? = none)) ↔ flags.xx = true ∧ p.2 ∉ z.scores := by
      intro p _
      simp [hnx, hgt, hlt]
    rw [← hchain, ← hreply]
    constructor
    · intro h
      refine Or.inr (Or.inr (Or.inr ⟨h.reply, fun hnodup p hp => ?_⟩))
      rw [← hlisted p hp]
      exact (hagain hnodup now now levels levels).mp (h.again hnodup now levels) p hp
    · intro h
      obtain ⟨hcount, habsent⟩ := ((h.resolve_left (by simp [hnx])).resolve_left
        (by simp [hgt])).resolve_left (by simp [hlt])
      refine ⟨hcount, fun hnodup now' levels' =>
        (hagain hnodup now now' levels levels').mpr fun p hp => ?_⟩
      rw [hlisted p hp]
      exact habsent hnodup p hp

/-- `ZADD k CH inf a -inf a` stores two scores, and changes the member both times. -/
theorem ch_law_iff_repeated :
    (Database.new 1).ChLaw 0 (Env.at 0).levels 0 "k" .new [(.posInf, "a"), (.negInf, "a")]
      ⟨false, false, false, false, true⟩ := by
  refine (ch_law_iff rfl (by decide +kernel) rfl (by decide +kernel) 0 _).mpr
    (Or.inr (Or.inr (Or.inr ⟨?_, ?_⟩)))
  · intro member _
    have hnone : ZSetInner.new.scores[member]? = none := by simp [ZSetInner.new]
    rw [hnone]
    by_cases h : "a" = member <;> simp [scoresOf, h]
  · intro hnodup
    exact absurd hnodup (by decide)

/-- `ZADD k CH 0 a` replies one also the second time. -/
theorem ch_law_same_score :
    (((Database.new 1).zadd 0 (Env.at 0).levels 0 "k" [(.zero, "a")]
        ⟨false, false, false, false, true⟩).2.zadd 0 (Env.at 0).levels 0 "k" [(.zero, "a")]
        ⟨false, false, false, false, true⟩).1 = .ok 1 ∧
      ¬ (Database.new 1).ChLaw 0 (Env.at 0).levels 0 "k" .new [(.zero, "a")]
        ⟨false, false, false, false, true⟩ := by
  have hsecond : (((Database.new 1).zadd 0 (Env.at 0).levels 0 "k" [(.zero, "a")]
      ⟨false, false, false, false, true⟩).2.zadd 0 (Env.at 0).levels 0 "k" [(.zero, "a")]
      ⟨false, false, false, false, true⟩).1 = .ok 1 := rfl
  refine ⟨hsecond, fun h => ?_⟩
  have hagain := h.again (by decide) 0 (Env.at 0).levels
  rw [hsecond] at hagain
  exact absurd (Except.ok.inj hagain) (by decide)

end Database

end MiniRudis
