import MiniRudis.Cmd.ZSets
import MiniRudis.Db.Scores

/-!
# The flags of `ZADD`

The loop tests each pair against a set that changes under way.  Its outcome for a member
depends on the flags, the old score and the member's own pairs alone, and has a closed form.
-/

namespace MiniRudis

open Lib

namespace ZAddFlags

def Accepted (flags : ZAddFlags) : Prop :=
  ∃ env args key members, Cmd.parseZadd env args = .ok (.zAdd ⟨key, members, flags⟩)

def Exclusive (flags : ZAddFlags) : Prop :=
  (flags.nx && flags.xx) = false ∧ (flags.gt && flags.lt) = false

end ZAddFlags

theorem Cmd.parseZadd_exclusive (env : Env) (args : List Bytes) :
    Returns (fun cmd => ∀ a, cmd = .zAdd a → a.flags.Exclusive) (fun _ => True)
      (parseZadd env args) := by
  apply atLeast_returns trivial
  intro _
  apply (Returns.any (strAt args 0)).bind
  intro key _
  cases zaddFlags env.upper (args.drop 1) ⟨false, false, false, false, false⟩ with
  | mk flags rest =>
      dsimp only
      split
      · trivial
      · apply (Returns.any (zaddMembers rest)).bind
        intro members _
        split
        · trivial
        · rename_i hflags
          rintro a ⟨⟩
          simpa [ZAddFlags.Exclusive] using hflags

theorem ZAddFlags.Accepted.exclusive {flags : ZAddFlags} (h : flags.Accepted) :
    flags.Exclusive := by
  obtain ⟨env, args, key, members, hparse⟩ := h
  exact (Cmd.parseZadd_exclusive env args).ok hparse _ rfl

/-! ## One member -/

namespace ZAddFlags

variable {flags : ZAddFlags} {scores : List F64}

theorem overwrites_xx (hxx : flags.xx = true) :
    scores.foldl (overwrite flags.skips) none = none :=
  overwrites_skipped fun s _ => by rw [skips_none, hxx]

theorem overwrites_nx {v : F64} (hnx : flags.nx = true) :
    scores.foldl (overwrite flags.skips) (some v) = some v :=
  overwrites_skipped fun s _ => by simp [skips, hnx]

theorem overwrites_nx_new (hnx : flags.nx = true) (hxx : flags.xx = false) :
    scores.foldl (overwrite flags.skips) none = scores.head? := by
  cases scores with
  | nil => rfl
  | cons s rest =>
      rw [List.foldl_cons, overwrite, skips_none, hxx, if_neg Bool.false_ne_true,
        overwrites_nx hnx]
      rfl

theorem overwrite_gt (hnx : flags.nx = false) (hgt : flags.gt = true) (hlt : flags.lt = false)
    (v new : F64) (hv : isNaN v = false) (hnew : isNaN new = false) :
    overwrite flags.skips (some v) new = some (max v new) := by
  have hskip : flags.skips (some v) new = decide (new ≤ v) := by
    simp [skips, hnx, hgt, hlt, F64.le, hv, hnew]
  rw [overwrite, hskip]
  by_cases hle : new ≤ v
  · rw [decide_eq_true hle, if_pos rfl, max_eq_left hle]
  · rw [decide_eq_false hle, if_neg Bool.false_ne_true, max_eq_right (le_of_not_ge hle)]

theorem overwrite_lt (hnx : flags.nx = false) (hgt : flags.gt = false) (hlt : flags.lt = true)
    (v new : F64) (hv : isNaN v = false) (hnew : isNaN new = false) :
    overwrite flags.skips (some v) new = some (min v new) := by
  have hskip : flags.skips (some v) new = decide (v ≤ new) := by
    simp [skips, hnx, hgt, hlt, F64.le, hv, hnew]
  rw [overwrite, hskip]
  by_cases hle : v ≤ new
  · rw [decide_eq_true hle, if_pos rfl, min_eq_left hle]
  · rw [decide_eq_false hle, if_neg Bool.false_ne_true, min_eq_right (le_of_not_ge hle)]

theorem not_isNaN_of_choice {op : F64 → F64 → F64} (h : ∀ v new, op v new = v ∨ op v new = new)
    (v new : F64) (hv : isNaN v = false) (hnew : isNaN new = false) : isNaN (op v new) = false := by
  obtain h | h := h v new
  · rwa [h]
  · rwa [h]

/-- What the scores given to a member make of the score it has. -/
structure MemberLaw (flags : ZAddFlags) (old : Option F64) (scores : List F64)
    (new : Option F64) : Prop where
  nx : flags.nx = true → new = old.or scores.head?
  xx : flags.xx = true → old = none → new = none
  gt : flags.gt = true → flags.nx = false → ∀ s, old = some s → new = (s :: scores).max?
  gtNew : flags.gt = true → flags.nx = false → flags.xx = false → old = none → new = scores.max?
  lt : flags.lt = true → flags.nx = false → ∀ s, old = some s → new = (s :: scores).min?
  ltNew : flags.lt = true → flags.nx = false → flags.xx = false → old = none → new = scores.min?
  last : flags.nx = false → flags.gt = false → flags.lt = false →
    (flags.xx = true → old.isSome) → scores ≠ [] → new = scores.getLast?
  unlisted : scores = [] → new = old

theorem Exclusive.xx_of_nx (h : flags.Exclusive) (hnx : flags.nx = true) : flags.xx = false := by
  simpa [hnx] using h.1

theorem Exclusive.lt_of_gt (h : flags.Exclusive) (hgt : flags.gt = true) : flags.lt = false := by
  simpa [hgt] using h.2

theorem Exclusive.gt_of_lt (h : flags.Exclusive) (hlt : flags.lt = true) : flags.gt = false := by
  simpa [hlt] using h.2

theorem memberLaw (h : flags.Exclusive) {old : Option F64}
    (hold : ∀ v, old = some v → isNaN v = false) (hscores : ∀ s ∈ scores, isNaN s = false) :
    flags.MemberLaw old scores (scores.foldl (overwrite flags.skips) old) := by
  constructor
  case nx =>
    intro hnx
    cases old with
    | none => exact overwrites_nx_new hnx (h.xx_of_nx hnx)
    | some v => exact overwrites_nx hnx
  case xx =>
    rintro hxx rfl
    exact overwrites_xx hxx
  case gt =>
    rintro hgt hnx s rfl
    exact overwrites_chosen (overwrite_gt hnx hgt (h.lt_of_gt hgt))
      (not_isNaN_of_choice max_choice) (hold s rfl) hscores
  case gtNew =>
    rintro hgt hnx hxx rfl
    cases scores with
    | nil => rfl
    | cons s rest =>
        exact overwrites_chosen_first (overwrite_gt hnx hgt (h.lt_of_gt hgt))
          (not_isNaN_of_choice max_choice) (fun s => by rw [skips_none, hxx]) hscores
  case lt =>
    rintro hlt hnx s rfl
    exact overwrites_chosen (overwrite_lt hnx (h.gt_of_lt hlt) hlt)
      (not_isNaN_of_choice min_choice) (hold s rfl) hscores
  case ltNew =>
    rintro hlt hnx hxx rfl
    cases scores with
    | nil => rfl
    | cons s rest =>
        exact overwrites_chosen_first (overwrite_lt hnx (h.gt_of_lt hlt) hlt)
          (not_isNaN_of_choice min_choice) (fun s => by rw [skips_none, hxx]) hscores
  case last =>
    intro hnx hgt hlt hxx hsome
    have hopen : ∀ v new, flags.skips (some v) new = false := by simp [skips, hnx, hgt, hlt]
    have hfirst : ∀ new, flags.skips old new = false := by
      intro new
      cases old with
      | none =>
          rw [skips_none]
          simpa using hxx
      | some v => exact hopen v new
    rw [overwrites_last hopen hfirst]
    cases hlast : scores.getLast? with
    | none => exact absurd (List.getLast?_eq_none_iff.mp hlast) hsome
    | some s => rfl
  case unlisted =>
    rintro rfl
    rfl

end ZAddFlags

/-! ## All members -/

namespace Database

variable {self : Database} {db : Nat} {key : String} {z : ZSetInner} {flags : ZAddFlags}
  {members : List (F64 × String)}

theorem zadd_ok (hnum : ∀ p ∈ members, isNaN p.1 = false) (flags : ZAddFlags)
    (levels : Nat → Level) (z : ZSetInner) :
    ∃ n, (ZSetInner.zadd flags levels members z).1 = .ok n := by
  cases hreply : (ZSetInner.zadd flags levels members z).1 with
  | ok n => exact ⟨n, rfl⟩
  | error e =>
      have hnan := (ZSetInner.zaddLoop_fails_iff flags levels 0 members 0 z).mp ⟨e, hreply⟩
      obtain ⟨p, hp, hbad⟩ := List.any_eq_true.mp hnan
      rw [hnum p hp] at hbad
      exact absurd hbad Bool.false_ne_true

/-- **The flags of `ZADD` in closed form**, for each member and any pairs, also repeated
ones.  A missing key counts as an empty set. -/
theorem zadd_closed_form (h : self.Reachable)
    (hz : (self.cellAt db key).valueAs zsetKind.toKind .new = some z) (hdb : db < self.dbs.length)
    (hflags : flags.Accepted) (hnum : ∀ p ∈ members, isNaN p.1 = false) (now : Instant)
    (levels : Nat → Level) :
    ∃ n z', self.zadd now levels db key members flags =
        (.ok n, self.putCell db key { self.cellAt db key with obj := some (.zset z') }) ∧
      ∀ member : String,
        flags.MemberLaw z.scores[member]? (scoresOf member members) z'.scores[member]? := by
  obtain ⟨n, hn⟩ := zadd_ok hnum flags levels z
  refine ⟨n, (ZSetInner.zadd flags levels members z).2, ?_, fun member => ?_⟩
  · rw [zadd_eq hz hdb, hn]
  · have hcoupled : z.Coupled := by
      obtain ⟨-, rfl⟩ | hobj := Cell.valueAs_eq_some.mp hz
      · exact ZSetInner.new_coupled
      · exact h.coupled hobj
    have hscores : ∀ s ∈ scoresOf member (beforeNaN members), isNaN s = false :=
      scoresOf_beforeNaN
    rw [beforeNaN_eq_self hnum] at hscores
    rw [ZSetInner.zadd, ZSetInner.zaddLoop_scores, beforeNaN_eq_self hnum]
    exact ZAddFlags.memberLaw hflags.exclusive (fun v => hcoupled.score_not_nan) hscores

theorem zadd_closed_form_gt :
    ∃ n z', ((Database.new 1).runSteps rankingSteps).zadd 0 (Env.at 0).levels 0 "z"
          [(.zero, "a"), (.posInf, "a")] ⟨false, false, true, false, false⟩ =
        (.ok n, ((Database.new 1).runSteps rankingSteps).putCell 0 "z"
          { ((Database.new 1).runSteps rankingSteps).cellAt 0 "z" with
            obj := some (.zset z') }) ∧
      ∀ member : String, ZAddFlags.MemberLaw ⟨false, false, true, false, false⟩
        rankingSet.scores[member]? (scoresOf member [(.zero, "a"), (.posInf, "a")])
        z'.scores[member]? := by
  have hflags : ZAddFlags.Accepted ⟨false, false, true, false, false⟩ :=
    ⟨.at 0, ["z", "GT", "inf", "a"].map asBytes, "z", [(.posInf, "a")], rfl⟩
  exact zadd_closed_form ⟨1, rankingSteps, rfl⟩ rfl (by decide +kernel) hflags
    (by decide +kernel) 0 _

end Database

end MiniRudis
