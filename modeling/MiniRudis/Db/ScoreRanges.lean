import Mathlib.Order.Interval.Set.Defs
import MiniRudis.Db.RankOrder

/-!
# Sorted sets by score

The test of a score against two bounds is membership in the interval that the bounds
denote.  All commands on score ranges are about one selection of the members.
-/

namespace MiniRudis

open Lib

/-! ## Intervals -/

namespace ScoreBound

def lower (b : ScoreBound) : Set F64 := if b.exclusive then Set.Ioi b.value else Set.Ici b.value

def upper (b : ScoreBound) : Set F64 := if b.exclusive then Set.Iio b.value else Set.Iic b.value

def interval (min max : ScoreBound) : Set F64 := min.lower ∩ max.upper

/-- What the infinity flags stand for. -/
structure Denotes (b : ScoreBound) : Prop where
  negInf : b.isNegInf = true → b.value = .negInf ∧ b.exclusive = false
  posInf : b.isPosInf = true → b.value = .posInf ∧ b.exclusive = false

theorem denotes_of_parse {s : String} {b : ScoreBound} (h : parse s = .ok b) : b.Denotes := by
  have hplain : ∀ v, (inclusive v).Denotes ∧ (exclusiveAt v).Denotes := fun v =>
    ⟨⟨by simp [inclusive], by simp [inclusive]⟩, ⟨by simp [exclusiveAt], by simp [exclusiveAt]⟩⟩
  unfold parse at h
  split at h
  · obtain rfl := Except.ok.inj h
    exact ⟨by simp [ScoreBound.posInf], fun _ => ⟨rfl, rfl⟩⟩
  · split at h
    · obtain rfl := Except.ok.inj h
      exact ⟨fun _ => ⟨rfl, rfl⟩, by simp [ScoreBound.negInf]⟩
    · split at h
      · split at h
        · obtain rfl := Except.ok.inj h
          exact (hplain _).2
        · exact absurd h (by simp [err])
      · split at h
        · obtain rfl := Except.ok.inj h
          exact (hplain _).1
        · exact absurd h (by simp [err])

theorem negInf_le (score : F64) : F64.negInf ≤ score := by
  show F64.place .negInf ≤ F64.place score
  cases score <;> simp [F64.place, Prod.Lex.toLex_le_toLex]

theorem le_posInf {score : F64} (hscore : isNaN score = false) : score ≤ .posInf := by
  show F64.place score ≤ F64.place .posInf
  cases score with
  | nan => exact absurd hscore (by decide)
  | _ => simp [F64.place, Prod.Lex.toLex_le_toLex]

variable {b min max : ScoreBound} {score : F64}

theorem contains_iff (hb : b.Denotes) (hnan : isNaN b.value = false) (hscore : isNaN score = false) :
    b.contains score = true ↔ score ∈ b.lower := by
  rw [contains, lower]
  cases hneg : b.isNegInf with
  | true =>
      obtain ⟨hvalue, hincl⟩ := hb.negInf hneg
      rw [hincl, hvalue]
      exact iff_of_true rfl (negInf_le score)
  | false =>
      cases b.exclusive with
      | true => simp [F64.lt, hnan, hscore]
      | false => simp [F64.le, hnan, hscore]

theorem containsUpper_iff (hb : b.Denotes) (hnan : isNaN b.value = false)
    (hscore : isNaN score = false) : b.containsUpper score = true ↔ score ∈ b.upper := by
  rw [containsUpper, upper]
  cases hpos : b.isPosInf with
  | true =>
      obtain ⟨hvalue, hincl⟩ := hb.posInf hpos
      rw [hincl, hvalue]
      exact iff_of_true rfl (le_posInf hscore)
  | false =>
      cases b.exclusive with
      | true => simp [F64.lt, hnan, hscore]
      | false => simp [F64.le, hnan, hscore]

end ScoreBound

namespace ZSetInner

variable {min max : ScoreBound}

theorem inRange_iff (hmin : min.Denotes) (hmax : max.Denotes) (hminNum : isNaN min.value = false)
    (hmaxNum : isNaN max.value = false) {p : String × F64} (hp : isNaN p.2 = false) :
    inRange min max p = true ↔ p.2 ∈ min.interval max := by
  rw [inRange, Bool.and_eq_true, ScoreBound.contains_iff hmin hminNum hp,
    ScoreBound.containsUpper_iff hmax hmaxNum hp]
  rfl

variable {z : ZSetInner}

/-- The pairs that the score ranges select, in ascending order. -/
def selection (z : ZSetInner) (min max : ScoreBound) : List (String × F64) :=
  z.sl.iter.filter (inRange min max)

theorem revselection_eq (z : ZSetInner) (min max : ScoreBound) :
    z.sl.iterRev.filter (inRange min max) = (z.selection min max).reverse := by
  rw [selection, SkipIndex.iterRev_eq, List.filter_reverse]

def unselected (z : ZSetInner) (min max : ScoreBound) : ZSetInner :=
  z.removeAll ((z.selection min max).map Prod.fst)

theorem removeByScore_eq (z : ZSetInner) (min max : ScoreBound) :
    z.removeByScore min max = ((z.selection min max).length, z.unselected min max) := by
  rw [removeByScore, List.length_map]
  rfl

namespace Coupled

variable (h : z.Coupled)
include h

theorem mem_selection (hmin : min.Denotes) (hmax : max.Denotes) (hminNum : isNaN min.value = false)
    (hmaxNum : isNaN max.value = false) (member : String) (score : F64) :
    (member, score) ∈ z.selection min max ↔
      z.scores[member]? = some score ∧ score ∈ min.interval max := by
  rw [selection, List.mem_filter, h.graph]
  refine and_congr_right fun hscore => ?_
  exact inRange_iff hmin hmax hminNum hmaxNum (h.score_not_nan hscore)

theorem iter_unselected (min max : ScoreBound) :
    (z.unselected min max).sl.iter = z.sl.iter.filter fun p => !inRange min max p :=
  h.iter_removeAll _

theorem scores_unselected (hmin : min.Denotes) (hmax : max.Denotes)
    (hminNum : isNaN min.value = false) (hmaxNum : isNaN max.value = false) (member : String)
    (score : F64) :
    (z.unselected min max).scores[member]? = some score ↔
      z.scores[member]? = some score ∧ score ∉ min.interval max := by
  have hrest : (z.unselected min max).Coupled := h.removeAll_coupled _
  rw [← hrest.graph, h.iter_unselected, List.mem_filter, h.graph]
  refine and_congr_right fun hscore => ?_
  rw [← inRange_iff (p := (member, score)) hmin hmax hminNum hmaxNum (h.score_not_nan hscore)]
  cases inRange min max (member, score) <;> simp

theorem selection_unselected (min max : ScoreBound) :
    (z.unselected min max).selection min max = [] := by
  rw [selection, h.iter_unselected, List.filter_filter, List.filter_eq_nil_iff]
  intro p _
  cases inRange min max p <;> simp

end Coupled

end ZSetInner

/-! ## The commands -/

namespace Database

/-- The commands on score ranges, for a selection of the members and the set of the others. -/
structure ScoreRangeLaw (before : Database) (now : Instant) (db : Nat) (key : String)
    (z : ZSetInner) (min max : ScoreBound) (sel : List (String × F64)) (rest : ZSetInner) :
    Prop where
  ascending : sel.Pairwise fun p q => keyOf p < keyOf q
  selected : ∀ (member : String) (score : F64), (member, score) ∈ sel ↔
    z.scores[member]? = some score ∧ score ∈ min.interval max
  range : ∀ withscores offset count,
    before.zrangebyscore now db key min max withscores offset count =
      .ok ((ZSetInner.page offset count sel).map (ZSetInner.scored withscores))
  revrange : ∀ withscores offset count,
    before.zrevrangebyscore now db key max min withscores offset count =
      .ok ((ZSetInner.page offset count sel.reverse).map (ZSetInner.scored withscores))
  count : before.zcount now db key min max = .ok sel.length
  removes : before.zremrangebyscore now db key min max =
    (.ok sel.length, before.putCell db key
      (if rest.isEmpty then .absent
      else { before.cellAt db key with obj := some (.zset rest) }))
  coupled : rest.Coupled
  kept : ∀ (member : String) (score : F64), rest.scores[member]? = some score ↔
    z.scores[member]? = some score ∧ score ∉ min.interval max
  order : rest.sl.iter.Sublist z.sl.iter
  again : ∀ later,
    (before.zremrangebyscore now db key min max).2.zremrangebyscore later db key min max =
      (.ok 0, (before.zremrangebyscore now db key min max).2)

variable {self : Database} {db : Nat} {now : Instant} {key : String} {z : ZSetInner}
  {min max : ScoreBound}

theorem zremrangebyscore_stored (hdb : db < self.dbs.length)
    (hobj : (self.cellAt db key).obj = some (.zset z)) (now : Instant) (min max : ScoreBound) :
    self.zremrangebyscore now db key min max =
      (.ok (z.selection min max).length, self.putCell db key
        (if (z.unselected min max).isEmpty then .absent
        else { self.cellAt db key with obj := some (.zset (z.unselected min max)) })) := by
  have hremove : ZSetInner.succeed (z.removeByScore min max) =
      (.ok (z.selection min max).length, z.unselected min max) := by
    rw [z.removeByScore_eq]
    rfl
  exact access_stored zsetKind 0 hdb hobj hremove now

theorem zremrangebyscore_nothing (hdb : db < self.dbs.length)
    (h : (self.cellAt db key).obj = none ∨
      ∃ z : ZSetInner, (self.cellAt db key).obj = some (.zset z) ∧ z.isEmpty = false ∧
        z.selection min max = []) (now : Instant) :
    self.zremrangebyscore now db key min max = (.ok 0, self) := by
  obtain hnone | ⟨z, hobj, hfull, hsel⟩ := h
  · exact access_absent zsetKind 0 hdb hnone now _
  · have hsame : z.unselected min max = z := by
      rw [ZSetInner.unselected, hsel]
      rfl
    rw [zremrangebyscore_stored hdb hobj, hsame, hsel, hfull, if_neg Bool.false_ne_true, ← hobj]
    exact congrArg (Prod.mk _) (putCell_cellAt self db key)

theorem zremrangebyscore_again (hdb : db < self.dbs.length)
    (hobj : (self.cellAt db key).obj = some (.zset z)) (h : z.Coupled) (now later : Instant)
    (min max : ScoreBound) :
    (self.zremrangebyscore now db key min max).2.zremrangebyscore later db key min max =
      (.ok 0, (self.zremrangebyscore now db key min max).2) := by
  rw [zremrangebyscore_stored hdb hobj]
  apply zremrangebyscore_nothing (by simpa using hdb)
  rw [cellAt_putCell hdb]
  cases hempty : (z.unselected min max).isEmpty with
  | true => exact Or.inl rfl
  | false => exact Or.inr ⟨_, rfl, hempty, h.selection_unselected min max⟩

/-- **The commands on score ranges agree.** -/
theorem score_ranges_agree (lo hi : String) (h : self.Reachable)
    (hlive : (self.cellAt db key).live now = some (.zset z))
    (hlo : ScoreBound.parse lo = .ok min) (hhi : ScoreBound.parse hi = .ok max)
    (hmin : isNaN min.value = false) (hmax : isNaN max.value = false) :
    ∃ sel rest, self.ScoreRangeLaw now db key z min max sel rest := by
  have hobj := (Cell.live_eq_some hlive).2
  have hdb := lt_of_live hlive
  have hz : z.Coupled := h.coupled hobj
  have hlower := ScoreBound.denotes_of_parse hlo
  have hupper := ScoreBound.denotes_of_parse hhi
  refine ⟨z.selection min max, z.unselected min max, ?_⟩
  constructor
  case ascending => exact hz.strict.sorted.sublist List.filter_sublist
  case selected => exact hz.mem_selection hlower hupper hmin hmax
  case range =>
    intro withscores offset count
    rw [zrangebyscore, readDb_live zsetKind.toKind hlive]
    rfl
  case revrange =>
    intro withscores offset count
    rw [zrevrangebyscore, readDb_live zsetKind.toKind hlive, ZSetInner.revrangeByScore,
      z.revselection_eq]
  case count =>
    rw [zcount, readDb_live zsetKind.toKind hlive]
    rfl
  case removes => exact zremrangebyscore_stored hdb hobj now min max
  case coupled => exact hz.removeAll_coupled _
  case kept => exact hz.scores_unselected hlower hupper hmin hmax
  case order =>
    rw [hz.iter_unselected]
    exact List.filter_sublist
  case again => exact fun later => zremrangebyscore_again hdb hobj hz now later min max

theorem score_ranges_agree_sample :
    ∃ sel rest, ((Database.new 1).runSteps rankingSteps).ScoreRangeLaw 0 0 "z" rankingSet
      .negInf (.exclusiveAt .posInf) sel rest :=
  score_ranges_agree "-inf" "(inf" ⟨1, rankingSteps, rfl⟩ rfl (by decide +kernel)
    (by decide +kernel) rfl rfl

end Database

end MiniRudis
