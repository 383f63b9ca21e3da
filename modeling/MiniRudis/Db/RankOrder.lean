import MiniRudis.Db.Ranks
import MiniRudis.Db.ZSetRuns

/-!
# Ranks and positions

`ZRANK` walks the skip list from the score that the map has, and `ZRANGE` walks it by
position.  Both describe the one order of the members by score and name.
-/

namespace MiniRudis

open Lib

namespace ZSetInner

variable {z : ZSetInner} {member : String} {score : F64}

def below (z : ZSetInner) (member : String) (score : F64) : List (String × F64) :=
  z.scores.toList.filter fun p => decide (keyOf p < toLex (score, member))

theorem rank_absent (h : z.scores[member]? = none) : z.rank member = none := by
  rw [rank, h]
  rfl

theorem revrank_absent (h : z.scores[member]? = none) : z.revrank member = .ok none := by
  rw [revrank, rank_absent h]

namespace Coupled

/-- A member has a position, its two ranks count to it from the two ends, and only smaller
members stand before it. -/
theorem position (h : z.Coupled) (hscore : z.scores[member]? = some score) :
    ∃ i, z.sl.iter[i]? = some (member, score) ∧ z.rank member = some i ∧
      z.revrank member = .ok (some (z.len - 1 - i)) ∧ (z.below member score).length = i := by
  obtain ⟨i, hi⟩ := List.getElem?_of_mem ((h.graph member score).mpr hscore)
  refine ⟨i, hi, h.rank_getElem hi, h.revrank_getElem hi, ?_⟩
  rw [below, ← (h.iter_perm.filter _).length_eq]
  exact length_filter_lt h.strict.sorted hi

theorem at_rank (h : z.Coupled) {r : Nat} (hrank : z.rank member = some r) :
    ∃ score, z.scores[member]? = some score ∧ z.sl.iter[r]? = some (member, score) := by
  cases hscore : z.scores[member]? with
  | none =>
      rw [rank_absent hscore] at hrank
      exact absurd hrank (by simp)
  | some score =>
      obtain ⟨i, hi, hrank', -⟩ := h.position hscore
      obtain rfl := Option.some.inj (hrank'.symm.trans hrank)
      exact ⟨score, rfl, hi⟩

theorem rank_isSome (h : z.Coupled) : (z.rank member).isSome ↔ member ∈ z.scores := by
  rw [Std.ExtTreeMap.mem_iff_isSome_getElem?]
  cases hscore : z.scores[member]? with
  | none => simp [rank_absent hscore]
  | some score =>
      obtain ⟨i, -, hrank, -⟩ := h.position hscore
      rw [hrank]
      rfl

theorem zrange_position (h : z.Coupled) {i : Nat} {p : String × F64} (hi : z.sl.iter[i]? = some p)
    (withscores : Bool) : zrange i i false withscores z = .ok [scored withscores p] := by
  have hsigned : signed z.len i = (i : Int) := if_neg (by omega)
  have hmax : max (i : Int) 0 = i := max_eq_left (by omega)
  rw [h.zrange_eq, hsigned, hmax, between_single hi]
  rfl

end Coupled

end ZSetInner

namespace Database

/-- The ranks of a sorted set are the positions of its members in one order. -/
structure RankOrder (before : Database) (now : Instant) (db : Nat) (key : String)
    (z : ZSetInner) : Prop where
  counts : ∀ member score, z.scores[member]? = some score →
    before.zrank now db key member = .ok (some (z.below member score).length)
  opposite : ∀ member r, before.zrank now db key member = .ok (some r) →
    ∃ r', before.zrevrank now db key member = .ok (some r') ∧ r + r' + 1 = z.scores.size
  distinct : ∀ member other r, before.zrank now db key member = .ok (some r) →
    before.zrank now db key other = .ok (some r) → member = other
  exhausted : ∀ r, r < z.scores.size ↔
    ∃ member, before.zrank now db key member = .ok (some r)
  shown : ∀ member score r, z.scores[member]? = some score →
    before.zrank now db key member = .ok (some r) → ∀ withscores,
      before.zrange now db key r r false withscores =
        .ok [ZSetInner.scored withscores (member, score)]
  null : ∀ member, before.zrank now db key member = .ok none ↔ member ∉ z.scores
  revnull : ∀ member, before.zrevrank now db key member = .ok none ↔ member ∉ z.scores

variable {self : Database} {db : Nat} {now : Instant} {key : String} {z : ZSetInner}

section
variable (hlive : (self.cellAt db key).live now = some (.zset z)) (member : String)
include hlive

theorem zrank_live : self.zrank now db key member = .ok (z.rank member) := by
  rw [zrank, readDb_live zsetKind.toKind hlive]

theorem zrevrank_live : self.zrevrank now db key member = z.revrank member := by
  rw [zrevrank, readDb_live zsetKind.toKind hlive]

end

/-- **Ranks and index ranges describe one order.** -/
theorem rank_order (h : self.Reachable)
    (hlive : (self.cellAt db key).live now = some (.zset z)) : self.RankOrder now db key z := by
  have hz : z.Coupled := h.coupled (Cell.live_eq_some hlive).2
  have hrank : ∀ member r, self.zrank now db key member = .ok r ↔ z.rank member = r := by
    intro member r
    rw [zrank_live hlive, Except.ok.injEq]
  refine ⟨?_, ?_, ?_, ?_, ?_, ?_, ?_⟩
  · intro member score hscore
    obtain ⟨i, -, hi, -, hbelow⟩ := hz.position hscore
    rw [hrank, hi, hbelow]
  · intro member r hr
    obtain ⟨score, hscore, hget⟩ := hz.at_rank ((hrank _ _).mp hr)
    have hlt := hz.rank_lt ((hrank _ _).mp hr)
    refine ⟨z.len - 1 - r, ?_, ?_⟩
    · rw [zrevrank_live hlive, hz.revrank_getElem hget]
    · rw [ZSetInner.len] at hlt ⊢
      omega
  · intro member other r hr hr'
    obtain ⟨score, -, hget⟩ := hz.at_rank ((hrank _ _).mp hr)
    obtain ⟨score', -, hget'⟩ := hz.at_rank ((hrank _ _).mp hr')
    exact congrArg Prod.fst (Option.some.inj (hget.symm.trans hget'))
  · intro r
    constructor
    · intro hlt
      have hin : r < z.sl.iter.length := by rwa [hz.length_iter]
      exact ⟨_, (hrank _ _).mpr (hz.rank_getElem (List.getElem?_eq_getElem hin))⟩
    · rintro ⟨member, hr⟩
      exact hz.rank_lt ((hrank _ _).mp hr)
  · intro member score r hscore hr withscores
    obtain ⟨score', hscore', hget⟩ := hz.at_rank ((hrank _ _).mp hr)
    obtain rfl := Option.some.inj (hscore.symm.trans hscore')
    rw [zrange_live hlive, hz.zrange_position hget]
  · intro member
    rw [hrank, ← hz.rank_isSome, Option.not_isSome_iff_eq_none]
  · intro member
    rw [zrevrank_live hlive, Std.ExtTreeMap.mem_iff_isSome_getElem?, Option.not_isSome_iff_eq_none]
    cases hscore : z.scores[member]? with
    | none => simp [ZSetInner.revrank_absent hscore]
    | some score =>
        obtain ⟨i, -, -, hrev, -⟩ := hz.position hscore
        simp [hrev]

theorem rank_order_sample :
    ((Database.new 1).runSteps rankingSteps).RankOrder 0 0 "z" rankingSet :=
  rank_order ⟨1, rankingSteps, rfl⟩ rfl

end Database

end MiniRudis
