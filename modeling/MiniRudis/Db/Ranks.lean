import MiniRudis.Db.Slices

/-!
# Sorted sets by rank

The rank of a member is its index in the skip list.  So a range by index holds the
members between two ranks, while a reversed range holds the same members as the range
that it reverses.
-/

namespace MiniRudis

open Lib

namespace StrictPairs

variable {l : List (String × F64)}

theorem rankPair_eq (h : StrictPairs l) {member : String} {score : F64} {i : Nat}
    (hi : l[i]? = some (member, score)) : rankPair score member l = some i := by
  obtain ⟨low, high, rfl, rfl⟩ : ∃ low high, l = low ++ (member, score) :: high ∧ low.length = i := by
    obtain ⟨hlt, hget⟩ := List.getElem?_eq_some_iff.mp hi
    refine ⟨l.take i, l.drop (i + 1), ?_, List.length_take_of_le (Nat.le_of_lt hlt)⟩
    rw [← hget, List.getElem_cons_drop, List.take_append_drop]
  have hlow : ∀ p ∈ low, decide (keyOf p < toLex (score, member)) = true := by
    intro p hp
    exact decide_eq_true ((List.pairwise_append.mp h.sorted).2.2 p hp _ List.mem_cons_self)
  have hhigh : ((member, score) :: high).dropWhile
      (fun p => decide (keyOf p < toLex (score, member))) = (member, score) :: high := by
    simp [keyOf]
  have hnone : ((member, score) :: high).takeWhile
      (fun p => decide (keyOf p < toLex (score, member))) = [] := by
    simp [keyOf]
  rw [rankPair, highPairs, lowPairs, List.dropWhile_append_of_pos hlow,
    List.takeWhile_append_of_pos hlow, hhigh, hnone, List.append_nil]
  exact if_pos rfl

theorem ext {l' : List (String × F64)} (h : StrictPairs l) (h' : StrictPairs l')
    (hmem : ∀ p, p ∈ l ↔ p ∈ l') : l = l' := by
  have hperm : l.Perm l' := (List.perm_ext_iff_of_nodup h.nodup h'.nodup).mpr hmem
  exact hperm.eq_of_pairwise (fun _ _ _ _ hlt hgt => absurd (hlt.trans hgt) (lt_irrefl _))
    h.sorted h'.sorted

end StrictPairs

namespace ZSetInner

variable {z : ZSetInner}

/-- The members whose rank lies between two bounds, in ascending order. -/
def byRank (lo hi : Int) (z : ZSetInner) : List (String × F64) :=
  z.sl.iter.filter fun p => (z.rank p.1).any fun r : Nat => decide (lo ≤ (r : Int) ∧ (r : Int) ≤ hi)

def notByRank (lo hi : Int) (z : ZSetInner) : List (String × F64) :=
  z.sl.iter.filter fun p => !(z.rank p.1).any fun r : Nat => decide (lo ≤ (r : Int) ∧ (r : Int) ≤ hi)

def revrankBetween (lo hi : Int) (z : ZSetInner) (member : String) : Bool :=
  match z.revrank member with
  | .ok (some r) => decide (lo ≤ (r : Int) ∧ (r : Int) ≤ hi)
  | _ => false

def byRevrank (lo hi : Int) (z : ZSetInner) : List (String × F64) :=
  z.sl.iter.reverse.filter fun p => z.revrankBetween lo hi p.1

namespace Coupled

theorem length_iter (h : z.Coupled) : z.sl.iter.length = z.len := by
  rw [← SkipIndex.len_eq, h.len_eq]
  rfl

theorem rank_getElem (h : z.Coupled) {p : String × F64} {i : Nat} (hp : z.sl.iter[i]? = some p) :
    z.rank p.1 = some i := by
  have hscore : z.scores[p.1]? = some p.2 := (h.graph p.1 p.2).mp (List.mem_of_getElem? hp)
  rw [rank, hscore]
  show z.sl.rankOf p.2 p.1 = some i
  rw [SkipIndex.rankOf_eq, h.strict.rankPair_eq hp]

theorem revrank_getElem (h : z.Coupled) {p : String × F64} {i : Nat}
    (hp : z.sl.iter[i]? = some p) : z.revrank p.1 = .ok (some (z.len - 1 - i)) := by
  have hlt : i < z.len := h.rank_lt (h.rank_getElem hp)
  have hone : 1 ≤ z.len := by omega
  have hlast : i ≤ z.len - 1 := by omega
  have hfirst : subUsize z.len 1 = .ok (z.len - 1) := if_pos hone
  have hsecond : subUsize (z.len - 1) i = .ok (z.len - 1 - i) := if_pos hlast
  rw [revrank, h.rank_getElem hp]
  dsimp only
  rw [hfirst]
  show (subUsize (z.len - 1) i >>= fun r => .ok (some r)) = .ok (some (z.len - 1 - i))
  rw [hsecond]
  rfl

theorem byRank_eq (h : z.Coupled) (lo hi : Int) : z.byRank lo hi = between lo hi z.sl.iter := by
  apply filter_index_eq
  intro p hp
  exact h.rank_getElem (List.mem_zipIdx_iff_getElem?.mp hp)

theorem byRevrank_eq (h : z.Coupled) (lo hi : Int) :
    z.byRevrank lo hi =
      (between ((z.len : Int) - 1 - hi) ((z.len : Int) - 1 - lo) z.sl.iter).reverse := by
  rw [← h.byRank_eq, byRevrank, List.filter_reverse, byRank]
  congr 1
  apply List.filter_congr
  intro p hp
  obtain ⟨i, hi'⟩ := List.getElem?_of_mem hp
  have hlt : i < z.len := h.rank_lt (h.rank_getElem hi')
  rw [revrankBetween, h.revrank_getElem hi', h.rank_getElem hi', Option.any_some, decide_eq_decide]
  omega

/-- The window ends at its stop, or at the first item if that lies behind. -/
theorem windowItems_eq_between (h : z.Coupled) (start stop : Int) :
    z.windowItems start stop =
      .ok (between (signed z.len start) (max (signed z.len stop) 0) z.sl.iter) := by
  have hlen := h.length_iter
  rw [windowItems_eq]
  congr 1
  by_cases hn : z.len = 0
  · have hnil : z.sl.iter = [] := List.length_eq_zero_iff.mp (hlen.trans hn)
    simp [hnil, between]
  · have hwindow : z.window start stop =
        (min (signed z.len start).toNat z.sl.iter.length,
          min (signed z.len stop).toNat (z.sl.iter.length - 1)) := by
      rw [window, hlen]
      rw [normalizeIndex_eq, normalizeIndex_eq, if_neg hn, if_neg hn]
    have hclamp : min (min (signed z.len start).toNat z.sl.iter.length) z.sl.iter.length =
        min (signed z.len start).toNat z.sl.iter.length :=
      Nat.min_eq_left (Nat.min_le_right _ _)
    rw [← window_eq_between (signed z.len start) (signed z.len stop) z.sl.iter hclamp, hwindow]

theorem zrange_eq (h : z.Coupled) (start stop : Int) (rev withscores : Bool) :
    zrange start stop rev withscores z =
      let items := between (signed z.len start) (max (signed z.len stop) 0) z.sl.iter
      .ok ((if rev then items.reverse else items).map (scored withscores)) := by
  rw [zrange, rangeByIndex, h.windowItems_eq_between]
  cases rev with
  | true => exact congrArg Except.ok List.map_reverse.symm
  | false => rfl

theorem mem_iter_remove (h : z.Coupled) (member : String) (p : String × F64) :
    p ∈ (z.remove member).2.sl.iter ↔ p ∈ z.sl.iter ∧ p.1 ≠ member := by
  unfold remove
  split
  · rename_i score hscore
    exact h.mem_without hscore p
  · rename_i hnone
    refine (and_iff_left_of_imp fun hp heq => ?_).symm
    have hscore := (h.graph p.1 p.2).mp hp
    rw [heq, hnone] at hscore
    exact absurd hscore (Option.some_ne_none _).symm

theorem mem_iter_removeAll (h : z.Coupled) (members : List String) (p : String × F64) :
    p ∈ (z.removeAll members).sl.iter ↔ p ∈ z.sl.iter ∧ p.1 ∉ members := by
  induction members generalizing z with
  | nil => simp [removeAll]
  | cons member members ih =>
      have hrest : z.removeAll (member :: members) = (z.remove member).2.removeAll members := rfl
      rw [hrest, ih (h.remove_coupled member), h.mem_iter_remove, List.mem_cons, not_or, and_assoc]

theorem iter_removeAll (h : z.Coupled) (pred : String × F64 → Bool) :
    (z.removeAll ((z.sl.iter.filter pred).map Prod.fst)).sl.iter =
      z.sl.iter.filter fun p => !pred p := by
  apply (h.removeAll_coupled _).strict.ext
  · exact ⟨h.strict.sorted.sublist List.filter_sublist,
      fun p hp => h.strict.noNaN p (List.mem_of_mem_filter hp)⟩
  · intro p
    rw [h.mem_iter_removeAll, List.mem_filter]
    refine and_congr_right fun hp => ?_
    -- a member stands in one item only
    have hitem : p.1 ∈ (z.sl.iter.filter pred).map Prod.fst ↔ pred p = true := by
      constructor
      · intro hmem
        obtain ⟨q, hq, hname⟩ := List.mem_map.mp hmem
        obtain ⟨hin, hpred⟩ := List.mem_filter.mp hq
        have hsame : q = p := List.inj_on_of_nodup_map h.members_nodup hin hp hname
        rwa [← hsame]
      · exact fun hpred => List.mem_map_of_mem (List.mem_filter.mpr ⟨hp, hpred⟩)
    rw [hitem]
    cases pred p <;> simp

end Coupled

def twoMembers : ZSetInner :=
  ((new.add "a" F64.zero (randomLevel fun _ => false)).2.add "b" F64.zero
    (randomLevel fun _ => false)).2

theorem twoMembers_coupled : twoMembers.Coupled :=
  (new_coupled.add_coupled "a" rfl _).add_coupled "b" rfl _

theorem twoMembers_len : twoMembers.len = 2 := by decide +kernel

end ZSetInner

namespace Database

variable {self : Database} {db : Nat} {now : Instant} {key : String} {z : ZSetInner}

section
variable (hlive : (self.cellAt db key).live now = some (.zset z))
include hlive

theorem zrange_live (start stop : Int) (rev withscores : Bool) :
    self.zrange now db key start stop rev withscores = z.zrange start stop rev withscores := by
  rw [zrange, readDb_live zsetKind.toKind hlive]

theorem zremrangebyrank_live {start stop : Int} {items : List (String × F64)}
    (hitems : z.windowItems start stop = .ok items) :
    self.zremrangebyrank now db key start stop =
      (.ok items.length, self.putCell db key
        (if (z.removeAll (items.map Prod.fst)).isEmpty then .absent
        else { self.cellAt db key with obj := some (.zset (z.removeAll (items.map Prod.fst))) })) := by
  have hobj : (self.cellAt db key).obj = some (.zset z) := (Cell.live_eq_some hlive).2
  have hremove : z.removeByRank start stop =
      (.ok items.length, z.removeAll (items.map Prod.fst)) := by
    rw [ZSetInner.removeByRank, hitems]
  exact access_stored zsetKind 0 (lt_of_live hlive) hobj hremove now

end

/-- `ZRANGE` shows the members between two ranks, and `ZREMRANGEBYRANK` takes them out. -/
structure RankLaw (before : Database) (now : Instant) (db : Nat) (key : String) (z : ZSetInner)
    (start stop : Int) : Prop where
  shows : ∀ withscores, before.zrange now db key start stop false withscores =
    .ok ((z.byRank (signed z.len start) (signed z.len stop)).map (ZSetInner.scored withscores))
  removes : ∃ rest : ZSetInner, rest.Coupled ∧
    rest.sl.iter = z.notByRank (signed z.len start) (signed z.len stop) ∧
    before.zremrangebyrank now db key start stop =
      (.ok (z.byRank (signed z.len start) (signed z.len stop)).length, before.putCell db key
        (if rest.isEmpty then .absent
        else { before.cellAt db key with obj := some (.zset rest) }))

theorem bounds_of_rankLaw (hlive : (self.cellAt db key).live now = some (.zset z)) (h : z.Coupled)
    {start stop : Int} (hlaw : self.RankLaw now db key z start stop) :
    z.len = 0 ∨ 0 < signed z.len start ∨ 0 ≤ signed z.len stop := by
  have hshows := hlaw.shows false
  rw [zrange_live hlive, h.zrange_eq, h.byRank_eq] at hshows
  have hmap := Except.ok.inj hshows
  rw [if_neg Bool.false_ne_true, ← between_map, ← between_map, between_raised_iff,
    List.map_eq_nil_iff, ← List.length_eq_zero_iff, h.length_iter] at hmap
  exact hmap

/-- **Rank ranges are signed slices**, exactly if the set is empty, or the start lies behind
the first member, or the stop does not lie before it. -/
theorem rank_law_iff (hlive : (self.cellAt db key).live now = some (.zset z)) (h : z.Coupled)
    (start stop : Int) :
    self.RankLaw now db key z start stop ↔
      z.len = 0 ∨ 0 < signed z.len start ∨ 0 ≤ signed z.len stop := by
  constructor
  · exact bounds_of_rankLaw hlive h
  · intro hbounds
    rw [← h.length_iter, List.length_eq_zero_iff, ← between_raised_iff, h.length_iter,
      ← h.byRank_eq (signed z.len start) (signed z.len stop)] at hbounds
    have hitems : z.windowItems start stop =
        .ok (z.byRank (signed z.len start) (signed z.len stop)) := by
      rw [h.windowItems_eq_between, hbounds]
    constructor
    case shows =>
      intro withscores
      rw [zrange_live hlive, h.zrange_eq, hbounds]
      rfl
    case removes =>
      refine ⟨_, h.removeAll_coupled _, ?_, zremrangebyrank_live hlive hitems⟩
      exact h.iter_removeAll _

def withZSet (z : ZSetInner) : Database :=
  (Database.new 1).putCell 0 "k" ⟨some (.zset z), none⟩

theorem withZSet_live (z : ZSetInner) : ((withZSet z).cellAt 0 "k").live 0 = some (.zset z) := by
  rw [withZSet, cellAt_putCell (by decide +kernel)]
  rfl

theorem rank_law_second :
    (withZSet .twoMembers).RankLaw 0 0 "k" .twoMembers 1 1 ↔
      ZSetInner.twoMembers.len = 0 ∨ 0 < signed ZSetInner.twoMembers.len 1 ∨
        0 ≤ signed ZSetInner.twoMembers.len 1 :=
  rank_law_iff (withZSet_live _) ZSetInner.twoMembers_coupled 1 1

/-- A stop before the first member selects that member, also for removal. -/
theorem rank_law_stop_before_first :
    ¬ ∀ (self : Database) (now : Instant) (db : Nat) (key : String) (z : ZSetInner)
      (start stop : Int), (self.cellAt db key).live now = some (.zset z) → z.Coupled →
      self.RankLaw now db key z start stop := by
  intro hclaim
  have hlive := withZSet_live .twoMembers
  have hbounds := bounds_of_rankLaw hlive ZSetInner.twoMembers_coupled
    (hclaim _ 0 0 "k" _ 0 (-5) hlive ZSetInner.twoMembers_coupled)
  rw [ZSetInner.twoMembers_len] at hbounds
  exact absurd hbounds (by decide)

end Database

end MiniRudis
