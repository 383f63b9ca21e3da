import MiniRudis.Cmd.Dispatch
import MiniRudis.Db.Ranks

/-!
# Reversed ranges and reverse ranks

`ZREVRANGE` and `ZRANGE ... REV` reverse the range that the same bounds select from the
low end, while `ZREVRANK` counts from the high end.  The two agree on ranges that lie
symmetrically in the set.
-/

namespace MiniRudis.Cmd

open Lib

/-! ## What a reply shows -/

def itemFrames (withscores : Bool) (p : String × F64) : List Frame :=
  if withscores then [.bulkStr p.1, floatFrame p.2] else [.bulkStr p.1]

theorem buildMemberScoreArray_scored (withscores : Bool) (items : List (String × F64)) :
    buildMemberScoreArray (items.map (ZSetInner.scored withscores)) =
      .array (items.flatMap (itemFrames withscores)) := by
  rw [buildMemberScoreArray, List.flatMap_map]
  cases withscores <;> rfl

theorem members_of_itemFrames {withscores : Bool} {items items' : List (String × F64)}
    (h : items.flatMap (itemFrames withscores) = items'.flatMap (itemFrames withscores)) :
    items.map Prod.fst = items'.map Prod.fst := by
  have hcons : ∀ p, ∃ rest, itemFrames withscores p = .bulkStr p.1 :: rest := by
    intro p
    cases withscores
    · exact ⟨[], rfl⟩
    · exact ⟨[floatFrame p.2], rfl⟩
  have hlen : ∀ p q, (itemFrames withscores p).length = (itemFrames withscores q).length := by
    intro p q
    cases withscores <;> rfl
  induction items generalizing items' with
  | nil =>
      cases items' with
      | nil => rfl
      | cons q items' =>
          obtain ⟨rest, hq⟩ := hcons q
          rw [List.flatMap_nil, List.flatMap_cons, hq] at h
          exact absurd h (List.cons_ne_nil _ _).symm
  | cons p items ih =>
      obtain ⟨rest, hp⟩ := hcons p
      cases items' with
      | nil =>
          rw [List.flatMap_nil, List.flatMap_cons, hp] at h
          exact absurd h (List.cons_ne_nil _ _)
      | cons q items' =>
          rw [List.flatMap_cons, List.flatMap_cons] at h
          obtain ⟨hframes, hrest⟩ := List.append_inj h (hlen p q)
          obtain ⟨rest', hq⟩ := hcons q
          rw [hp, hq] at hframes
          have hbytes : asBytes p.1 = asBytes q.1 := Frame.bulk.inj (List.cons.inj hframes).1
          have hname : p.1 = q.1 := by
            rw [← fromUtf8Lossy_asBytes p.1, hbytes, fromUtf8Lossy_asBytes]
          rw [List.map_cons, List.map_cons, hname, ih hrest]

/-! ## The law -/

/-- The command shows the members whose `ZREVRANK` lies between the bounds, from the
highest rank down. -/
def RevRangeLaw (os : String) (env : Env) (db : Nat) (last : Command → CmdM (Outcome Frame))
    (s : Server) (z : ZSetInner) (start stop : Int) (withscores : Bool) (cmd : Command) : Prop :=
  (executeOn os env db last cmd).run ServerCall.exec s =
    (.ok (buildMemberScoreArray
      ((z.byRevrank (signed z.len start) (signed z.len stop)).map (ZSetInner.scored withscores))), s)

def lastRank (z : ZSetInner) (stop : Int) : Int := min (signed z.len stop) ((z.len : Int) - 1)

variable (os : String) {env : Env} {db : Nat} (last : Command → CmdM (Outcome Frame)) {s : Server}
  {key : String} {z : ZSetInner}

theorem run_zrange_rev (hlive : (s.db.cellAt db key).live env.now = some (.zset z)) (h : z.Coupled)
    (start stop : Int) (withscores : Bool) :
    (executeOn os env db last (.zRange key start stop true withscores)).run ServerCall.exec s =
      (.ok (buildMemberScoreArray
        ((between (signed z.len start) (max (signed z.len stop) 0) z.sl.iter).reverse.map
          (ZSetInner.scored withscores))), s) := by
  have hrun : (executeOn os env db last (.zRange key start stop true withscores)).run
      ServerCall.exec s =
      (reply buildMemberScoreArray (s.db.zrange env.now db key start stop true withscores), s) := rfl
  rw [hrun, Database.zrange_live hlive, h.zrange_eq]
  rfl

/-- Bounds within the set select the same members from both ends, if they select any, only
if they lie symmetrically. -/
theorem mirror_iff {n : Nat} {lo hi : Int} (hlo : 0 ≤ lo) (hhi : 0 ≤ hi) :
    (∀ i : Nat, i < n → (lo ≤ i ∧ i ≤ max hi 0 ↔ (n : Int) - 1 - hi ≤ i ∧ i ≤ (n : Int) - 1 - lo)) ↔
      min hi ((n : Int) - 1) < lo ∨ lo + min hi ((n : Int) - 1) = (n : Int) - 1 := by
  rw [Int.max_eq_left hhi]
  constructor
  · intro hall
    by_cases hempty : min hi ((n : Int) - 1) < lo
    · exact Or.inl hempty
    · -- the first and the last member of the range decide
      have hfirst := hall lo.toNat (by omega)
      have hlast := hall (min hi ((n : Int) - 1)).toNat (by omega)
      omega
  · intro hbounds i hlt
    omega

theorem revrange_law (hlive : (s.db.cellAt db key).live env.now = some (.zset z)) (h : z.Coupled)
    {start stop : Int} (hstart : -(z.len : Int) ≤ start) (hstop : -(z.len : Int) ≤ stop)
    (withscores : Bool) :
    RevRangeLaw os env db last s z start stop withscores (.zRange key start stop true withscores) ↔
      lastRank z stop < signed z.len start ∨
        signed z.len start + lastRank z stop = (z.len : Int) - 1 := by
  have hlo : 0 ≤ signed z.len start := by
    unfold signed
    omega
  have hhi : 0 ≤ signed z.len stop := by
    unfold signed
    omega
  rw [RevRangeLaw, run_zrange_rev os last hlive h, h.byRevrank_eq, lastRank,
    ← mirror_iff hlo hhi, buildMemberScoreArray_scored, buildMemberScoreArray_scored]
  constructor
  · intro heq
    have hframes := Frame.array.inj (Except.ok.inj (congrArg Prod.fst heq))
    have hmembers := members_of_itemFrames hframes
    rw [List.map_reverse, List.map_reverse, List.reverse_inj, ← between_map, ← between_map,
      between_eq_between_iff h.members_nodup, List.length_map, h.length_iter] at hmembers
    exact hmembers
  · intro hall
    rw [← h.length_iter, ← between_eq_between_iff h.strict.nodup, h.length_iter] at hall
    rw [hall]

/-- **Reverse ranges mirror reverse ranks**, exactly if the range is empty or lies
symmetrically in the set. -/
theorem revrange_law_iff (hlive : (s.db.cellAt db key).live env.now = some (.zset z))
    (h : z.Coupled) (start stop : Int) (hstart : -(z.len : Int) ≤ start)
    (hstop : -(z.len : Int) ≤ stop) (withscores : Bool) :
    (RevRangeLaw os env db last s z start stop withscores (.zRevRange key start stop withscores) ∧
      RevRangeLaw os env db last s z start stop withscores
        (.zRange key start stop true withscores)) ↔
      lastRank z stop < signed z.len start ∨
        signed z.len start + lastRank z stop = (z.len : Int) - 1 := by
  have hsame : RevRangeLaw os env db last s z start stop withscores
      (.zRevRange key start stop withscores) ↔
      RevRangeLaw os env db last s z start stop withscores
        (.zRange key start stop true withscores) := Iff.rfl
  rw [hsame, and_self, revrange_law os last hlive h hstart hstop]

def twoMemberServer : Server := ⟨.withZSet .twoMembers, ∅⟩

theorem revrange_law_whole :
    (RevRangeLaw "" (.at 0) 0 (fun _ => return panicked) twoMemberServer .twoMembers 0 (-1) false
      (.zRevRange "k" 0 (-1) false) ∧
      RevRangeLaw "" (.at 0) 0 (fun _ => return panicked) twoMemberServer .twoMembers 0 (-1) false
        (.zRange "k" 0 (-1) true false)) ↔
      lastRank .twoMembers (-1) < signed ZSetInner.twoMembers.len 0 ∨
        signed ZSetInner.twoMembers.len 0 + lastRank .twoMembers (-1) =
          (ZSetInner.twoMembers.len : Int) - 1 :=
  revrange_law_iff "" _ (Database.withZSet_live _) ZSetInner.twoMembers_coupled 0 (-1)
    (by decide +kernel) (by decide +kernel) false

/-- The first member from the top is asked for, and the first from the bottom is shown. -/
theorem revrange_law_first :
    ¬ ∀ (os : String) (env : Env) (db : Nat) (last : Command → CmdM (Outcome Frame)) (s : Server)
      (key : String) (z : ZSetInner) (start stop : Int) (withscores : Bool),
      (s.db.cellAt db key).live env.now = some (.zset z) → z.Coupled →
      -(z.len : Int) ≤ start → -(z.len : Int) ≤ stop →
      RevRangeLaw os env db last s z start stop withscores (.zRevRange key start stop withscores) ∧
        RevRangeLaw os env db last s z start stop withscores
          (.zRange key start stop true withscores) := by
  intro hclaim
  have hlive : (twoMemberServer.db.cellAt 0 "k").live (Env.at 0).now = some (.zset .twoMembers) :=
    Database.withZSet_live _
  have hcoupled := ZSetInner.twoMembers_coupled
  have hzero : -(ZSetInner.twoMembers.len : Int) ≤ 0 := by omega
  have hlaw := hclaim "" (.at 0) 0 (fun _ => return panicked) twoMemberServer "k" _ 0 0 false hlive
    hcoupled hzero hzero
  have hbounds := (revrange_law "" _ hlive hcoupled hzero hzero false).mp hlaw.2
  rw [lastRank, ZSetInner.twoMembers_len] at hbounds
  exact absurd hbounds (by decide)

end MiniRudis.Cmd
