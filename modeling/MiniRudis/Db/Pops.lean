import MiniRudis.Db.RankOrder
import MiniRudis.Lib.Deque

/-!
# Pops from a sorted set

`zpopmin` and `zpopmax` copy pairs out of the list and then remove their members from both
indexes one by one.  On the list of pairs they are the pops of a plain sequence.
-/

namespace MiniRudis

open Lib

namespace ZSetInner

variable {z : ZSetInner}

/-- `pop_min` or `pop_max`. -/
def popEnd (low : Bool) (count : Nat) (z : ZSetInner) : List (String × F64) × ZSetInner :=
  if low then z.popMin count else z.popMax count

theorem popEnd_eq (low : Bool) (count : Nat) (z : ZSetInner) :
    z.popEnd low count =
      ((DequeCall.pop low count).taken z.sl.iter,
        z.removeAll (((DequeCall.pop low count).taken z.sl.iter).map Prod.fst)) := by
  cases low with
  | true => rfl
  | false =>
      rw [popEnd, if_neg Bool.false_ne_true, popMax, SkipIndex.iterRev_eq]
      rfl

namespace Coupled

variable (h : z.Coupled)
include h

theorem isEmpty_iff : z.isEmpty = true ↔ z.sl.iter = [] := by
  rw [isEmpty, Std.ExtTreeMap.isEmpty_eq_size_beq_zero, beq_iff_eq, ← List.length_eq_zero_iff,
    h.length_iter]
  rfl

theorem iter_removeAll_part {items rest : List (String × F64)}
    (hperm : z.sl.iter.Perm (items ++ rest)) (hsub : rest.Sublist z.sl.iter) :
    (z.removeAll (items.map Prod.fst)).sl.iter = rest := by
  apply (h.removeAll_coupled _).strict.ext
  · exact ⟨h.strict.sorted.sublist hsub, fun p hp => h.strict.noNaN p (hsub.subset hp)⟩
  · intro p
    have hnames : (items.map Prod.fst ++ rest.map Prod.fst).Nodup := by
      rw [← List.map_append]
      exact (hperm.map Prod.fst).nodup_iff.mp h.members_nodup
    rw [h.mem_iter_removeAll, hperm.mem_iff, List.mem_append]
    constructor
    · rintro ⟨hp | hp, hnot⟩
      · exact absurd (List.mem_map_of_mem hp) hnot
      · exact hp
    · intro hp
      exact ⟨Or.inr hp, fun hname =>
        List.disjoint_of_nodup_append hnames hname (List.mem_map_of_mem hp)⟩

theorem iter_popEnd (low : Bool) (count : Nat) :
    (z.popEnd low count).2.sl.iter = (DequeCall.pop low count).next z.sl.iter := by
  rw [popEnd_eq]
  exact h.iter_removeAll_part (DequeCall.taken_perm low count _) (DequeCall.next_sublist low count _)

theorem popEnd_coupled (low : Bool) (count : Nat) : (z.popEnd low count).2.Coupled := by
  rw [popEnd_eq]
  exact h.removeAll_coupled _

theorem popEnd_succ (low : Bool) (count : Nat) :
    (z.popEnd low (count + 1)).2 = ((z.popEnd low 1).2.popEnd low count).2 := by
  have hiter := h.iter_popEnd low 1
  rw [popEnd_eq, DequeCall.taken_succ, List.map_append, popEnd_eq low count, hiter, popEnd_eq low 1]
  exact List.foldl_append

end Coupled

theorem popEnd_nil (hnil : z.sl.iter = []) (low : Bool) (count : Nat) :
    z.popEnd low count = ([], z) := by
  rw [popEnd_eq, hnil]
  cases low <;> simp [DequeCall.taken, removeAll]

theorem popEnd_zero (low : Bool) (z : ZSetInner) : z.popEnd low 0 = ([], z) := by
  rw [popEnd_eq, DequeCall.taken_zero]
  rfl

end ZSetInner

/-! ## The commands -/

/-- The cell of a sorted set after a pop. -/
def Cell.withRest (c : Cell) (rest : ZSetInner) : Cell :=
  if rest.isEmpty then .absent else { c with obj := some (.zset rest) }

namespace Database

variable {self : Database} {db : Nat} {key : String} {z : ZSetInner}

def zpop (self : Database) (now : Instant) (db : Nat) (key : String) (low : Bool) (count : Nat) :
    Outcome (List (String × F64)) × Database :=
  if low then self.zpopmin now db key count else self.zpopmax now db key count

def zpops (self : Database) (db : Nat) (key : String) :
    List (Instant × Bool × Nat) → List (Outcome (List (String × F64))) × Database
  | [] => ([], self)
  | (now, low, count) :: calls =>
      let (reply, self) := self.zpop now db key low count
      let (replies, self) := self.zpops db key calls
      (reply :: replies, self)

theorem zpop_stored (hdb : db < self.dbs.length) (hobj : (self.cellAt db key).obj = some (.zset z))
    (now : Instant) (low : Bool) (count : Nat) :
    self.zpop now db key low count =
      (.ok (z.popEnd low count).1,
        self.putCell db key ((self.cellAt db key).withRest (z.popEnd low count).2)) := by
  cases low with
  | true =>
      rw [zpop, if_pos rfl]
      have hpop : ZSetInner.succeed (z.popMin count) = (.ok (z.popMin count).1, (z.popMin count).2) :=
        rfl
      exact access_stored zsetKind [] hdb hobj hpop now
  | false =>
      rw [zpop, if_neg Bool.false_ne_true]
      have hpop : ZSetInner.succeed (z.popMax count) = (.ok (z.popMax count).1, (z.popMax count).2) :=
        rfl
      exact access_stored zsetKind [] hdb hobj hpop now

theorem zpop_absent (hdb : db < self.dbs.length) (hobj : (self.cellAt db key).obj = none)
    (now : Instant) (low : Bool) (count : Nat) :
    self.zpop now db key low count = (.ok [], self) := by
  cases low with
  | true =>
      rw [zpop, if_pos rfl]
      exact access_absent zsetKind [] hdb hobj now _
  | false =>
      rw [zpop, if_neg Bool.false_ne_true]
      exact access_absent zsetKind [] hdb hobj now _

/-- The key holds these pairs in ascending order, or there is neither a pair nor a key. -/
def HoldsPairs (self : Database) (db : Nat) (key : String) (l : List (String × F64)) : Prop :=
  (self.cellAt db key).obj = none ∧ l = [] ∨
    ∃ z : ZSetInner, (self.cellAt db key).obj = some (.zset z) ∧ z.Coupled ∧ z.sl.iter = l

theorem zpop_eq (hdb : db < self.dbs.length) {l : List (String × F64)}
    (hl : self.HoldsPairs db key l) (now : Instant) (low : Bool) (count : Nat) :
    ∃ after, self.zpop now db key low count = (.ok ((DequeCall.pop low count).taken l), after) ∧
      after.HoldsPairs db key ((DequeCall.pop low count).next l) ∧
      ((after.cellAt db key).obj = none ↔ (DequeCall.pop low count).next l = []) ∧
      db < after.dbs.length := by
  obtain ⟨hobj, rfl⟩ | ⟨z, hobj, hz, rfl⟩ := hl
  · have htaken : (DequeCall.pop low count).taken ([] : List (String × F64)) = [] := by
      cases low <;> simp [DequeCall.taken]
    have hnext : (DequeCall.pop low count).next ([] : List (String × F64)) = [] := by
      cases low <;> simp [DequeCall.next]
    rw [htaken, hnext]
    exact ⟨self, zpop_absent hdb hobj now low count, Or.inl ⟨hobj, rfl⟩, by simp [hobj], hdb⟩
  · have hrest := hz.popEnd_coupled low count
    have hiter := hz.iter_popEnd low count
    have htaken : (z.popEnd low count).1 = (DequeCall.pop low count).taken z.sl.iter := by
      rw [ZSetInner.popEnd_eq]
    refine ⟨self.putCell db key ((self.cellAt db key).withRest (z.popEnd low count).2), ?_, ?_, ?_,
      by simpa using hdb⟩
    · rw [zpop_stored hdb hobj, htaken]
    · rw [HoldsPairs, cellAt_putCell hdb, Cell.withRest]
      cases hempty : (z.popEnd low count).2.isEmpty with
      | true => exact Or.inl ⟨rfl, hiter.symm.trans (hrest.isEmpty_iff.mp hempty)⟩
      | false => exact Or.inr ⟨_, rfl, hrest, hiter⟩
    · rw [cellAt_putCell hdb, Cell.withRest, ← hiter, ← hrest.isEmpty_iff]
      cases (z.popEnd low count).2.isEmpty <;> simp

def popsOf (calls : List (Instant × Bool × Nat)) : List (DequeCall (String × F64)) :=
  calls.map fun p => .pop p.2.1 p.2.2

def poppedAt (low : Bool) (calls : List (Instant × Bool × Nat))
    (replies : List (Outcome (List (String × F64)))) : List (String × F64) :=
  (calls.zip replies).flatMap fun p =>
    match p.2 with
    | .ok pairs => if p.1.2.1 = low then pairs else []
    | .error _ => []

structure PopLaw (db : Nat) (key : String) (l : List (String × F64))
    (calls : List (Instant × Bool × Nat)) (replies : List (Outcome (List (String × F64))))
    (after : Database) : Prop where
  answers : replies.map (·.map .inr) = (DequeCall.run (popsOf calls) l).1.map .ok
  content : after.HoldsPairs db key (DequeCall.run (popsOf calls) l).2
  partition : poppedAt true calls replies ++ (DequeCall.run (popsOf calls) l).2 ++
    (poppedAt false calls replies).reverse = l
  gone : calls ≠ [] →
    ((after.cellAt db key).obj = none ↔ (DequeCall.run (popsOf calls) l).2 = [])

theorem zpops_run (hdb : db < self.dbs.length) {l : List (String × F64)}
    (hl : self.HoldsPairs db key l) (calls : List (Instant × Bool × Nat)) :
    (self.zpops db key calls).1.map (·.map .inr) = (DequeCall.run (popsOf calls) l).1.map .ok ∧
      (self.zpops db key calls).2.HoldsPairs db key (DequeCall.run (popsOf calls) l).2 ∧
      (∀ low, poppedAt low calls (self.zpops db key calls).1 =
        DequeCall.popped low (popsOf calls) l) ∧
      (calls ≠ [] → (((self.zpops db key calls).2.cellAt db key).obj = none ↔
        (DequeCall.run (popsOf calls) l).2 = [])) := by
  induction calls generalizing self l with
  | nil => exact ⟨rfl, hl, fun _ => rfl, fun h => absurd rfl h⟩
  | cons p calls ih =>
      obtain ⟨now, low, count⟩ := p
      obtain ⟨after, hcall, hafter, hgone, hdb'⟩ := zpop_eq hdb hl now low count
      obtain ⟨hreplies, hcontent, hpopped, hlast⟩ := ih hdb' hafter
      rw [zpops, hcall]
      dsimp only
      refine ⟨congrArg (List.cons _) hreplies, hcontent, fun end_ => ?_, fun _ => ?_⟩
      · exact congrArg (_ ++ ·) (hpopped end_)
      · by_cases hnil : calls = []
        · subst hnil
          exact hgone
        · exact hlast hnil

theorem zpops_law (hdb : db < self.dbs.length) {l : List (String × F64)}
    (hl : self.HoldsPairs db key l) (calls : List (Instant × Bool × Nat)) :
    PopLaw db key l calls (self.zpops db key calls).1 (self.zpops db key calls).2 := by
  obtain ⟨hreplies, hcontent, hpopped, hgone⟩ := zpops_run hdb hl calls
  have hpops : ∀ call ∈ popsOf calls, call.IsPop := by
    intro call hcall
    obtain ⟨p, -, rfl⟩ := List.mem_map.mp hcall
    trivial
  refine ⟨hreplies, hcontent, ?_, hgone⟩
  rw [hpopped, hpopped, DequeCall.popped_partition hpops]

/-! ## Single pops -/

theorem withRest_obj (c : Cell) (o : Option RudisObject) (rest : ZSetInner) :
    Cell.withRest { c with obj := o } rest = c.withRest rest := rfl

theorem zpops_absent (hdb : db < self.dbs.length) (hobj : (self.cellAt db key).obj = none)
    (calls : List (Instant × Bool × Nat)) : (self.zpops db key calls).2 = self := by
  induction calls with
  | nil => rfl
  | cons p calls ih =>
      obtain ⟨now, low, count⟩ := p
      rw [zpops, zpop_absent hdb hobj now low count]
      exact ih

def singlePops (low : Bool) (times : List Instant) : List (Instant × Bool × Nat) :=
  times.map fun now => (now, low, 1)

theorem poppedAt_singles (hdb : db < self.dbs.length) {l : List (String × F64)}
    (hl : self.HoldsPairs db key l) (low : Bool) (times : List Instant) :
    poppedAt low (singlePops low times) (self.zpops db key (singlePops low times)).1 =
      (DequeCall.pop low times.length).taken l := by
  have hpops : popsOf (singlePops low times) =
      List.replicate times.length (DequeCall.pop low 1) := by
    rw [popsOf, singlePops, List.map_map, List.eq_replicate_iff, List.length_map]
    refine ⟨rfl, fun call hcall => ?_⟩
    obtain ⟨_, -, rfl⟩ := List.mem_map.mp hcall
    rfl
  rw [(zpops_run hdb hl _).2.2.1, hpops, DequeCall.popped_singles]

/-- The pops of one pair after another leave what one pop leaves, unless there is neither a
pop nor a pair. -/
theorem zpops_singles (hdb : db < self.dbs.length)
    (hobj : (self.cellAt db key).obj = some (.zset z)) (hz : z.Coupled) (low : Bool)
    {times : List Instant} (hsome : times ≠ [] ∨ z.sl.iter ≠ []) :
    (self.zpops db key (singlePops low times)).2 =
      self.putCell db key ((self.cellAt db key).withRest (z.popEnd low times.length).2) := by
  induction times generalizing self z with
  | nil =>
      have hfull : z.isEmpty = false := by
        rw [← Bool.not_eq_true, hz.isEmpty_iff]
        exact hsome.resolve_left fun h => h rfl
      rw [List.length_nil, ZSetInner.popEnd_zero, Cell.withRest, hfull, if_neg Bool.false_ne_true,
        ← hobj]
      exact (putCell_cellAt self db key).symm
  | cons now times ih =>
      have hz' := hz.popEnd_coupled low 1
      rw [singlePops, List.map_cons, zpops, zpop_stored hdb hobj, List.length_cons,
        hz.popEnd_succ low times.length]
      dsimp only
      cases hempty : (z.popEnd low 1).2.isEmpty with
      | true =>
          have hgone : (self.cellAt db key).withRest (z.popEnd low 1).2 = .absent := by
            rw [Cell.withRest, hempty]
            rfl
          rw [ZSetInner.popEnd_nil (hz'.isEmpty_iff.mp hempty), hgone]
          apply zpops_absent (by simpa using hdb)
          rw [cellAt_putCell hdb]
          rfl
      | false =>
          have hkept : (self.cellAt db key).withRest (z.popEnd low 1).2 =
              { self.cellAt db key with obj := some (.zset (z.popEnd low 1).2) } := by
            rw [Cell.withRest, hempty]
            rfl
          have hfull : (z.popEnd low 1).2.sl.iter ≠ [] := by
            rw [Ne, ← hz'.isEmpty_iff, hempty]
            exact Bool.false_ne_true
          have hstored : ((self.putCell db key { self.cellAt db key with
              obj := some (.zset (z.popEnd low 1).2) }).cellAt db key).obj =
              some (.zset (z.popEnd low 1).2) := by
            rw [cellAt_putCell hdb]
          have hrest := ih (by simpa using hdb) hstored hz' (Or.inr hfull)
          rw [cellAt_putCell hdb, putCell_putCell, withRest_obj] at hrest
          rw [hkept]
          exact hrest

/-! ## The law -/

/-- **Pops at the two ends divide a sorted set between them and what they leave**, and single
pops come to one pop. -/
theorem pops_partition (h : self.Reachable) (hobj : (self.cellAt db key).obj = some (.zset z)) :
    ∃ l : List (String × F64), (l.Pairwise fun p q => keyOf p < keyOf q) ∧
      (∀ (member : String) (score : F64), (member, score) ∈ l ↔ z.scores[member]? = some score) ∧
      (∀ calls, PopLaw db key l calls (self.zpops db key calls).1 (self.zpops db key calls).2) ∧
      ∀ now low times,
        (self.zpop now db key low times.length).1 =
          .ok (poppedAt low (singlePops low times)
            (self.zpops db key (singlePops low times)).1) ∧
        (times ≠ [] ∨ l ≠ [] → (self.zpops db key (singlePops low times)).2 =
          (self.zpop now db key low times.length).2) := by
  have hdb : db < self.dbs.length := lt_of_isSome (by rw [hobj]; rfl)
  have hz : z.Coupled := h.coupled hobj
  have hl : self.HoldsPairs db key z.sl.iter := Or.inr ⟨z, hobj, hz, rfl⟩
  refine ⟨z.sl.iter, hz.strict.sorted, hz.graph, zpops_law hdb hl, fun now low times => ⟨?_, ?_⟩⟩
  · rw [poppedAt_singles hdb hl, zpop_stored hdb hobj, ZSetInner.popEnd_eq]
  · intro hsome
    rw [zpops_singles hdb hobj hz low hsome, zpop_stored hdb hobj]

theorem pops_partition_sample :
    ∃ l : List (String × F64), (l.Pairwise fun p q => keyOf p < keyOf q) ∧
      PopLaw 0 "z" l [(0, true, 1), (1, false, 5)]
        (((Database.new 1).runSteps rankingSteps).zpops 0 "z" [(0, true, 1), (1, false, 5)]).1
        (((Database.new 1).runSteps rankingSteps).zpops 0 "z" [(0, true, 1), (1, false, 5)]).2 := by
  have hreach : ((Database.new 1).runSteps rankingSteps).Reachable := ⟨1, rankingSteps, rfl⟩
  have hobj : (((Database.new 1).runSteps rankingSteps).cellAt 0 "z").obj =
      some (.zset rankingSet) := rfl
  obtain ⟨l, hsorted, -, hlaw, -⟩ := pops_partition hreach hobj
  exact ⟨l, hsorted, hlaw _⟩

def emptySetSteps : List Step :=
  [⟨.at 0, .onKey 0 "z" (.typed (.zadd [(.zero, "a")] ⟨false, true, false, false, false⟩))⟩]

/-- An empty set that has stayed behind goes without a pair being popped. -/
theorem pops_partition_empty_set :
    ¬ ∀ (self : Database) (db : Nat) (key : String) (z : ZSetInner) (now : Instant) (low : Bool)
        (count : Nat), self.Reachable → (self.cellAt db key).obj = some (.zset z) →
      (((self.zpop now db key low count).2.cellAt db key).obj = none ↔
        ∃ pairs, (self.zpop now db key low count).1 = .ok pairs ∧ pairs ≠ [] ∧
          ∀ rest, (self.zpop now db key low count).2.HoldsPairs db key rest → rest = []) := by
  intro hclaim
  have hreach : ((Database.new 1).runSteps emptySetSteps).Reachable := ⟨1, emptySetSteps, rfl⟩
  have hobj : (((Database.new 1).runSteps emptySetSteps).cellAt 0 "z").obj =
      some (.zset .new) := rfl
  have hdb : 0 < ((Database.new 1).runSteps emptySetSteps).dbs.length := by decide +kernel
  have hpop := zpop_stored hdb hobj 0 true 1
  rw [ZSetInner.popEnd_nil SkipIndex.iter_new] at hpop
  have hiff := hclaim _ 0 "z" .new 0 true 1 hreach hobj
  rw [hpop, cellAt_putCell hdb] at hiff
  obtain ⟨pairs, hpairs, hne, -⟩ := hiff.mp rfl
  exact hne (Except.ok.inj hpairs).symm

end Database

end MiniRudis
