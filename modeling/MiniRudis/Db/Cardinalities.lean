import MiniRudis.Db.Eviction
import MiniRudis.Db.Queues
import MiniRudis.Db.Ranks
import MiniRudis.Db.ZSetRuns

/-!
# Replies that count

The reply of an update that counts is the change in the number of elements, and of keys
for `del`.
-/

namespace MiniRudis

open Lib

variable {α τ : Type}

/-! ## The work on a value -/

theorem pred_add_toNat {b : Bool} {n : Nat} (h : b = true → n ≠ 0) :
    (if b then n - 1 else n) + b.toNat = n := by
  cases b with
  | true =>
      have hpos := h rfl
      rw [if_pos rfl, Bool.toNat_true]
      omega
  | false => rfl

namespace StrMap

variable (m : StrMap α) (k : String)

theorem size_insert (v : α) : (m.insert k v).size = m.size + (!m.contains k).toNat := by
  rw [Std.ExtTreeMap.size_insert]
  cases m.contains k <;> rfl

theorem size_erase : (m.erase k).size + (m.contains k).toNat = m.size := by
  rw [Std.ExtTreeMap.size_erase]
  apply pred_add_toNat
  intro hmem hzero
  rw [← Std.ExtTreeMap.eq_empty_iff_size_eq_zero] at hzero
  rw [hzero] at hmem
  exact absurd hmem (by simp)

end StrMap

namespace StrSet

variable (s : StrSet) (k : String)

theorem size_insert : (s.insert k).size = s.size + (!s.contains k).toNat := by
  rw [Std.ExtTreeSet.size_insert]
  cases s.contains k <;> rfl

theorem size_erase : (s.erase k).size + (s.contains k).toNat = s.size := by
  rw [Std.ExtTreeSet.size_erase]
  apply pred_add_toNat
  intro hmem hzero
  rw [← Std.ExtTreeSet.eq_empty_iff_size_eq_zero] at hzero
  rw [hzero] at hmem
  exact absurd hmem (by simp)

end StrSet

namespace Hash

theorem hset_size (fields : List (String × Bytes)) (h : StrMap Bytes) {n : Nat}
    (hn : (hset fields h).1 = .ok n) : (hset fields h).2.size = h.size + n := by
  obtain rfl := Except.ok.inj hn
  exact tally_grows (fun h : StrMap Bytes => h.size) (fun h p => StrMap.size_insert h p.1 p.2) fields h

theorem hdel_size (fields : List String) (h : StrMap Bytes) {n : Nat}
    (hn : (hdel fields h).1 = .ok n) : (hdel fields h).2.size + n = h.size := by
  obtain rfl := Except.ok.inj hn
  exact tally_shrinks (fun h : StrMap Bytes => h.size) (P := fun _ => True) (fun _ _ _ _ => trivial)
    (fun h field _ _ => StrMap.size_erase h field) trivial

end Hash

namespace HashSet

theorem sadd_size (members : List String) (s : StrSet) {n : Nat}
    (hn : (sadd members s).1 = .ok n) : (sadd members s).2.size = s.size + n := by
  obtain rfl := Except.ok.inj hn
  exact tally_grows (fun s : StrSet => s.size) (fun s member => StrSet.size_insert s member) members s

theorem srem_size (members : List String) (s : StrSet) {n : Nat}
    (hn : (srem members s).1 = .ok n) : (srem members s).2.size + n = s.size := by
  obtain rfl := Except.ok.inj hn
  exact tally_shrinks (fun s : StrSet => s.size) (P := fun _ => True) (fun _ _ _ _ => trivial)
    (fun s member _ _ => StrSet.size_erase s member) trivial

end HashSet

namespace Deque

theorem removeFirst_length (value : Bytes) (remaining : Nat) (l : List Bytes) :
    (removeFirst value remaining l).2.length + (removeFirst value remaining l).1 = l.length := by
  induction l generalizing remaining with
  | nil => rfl
  | cons e l ih =>
      rw [removeFirst]
      split
      · have hrest := ih (remaining - 1)
        dsimp only
        rw [List.length_cons]
        omega
      · have hrest := ih remaining
        dsimp only
        rw [List.length_cons, List.length_cons]
        omega

theorem keepFlags_length (value : Bytes) (remaining : Nat) (l : List Bytes) :
    (retainFlags l (keepFlags value remaining l).1).length + (keepFlags value remaining l).2.2 =
      l.length := by
  induction l with
  | nil => rfl
  | cons e l ih =>
      rw [keepFlags_cons]
      split
      · dsimp only
        rw [retainFlags_cons, if_neg Bool.false_ne_true, List.length_cons]
        omega
      · dsimp only
        rw [retainFlags_cons, if_pos rfl, List.length_cons, List.length_cons]
        omega

theorem lrem_length {count : Int} {value : Bytes} {l : List Bytes} {n : Nat}
    (h : (lrem count value l).1 = .ok n) : (lrem count value l).2.length + n = l.length := by
  unfold lrem at h ⊢
  split
  · rename_i hzero
    rw [if_pos hzero] at h
    obtain rfl := Except.ok.inj h
    have hsplit := List.length_eq_length_filter_add (l := l) (· == value)
    have hother : (l.filter fun e => !(e == value)) = l.filter (· != value) := rfl
    dsimp only
    rw [hother] at hsplit
    omega
  · rename_i hzero
    rw [if_neg hzero] at h
    split
    · rename_i hpos
      rw [if_pos hpos] at h
      obtain rfl := Except.ok.inj h
      exact removeFirst_length value count.toNat l
    · rename_i hneg
      rw [if_neg hneg] at h
      obtain rfl := Except.ok.inj h
      exact keepFlags_length value count.natAbs l

end Deque

namespace ZSetInner

variable {z : ZSetInner}

theorem add_len (member : String) (score : F64) (lvl : Level) (z : ZSetInner) :
    (z.add member score lvl).2.len = z.len + (z.add member score lvl).1.toNat := by
  have hlen : (z.add member score lvl).2.len = (z.scores.insert member score).size := rfl
  have hnew : (z.add member score lvl).1 = z.scores[member]?.isNone := rfl
  rw [hlen, hnew, StrMap.size_insert, ← Std.ExtTreeMap.isSome_getElem?_eq_contains,
    Option.not_isSome, len]

theorem remove_len (member : String) (z : ZSetInner) :
    (z.remove member).2.len + (z.remove member).1.toNat = z.len := by
  have hsize := StrMap.size_erase z.scores member
  rw [← Std.ExtTreeMap.isSome_getElem?_eq_contains] at hsize
  unfold remove
  split
  · rename_i score hscore
    rw [hscore] at hsize
    exact hsize
  · rfl

theorem zrem_len (members : List String) (z : ZSetInner) {n : Nat}
    (hn : (zrem members z).1 = .ok n) : (zrem members z).2.len + n = z.len := by
  obtain rfl := Except.ok.inj hn
  exact tally_shrinks len (P := fun _ => True) (fun _ _ _ _ => trivial)
    (fun z member _ _ => remove_len member z) trivial

theorem len_of_isEmpty (h : z.isEmpty = true) : z.len = 0 := by
  rw [isEmpty, Std.ExtTreeMap.isEmpty_eq_size_beq_zero] at h
  simpa [len] using h

/-- Without `CH`, the loop counts the members that come in. -/
theorem zaddLoop_len {flags : ZAddFlags} (hch : flags.ch = false) (levels : Nat → Level) (i : Nat)
    (members : List (F64 × String)) {count n : Int} {z : ZSetInner}
    (h : (zaddLoop flags levels i members count z).1 = .ok n) :
    ((zaddLoop flags levels i members count z).2.len : Int) + count = z.len + n := by
  induction members generalizing i count z with
  | nil =>
      obtain rfl := Except.ok.inj h
      rfl
  | cons p members ih =>
      obtain ⟨score, member⟩ := p
      rw [zaddLoop] at h ⊢
      split
      · rename_i hnan
        rw [if_pos hnan] at h
        exact absurd h (by simp [err])
      · rename_i hnan
        rw [if_neg hnan] at h
        split
        · rename_i hskip
          rw [if_pos hskip] at h
          exact ih (i + 1) h
        · rename_i hskip
          rw [if_neg hskip] at h
          have hadd := add_len member score (levels i) z
          generalize z.add member score (levels i) = added at h hadd ⊢
          obtain ⟨isNew, z'⟩ := added
          have hrest := ih (i + 1) h
          dsimp only at hadd ⊢
          rw [hch, Bool.false_or] at hrest ⊢
          cases isNew with
          | true =>
              rw [if_pos rfl] at hrest ⊢
              rw [Bool.toNat_true] at hadd
              omega
          | false =>
              rw [if_neg Bool.false_ne_true] at hrest ⊢
              rw [Bool.toNat_false] at hadd
              omega

theorem zadd_len {flags : ZAddFlags} (hch : flags.ch = false) {levels : Nat → Level}
    {members : List (F64 × String)} {n : Int} (h : (zadd flags levels members z).1 = .ok n) :
    ((zadd flags levels members z).2.len : Int) = z.len + n := by
  have hloop := zaddLoop_len hch levels 0 members h
  rwa [add_zero] at hloop

theorem Coupled.removeAll_len (h : z.Coupled) (pred : String × F64 → Bool) :
    (z.removeAll ((z.sl.iter.filter pred).map Prod.fst)).len + (z.sl.iter.filter pred).length =
      z.len := by
  rw [← (h.removeAll_coupled _).length_iter, h.iter_removeAll, ← h.length_iter]
  have hsplit := List.length_eq_length_filter_add (l := z.sl.iter) pred
  omega

theorem Coupled.removeByRank_len (h : z.Coupled) {start stop : Int} {n : Nat}
    (hn : (z.removeByRank start stop).1 = .ok n) :
    (z.removeByRank start stop).2.len + n = z.len := by
  have hitems : z.windowItems start stop =
      .ok (z.byRank (signed z.len start) (max (signed z.len stop) 0)) := by
    rw [h.windowItems_eq_between, h.byRank_eq]
  rw [removeByRank, hitems] at hn ⊢
  obtain rfl := Except.ok.inj hn
  exact h.removeAll_len _

theorem Coupled.removeByScore_len (h : z.Coupled) (min max : ScoreBound) :
    (z.removeByScore min max).2.len + (z.removeByScore min max).1 = z.len := by
  rw [removeByScore]
  dsimp only
  rw [List.length_map]
  exact h.removeAll_len _

end ZSetInner

/-! ## The number of keys -/

namespace LogicalDb

theorem liveKeys_nodup (self : LogicalDb) (now : Instant) : (self.liveKeys now).Nodup :=
  self.data.nodup_keys.filter _

theorem get_remove_ne (self : LogicalDb) (now : Instant) {key other : String} (hne : other ≠ key) :
    (self.remove key).2.get now other = self.get now other := by
  rw [remove_eq, get_eq, get_eq, cell_put_ne self hne]

theorem liveKeys_remove (self : LogicalDb) (now : Instant) (key : String) :
    ((self.remove key).2.liveKeys now).Perm ((self.liveKeys now).erase key) := by
  rw [List.perm_ext_iff_of_nodup ((self.remove key).2.liveKeys_nodup now)
    ((self.liveKeys_nodup now).erase key)]
  intro other
  rw [(self.liveKeys_nodup now).mem_erase_iff, mem_liveKeys, mem_liveKeys]
  by_cases heq : other = key
  · subst heq
    simp [remove_eq, get_eq]
  · rw [get_remove_ne self now heq]
    exact (and_iff_right heq).symm

theorem isExpired_remove {self : LogicalDb} {now : Instant} {other : String}
    (h : self.isExpired now other = false) (key : String) :
    (self.remove key).2.isExpired now other = false := by
  by_cases heq : other = key
  · rw [heq, isExpired_eq, remove_eq, cell_put]
    rfl
  · rw [isExpired_eq, remove_eq, cell_put_ne self heq]
    exact h

theorem liveKeys_remove_length {self : LogicalDb} {now : Instant} {key : String}
    (h : self.isExpired now key = false) :
    ((self.remove key).2.liveKeys now).length + (self.remove key).1.isSome.toNat =
      (self.liveKeys now).length := by
  have hget : (self.remove key).1 = self.get now key := by
    rw [isExpired_eq] at h
    rw [remove_eq, get_eq, Cell.live, h]
    rfl
  rw [(self.liveKeys_remove now key).length_eq, List.length_erase, hget]
  by_cases hmem : key ∈ self.liveKeys now
  · have hpos := List.length_pos_of_mem hmem
    rw [if_pos hmem, (self.mem_liveKeys now key).mp hmem, Bool.toNat_true]
    omega
  · have hnone : (self.get now key).isSome = false := by
      rw [mem_liveKeys] at hmem
      simpa using hmem
    rw [if_neg hmem, hnone]
    rfl

theorem removeKeys_length {self : LogicalDb} {now : Instant} {keys : List String}
    (h : ∀ key ∈ keys, self.isExpired now key = false) :
    ((self.removeKeys keys).2.liveKeys now).length + (self.removeKeys keys).1 =
      (self.liveKeys now).length := by
  have hkeep : ∀ ldb : LogicalDb, ∀ key ∈ keys,
      (∀ other ∈ keys, ldb.isExpired now other = false) →
      ∀ other ∈ keys, (ldb.remove key).2.isExpired now other = false :=
    fun _ key _ hfresh other hother => isExpired_remove (hfresh other hother) key
  have hstep : ∀ ldb : LogicalDb, ∀ key ∈ keys,
      (∀ other ∈ keys, ldb.isExpired now other = false) →
      ((ldb.remove key).2.liveKeys now).length + (ldb.remove key).1.isSome.toNat =
        (ldb.liveKeys now).length :=
    fun _ key hkey hfresh => liveKeys_remove_length (hfresh key hkey)
  exact tally_shrinks (fun ldb : LogicalDb => (ldb.liveKeys now).length) hkeep hstep h

end LogicalDb

/-! ## The methods -/

theorem Cell.live_store {c : Cell} {now : Instant} (h : c.expired now = false) (o : RudisObject) :
    Cell.live { c with obj := some o } now = some o := by
  show (if c.expired now then none else some o) = some o
  rw [h]
  rfl

namespace Database

variable {self after : Database} {db : Nat} {key : String} {now : Instant} {α τ : Type}

/-- The two states differ by so much in what a counting method replies. -/
def CardChange (card : Database → Outcome Nat) (before after : Database) (change : Int) : Prop :=
  ∃ m m' : Nat, card before = .ok m ∧ card after = .ok m' ∧ (m' : Int) = m + change

/-- A method that counts the elements of a value. -/
def cardinality (K : Kind τ) (size : τ → Nat) (now : Instant) (db : Nat) (key : String)
    (self : Database) : Outcome Nat :=
  self.readDb db (LogicalDb.readAs K 0 (fun v => .ok (size v)) now key)

theorem cardinality_absent (hdb : db < self.dbs.length) {K : Kind τ} {size : τ → Nat}
    (hobj : (self.cellAt db key).obj = none) : self.cardinality K size now db key = .ok 0 := by
  apply readDb_absent K hdb
  rw [Cell.live, hobj, ite_self]

theorem cardinality_stored {K : Kind τ} {size : τ → Nat} {v : τ}
    (hfresh : (self.cellAt db key).expired now = false)
    (hobj : (self.cellAt db key).obj = some (K.inj v)) :
    self.cardinality K size now db key = .ok (size v) := by
  apply readDb_live
  rw [Cell.live, hfresh]
  exact hobj

theorem cardinality_eq (hdb : db < self.dbs.length) {K : Kind τ} {size : τ → Nat} {init v : τ}
    (hsize : size init = 0) (hfresh : (self.cellAt db key).expired now = false)
    (hv : (self.cellAt db key).valueAs K init = some v) :
    self.cardinality K size now db key = .ok (size v) := by
  obtain ⟨hobj, rfl⟩ | hobj := Cell.valueAs_eq_some.mp hv
  · rw [cardinality_absent hdb hobj, hsize]
  · exact cardinality_stored hfresh hobj

section
variable (hdb : db < self.dbs.length) (hfresh : (self.cellAt db key).expired now = false)
include hdb hfresh

theorem cardinality_store {K : Kind τ} {size : τ → Nat} (v : τ) :
    (self.putCell db key { self.cellAt db key with obj := some (K.inj v) }).cardinality K size now
      db key = .ok (size v) := by
  apply readDb_live
  rw [cellAt_putCell hdb]
  exact Cell.live_store hfresh _

theorem create_cardinality {K : Kind τ} (size : τ → Nat) {init : τ} {f : τ → Outcome α × τ}
    (hsize : size init = 0) {r : α}
    (hrun : self.access now db key (.create K init f) = (.ok r, after)) :
    ∃ v, (f v).1 = .ok r ∧ self.cardinality K size now db key = .ok (size v) ∧
      after.cardinality K size now db key = .ok (size (f v).2) := by
  rw [access_cellAt hdb, Access.onCell_create] at hrun
  cases hv : (self.cellAt db key).valueAs K init with
  | none =>
      rw [hv] at hrun
      exact absurd (congrArg Prod.fst hrun) (by simp [err])
  | some v =>
      rw [hv] at hrun
      dsimp only at hrun
      obtain ⟨hreply, rfl⟩ := Prod.mk.inj hrun
      exact ⟨v, hreply, cardinality_eq hdb hsize hfresh hv, cardinality_store hdb hfresh _⟩

/-- The sizes before and after a change in place; an emptied value counts as none. -/
theorem inPlace_cardinality {K : Aggregate τ} (size : τ → Nat)
    (hempty : ∀ v, K.isEmpty v = true → size v = 0) {absent r : α} {f : τ → Outcome α × τ}
    (hrun : self.access now db key (.inPlace K absent f) = (.ok r, after)) :
    (r = absent ∧ self.cardinality K.toKind size now db key = .ok 0 ∧ after = self) ∨
      ∃ v, (self.cellAt db key).obj = some (K.inj v) ∧ (f v).1 = .ok r ∧
        self.cardinality K.toKind size now db key = .ok (size v) ∧
        after.cardinality K.toKind size now db key = .ok (size (f v).2) := by
  cases hobj : (self.cellAt db key).obj with
  | none =>
      rw [access_absent K absent hdb hobj] at hrun
      obtain ⟨hreply, rfl⟩ := Prod.mk.inj hrun
      exact Or.inl ⟨(Except.ok.inj hreply).symm, cardinality_absent hdb hobj, rfl⟩
  | some o =>
      cases hproj : K.proj o with
      | none =>
          rw [access_cellAt hdb, Access.onCell, hobj] at hrun
          dsimp only at hrun
          rw [hproj] at hrun
          exact absurd (congrArg Prod.fst hrun) (by simp [err])
      | some v =>
          obtain rfl := K.inj_proj hproj
          cases hf : f v with
          | mk reply v' =>
              cases reply with
              | error e =>
                  rw [access_cellAt hdb, Access.onCell, hobj] at hrun
                  dsimp only at hrun
                  rw [hproj] at hrun
                  dsimp only at hrun
                  rw [hf] at hrun
                  exact absurd (congrArg Prod.fst hrun) (by simp)
              | ok r' =>
                  rw [access_stored K absent hdb hobj hf] at hrun
                  obtain ⟨hreply, rfl⟩ := Prod.mk.inj hrun
                  refine Or.inr ⟨v, rfl, ?_, cardinality_stored hfresh hobj, ?_⟩
                  · rw [hf]
                    exact hreply
                  · rw [hf]
                    cases hgone : K.isEmpty v' with
                    | true =>
                        rw [hempty v' hgone]
                        exact cardinality_absent (by simpa using hdb) (by rw [cellAt_putCell hdb]; rfl)
                    | false => exact cardinality_store hdb hfresh v'

theorem modify_cardinality {K : Kind τ} (size : τ → Nat) {absent r : α} {f : τ → Outcome α × τ}
    (hrun : self.access now db key (.modify K (.ok absent) f) = (.ok r, after)) :
    (r = absent ∧ self.cardinality K size now db key = .ok 0 ∧ after = self) ∨
      ∃ v, (f v).1 = .ok r ∧ self.cardinality K size now db key = .ok (size v) ∧
        after.cardinality K size now db key = .ok (size (f v).2) := by
  rw [access_cellAt hdb, Access.onCell, hfresh, if_neg Bool.false_ne_true] at hrun
  cases hobj : (self.cellAt db key).obj with
  | none =>
      rw [hobj] at hrun
      dsimp only at hrun
      obtain ⟨hreply, rfl⟩ := Prod.mk.inj hrun
      exact Or.inl ⟨(Except.ok.inj hreply).symm, cardinality_absent hdb hobj, putCell_cellAt _ _ _⟩
  | some o =>
      rw [hobj] at hrun
      dsimp only at hrun
      cases hproj : K.proj o with
      | none =>
          rw [hproj] at hrun
          exact absurd (congrArg Prod.fst hrun) (by simp [err])
      | some v =>
          obtain rfl := K.inj_proj hproj
          rw [hproj] at hrun
          dsimp only at hrun
          obtain ⟨hreply, rfl⟩ := Prod.mk.inj hrun
          exact Or.inr ⟨v, hreply, cardinality_stored hfresh hobj, cardinality_store hdb hfresh _⟩

theorem create_grows (K : Kind τ) (size : τ → Nat) (init : τ) {f : τ → Outcome α × τ}
    (hsize : size init = 0) (count : α → Int)
    (hf : ∀ v r, (f v).1 = .ok r → (size (f v).2 : Int) = size v + count r) {r : α}
    (hrun : self.access now db key (.create K init f) = (.ok r, after)) :
    CardChange (cardinality K size now db key) self after (count r) := by
  obtain ⟨v, hreply, hbefore, hafter⟩ := create_cardinality hdb hfresh size hsize hrun
  exact ⟨_, _, hbefore, hafter, hf v r hreply⟩

theorem inPlace_shrinks (K : Aggregate τ) (size : τ → Nat)
    (hempty : ∀ v, K.isEmpty v = true → size v = 0) {f : τ → Outcome Nat × τ}
    (hf : ∀ v n, (self.cellAt db key).obj = some (K.inj v) → (f v).1 = .ok n →
      size (f v).2 + n = size v) {n : Nat}
    (hrun : self.access now db key (.inPlace K 0 f) = (.ok n, after)) :
    CardChange (cardinality K.toKind size now db key) self after (-n) := by
  obtain ⟨rfl, hnone, rfl⟩ | ⟨v, hobj, hreply, hbefore, hafter⟩ :=
    inPlace_cardinality hdb hfresh size hempty hrun
  · exact ⟨0, 0, hnone, hnone, rfl⟩
  · have hsize := hf v n hobj hreply
    exact ⟨_, _, hbefore, hafter, by omega⟩

theorem modify_shrinks (K : Kind τ) (size : τ → Nat) {f : τ → Outcome Nat × τ}
    (hf : ∀ v n, (f v).1 = .ok n → size (f v).2 + n = size v) {n : Nat}
    (hrun : self.access now db key (.modify K (.ok 0) f) = (.ok n, after)) :
    CardChange (cardinality K size now db key) self after (-n) := by
  obtain ⟨rfl, hnone, rfl⟩ | ⟨v, hreply, hbefore, hafter⟩ := modify_cardinality hdb hfresh size hrun
  · exact ⟨0, 0, hnone, hnone, rfl⟩
  · have hsize := hf v n hreply
    exact ⟨_, _, hbefore, hafter, by omega⟩

end

/-- Only a logical database that exists replies. -/
theorem lt_of_access_ok {a : Access α} {r : α} (hrun : self.access now db key a = (.ok r, after)) :
    db < self.dbs.length := by
  by_contra hdb
  rw [access, withDb_no_db hdb] at hrun
  exact absurd (congrArg Prod.fst hrun) (by simp [err])

structure CountLaw (before : Database) (env : Env) (db : Nat) (key : String) : Prop where
  sadd : ∀ members n after, before.sadd env.now db key members = (.ok n, after) →
    CardChange (·.scard env.now db key) before after n
  hset : ∀ fields n after, before.hset env.now db key fields = (.ok n, after) →
    CardChange (·.hlen env.now db key) before after n
  zadd : ∀ members flags n after, flags.ch = false →
    before.zadd env.now env.levels db key members flags = (.ok n, after) →
    CardChange (·.zcard env.now db key) before after n
  srem : ∀ members n after, before.srem env.now db key members = (.ok n, after) →
    CardChange (·.scard env.now db key) before after (-n)
  hdel : ∀ fields n after, before.hdel env.now db key fields = (.ok n, after) →
    CardChange (·.hlen env.now db key) before after (-n)
  zrem : ∀ members n after, before.zrem env.now db key members = (.ok n, after) →
    CardChange (·.zcard env.now db key) before after (-n)
  zremrangebyrank : ∀ start stop n after,
    before.zremrangebyrank env.now db key start stop = (.ok n, after) →
    CardChange (·.zcard env.now db key) before after (-n)
  zremrangebyscore : ∀ min max n after,
    before.zremrangebyscore env.now db key min max = (.ok n, after) →
    CardChange (·.zcard env.now db key) before after (-n)
  lrem : ∀ count value n after, before.lrem env.now db key count value = (.ok n, after) →
    CardChange (·.llen env.now db key) before after (-n)
  lpush : ∀ values n after, before.lpush env.now db key values = (.ok n, after) →
    after.llen env.now db key = .ok n
  rpush : ∀ values n after, before.rpush env.now db key values = (.ok n, after) →
    after.llen env.now db key = .ok n
  lpushx : ∀ values n after, before.lpushx env.now db key values = (.ok n, after) →
    after.llen env.now db key = .ok n
  rpushx : ∀ values n after, before.rpushx env.now db key values = (.ok n, after) →
    after.llen env.now db key = .ok n

section
variable (hfresh : (self.cellAt db key).expired now = false) {left : Bool} {values : List Bytes}
  {n : Nat}
include hfresh

theorem push_llen
    (hrun : self.access now db key (.create listKind.toKind [] (Deque.pushAll left values)) =
      (.ok n, after)) : after.llen now db key = .ok n := by
  obtain ⟨v, hreply, -, hafter⟩ :=
    create_cardinality (lt_of_access_ok hrun) hfresh List.length rfl hrun
  rw [← Except.ok.inj hreply]
  exact hafter

theorem pushx_llen
    (hrun : self.access now db key (.modify listKind.toKind (.ok 0) (Deque.pushAll left values)) =
      (.ok n, after)) : after.llen now db key = .ok n := by
  obtain ⟨rfl, hnone, rfl⟩ | ⟨v, hreply, -, hafter⟩ :=
    modify_cardinality (lt_of_access_ok hrun) hfresh List.length hrun
  · exact hnone
  · rw [← Except.ok.inj hreply]
    exact hafter

end

theorem count_law (h : self.Reachable) (env : Env)
    (hfresh : (self.cellAt db key).expired env.now = false) : self.CountLaw env db key where
  sadd members n after hrun :=
    create_grows (lt_of_access_ok hrun) hfresh setKind.toKind (·.size) ∅ rfl
      (fun n : Nat => (n : Int))
      (fun s n hn => by exact_mod_cast HashSet.sadd_size members s hn) hrun
  hset fields n after hrun :=
    create_grows (lt_of_access_ok hrun) hfresh hashKind.toKind (·.size) ∅ rfl
      (fun n : Nat => (n : Int))
      (fun v n hn => by exact_mod_cast Hash.hset_size fields v hn) hrun
  zadd members flags n after hch hrun :=
    create_grows (lt_of_access_ok hrun) hfresh zsetKind.toKind ZSetInner.len .new rfl id
      (fun z n hn => ZSetInner.zadd_len hch hn) hrun
  srem members n after hrun :=
    inPlace_shrinks (lt_of_access_ok hrun) hfresh setKind (·.size)
      (fun s hs => by simpa [setKind, Std.ExtTreeSet.isEmpty_eq_size_beq_zero] using hs)
      (fun s n _ hn => HashSet.srem_size members s hn) hrun
  hdel fields n after hrun :=
    inPlace_shrinks (lt_of_access_ok hrun) hfresh hashKind (·.size)
      (fun v hv => by simpa [hashKind, Std.ExtTreeMap.isEmpty_eq_size_beq_zero] using hv)
      (fun v n _ hn => Hash.hdel_size fields v hn) hrun
  zrem members n after hrun :=
    inPlace_shrinks (lt_of_access_ok hrun) hfresh zsetKind ZSetInner.len
      (fun _ => ZSetInner.len_of_isEmpty)
      (fun z n _ hn => ZSetInner.zrem_len members z hn) hrun
  zremrangebyrank start stop n after hrun :=
    inPlace_shrinks (lt_of_access_ok hrun) hfresh zsetKind ZSetInner.len
      (fun _ => ZSetInner.len_of_isEmpty)
      (fun z n hobj hn => (h.coupled hobj).removeByRank_len hn) hrun
  zremrangebyscore min max n after hrun :=
    inPlace_shrinks (lt_of_access_ok hrun) hfresh zsetKind ZSetInner.len
      (fun _ => ZSetInner.len_of_isEmpty)
      (fun z n hobj hn => by
        rw [← Except.ok.inj hn]
        exact (h.coupled hobj).removeByScore_len min max) hrun
  lrem count value n after hrun :=
    modify_shrinks (lt_of_access_ok hrun) hfresh listKind.toKind List.length
      (fun l n hn => Deque.lrem_length hn) hrun
  lpush values n after hrun := push_llen hfresh hrun
  rpush values n after hrun := push_llen hfresh hrun
  lpushx values n after hrun := pushx_llen hfresh hrun
  rpushx values n after hrun := pushx_llen hfresh hrun

theorem del_counts {names : List String} {n : Int}
    (hfresh : ∀ name ∈ names, (self.cellAt db name).expired now = false)
    (hrun : self.del db names = (.ok n, after)) :
    CardChange (·.dbsize now db) self after (-n) := by
  have hdb : db < self.dbs.length := by
    by_contra hdb
    rw [del, withDb_no_db hdb] at hrun
    exact absurd (congrArg Prod.fst hrun) (by simp [err])
  have hsome := List.getElem?_eq_getElem hdb
  rw [del, withDb_eq hsome] at hrun
  obtain ⟨hreply, rfl⟩ := Prod.mk.inj hrun
  have hsize : ∀ {d : Database} {ldb : LogicalDb}, d.dbs[db]? = some ldb →
      d.dbsize now db = .ok (ldb.liveKeys now).length := fun hd => by rw [dbsize, readDb_eq hd]
  have hkeys : ∀ name ∈ names, self.dbs[db].isExpired now name = false := by
    intro name hname
    have hcell := hfresh name hname
    rwa [cellAt_eq hsome] at hcell
  have hlength := LogicalDb.removeKeys_length hkeys
  refine ⟨_, _, hsize hsome, hsize (dbs_setDb hsome _), ?_⟩
  rw [← Except.ok.inj hreply]
  dsimp only
  omega

/-- **Integer replies equal the change of the cardinality.** -/
theorem replies_count (h : self.Reachable) (env : Env) (db : Nat) :
    (∀ key, (self.cellAt db key).expired env.now = false → self.CountLaw env db key) ∧
      ∀ names n after, (∀ name ∈ names, (self.cellAt db name).expired env.now = false) →
        self.del db names = (.ok n, after) →
        CardChange (·.dbsize env.now db) self after (-n) :=
  ⟨fun _ hfresh => count_law h env hfresh, fun _ _ _ hfresh hrun => del_counts hfresh hrun⟩

def countedDb : Database :=
  (Database.new 1).runSteps
    [⟨.at 0, .onKey 0 "s" (.typed (.sadd ["a", "b", "a"]))⟩,
      ⟨.at 0, .onKey 0 "l" (.typed (.rpush [[1], [1]]))⟩]

theorem replies_count_repeated :
    CardChange (·.scard 0 0 "s") countedDb
        (countedDb.sadd 0 0 "s" ["a", "c", "c"]).2 1 ∧
      CardChange (·.dbsize 0 0) countedDb (countedDb.del 0 ["l", "l", "x"]).2 (-1) := by
  have hreach : countedDb.Reachable := ⟨1, _, rfl⟩
  have hlaw := replies_count hreach (.at 0) 0
  exact ⟨(hlaw.1 "s" (by decide +kernel)).sadd _ 1 _ (Prod.ext (by decide +kernel) rfl),
    hlaw.2 _ 1 _ (by decide +kernel) (Prod.ext (by decide +kernel) rfl)⟩

end Database

end MiniRudis
