import MiniRudis.Db.Invariant
import MiniRudis.Lib.Returns
import MiniRudis.Rust.Rounding

/-!
# No empty aggregates

When an operation leaves the empty list, hash, set or sorted set in its key.
-/

namespace MiniRudis

open Lib

variable {α : Type}

def RudisObject.Filled (o : RudisObject) : Prop := o.isEmptyAggregate = false

theorem lax_filled : Lax RudisObject.Filled where
  str _ := rfl
  list l hl := by
    show l.isEmpty = false
    simpa using hl
  set s hs := hs

/-! ## Lists -/

namespace Deque

theorem removeFirst_eq_nil (value : Bytes) (n : Nat) (l : List Bytes) :
    (removeFirst value n l).2 = [] ↔ (∀ e ∈ l, e = value) ∧ l.length ≤ n := by
  induction l generalizing n with
  | nil => simp [removeFirst]
  | cons e l ih =>
      rw [removeFirst]
      split
      · rename_i hremove
        rw [ih, List.forall_mem_cons, List.length_cons]
        constructor
        · rintro ⟨hall, hlen⟩
          exact ⟨⟨hremove.2, hall⟩, by omega⟩
        · rintro ⟨⟨-, hall⟩, hlen⟩
          exact ⟨hall, by omega⟩
      · rename_i hkeep
        constructor
        · intro h
          exact absurd h (by simp)
        · rintro ⟨hall, hlen⟩
          rw [List.length_cons] at hlen
          exact absurd ⟨by omega, hall e List.mem_cons_self⟩ hkeep

theorem retainFlags_eq_nil (value : Bytes) (n : Nat) (l : List Bytes) :
    retainFlags l (keepFlags value n l).1 = [] ↔ (∀ e ∈ l, e = value) ∧ l.length ≤ n := by
  induction l with
  | nil => simp [retainFlags]
  | cons e l ih =>
      rw [keepFlags_cons]
      split
      · rename_i hremove
        have hskip : retainFlags (e :: l) (false :: (keepFlags value n l).1) =
            retainFlags l (keepFlags value n l).1 := by
          simp [retainFlags]
        rw [keepFlags_remaining] at hremove
        rw [hskip, ih, List.forall_mem_cons, List.length_cons]
        constructor
        · rintro ⟨hall, hlen⟩
          have hcount : l.count value = l.length := List.count_eq_length.mpr fun e he => (hall e he).symm
          exact ⟨⟨hremove.2, hall⟩, by omega⟩
        · rintro ⟨⟨-, hall⟩, hlen⟩
          exact ⟨hall, by omega⟩
      · rename_i hkeep
        rw [keepFlags_remaining] at hkeep
        constructor
        · intro h
          exact absurd h (by simp [retainFlags])
        · rintro ⟨hall, hlen⟩
          rw [List.forall_mem_cons] at hall
          rw [List.length_cons] at hlen
          have hcount : l.count value ≤ l.length := List.count_le_length
          exact absurd ⟨by omega, hall.1⟩ hkeep

def Clears (count : Int) (value : Bytes) (l : List Bytes) : Prop :=
  (∀ e ∈ l, e = value) ∧ (count = 0 ∨ l.length ≤ count.natAbs)

theorem lrem_eq_nil (count : Int) (value : Bytes) (l : List Bytes) :
    (lrem count value l).2 = [] ↔ Clears count value l := by
  unfold lrem Clears
  split
  · rename_i hzero
    simp [hzero]
  · rename_i hne
    split
    · rename_i hpos
      have habs : count.toNat = count.natAbs := by omega
      simp only [removeFirst_eq_nil, hne, false_or, habs]
    · simp only [retainFlags_eq_nil, hne, false_or]

theorem pushAll_ne_nil (left : Bool) {values l : List Bytes} (h : values ≠ [] ∨ l ≠ []) :
    (pushAll left values l).2 ≠ [] := by
  have hpush : ∀ l v, pushAt left l v ≠ [] := by
    intro l v
    unfold pushAt pushFront pushBack
    split <;> simp
  unfold pushAll
  dsimp only
  induction values generalizing l with
  | nil => simpa using h
  | cons v values ih => exact ih (Or.inr (hpush l v))

end Deque

/-! ## Maps and sets -/

theorem tally_insert_filled {ι : Type} {α : Type} (key : ι → String) (value : ι → α)
    (hit : StrMap α → ι → Bool) {xs : List ι} {m : StrMap α} (h : xs ≠ [] ∨ m.isEmpty = false) :
    (tally hit (fun m x => m.insert (key x) (value x)) xs m).2.isEmpty = false := by
  induction xs generalizing m with
  | nil => exact h.resolve_left (by simp)
  | cons x xs ih => exact ih (Or.inr (by simp))

theorem HashSet.sadd_filled {members : List String} {s : StrSet}
    (h : members ≠ [] ∨ s.isEmpty = false) : (HashSet.sadd members s).2.isEmpty = false := by
  have htally : ∀ (members : List String) (s : StrSet), members ≠ [] ∨ s.isEmpty = false →
      (tally (fun s member => !s.contains member) (fun s member => s.insert member)
        members s).2.isEmpty = false := by
    intro members
    induction members with
    | nil => exact fun s h => h.resolve_left (by simp)
    | cons member members ih => exact fun s _ => ih _ (Or.inr (by simp))
  exact htally members s h

theorem HashSet.mem_ofList (members : List String) (m : String) :
    m ∈ HashSet.ofList members ↔ m ∈ members := by
  have hfold : ∀ (members : List String) (s : StrSet),
      m ∈ members.foldl (fun s member => s.insert member) s ↔ m ∈ s ∨ m ∈ members := by
    intro members
    induction members with
    | nil => simp
    | cons member members ih =>
        intro s
        rw [List.foldl_cons, ih, List.mem_cons, Std.ExtTreeSet.mem_insert]
        have hcmp : compare member m = .eq ↔ m = member := by
          rw [compare_eq_iff_eq]
          exact eq_comm
        rw [hcmp]
        tauto
  rw [HashSet.ofList, hfold]
  simp

theorem HashSet.ofList_filled {members : List String} {m : String} (h : m ∈ members) :
    (RudisObject.set (HashSet.ofList members)).Filled := by
  have hmem := (mem_ofList members m).mpr h
  show (HashSet.ofList members).isEmpty = false
  rw [Std.ExtTreeSet.isEmpty_eq_false_iff]
  intro hempty
  rw [hempty] at hmem
  exact absurd hmem (by simp)

namespace ZSetInner

theorem add_filled (z : ZSetInner) (member : String) (score : F64) (lvl : Level) :
    (z.add member score lvl).2.isEmpty = false := by
  unfold add isEmpty
  simp

theorem zaddLoop_filled (flags : ZAddFlags) (levels : Nat → Level) (i : Nat)
    (members : List (F64 × String)) (count : Int) {z : ZSetInner} (h : z.isEmpty = false) :
    (zaddLoop flags levels i members count z).2.isEmpty = false := by
  induction members generalizing i count z with
  | nil => exact h
  | cons p members ih =>
      obtain ⟨score, member⟩ := p
      rw [zaddLoop]
      split
      · exact h
      · split
        · exact ih (i + 1) count h
        · exact ih (i + 1) _ (z.add_filled member score (levels i))

/-- The first pair of a `ZADD` is added to the empty set, unless it is not a number or
no member may be added. -/
theorem zadd_new_filled {flags : ZAddFlags} (levels : Nat → Level) {score : F64} {member : String}
    (members : List (F64 × String)) (hxx : flags.xx = false) (hscore : isNaN score = false) :
    (zadd flags levels ((score, member) :: members) .new).2.isEmpty = false := by
  have hskip : new.skips flags score member = false := by
    simp [skips, hxx, new]
  rw [zadd, zaddLoop, if_neg (by simp [hscore]), if_neg (by simp [hskip])]
  exact zaddLoop_filled flags levels 1 members _ (new.add_filled member score (levels 0))

theorem first_score (delta : F64) (member : String) :
    ((new.scores[member]?).getD F64.zero).add delta = delta := by
  have hnone : new.scores[member]? = none := by
    simp [new]
  rw [hnone, Option.getD_none, F64.zero_add]

theorem zincrby_filled (lvl : Level) (delta : F64) (member : String) {z : ZSetInner}
    (h : z.isEmpty = false) : (zincrby lvl delta member z).2.isEmpty = false := by
  unfold zincrby
  dsimp only
  split
  · exact h
  · exact z.add_filled member _ lvl

theorem zincrby_new_filled (lvl : Level) {delta : F64} (member : String)
    (h : isNaN delta = false) : (zincrby lvl delta member .new).2.isEmpty = false := by
  unfold zincrby
  rw [first_score, if_neg (by simp [h])]
  exact new.add_filled member _ lvl

end ZSetInner

/-! ## Operations -/

def TypedOp.Full : TypedOp α → Prop
  | lpush values | rpush values | lpushx values | rpushx values => values ≠ []
  | hset fields => fields ≠ []
  | sadd members => members ≠ []
  | zadd members _ => members ≠ []
  | _ => True

def KeyOp.Full : KeyOp α → Prop
  | typed op => op.Full
  | _ => True

def Op.Full : Op α → Prop
  | onKey _ _ op => op.Full
  | _ => True

/-- The operation is none of those that leave an aggregate empty: an `LREM` of all
elements, a `ZADD` that adds nothing to an absent key and a `ZINCRBY` of an absent key by
NaN. -/
def TypedOp.Fills (env : Env) (c : Cell) : TypedOp α → Prop
  | lrem count value => ∀ l, c.live env.now = some (.list l) → ¬ Deque.Clears count value l
  | zadd members flags =>
      c.obj = none → flags.xx = false ∧ ∀ p ∈ members.head?, isNaN p.1 = false
  | zincrby delta _ => c.obj = none → isNaN delta = false
  | _ => True

namespace Database

variable (self : Database) (env : Env) (db : Nat)

def HasMember (key m : String) : Prop := ∃ s, self.getSetClone env.now db key = .ok s ∧ m ∈ s

def NotASet (key : String) : Prop := ∃ e, self.getSetClone env.now db key = .error e

end Database

/-- A store of a union, an intersection or a difference has an element to store, or
stores nothing since it fails. -/
def Op.Fills (env : Env) (self : Database) : Op α → Prop
  | onKey db key (.typed op) => ∀ c, self.entry (db, key) = some c → op.Fills env c
  | sunionstore db _ names =>
      (∃ name ∈ names, self.NotASet env db name) ∨ ∃ name ∈ names, ∃ m, self.HasMember env db name m
  | sinterstore db _ names =>
      (∃ name ∈ names, self.NotASet env db name) ∨
        names ≠ [] ∧ ∃ m, ∀ name ∈ names, self.HasMember env db name m
  | sdiffstore db _ names =>
      (∃ name ∈ names, self.NotASet env db name) ∨
        ∃ first rest m, names = first :: rest ∧ self.HasMember env db first m ∧
          ∀ name ∈ rest, ¬ self.HasMember env db name m
  | _ => True

/-! ## What keeps aggregates filled -/

section
variable {env : Env} {c : Cell}

theorem filled_list {l : List Bytes} (h : l ≠ []) : (RudisObject.list l).Filled := by
  show l.isEmpty = false
  simpa using h

theorem list_ne_nil {l : List Bytes} (h : (RudisObject.list l).Filled) : l ≠ [] := by
  rintro rfl
  exact absurd h nofun

/-- A value that is changed in place is deleted when it is empty, and as it was when the
work on it fails. -/
theorem Access.inPlace_keeps {τ : Type} {K : Aggregate τ} {absent : α} {f : τ → Outcome α × τ}
    {now : Instant} (hc : c.Sound RudisObject.Filled)
    (herror : ∀ v e, (f v).1 = .error e → (f v).2 = v) :
    (Access.inPlace K absent f).Keeps RudisObject.Filled now c := by
  intro v hobj hok
  cases hf : (f v).1 with
  | error e =>
      rw [herror v e hf]
      exact hc.good _ hobj
  | ok r =>
      rw [RudisObject.Filled, K.isEmpty_inj]
      exact hok r hf

theorem TypedOp.keeps_filled (op : TypedOp α) (hc : c.Sound RudisObject.Filled) (hfull : op.Full)
    (hfills : op.Fills env c) : (op.access env).Keeps RudisObject.Filled env.now c := by
  have hlive : ∀ {o}, c.live env.now = some o → o.Filled := fun h =>
    hc.good _ (Cell.live_eq_some h).2
  cases op with
  | append | incr | incrFloat | setrange => exact ⟨fun _ => rfl, fun _ _ => rfl⟩
  | lpush values | rpush values =>
      exact ⟨fun _ => filled_list (Deque.pushAll_ne_nil _ (Or.inl hfull)),
        fun _ _ => filled_list (Deque.pushAll_ne_nil _ (Or.inl hfull))⟩
  | lpushx values | rpushx values =>
      exact fun _ _ => filled_list (Deque.pushAll_ne_nil _ (Or.inl hfull))
  | lpop count | rpop count =>
      apply Access.inPlace_keeps hc
      intro l e he
      unfold Deque.pop at he ⊢
      split at he
      · exact absurd he nofun
      · rename_i hcap
        rw [if_neg hcap]
  | ltrim start stop =>
      apply Access.inPlace_keeps hc
      intro l e he
      rw [Deque.ltrim_eq] at he
      exact absurd he nofun
  | lset index value =>
      intro l hl
      apply filled_list
      show (Deque.lset index value l).2 ≠ []
      have hne : l ≠ [] := list_ne_nil (hlive hl)
      unfold Deque.lset
      dsimp only
      split
      · simpa using hne
      · exact hne
  | linsert before pivot value =>
      intro l hl
      apply filled_list
      show (Deque.linsert before pivot value l).2 ≠ []
      have hne : l ≠ [] := list_ne_nil (hlive hl)
      unfold Deque.linsert
      split
      · rename_i pos _
        have hinsert : ∀ i, l.insertIdx i value ≠ [] := by
          intro i hnil
          have hlen := congrArg List.length hnil
          rw [List.length_insertIdx, List.length_nil] at hlen
          have hpos := List.length_pos_iff.mpr hne
          split at hlen <;> omega
        exact hinsert _
      · exact hne
  | lrem count value =>
      intro l hl
      apply filled_list
      rw [ne_eq, Deque.lrem_eq_nil]
      exact hfills l hl
  | hset fields =>
      exact ⟨fun _ => tally_insert_filled _ _ _ (Or.inl hfull),
        fun _ _ => tally_insert_filled _ _ _ (Or.inl hfull)⟩
  | hsetnx field value =>
      have hfield : ∀ h : StrMap Bytes, (Hash.hsetnx field value h).2.isEmpty = false := by
        intro h
        unfold Hash.hsetnx
        split
        · rename_i hmem
          rw [Std.ExtTreeMap.isEmpty_eq_false_iff]
          rintro rfl
          exact absurd hmem (by simp)
        · simp
      exact ⟨fun _ => hfield ∅, fun h _ => hfield h⟩
  | hincrby | hincrbyfloat =>
      have hfield : ∀ {β : Type} (field : String) (f : Bytes → Outcome β × Bytes)
          (h : StrMap Bytes), (Hash.updateField field f h).2.isEmpty = false := by
        intro β field f h
        simp [Hash.updateField]
      exact ⟨fun _ => hfield _ _ ∅, fun h _ => hfield _ _ h⟩
  | spop count =>
      apply Access.inPlace_keeps hc
      intro s e he
      unfold HashSet.spop at he ⊢
      split at he
      · exact absurd he nofun
      · rename_i hreserves
        rw [if_neg hreserves]
  | hdel | srem | zrem | zremrangebyscore | zpopmin | zpopmax =>
      exact Access.inPlace_keeps hc fun _ _ he => absurd he nofun
  | zremrangebyrank start stop =>
      apply Access.inPlace_keeps hc
      intro z e he
      rw [ZSetInner.removeByRank, ZSetInner.windowItems_eq] at he
      exact absurd he nofun
  | sadd members =>
      exact ⟨fun _ => HashSet.sadd_filled (Or.inl hfull),
        fun _ _ => HashSet.sadd_filled (Or.inl hfull)⟩
  | zadd members flags =>
      refine ⟨?_, fun z hz => ZSetInner.zaddLoop_filled flags env.levels 0 members 0 (hc.good _ hz)⟩
      intro hnone
      obtain ⟨hxx, hscore⟩ := hfills hnone
      cases members with
      | nil => exact absurd rfl hfull
      | cons p members => exact ZSetInner.zadd_new_filled env.levels members hxx (hscore p rfl)
  | zincrby delta member =>
      exact ⟨fun hnone => ZSetInner.zincrby_new_filled _ member (hfills hnone),
        fun z hz => ZSetInner.zincrby_filled _ delta member (hc.good _ hz)⟩
  | _ => trivial

end

namespace Database

variable {self : Database} {env : Env} {db : Nat} {dst : String} {names : List String}

theorem not_notASet {sets : List StrSet}
    (h : names.mapM (fun name => self.getSetClone env.now db name) = .ok sets) :
    ¬ ∃ name ∈ names, self.NotASet env db name := by
  rintro ⟨name, hname, e, he⟩
  obtain ⟨s, -, hs⟩ := (mapM_eq_ok h).1 name hname
  rw [he] at hs
  exact absurd hs nofun

theorem sunion_filled (h : (Op.sunionstore db dst names).Fills env self) (members : List String)
    (hok : self.sunion env.now db names = .ok members) :
    (RudisObject.set (HashSet.ofList members)).Filled := by
  unfold sunion at hok
  cases hsets : names.mapM fun name => self.getSetClone env.now db name with
  | error e =>
      rw [hsets] at hok
      exact absurd hok nofun
  | ok sets =>
      rw [hsets] at hok
      obtain rfl := Except.ok.inj hok
      obtain ⟨name, hname, m, s, hs, hm⟩ := h.resolve_left (not_notASet hsets)
      obtain ⟨s', hs', heq⟩ := (mapM_eq_ok hsets).1 name hname
      obtain rfl := Except.ok.inj (hs.symm.trans heq)
      apply HashSet.ofList_filled (m := m)
      rw [Std.ExtTreeSet.mem_toList, HashSet.mem_ofList, List.mem_flatMap]
      exact ⟨s, hs', Std.ExtTreeSet.mem_toList.mpr hm⟩

theorem sinter_filled (h : (Op.sinterstore db dst names).Fills env self) (members : List String)
    (hok : self.sinter env.now db names = .ok members) :
    (RudisObject.set (HashSet.ofList members)).Filled := by
  unfold sinter at hok
  cases hsets : names.mapM fun name => self.getSetClone env.now db name with
  | error e =>
      split at hok
      · rename_i hnames
        rw [List.isEmpty_iff.mp hnames] at hsets
        exact absurd hsets nofun
      · rw [hsets] at hok
        exact absurd hok nofun
  | ok sets =>
      obtain ⟨hne, m, hm⟩ := h.resolve_left (not_notASet hsets)
      rw [if_neg (by simpa using hne), hsets] at hok
      have hmem : ∀ s ∈ sets, m ∈ s := by
        intro s hs
        obtain ⟨name, hname, heq⟩ := (mapM_eq_ok hsets).2 s hs
        obtain ⟨s', hs', hms⟩ := hm name hname
        obtain rfl := Except.ok.inj (heq.symm.trans hs')
        exact hms
      cases sets with
      | nil => exact absurd hok nofun
      | cons first rest =>
          obtain rfl := Except.ok.inj hok
          apply HashSet.ofList_filled (m := m)
          rw [List.mem_filter, Std.ExtTreeSet.mem_toList, List.all_eq_true]
          refine ⟨hmem first List.mem_cons_self, fun s hs => ?_⟩
          exact Std.ExtTreeSet.contains_iff_mem.mpr (hmem s (List.mem_cons_of_mem _ hs))

theorem sdiff_filled (h : (Op.sdiffstore db dst names).Fills env self) (members : List String)
    (hok : self.sdiff env.now db names = .ok members) :
    (RudisObject.set (HashSet.ofList members)).Filled := by
  cases names with
  | nil =>
      obtain ⟨name, hname, -⟩ | ⟨first, rest, m, hnil, -⟩ := h
      · exact absurd hname (by simp)
      · exact absurd hnil nofun
  | cons name names =>
      rw [sdiff] at hok
      cases hfirst : self.getSetClone env.now db name with
      | error e =>
          rw [hfirst] at hok
          exact absurd hok nofun
      | ok first =>
          cases hsets : names.mapM fun name => self.getSetClone env.now db name with
          | error e =>
              rw [hfirst, hsets] at hok
              exact absurd hok nofun
          | ok sets =>
              rw [hfirst, hsets] at hok
              obtain rfl := Except.ok.inj hok
              obtain ⟨other, hother, e, he⟩ | ⟨_, _, m, hnames, ⟨s, hs, hm⟩, hnot⟩ := h
              · obtain rfl | hother := List.mem_cons.mp hother
                · exact absurd (hfirst.symm.trans he) nofun
                · exact absurd ⟨other, hother, e, he⟩ (not_notASet hsets)
              · obtain ⟨rfl, rfl⟩ := List.cons.inj hnames
                obtain rfl := Except.ok.inj (hs.symm.trans hfirst)
                apply HashSet.ofList_filled (m := m)
                rw [List.mem_filter, Std.ExtTreeSet.mem_toList, Bool.not_eq_true',
                  List.any_eq_false]
                refine ⟨hm, fun s hs hin => ?_⟩
                obtain ⟨other, hother, heq⟩ := (mapM_eq_ok hsets).2 s hs
                exact hnot other hother ⟨s, heq, Std.ExtTreeSet.contains_iff_mem.mp hin⟩

end Database

theorem Op.keeps_filled (op : Op α) {env : Env} {self : Database} (hfull : op.Full)
    (hfills : op.Fills env self) : op.Keeps RudisObject.Filled env self := by
  cases op with
  | onKey db key op =>
      intro c hentry hc
      cases op with
      | typed op => exact op.keeps_filled hc hfull (hfills c hentry)
      | _ => trivial
  | sunionstore db dst names => exact Database.sunion_filled hfills
  | sinterstore db dst names => exact Database.sinter_filled hfills
  | sdiffstore db dst names => exact Database.sdiff_filled hfills
  | _ => trivial

end MiniRudis
