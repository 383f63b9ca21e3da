import MiniRudis.Lib.Ledger
import MiniRudis.Db.Queues
import MiniRudis.Db.Removals
import MiniRudis.Db.Presence

/-!
# Elements in several lists

The lists of some keys are a stock of elements.  Pushes and insertions put elements in, pops
and `LREM` take elements out, and `LMOVE` within the keys does neither.
-/

namespace MiniRudis

open Lib

variable {α : Type}

/-! ## What an operation puts in and takes out -/

/-- An error puts nothing in and takes nothing out. -/
def repliedFlow (reply : Outcome α) (flow : α → Flow Bytes) : Flow Bytes :=
  match reply with
  | .ok r => flow r
  | .error _ => .nothing

/-- What an operation on a list puts in and takes out, by its reply.  `LPUSHX` and `LINSERT`
reply the new length where they have put something in. -/
def TypedOp.flow : TypedOp α → Outcome α → Flow Bytes
  | lpush values, reply | rpush values, reply => repliedFlow reply fun _ => ⟨values, []⟩
  | lpushx values, reply | rpushx values, reply =>
      repliedFlow reply fun n => if n = 0 then .nothing else ⟨values, []⟩
  | linsert _ _ value, reply => repliedFlow reply fun n => if 0 < n then ⟨[value], []⟩ else .nothing
  | lpop _, reply | rpop _, reply => repliedFlow reply fun elems => ⟨[], elems⟩
  | lrem _ value, reply => repliedFlow reply fun n => ⟨[], List.replicate n value⟩
  | _, _ => .nothing

/-- The operations on a list whose replies tell what they put in and take out. -/
def TypedOp.trades : TypedOp α → Bool
  | lpush _ | rpush _ | lpushx _ | rpushx _ | linsert .. | lpop _ | rpop _ | lrem .. => true
  | _ => false

/-! ## Lists -/

namespace Deque

variable (l : List Bytes)

theorem pushAll_turns (left : Bool) (values : List Bytes) :
    (⟨values, []⟩ : Flow Bytes).Turns l (pushAll left values l).2 := by
  intro v
  rw [pushAll, foldl_pushAt]
  cases left <;> simp [DequeCall.next, Nat.add_comm]

theorem popLoop_turns (left : Bool) (count : Nat) :
    (⟨[], (popLoop left count l).1⟩ : Flow Bytes).Turns l (popLoop left count l).2 := by
  intro v
  rw [popLoop_eq]
  cases left with
  | true =>
      have hparts := congrArg (List.count v) (DequeCall.taken_append_next count l)
      rw [List.count_append] at hparts
      dsimp only
      simp only [List.count_nil]
      omega
  | false =>
      have hparts := congrArg (List.count v) (DequeCall.next_append_taken count l)
      rw [List.count_append, List.count_reverse] at hparts
      simpa using hparts

theorem lrem_turns (count : Int) (value : Bytes) :
    (⟨[], List.replicate (selected value count l) value⟩ : Flow Bytes).Turns l
      (without value count l) := fun v => by
  simpa using count_without value count l v

end Deque

/-! ## Cells -/

/-- Until the instant the cell holds the list, which is empty where there is no key. -/
structure Cell.Lists (until_ : Instant) (l : List Bytes) (c : Cell) : Prop where
  fresh : c.expired until_ = false
  value : c.valueAs listKind.toKind [] = some l

def ListReply (until_ : Instant) (x : Outcome α × Cell) (y : Outcome α × List Bytes) : Prop :=
  x.1 = y.1 ∧ x.2.Lists until_ y.2

namespace Cell.Lists

variable {until_ now : Instant} {l : List Bytes} {c : Cell}

theorem absent (until_ : Instant) : Cell.absent.Lists until_ [] := ⟨rfl, rfl⟩

theorem store (h : c.Lists until_ l) (l' : List Bytes) :
    Lists until_ l' { c with obj := some (.list l') } := ⟨h.fresh, rfl⟩

theorem remnant (h : c.Lists until_ l) (rest : List Bytes) :
    (Database.remnant rest c).Lists until_ rest := by
  unfold Database.remnant
  cases rest with
  | nil => exact absent until_
  | cons elem rest => exact h.store (elem :: rest)

theorem onCell_create (h : c.Lists until_ l) (now : Instant)
    (f : List Bytes → Outcome α × List Bytes) :
    ListReply until_ ((Access.create listKind.toKind [] f).onCell now c) (f l) := by
  rw [Access.onCell_create, h.value]
  exact ⟨rfl, h.store _⟩

theorem onCell_modify (h : c.Lists until_ l) (hle : now ≤ until_) (absent : Outcome α)
    (f : List Bytes → Outcome α × List Bytes) :
    ListReply until_ ((Access.modify listKind.toKind absent f).onCell now c) (f l) ∨
      l = [] ∧ ListReply until_ ((Access.modify listKind.toKind absent f).onCell now c)
        (absent, []) := by
  rw [Access.onCell, fresh_earlier hle h.fresh, if_neg Bool.false_ne_true]
  obtain ⟨hobj, rfl⟩ | hobj := valueAs_eq_some.mp h.value
  · rw [hobj]
    exact Or.inr ⟨rfl, rfl, h⟩
  · rw [hobj]
    exact Or.inl ⟨rfl, h.store _⟩

theorem onCell_inPlace (h : c.Lists until_ l) (now : Instant) (absent : α)
    (f : List Bytes → Outcome α × List Bytes) :
    ListReply until_ ((Access.inPlace listKind absent f).onCell now c) (f l) ∨
      l = [] ∧ ListReply until_ ((Access.inPlace listKind absent f).onCell now c)
        (.ok absent, []) := by
  obtain ⟨hobj, rfl⟩ | hobj := valueAs_eq_some.mp h.value
  · rw [Access.onCell, hobj]
    exact Or.inr ⟨rfl, rfl, h⟩
  · left
    cases hf : f l with
    | mk reply rest =>
        cases reply with
        | ok r =>
            rw [Access.onCell_inPlace listKind absent hobj hf]
            exact ⟨rfl, h.remnant rest⟩
        | error e =>
            rw [Access.onCell, hobj]
            dsimp only
            rw [listKind.proj_inj]
            dsimp only
            rw [hf]
            exact ⟨rfl, h.store rest⟩

end Cell.Lists

namespace TypedOp

theorem flow_pushx (values : List Bytes) (left : Bool) (l : List Bytes) :
    (flow (lpushx values) (Deque.pushAll left values l).1).Turns l
      (Deque.pushAll left values l).2 := by
  have hpush := Deque.pushAll_turns l left values
  rw [flow, Deque.pushAll, repliedFlow]
  rw [Deque.pushAll] at hpush
  dsimp only at hpush ⊢
  split
  · rename_i hzero
    rw [List.length_eq_zero_iff.mp hzero] at hpush ⊢
    intro v
    have hcount := hpush v
    simp only [Flow.nothing, List.count_nil] at hcount ⊢
    omega
  · exact hpush

theorem flow_linsert (before : Bool) (pivot value : Bytes) (l : List Bytes) :
    (flow (linsert before pivot value) (Deque.linsert before pivot value l).1).Turns l
      (Deque.linsert before pivot value l).2 := by
  rw [flow, Deque.linsert]
  cases hpos : l.findIdx? (· == pivot) with
  | none => exact Flow.nothing_turns l
  | some pos =>
      have hlt : pos < l.length := (List.findIdx?_eq_some_iff_getElem.mp hpos).1
      have hperm : (l.insertIdx (if before then pos else pos + 1) value).Perm (value :: l) := by
        apply List.perm_insertIdx
        split <;> omega
      have hlength := hperm.length_eq
      dsimp only [repliedFlow]
      rw [if_pos (by rw [hlength, List.length_cons]; omega)]
      intro v
      rw [hperm.count_eq v, List.count_cons, List.count_nil, List.count_singleton]
      omega

theorem flow_pop (left : Bool) (count : Nat) (l : List Bytes) :
    (flow (lpop count) (Deque.pop left count l).1).Turns l (Deque.pop left count l).2 := by
  rw [Deque.pop]
  split
  · exact Deque.popLoop_turns l left count
  · exact Flow.nothing_turns l

theorem flow_lrem (count : Int) (value : Bytes) (l : List Bytes) :
    (flow (lrem count value) (Deque.lrem count value l).1).Turns l
      (Deque.lrem count value l).2 := by
  rw [Deque.lrem_eq]
  exact Deque.lrem_turns l count value

theorem turns_of_listReply {op : TypedOp α} {until_ : Instant} {l : List Bytes}
    {x : Outcome α × Cell} {y : Outcome α × List Bytes} (h : ListReply until_ x y)
    (hy : (op.flow y.1).Turns l y.2) :
    ∃ l', x.2.Lists until_ l' ∧ (op.flow x.1).Turns l l' := by
  refine ⟨y.2, h.2, ?_⟩
  rw [h.1]
  exact hy

/-- **What goes into a list stays there until it is taken out.** -/
theorem onCell_lists {op : TypedOp α} (hop : op.trades = true) (env : Env) {until_ : Instant}
    {l : List Bytes} {c : Cell} (h : c.Lists until_ l) (hle : env.now ≤ until_) :
    ∃ l', ((op.access env).onCell env.now c).2.Lists until_ l' ∧
      (op.flow ((op.access env).onCell env.now c).1).Turns l l' := by
  cases op with
  | lpush values =>
      exact turns_of_listReply (h.onCell_create env.now _) (Deque.pushAll_turns l true values)
  | rpush values =>
      exact turns_of_listReply (h.onCell_create env.now _) (Deque.pushAll_turns l false values)
  | lpushx values =>
      obtain hlist | ⟨rfl, hnone⟩ := h.onCell_modify hle (.ok 0) (Deque.pushAll true values)
      · exact turns_of_listReply hlist (flow_pushx values true l)
      · exact turns_of_listReply hnone (Flow.nothing_turns [])
  | rpushx values =>
      obtain hlist | ⟨rfl, hnone⟩ := h.onCell_modify hle (.ok 0) (Deque.pushAll false values)
      · exact turns_of_listReply hlist (flow_pushx values false l)
      · exact turns_of_listReply hnone (Flow.nothing_turns [])
  | linsert before pivot value =>
      obtain hlist | ⟨rfl, hnone⟩ :=
        h.onCell_modify hle (.ok (-1)) (Deque.linsert before pivot value)
      · exact turns_of_listReply hlist (flow_linsert before pivot value l)
      · exact turns_of_listReply hnone (Flow.nothing_turns [])
  | lpop count =>
      obtain hlist | ⟨rfl, hnone⟩ := h.onCell_inPlace env.now [] (Deque.pop true count)
      · exact turns_of_listReply hlist (flow_pop true count l)
      · exact turns_of_listReply hnone (Flow.nothing_turns [])
  | rpop count =>
      obtain hlist | ⟨rfl, hnone⟩ := h.onCell_inPlace env.now [] (Deque.pop false count)
      · exact turns_of_listReply hlist (flow_pop false count l)
      · exact turns_of_listReply hnone (Flow.nothing_turns [])
  | lrem count value =>
      obtain hlist | ⟨rfl, hnone⟩ := h.onCell_modify hle (.ok 0) (Deque.lrem count value)
      · exact turns_of_listReply hlist (flow_lrem count value l)
      · exact turns_of_listReply hnone (Flow.nothing_turns [])
  | _ => exact absurd hop Bool.false_ne_true

end TypedOp

/-! ## Databases -/

namespace Deque

theorem count_pushAt (left : Bool) (l : List Bytes) (elem v : Bytes) :
    (pushAt left l elem).count v = l.count v + [elem].count v := by
  cases left <;> simp [pushAt, pushFront, pushBack, List.count_cons]

end Deque

namespace Database

def stock (self : Database) (db : Nat) (keys : Finset String) (v : Bytes) : Nat :=
  ∑ key ∈ keys, ((self.elementsAt db key).getD []).count v

/-- Until the instant each of the keys holds a list, or none yet. -/
structure HoldsLists (data : Database) (db : Nat) (keys : Finset String) (until_ : Instant) :
    Prop where
  exists_db : db < data.dbs.length
  lists : ∀ key ∈ keys, ∃ l, (data.cellAt db key).Lists until_ l

structure Trades (before : Database) (db : Nat) (keys : Finset String) (until_ : Instant)
    (flow : Flow Bytes) (after : Database) : Prop where
  holds : after.HoldsLists db keys until_
  balance : ∀ v, after.stock db keys v + flow.taken.count v =
    before.stock db keys v + flow.put.count v

section
variable {self after : Database} {db : Nat} {keys : Finset String} {until_ : Instant}
  {key : String} {l l' : List Bytes} {flow : Flow Bytes}

theorem HoldsLists.same (h : self.HoldsLists db keys until_) (hdb : db < after.dbs.length)
    (hcells : ∀ key ∈ keys, after.cellAt db key = self.cellAt db key) :
    self.Trades db keys until_ .nothing after := by
  refine ⟨⟨hdb, fun key hkey => ?_⟩, fun v => ?_⟩
  · rw [hcells key hkey]
    exact h.lists key hkey
  · have hstock : after.stock db keys v = self.stock db keys v := by
      refine Finset.sum_congr rfl fun key hkey => ?_
      rw [elementsAt, elementsAt, hcells key hkey]
    rw [hstock]
    rfl

theorem HoldsLists.putCell (h : self.HoldsLists db keys until_) (hkey : key ∈ keys)
    (hold : (self.cellAt db key).Lists until_ l) {c : Cell} (hnew : c.Lists until_ l')
    (hflow : flow.Turns l l') : self.Trades db keys until_ flow (self.putCell db key c) := by
  have hothers : ∀ other, other ≠ key →
      (self.putCell db key c).cellAt db other = self.cellAt db other :=
    fun other hne => cellAt_putCell_ne h.exists_db hne c
  refine ⟨⟨?_, fun other hother => ?_⟩, fun v => ?_⟩
  · rw [length_putCell]
    exact h.exists_db
  · by_cases hne : other = key
    · rw [hne, cellAt_putCell h.exists_db]
      exact ⟨l', hnew⟩
    · rw [hothers other hne]
      exact h.lists other hother
  · refine sum_entry hkey (fun other hne => ?_) ?_
    · rw [elementsAt, elementsAt, hothers other hne]
    · rw [elementsAt, elementsAt, cellAt_putCell h.exists_db, hnew.value, hold.value]
      exact hflow v

theorem Trades.moved {elem : Bytes} (h : self.Trades db keys until_ ⟨[], [elem]⟩ after)
    {last : Database} (h' : after.Trades db keys until_ ⟨[elem], []⟩ last) :
    self.Trades db keys until_ .nothing last := by
  refine ⟨h'.holds, fun v => ?_⟩
  have hout := h.balance v
  have hin := h'.balance v
  simp only [Flow.nothing, List.count_nil] at hout hin ⊢
  omega

theorem lmove_self_trades (h : self.HoldsLists db keys until_) (hkey : key ∈ keys)
    (now : Instant) (srcLeft dstLeft : Bool) :
    self.Trades db keys until_ .nothing (self.lmove now db key key srcLeft dstLeft).2 := by
  obtain ⟨l, hl⟩ := h.lists key hkey
  rw [lmove_self now key srcLeft dstLeft h.exists_db]
  obtain ⟨hobj, rfl⟩ | hobj := Cell.valueAs_eq_some.mp hl.value
  · rw [Cell.rotate, hobj]
    exact h.putCell hkey hl hl (Flow.nothing_turns [])
  · have hrotated : Flow.nothing.Turns l (Deque.rotate srcLeft dstLeft l).2 := by
      rw [Deque.rotate]
      cases hpop : Deque.popAt srcLeft l with
      | none =>
          split <;> exact Flow.nothing_turns l
      | some p =>
          obtain ⟨elem, rest⟩ := p
          obtain rfl := Deque.popAt_eq_some.mp hpop
          split
          · exact Flow.nothing_turns _
          · intro v
            rw [Deque.count_pushAt, Deque.count_pushAt]
            rfl
    have hcell : (self.cellAt db key).rotate srcLeft dstLeft =
        ((Deque.rotate srcLeft dstLeft l).1,
          { self.cellAt db key with obj := some (.list (Deque.rotate srcLeft dstLeft l).2) }) := by
      rw [Cell.rotate, hobj]
      rfl
    rw [hcell]
    exact h.putCell hkey hl (hl.store _) hrotated

theorem lmove_trades (h : self.HoldsLists db keys until_) {src dst : String} (hsrc : src ∈ keys)
    (hdst : dst ∈ keys) (now : Instant) (srcLeft dstLeft : Bool) :
    self.Trades db keys until_ .nothing (self.lmove now db src dst srcLeft dstLeft).2 := by
  by_cases hne : src = dst
  · subst hne
    exact lmove_self_trades h hsrc now srcLeft dstLeft
  obtain ⟨l, hl⟩ := h.lists src hsrc
  obtain ⟨old, hold⟩ := h.lists dst hdst
  obtain ⟨hobj, rfl⟩ | hobj := Cell.valueAs_eq_some.mp hl.value
  · have hrun : self.lmove now db src dst srcLeft dstLeft = (.ok none, self) := by
      rw [lmove_ne now src dst srcLeft dstLeft h.exists_db hne, Access.onCell, hobj]
      simp
    rw [hrun]
    exact h.same h.exists_db fun _ _ => rfl
  · cases hpop : Deque.popAt srcLeft l with
    | none =>
        obtain rfl := (Deque.popAt_eq_none srcLeft l).mp hpop
        -- an empty list is deleted, and nothing is moved
        have hrun : self.lmove now db src dst srcLeft dstLeft =
            (.ok none, self.putCell db src .absent) := by
          rw [lmove_ne now src dst srcLeft dstLeft h.exists_db hne, Access.onCell, hobj]
          simp [Deque.take, hpop, listKind]
        rw [hrun]
        exact h.putCell hsrc hl (Cell.Lists.absent until_) (Flow.nothing_turns [])
    | some p =>
        obtain ⟨elem, rest⟩ := p
        obtain rfl := Deque.popAt_eq_some.mp hpop
        have hout : self.Trades db keys until_ ⟨[], [elem]⟩
            (self.putCell db src (remnant rest (self.cellAt db src))) := by
          refine h.putCell hsrc hl (hl.remnant rest) fun v => ?_
          rw [Deque.count_pushAt]
          rfl
        have hdstCell : ((self.putCell db src (remnant rest (self.cellAt db src))).cellAt db dst) =
            self.cellAt db dst := cellAt_putCell_ne h.exists_db (Ne.symm hne) _
        rw [lmove_elem now src dst srcLeft dstLeft h.exists_db hne hobj, hold.value]
        dsimp only
        refine hout.moved (hout.holds.putCell hdst (l := old) (hdstCell ▸ hold) (hold.store _) ?_)
        intro v
        rw [Deque.count_pushAt, List.count_nil]
        rfl

end

end Database

/-! ## Operations -/

namespace Op

def flow (db : Nat) (keys : Finset String) : Op α → Outcome α → Flow Bytes
  | onKey db' key (.typed op), reply =>
      if db' = db ∧ key ∈ keys then op.flow reply else .nothing
  | _, _ => .nothing

/-- The operation writes the keys only by pushes, insertions, pops, `LREM`, and moves between
them. -/
def TradesIn (db : Nat) (keys : Finset String) : Op α → Prop
  | onKey db' key (.typed op) =>
      db' = db → key ∈ keys → op.trades = true ∨ op.reads = true
  | lmove db' src dst _ _ => db' = db → (src ∈ keys ↔ dst ∈ keys)
  | op => ∀ key ∈ keys, ¬ op.Writes db key

variable {self : Database} {db : Nat} {keys : Finset String} {until_ : Instant} {env : Env}

theorem flow_reads {op : TypedOp α} (h : op.reads = true) (reply : Outcome α) :
    op.flow reply = .nothing := by
  cases op <;> first
    | rfl
    | exact absurd h Bool.false_ne_true

theorem run_unwritten_trades (h : self.HoldsLists db keys until_) (hle : env.now ≤ until_)
    {op : Op α} (hop : ∀ key ∈ keys, ¬ op.Writes db key) :
    self.Trades db keys until_ .nothing (op.run env self).2 := by
  refine h.same ?_ fun key hkey => ?_
  · rw [op.length_run]
    exact h.exists_db
  · obtain ⟨l, hl⟩ := h.lists key hkey
    exact ((op.run_unwritten env self (hop key hkey)).eq_of_fresh
      (Cell.fresh_earlier hle hl.fresh)).symm

theorem run_trades (op : Op α) (h : self.HoldsLists db keys until_) (hle : env.now ≤ until_)
    (hop : op.TradesIn db keys) :
    self.Trades db keys until_ (op.flow db keys (op.run env self).1) (op.run env self).2 := by
  cases op with
  | onKey db' key op =>
      cases op with
      | typed op =>
          by_cases hin : db' = db ∧ key ∈ keys
          · obtain ⟨rfl, hkey⟩ := hin
            rw [flow, if_pos ⟨rfl, hkey⟩]
            obtain htrades | hreads := hop rfl hkey
            · obtain ⟨l, hl⟩ := h.lists key hkey
              obtain ⟨l', hl', hflow⟩ := TypedOp.onCell_lists htrades env hl hle
              have hrun : (Op.onKey db' key (.typed op)).run env self =
                  (((op.access env).onCell env.now (self.cellAt db' key)).1,
                    self.putCell db' key ((op.access env).onCell env.now (self.cellAt db' key)).2) :=
                (op.run_eq env db' key self).trans
                  (Database.access_cellAt h.exists_db env.now key (op.access env))
              rw [hrun]
              exact h.putCell hkey hl hl' hflow
            · rw [flow_reads hreads]
              refine run_unwritten_trades h hle fun other _ hwrites => ?_
              exact Bool.false_ne_true (hwrites.2.2.symm.trans hreads)
          · rw [flow, if_neg hin]
            refine run_unwritten_trades h hle fun other hother hwrites => hin ?_
            obtain ⟨rfl, rfl, -⟩ := hwrites
            exact ⟨rfl, hother⟩
      | _ => exact run_unwritten_trades h hle hop
  | lmove db' src dst srcLeft dstLeft =>
      by_cases hin : db' = db ∧ src ∈ keys
      · obtain ⟨rfl, hsrc⟩ := hin
        exact Database.lmove_trades h hsrc ((hop rfl).mp hsrc) env.now srcLeft dstLeft
      · refine run_unwritten_trades h hle fun key hkey hwrites => hin ?_
        obtain ⟨rfl, rfl | rfl⟩ := hwrites
        · exact ⟨rfl, hkey⟩
        · exact ⟨rfl, (hop rfl).mpr hkey⟩
  | _ => exact run_unwritten_trades h hle hop

end Op

end MiniRudis
