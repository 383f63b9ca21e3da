import MiniRudis.Db.Transfers
import MiniRudis.Lib.Deque

/-!
# Lists as queues

`lpush`, `rpush`, `lpop` and `rpop` on one key are the calls of a plain sequence, also
where a pop deletes the emptied list and a push creates it anew.
-/

namespace MiniRudis

open Lib

namespace Deque

theorem foldl_pushAt (left : Bool) (batch l : List Bytes) :
    batch.foldl (pushAt left) l = (DequeCall.push left batch).next l := by
  induction batch generalizing l with
  | nil => cases left <;> simp [DequeCall.next]
  | cons v batch ih =>
      rw [List.foldl_cons, ih]
      cases left <;> simp [DequeCall.next, pushAt, pushFront, pushBack]

theorem popLoop_eq (left : Bool) (count : Nat) (l : List Bytes) :
    popLoop left count l =
      ((DequeCall.pop left count).taken l, (DequeCall.pop left count).next l) := by
  induction count generalizing l with
  | zero => cases left <;> simp [popLoop, DequeCall.taken, DequeCall.next]
  | succ count ih =>
      rw [popLoop]
      cases hpop : popAt left l with
      | none =>
          obtain rfl := (popAt_eq_none left l).mp hpop
          cases left <;> simp [DequeCall.taken, DequeCall.next]
      | some p =>
          obtain ⟨v, rest⟩ := p
          obtain rfl := popAt_eq_some.mp hpop
          dsimp only
          rw [ih]
          cases left <;> simp [DequeCall.taken, DequeCall.next, pushAt, pushFront, pushBack]

end Deque

/-- The vector that a pop reserves for its result can be had. -/
def FitsMemory : DequeCall Bytes → Prop
  | .push .. => True
  | .pop _ count => CapacityOk Deque.elemSize count

namespace Database

variable {self : Database} {db : Nat} {key : String} {l : List Bytes}

def dequeCall (self : Database) (now : Instant) (db : Nat) (key : String) :
    DequeCall Bytes → Outcome (Nat ⊕ List Bytes) × Database
  | .push true values =>
      ((self.lpush now db key values).1.map .inl, (self.lpush now db key values).2)
  | .push false values =>
      ((self.rpush now db key values).1.map .inl, (self.rpush now db key values).2)
  | .pop true count => ((self.lpop now db key count).1.map .inr, (self.lpop now db key count).2)
  | .pop false count => ((self.rpop now db key count).1.map .inr, (self.rpop now db key count).2)

def dequeCalls (self : Database) (db : Nat) (key : String) :
    List (Instant × DequeCall Bytes) → List (Outcome (Nat ⊕ List Bytes)) × Database
  | [] => ([], self)
  | (now, call) :: calls =>
      let (reply, self) := self.dequeCall now db key call
      let (replies, self) := self.dequeCalls db key calls
      (reply :: replies, self)

def elementsAt (self : Database) (db : Nat) (key : String) : Option (List Bytes) :=
  (self.cellAt db key).valueAs listKind.toKind []

theorem push_eq (hdb : db < self.dbs.length) (hlist : self.elementsAt db key = some l)
    (now : Instant) (left : Bool) (values : List Bytes) :
    self.access now db key (.create listKind.toKind [] (Deque.pushAll left values)) =
      (.ok ((DequeCall.push left values).next l).length, self.putCell db key
        { self.cellAt db key with obj := some (.list ((DequeCall.push left values).next l)) }) := by
  have hpush : Deque.pushAll left values l =
      (.ok ((DequeCall.push left values).next l).length, (DequeCall.push left values).next l) := by
    rw [Deque.pushAll, Deque.foldl_pushAt]
  rw [elementsAt] at hlist
  rw [access_cellAt hdb, Access.onCell_create, hlist]
  dsimp only
  rw [hpush]
  rfl

theorem pop_eq (hdb : db < self.dbs.length) (hobj : (self.cellAt db key).obj = some (.list l))
    (now : Instant) (left : Bool) {count : Nat} (hfits : CapacityOk Deque.elemSize count) :
    self.access now db key (.inPlace listKind [] (Deque.pop left count)) =
      (.ok ((DequeCall.pop left count).taken l), self.putCell db key
        (remnant ((DequeCall.pop left count).next l) (self.cellAt db key))) := by
  have hpop : Deque.pop left count l =
      (.ok ((DequeCall.pop left count).taken l), (DequeCall.pop left count).next l) := by
    rw [Deque.pop, if_pos hfits, Deque.popLoop_eq]
  exact access_stored listKind [] hdb hobj hpop now

theorem elementsAt_store (hdb : db < self.dbs.length) (l : List Bytes) :
    (self.putCell db key { self.cellAt db key with obj := some (.list l) }).elementsAt db key =
      some l := by
  rw [elementsAt, cellAt_putCell hdb]
  rfl

theorem elementsAt_remnant (hdb : db < self.dbs.length) (rest : List Bytes) :
    (self.putCell db key (remnant rest (self.cellAt db key))).elementsAt db key = some rest := by
  rw [remnant]
  cases rest with
  | nil =>
      rw [elementsAt, cellAt_putCell hdb]
      rfl
  | cons v rest => exact elementsAt_store hdb (v :: rest)

theorem dequeCall_eq (hdb : db < self.dbs.length) (hlist : self.elementsAt db key = some l)
    (now : Instant) {call : DequeCall Bytes} (hfits : FitsMemory call) :
    ∃ after, self.dequeCall now db key call = (.ok (call.reply l), after) ∧
      after.elementsAt db key = some (call.next l) ∧ db < after.dbs.length := by
  cases call with
  | push left values =>
      have hpush := push_eq hdb hlist now left values
      refine ⟨_, ?_, elementsAt_store hdb _, by simpa using hdb⟩
      cases left with
      | true => rw [dequeCall, lpush, hpush]; rfl
      | false => rw [dequeCall, rpush, hpush]; rfl
  | pop left count =>
      obtain ⟨hobj, rfl⟩ | hobj := Cell.valueAs_eq_some.mp hlist
      · have hpop := access_absent listKind [] hdb hobj now (Deque.pop left count)
        refine ⟨self, ?_, ?_, hdb⟩
        · cases left with
          | true => rw [dequeCall, lpop, hpop]; simp [Except.map, DequeCall.reply, DequeCall.taken]
          | false => rw [dequeCall, rpop, hpop]; simp [Except.map, DequeCall.reply, DequeCall.taken]
        · cases left <;> simpa [DequeCall.next] using hlist
      · have hpop := pop_eq hdb hobj now left hfits
        refine ⟨_, ?_, elementsAt_remnant hdb _, by simpa using hdb⟩
        cases left with
        | true => rw [dequeCall, lpop, hpop]; rfl
        | false => rw [dequeCall, rpop, hpop]; rfl

def poppedElements (replies : List (Outcome (Nat ⊕ List Bytes))) : List Bytes :=
  replies.flatMap fun
    | .ok (.inr elems) => elems
    | _ => []

/-- The replies and the contents are those of a sequence that starts as `l`, and a queue gives
out what has gone into it. -/
structure DequeLaw (db : Nat) (key : String) (l : List Bytes) (calls : List (DequeCall Bytes))
    (replies : List (Outcome (Nat ⊕ List Bytes))) (after : Database) : Prop where
  answers : replies = (DequeCall.run calls l).1.map .ok
  content : after.elementsAt db key = some (DequeCall.run calls l).2
  fifo : (∀ call ∈ calls, call.IsFifo) → ∀ rest, after.elementsAt db key = some rest →
    poppedElements replies ++ rest = l ++ DequeCall.pushed calls

theorem dequeCalls_run (hdb : db < self.dbs.length) (hlist : self.elementsAt db key = some l)
    {calls : List (Instant × DequeCall Bytes)} (hfits : ∀ p ∈ calls, FitsMemory p.2) :
    (self.dequeCalls db key calls).1 = (DequeCall.run (calls.map Prod.snd) l).1.map .ok ∧
      (self.dequeCalls db key calls).2.elementsAt db key =
        some (DequeCall.run (calls.map Prod.snd) l).2 := by
  induction calls generalizing self l with
  | nil => exact ⟨rfl, hlist⟩
  | cons p calls ih =>
      obtain ⟨now, call⟩ := p
      obtain ⟨hcall, hcalls⟩ := List.forall_mem_cons.mp hfits
      obtain ⟨after, hstep, hafter, hdb'⟩ := dequeCall_eq hdb hlist now hcall
      obtain ⟨hreplies, hcontent⟩ := ih hdb' hafter hcalls
      rw [dequeCalls, hstep]
      dsimp only
      rw [hreplies, hcontent]
      exact ⟨rfl, rfl⟩

theorem poppedElements_map_ok (replies : List (Nat ⊕ List Bytes)) :
    poppedElements (replies.map .ok) = DequeCall.outputs replies := by
  rw [poppedElements, DequeCall.outputs, List.flatMap_map]
  congr 1
  funext reply
  cases reply <;> rfl

/-- **Lists are lossless queues with two ends.** -/
theorem dequeCalls_law (hdb : db < self.dbs.length) (hlist : self.elementsAt db key = some l)
    {calls : List (Instant × DequeCall Bytes)} (hfits : ∀ p ∈ calls, FitsMemory p.2) :
    DequeLaw db key l (calls.map Prod.snd) (self.dequeCalls db key calls).1
      (self.dequeCalls db key calls).2 := by
  obtain ⟨hreplies, hcontent⟩ := dequeCalls_run hdb hlist hfits
  refine ⟨hreplies, hcontent, fun hfifo rest hrest => ?_⟩
  rw [hcontent] at hrest
  obtain rfl := Option.some.inj hrest
  rw [hreplies, poppedElements_map_ok, DequeCall.outputs_append_run hfifo]

theorem dequeCalls_law_recreated :
    let calls : List (Instant × DequeCall Bytes) :=
      [(0, .push false [[1], [2]]), (1, .pop true 3), (2, .push false [[3]])]
    DequeLaw 0 "q" [] (calls.map Prod.snd) ((Database.new 1).dequeCalls 0 "q" calls).1
      ((Database.new 1).dequeCalls 0 "q" calls).2 :=
  dequeCalls_law (by decide +kernel) rfl (by
    simp only [List.forall_mem_cons, FitsMemory, true_and]
    exact ⟨by decide, by simp⟩)

end Database

end MiniRudis
