import Mathlib.Data.List.DropRight

/-!
# Sequences with two ends

The plain model of a queue with two ends: a batch goes in at an end element by element,
and a pop takes elements out from an end on.  Nothing gets lost between the ends.
-/

namespace MiniRudis.Lib

variable {α : Type}

/-- A call at the front or at the back of a sequence. -/
inductive DequeCall (α : Type)
  | push (front : Bool) (batch : List α)
  | pop (front : Bool) (count : Nat)

namespace DequeCall

def next : DequeCall α → List α → List α
  | push true batch, l => batch.reverse ++ l
  | push false batch, l => l ++ batch
  | pop true count, l => l.drop count
  | pop false count, l => l.rdrop count

/-- What a call takes out, in the order in which it comes out. -/
def taken : DequeCall α → List α → List α
  | push .., _ => []
  | pop true count, l => l.take count
  | pop false count, l => l.reverse.take count

/-- The new length for a push, and the elements for a pop. -/
def reply (call : DequeCall α) (l : List α) : Nat ⊕ List α :=
  match call with
  | push .. => .inl (call.next l).length
  | pop .. => .inr (call.taken l)

def run : List (DequeCall α) → List α → List (Nat ⊕ List α) × List α
  | [], l => ([], l)
  | call :: calls, l => (call.reply l :: (run calls (call.next l)).1, (run calls (call.next l)).2)

def outputs (replies : List (Nat ⊕ List α)) : List α :=
  replies.flatMap (Sum.elim (fun _ => []) id)

def popped (front : Bool) : List (DequeCall α) → List α → List α
  | [], _ => []
  | pop f count :: calls, l =>
      (if f = front then (pop f count).taken l else []) ++ popped front calls ((pop f count).next l)
  | push f batch :: calls, l => popped front calls ((push f batch).next l)

def pushed : List (DequeCall α) → List α
  | [] => []
  | push _ batch :: calls => batch ++ pushed calls
  | pop .. :: calls => pushed calls

def IsPop : DequeCall α → Prop
  | push .. => False
  | pop .. => True

/-- In at the back, out at the front. -/
def IsFifo : DequeCall α → Prop
  | push front _ => front = false
  | pop front _ => front = true

theorem taken_append_next (count : Nat) (l : List α) :
    (pop true count).taken l ++ (pop true count).next l = l := List.take_append_drop count l

theorem next_append_taken (count : Nat) (l : List α) :
    (pop false count).next l ++ ((pop false count).taken l).reverse = l := by
  rw [next, taken, List.rdrop_eq_reverse_drop_reverse, ← List.reverse_append,
    List.take_append_drop, List.reverse_reverse]

/-- **First in, first out.** -/
theorem outputs_append_run {calls : List (DequeCall α)} (h : ∀ call ∈ calls, call.IsFifo)
    (l : List α) : outputs (run calls l).1 ++ (run calls l).2 = l ++ pushed calls := by
  induction calls generalizing l with
  | nil => exact (List.append_nil l).symm
  | cons call calls ih =>
      obtain ⟨hcall, hcalls⟩ := List.forall_mem_cons.mp h
      cases call with
      | push front batch =>
          obtain rfl : front = false := hcall
          have hnone : outputs ((push false batch).reply l :: (run calls (l ++ batch)).1) =
              outputs (run calls (l ++ batch)).1 := rfl
          rw [run, pushed, next, hnone, ih hcalls, List.append_assoc]
      | pop front count =>
          obtain rfl : front = true := hcall
          have hfirst : outputs ((pop true count).reply l :: (run calls (l.drop count)).1) =
              l.take count ++ outputs (run calls (l.drop count)).1 := rfl
          rw [run, pushed, next, hfirst, List.append_assoc, ih hcalls, ← List.append_assoc,
            List.take_append_drop]

/-- Pops at the two ends divide the sequence between them and what remains. -/
theorem popped_partition {calls : List (DequeCall α)} (h : ∀ call ∈ calls, call.IsPop)
    (l : List α) :
    popped true calls l ++ (run calls l).2 ++ (popped false calls l).reverse = l := by
  induction calls generalizing l with
  | nil => simp [popped, run]
  | cons call calls ih =>
      obtain ⟨hcall, hcalls⟩ := List.forall_mem_cons.mp h
      cases call with
      | push front batch => exact hcall.elim
      | pop front count =>
          have hrest := ih hcalls ((pop front count).next l)
          cases front with
          | true =>
              calc popped true (pop true count :: calls) l ++ (run (pop true count :: calls) l).2 ++
                    (popped false (pop true count :: calls) l).reverse
                  = (pop true count).taken l ++ (popped true calls ((pop true count).next l) ++
                      (run calls ((pop true count).next l)).2 ++
                      (popped false calls ((pop true count).next l)).reverse) := by
                    simp [popped, run]
                _ = l := by rw [hrest, taken_append_next]
          | false =>
              calc popped true (pop false count :: calls) l ++ (run (pop false count :: calls) l).2 ++
                    (popped false (pop false count :: calls) l).reverse
                  = (popped true calls ((pop false count).next l) ++
                      (run calls ((pop false count).next l)).2 ++
                      (popped false calls ((pop false count).next l)).reverse) ++
                      ((pop false count).taken l).reverse := by
                    simp [popped, run]
                _ = l := by rw [hrest, next_append_taken]

theorem taken_succ (front : Bool) (count : Nat) (l : List α) :
    (pop front (count + 1)).taken l =
      (pop front 1).taken l ++ (pop front count).taken ((pop front 1).next l) := by
  cases front with
  | true => cases l <;> simp [taken, next]
  | false =>
      rw [taken, taken, taken, next, List.rdrop_eq_reverse_drop_reverse, List.reverse_reverse]
      cases l.reverse <;> simp

theorem taken_zero (front : Bool) (l : List α) : (pop front 0).taken l = [] := by
  cases front <;> simp [taken]

theorem popped_singles (front : Bool) (count : Nat) (l : List α) :
    popped front (List.replicate count (pop front 1)) l = (pop front count).taken l := by
  induction count generalizing l with
  | zero => exact (taken_zero front l).symm
  | succ count ih =>
      rw [List.replicate_succ, popped, if_pos rfl, ih, ← taken_succ]

theorem taken_perm (front : Bool) (count : Nat) (l : List α) :
    l.Perm ((pop front count).taken l ++ (pop front count).next l) := by
  cases front with
  | true => rw [taken_append_next]
  | false =>
      have hperm : ((pop false count).next l ++ ((pop false count).taken l).reverse).Perm
          ((pop false count).taken l ++ (pop false count).next l) :=
        List.perm_append_comm.trans ((List.reverse_perm _).append_right _)
      rwa [next_append_taken] at hperm

theorem next_sublist (front : Bool) (count : Nat) (l : List α) :
    ((pop front count).next l).Sublist l := by
  cases front with
  | true => exact List.drop_sublist count l
  | false => exact List.take_sublist _ l

end DequeCall

end MiniRudis.Lib
