import MiniRudis.Proto.RoundTrip
import MiniRudis.Server.Serial

/-!
# Progress

No task waits for another: while its socket takes bytes, a connection comes back to its
next read, or ends, by turns of its own.
-/

namespace MiniRudis

open Lib

section
variable {host : Host} {depth : Nat} {reserve : Nat → Bool}

namespace Task

/-- The task waits for its client to send something, or is over. -/
def Settled : Task → Prop
  | reading _ _ | ended => True
  | writing _ _ => False

/-- How many replies a task has at most to write before it settles: one takes at least one
byte out of the buffer. -/
def pending : Task → Nat
  | reading _ _ | ended => 0
  | writing _ (.parse buf _) => buf.length + 1
  | writing _ (.read _) | writing _ .finish => 1

def Busy : Task → Prop
  | reading _ _ | ended => True
  | writing unsent _ => unsent ≠ []

end Task

theorem serialize_ne_nil (f : Frame) : f.serialize ≠ [] := by
  have hpos := encode_length_pos f
  exact List.ne_nil_of_length_pos hpos

theorem afterReply_busy (rest : Bytes) (r : Outcome Frame × Option Nat) :
    (Host.afterReply rest r).Busy := by
  rcases r with ⟨_ | frame, _ | dbIndex⟩
  · trivial
  · trivial
  · exact serialize_ne_nil frame
  · exact serialize_ne_nil frame

theorem afterReply_pending (rest : Bytes) (r : Outcome Frame × Option Nat) :
    (Host.afterReply rest r).pending ≤ rest.length + 1 := by
  rcases r with ⟨_ | frame, _ | dbIndex⟩ <;> simp [Host.afterReply, Task.pending]

theorem length_pos_of_error {buf rest : Bytes} {e : Fault}
    (h : parseFrame reserve buf = (.error e, rest)) : 0 < buf.length := by
  cases buf with
  | nil =>
      obtain ⟨hfront, hne, -⟩ := parseFrame_error_iff.mp h
      have hnil : frontFrame reserve [] = .error incomplete := rfl
      exact absurd (Except.error.inj (hfront.symm.trans hnil)) hne
  | cons byte buf => exact Nat.succ_pos _

/-- The turn over a buffer leaves a task that has at most as many replies to write as the
buffer has bytes. -/
theorem turn_pending (host : Host) (depth : Nat) (reserve : Nat → Bool) (env : Env) (dbIndex : Nat) (buf : Bytes) (s : Server) :
    ((host.turn depth reserve env dbIndex buf).run ServerCall.exec s).1.Busy ∧
      ((host.turn depth reserve env dbIndex buf).run ServerCall.exec s).1.pending ≤ buf.length := by
  induction hlen : buf.length using Nat.strongRecOn generalizing buf with
  | _ n ih =>
      cases hparse : parseFrame reserve buf with
      | mk result rest =>
          rcases result with (e | _) | (_ | frame)
          · have hpos := length_pos_of_error hparse
            rw [(turn_error host depth env dbIndex hparse).1]
            refine ⟨serialize_ne_nil _, ?_⟩
            simp only [Program.run_ret, Task.pending]
            omega
          · rw [(turn_panicked host depth env dbIndex hparse).1]
            exact ⟨trivial, Nat.zero_le _⟩
          · rw [(turn_none host depth env dbIndex hparse).1]
            exact ⟨trivial, Nat.zero_le _⟩
          · have hshorter := parseFrame_shorter hparse
            cases hargs : frameToCmdArgs frame with
            | error e =>
                obtain ⟨msg, rfl⟩ := frameToCmdArgs_error hargs
                rw [(turn_refused host depth env dbIndex hparse hargs).1]
                refine ⟨serialize_ne_nil _, ?_⟩
                simp only [Program.run_ret, Task.pending]
                omega
            | ok args =>
                cases args with
                | nil =>
                    rw [(turn_empty host depth env dbIndex hparse hargs).1]
                    obtain ⟨hbusy, hpending⟩ := ih rest.length (by omega) rest rfl
                    exact ⟨hbusy, by omega⟩
                | cons name args =>
                    rw [(turn_request host depth env dbIndex hparse hargs).1, Program.run_map]
                    generalize (host.respond depth env dbIndex (name :: args)).run ServerCall.exec s
                      = r
                    have hpending := afterReply_pending rest r.1
                    exact ⟨afterReply_busy rest r.1, hpending.trans (by omega)⟩

theorem connectionTurn_busy (input : Input) (s : Server) (conn : Connection)
    (entries : List (Env × Outcome Frame)) (s' : Server) (conn' : Connection)
    (hconn : conn.task.Busy)
    (hturn : host.connectionTurn depth reserve input s conn = some (entries, s', conn')) :
    conn'.task.Busy := by
  obtain ⟨task, chunks, sent⟩ := conn
  cases task with
  | ended => cases input <;> exact absurd hturn (by simp [Host.connectionTurn])
  | reading buf dbIndex =>
      cases input with
      | write env n => exact absurd hturn (by simp [Host.connectionTurn])
      | close =>
          obtain ⟨-, -, rfl⟩ : [] = entries ∧ s = s' ∧ _ = conn' := by
            simpa [Host.connectionTurn] using hturn
          trivial
      | read env chunk =>
          rw [connectionTurn_read] at hturn
          split at hturn
          · exact absurd hturn (by simp)
          · obtain rfl := (Prod.mk.inj (Prod.mk.inj (Option.some.inj hturn)).2).2
            exact (turn_pending host depth reserve env dbIndex (buf ++ chunk) s).1
  | writing unsent behind =>
      cases input with
      | read env chunk => exact absurd hturn (by simp [Host.connectionTurn])
      | close =>
          obtain ⟨-, -, rfl⟩ : [] = entries ∧ s = s' ∧ _ = conn' := by
            simpa [Host.connectionTurn] using hturn
          trivial
      | write env n =>
          rw [connectionTurn_write] at hturn
          split at hturn
          · exact absurd hturn (by simp)
          split at hturn
          · rename_i hn hpart
            obtain rfl := (Prod.mk.inj (Prod.mk.inj (Option.some.inj hturn)).2).2
            exact fun hnil => absurd (List.drop_eq_nil_iff.mp hnil) (by omega)
          · cases behind with
            | parse buf dbIndex =>
                obtain rfl := (Prod.mk.inj (Prod.mk.inj (Option.some.inj hturn)).2).2
                exact (turn_pending host depth reserve env dbIndex buf s).1
            | read dbIndex =>
                obtain rfl := (Prod.mk.inj (Prod.mk.inj (Option.some.inj hturn)).2).2
                trivial
            | finish =>
                obtain rfl := (Prod.mk.inj (Prod.mk.inj (Option.some.inj hturn)).2).2
                trivial

theorem write_all {env : Env} {unsent : Bytes} {behind : Behind} {s : Server}
    {chunks : List Bytes} {sent : Bytes} (h : unsent ≠ []) :
    host.connectionTurn depth reserve (.write env unsent.length) s
        ⟨.writing unsent behind, chunks, sent⟩ =
      some (host.afterWrite depth reserve env s chunks (sent ++ unsent) behind) := by
  have hpos := List.length_pos_iff.mpr h
  rw [connectionTurn_write, if_neg (by omega), if_neg (by omega)]

theorem afterWrite_pending (host : Host) (depth : Nat) (reserve : Nat → Bool) (env : Env)
    (s : Server) (chunks : List Bytes) (sent unsent : Bytes) (behind : Behind) :
    (host.afterWrite depth reserve env s chunks sent behind).2.2.task.Busy ∧
      (host.afterWrite depth reserve env s chunks sent behind).2.2.task.pending <
        (Task.writing unsent behind).pending := by
  cases behind with
  | parse buf dbIndex =>
      have hturn := turn_pending host depth reserve env dbIndex buf s
      exact ⟨hturn.1, Nat.lt_succ_of_le hturn.2⟩
  | read dbIndex => exact ⟨trivial, Nat.zero_lt_one⟩
  | finish => exact ⟨trivial, Nat.zero_lt_one⟩

/-- **No task waits for another.**  From every state that the server can reach, a connection
settles by writes of its own alone, not more than its buffer has bytes and one; the other
connections stay where they are. -/
theorem writes_settle (dbCount : Nat) {moves : List (Move Input Env)}
    {p : Pool Server Connection (Env × Outcome Frame) Env}
    (h : (host.tasks depth reserve).run (.start (.new dbCount)) moves = some p)
    {i : Nat} {conn : Connection} (hconn : p.tasks[i]? = some conn) (env : Env) :
    ∃ (sizes : List Nat) (p' : Pool Server Connection (Env × Outcome Frame) Env)
      (conn' : Connection), sizes.length ≤ conn.task.pending ∧
      (host.tasks depth reserve).run p (sizes.map fun n => .turn i (.write env n)) = some p' ∧
      p'.tasks[i]? = some conn' ∧ conn'.task.Settled ∧
      ∀ j, j ≠ i → p'.tasks[j]? = p.tasks[j]? := by
  have hfresh : (host.tasks depth reserve).fresh.task.Busy := trivial
  have hbusy : conn.task.Busy :=
    Tasks.run_each (P := fun conn : Connection => conn.task.Busy) hfresh connectionTurn_busy h conn
      (List.mem_of_getElem? hconn)
  clear h
  induction hn : conn.task.pending using Nat.strongRecOn generalizing p conn with
  | _ n ih =>
      obtain ⟨task, chunks, sent⟩ := conn
      cases task with
      | reading buf dbIndex =>
          exact ⟨[], p, _, Nat.zero_le _, rfl, hconn, trivial, fun _ _ => rfl⟩
      | ended => exact ⟨[], p, _, Nat.zero_le _, rfl, hconn, trivial, fun _ _ => rfl⟩
      | writing unsent behind =>
          have htaken : (host.tasks depth reserve).turn (.write env unsent.length) p.shared
              ⟨.writing unsent behind, chunks, sent⟩ =
              some (host.afterWrite depth reserve env p.shared chunks (sent ++ unsent) behind) :=
            write_all hbusy
          obtain ⟨hnext, hfewer⟩ :=
            afterWrite_pending host depth reserve env p.shared chunks (sent ++ unsent) unsent behind
          generalize host.afterWrite depth reserve env p.shared chunks (sent ++ unsent) behind = out
            at htaken hnext hfewer
          obtain ⟨entries, s', next⟩ := out
          dsimp only at hnext hfewer hn
          have hstep := Tasks.step_of_turn hconn htaken
          have hi : i < p.tasks.length := (List.getElem?_eq_some_iff.mp hconn).1
          have hset : (p.tasks.set i next)[i]? = some next := List.getElem?_set_self hi
          obtain ⟨sizes, p', conn', hlength, hrun, hconn', hsettled, hothers⟩ :=
            @ih next.task.pending (hn ▸ hfewer)
              ⟨s', p.tasks.set i next, p.log ++ entries.map (.own i)⟩ next hset hnext rfl
          refine ⟨unsent.length :: sizes, p', conn', ?_, ?_, hconn', hsettled, fun j hj => ?_⟩
          · simp only [List.length_cons]
            omega
          · rw [List.map_cons, Tasks.run_cons hstep, hrun]
          · rw [hothers j hj]
            exact List.getElem?_set_ne (Ne.symm hj)

end

theorem writes_settle_midway :
    ∃ (sizes : List Nat) (p' : Pool Server Connection (Env × Outcome Frame) Env)
      (conn' : Connection), sizes.length ≤ 3 ∧
      (Host.plain.tasks 0 fun _ => true).run midway (sizes.map fun n => .turn 1 (.write (.at 2) n)) =
        some p' ∧
      p'.tasks[1]? = some conn' ∧ conn'.task.Settled ∧
      ∀ j, j ≠ 1 → p'.tasks[j]? = midway.tasks[j]? := by
  have hconn : midway.tasks[1]? =
      some ⟨.writing (Frame.pong.serialize.drop 3) (.parse (asBytes "PI") 0),
        [firstChunk], Frame.pong.serialize.take 3⟩ := rfl
  exact writes_settle 1 run_midway hconn (.at 2)

end MiniRudis
