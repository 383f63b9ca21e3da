import MiniRudis.Proto.Splitting
import MiniRudis.Server.Connections

/-!
# Serial runs

A server that handles what its connections send one item after another, and that the tasks
do the same in every order of their turns.
-/

namespace MiniRudis

open Lib

/-! ## One item after another -/

/-- A connection as its client knows it: the index at which it goes on, if it does, and
the replies. -/
structure Session where
  dbIndex : Option Nat
  replies : List Frame

namespace Host

variable (host : Host) (depth : Nat)

def answerFrame : Outcome Frame × Option Nat → List Frame × Option Nat
  | (.ok frame, next) => ([frame], next)
  | (.error _, _) => ([], none)

def answer (env : Env) (dbIndex : Nat) : Outcome Frame → CmdM (List Frame × Option Nat)
  | .ok frame =>
      match frameToCmdArgs frame with
      | .ok [] => return ([], some dbIndex)
      | .ok (name :: args) => answerFrame <$> host.respond depth env dbIndex (name :: args)
      | .error (.err e) => return ([.error e.text], some dbIndex)
      | .error .panicked => return ([], none)
  | .error (.err e) => return ([.error e.text], some dbIndex)
  | .error .panicked => return ([], none)

/-- An item of a connection, while the connection goes on. -/
def serve (item : Env × Outcome Frame) (p : Server × Session) : Server × Session :=
  match p.2.dbIndex with
  | none => p
  | some dbIndex =>
      let ((replies, next), s) := (host.answer depth item.1 dbIndex item.2).run ServerCall.exec p.1
      (s, ⟨next, p.2.replies ++ replies⟩)

def opened : Session := ⟨some 0, []⟩

/-- The items of all connections and the sweeps, in the order of the log. -/
def serial (s : Server) (log : List (Entry (Env × Outcome Frame) Env)) : Serial Server Session :=
  Serial.run (host.serve depth) sweep ⟨s, fun _ => opened⟩ log

end Host

/-! ## What a connection has received -/

/-- A chunk is appended to the buffer and drained, unless a panic has ended the task. -/
def drainChunk (reserve : Nat → Bool) (p : List (Outcome Frame) × Option Bytes) (chunk : Bytes) :
    List (Outcome Frame) × Option Bytes :=
  match p.2 with
  | none => p
  | some buf =>
      (p.1 ++ (drainBuffer reserve (buf ++ chunk)).1, (drainBuffer reserve (buf ++ chunk)).2)

def drainChunks (reserve : Nat → Bool) (chunks : List Bytes) :
    List (Outcome Frame) × Option Bytes :=
  chunks.foldl (drainChunk reserve) ([], some [])

theorem drainChunks_concat {reserve : Nat → Bool} {chunks : List Bytes} {items : List (Outcome Frame)}
    {buf : Bytes} (h : drainChunks reserve chunks = (items, some buf)) (chunk : Bytes) :
    drainChunks reserve (chunks ++ [chunk]) =
      (items ++ (drainBuffer reserve (buf ++ chunk)).1,
        (drainBuffer reserve (buf ++ chunk)).2) := by
  unfold drainChunks at h ⊢
  rw [List.foldl_append, h]
  rfl

namespace Task

def dbIndex : Task → Option Nat
  | reading _ dbIndex => some dbIndex
  | writing _ (.parse _ dbIndex) => some dbIndex
  | writing _ (.read dbIndex) => some dbIndex
  | writing _ .finish | ended => none

def unsent : Task → Bytes
  | writing unsent _ => unsent
  | reading _ _ | ended => []

/-- The items that a task has yet to take out of its buffer, and what it leaves. -/
def left (reserve : Nat → Bool) : Task → List (Outcome Frame) × Option Bytes
  | reading buf _ => ([], some buf)
  | writing _ (.parse buf _) => drainBuffer reserve buf
  | writing _ (.read _) => ([], some [])
  | writing _ .finish | ended => ([], none)

end Task

/-- How a connection stands behind the items `done`, if it is served as `session`: its
socket has the bytes of the replies, in order, up to those that the task is writing, and
the items are those it has received, in order, up to those in its buffer. -/
structure Connection.Serves (reserve : Nat → Bool) (conn : Connection)
    (done : List (Env × Outcome Frame)) (session : Session) : Prop where
  sent : conn.sent <+: Frame.encodeAll session.replies
  unsent : conn.task ≠ .ended →
    conn.sent ++ conn.task.unsent = Frame.encodeAll session.replies
  taken : done.map Prod.snd <+: (drainChunks reserve conn.received).1
  left : ∀ dbIndex, conn.task.dbIndex = some dbIndex →
    session.dbIndex = some dbIndex ∧
      drainChunks reserve conn.received =
        (done.map Prod.snd ++ (conn.task.left reserve).1, (conn.task.left reserve).2)

/-! ## A turn is serial -/

theorem encodeAll_append (frames frames' : List Frame) :
    Frame.encodeAll (frames ++ frames') = Frame.encodeAll frames ++ Frame.encodeAll frames' := by
  induction frames with
  | nil => rfl
  | cons f frames ih => rw [List.cons_append, Frame.encodeAll, Frame.encodeAll, ih, List.append_assoc]

theorem encodeAll_eq (frames : List Frame) :
    Frame.encodeAll frames = (frames.map Frame.serialize).flatten := by
  induction frames with
  | nil => rfl
  | cons f frames ih => rw [Frame.encodeAll, ih, List.map_cons, List.flatten_cons, Frame.serialize]

theorem encodeAll_singleton (f : Frame) : Frame.encodeAll [f] = f.serialize :=
  List.append_nil _

section
variable {host : Host} {depth : Nat} {reserve : Nat → Bool} {env : Env}

theorem serve_open {item : Env × Outcome Frame} {s : Server} {session : Session} {dbIndex : Nat}
    (h : session.dbIndex = some dbIndex) :
    host.serve depth item (s, session) =
      (((host.answer depth item.1 dbIndex item.2).run ServerCall.exec s).2,
        ⟨((host.answer depth item.1 dbIndex item.2).run ServerCall.exec s).1.2,
          session.replies ++
            ((host.answer depth item.1 dbIndex item.2).run ServerCall.exec s).1.1⟩) := by
  rw [Host.serve]
  simp only [h]

/-- What the turn over a buffer has done: the items it has taken are served, the bytes it
is to write are those of their replies, and what the buffer still holds is left. -/
structure Turned (host : Host) (depth : Nat) (reserve : Nat → Bool) (env : Env) (buf : Bytes)
    (s : Server) (session : Session) (task : Task) (s' : Server) : Prop where
  served : ∃ replies, Frame.encodeAll replies = task.unsent ∧
    (turnItems reserve buf).foldl (fun p item => host.serve depth (env, item) p) (s, session) =
      (s', ⟨task.dbIndex, session.replies ++ replies⟩)
  taken : turnItems reserve buf <+: (drainBuffer reserve buf).1
  left : task.dbIndex.isSome →
    drainBuffer reserve buf =
      (turnItems reserve buf ++ (task.left reserve).1, (task.left reserve).2)

theorem frameToCmdArgs_error {frame : Frame} {e : Fault} (h : frameToCmdArgs frame = .error e) :
    ∃ msg, e = .err (.protocol msg) := by
  have hreturns : Returns (fun _ => True) (fun e => ∃ msg, e = .err (.protocol msg))
      (frameToCmdArgs frame) := by
    unfold frameToCmdArgs
    split
    · apply Returns.mono (Returns.mapM (R := fun _ => True) _ _) fun _ _ => trivial
      · exact fun e he => he
      · intro part
        split
        · trivial
        · trivial
        · exact ⟨_, rfl⟩
    · exact ⟨_, rfl⟩
  exact hreturns.error h

theorem drainBuffer_err {buf rest : Bytes} {e : RedisError}
    (h : parseFrame reserve buf = (err e, rest)) :
    drainBuffer reserve buf = ([err e], some []) := by
  rw [drainBuffer]
  split <;> simp_all

theorem afterReply_unsent (rest : Bytes) (r : Outcome Frame × Option Nat) :
    Frame.encodeAll (Host.answerFrame r).1 = (Host.afterReply rest r).unsent := by
  rcases r with ⟨_ | frame, _ | dbIndex⟩
  · rfl
  · rfl
  · exact encodeAll_singleton frame
  · exact encodeAll_singleton frame

theorem afterReply_dbIndex (rest : Bytes) (r : Outcome Frame × Option Nat) :
    (Host.afterReply rest r).dbIndex = (Host.answerFrame r).2 := by
  rcases r with ⟨_ | frame, _ | dbIndex⟩ <;> rfl

theorem afterReply_left {rest : Bytes} {r : Outcome Frame × Option Nat}
    (h : (Host.afterReply rest r).dbIndex.isSome) :
    (Host.afterReply rest r).left reserve = drainBuffer reserve rest := by
  rcases r with ⟨_ | frame, _ | dbIndex⟩
  · exact absurd h (by simp [Host.afterReply, Task.dbIndex])
  · exact absurd h (by simp [Host.afterReply, Task.dbIndex])
  · exact absurd h (by simp [Host.afterReply, Task.dbIndex])
  · rfl

theorem serve_ret {item : Outcome Frame} {s : Server} {session : Session} {dbIndex : Nat}
    (h : session.dbIndex = some dbIndex) {replies : List Frame} {next : Option Nat}
    (hanswer : host.answer depth env dbIndex item = .ret (replies, next)) :
    host.serve depth (env, item) (s, session) = (s, ⟨next, session.replies ++ replies⟩) := by
  rw [serve_open h, hanswer]
  rfl

theorem turn_turned (host : Host) (depth : Nat) (reserve : Nat → Bool) (env : Env) (buf : Bytes) (s : Server) {session : Session} {dbIndex : Nat}
    (h : session.dbIndex = some dbIndex) :
    Turned host depth reserve env buf s session
      ((host.turn depth reserve env dbIndex buf).run ServerCall.exec s).1
      ((host.turn depth reserve env dbIndex buf).run ServerCall.exec s).2 := by
  induction hlen : buf.length using Nat.strongRecOn generalizing buf with
  | _ n ih =>
      cases hparse : parseFrame reserve buf with
      | mk result rest =>
          rcases result with (e | _) | (_ | frame)
          · obtain ⟨hturn, hitems⟩ := turn_error host depth env dbIndex hparse
            have hdrain := drainBuffer_err hparse
            rw [hturn]
            refine ⟨⟨[.error e.text], encodeAll_singleton _, ?_⟩, ?_, fun _ => ?_⟩
            · rw [hitems, List.foldl_cons, List.foldl_nil]
              exact serve_ret h rfl
            · rw [hitems, hdrain]
            · rw [hitems, hdrain]
              rfl
          · obtain ⟨hturn, hitems⟩ := turn_panicked host depth env dbIndex hparse
            rw [hturn]
            refine ⟨⟨[], rfl, ?_⟩, ?_, fun hsome => absurd hsome (by simp [Task.dbIndex])⟩
            · rw [hitems, List.foldl_cons, List.foldl_nil]
              exact serve_ret h rfl
            · rw [hitems, drainBuffer_error hparse]
          · obtain ⟨hturn, hitems⟩ := turn_none host depth env dbIndex hparse
            have hdrain := drainBuffer_none hparse
            rw [hturn]
            refine ⟨⟨[], rfl, ?_⟩, ?_, fun _ => ?_⟩
            · rw [hitems, List.foldl_nil, List.append_nil, Program.run_ret, Task.dbIndex, ← h]
            · rw [hitems]
              exact List.nil_prefix
            · rw [hitems, hdrain]
              rfl
          · have hdrain := drainBuffer_ok hparse
            cases hargs : frameToCmdArgs frame with
            | error e =>
                obtain ⟨msg, rfl⟩ := frameToCmdArgs_error hargs
                obtain ⟨hturn, hitems⟩ := turn_refused host depth env dbIndex hparse hargs
                rw [hturn]
                refine ⟨⟨[.error _], encodeAll_singleton _, ?_⟩, ?_, fun _ => ?_⟩
                · rw [hitems, List.foldl_cons, List.foldl_nil]
                  apply serve_ret h
                  rw [Host.answer, hargs]
                  rfl
                · rw [hitems, hdrain]
                  exact List.prefix_append [_] _
                · rw [hitems, hdrain]
                  rfl
            | ok args =>
                cases args with
                | nil =>
                    obtain ⟨hturn, hitems⟩ := turn_empty host depth env dbIndex hparse hargs
                    have hshorter := parseFrame_shorter hparse
                    have hrest := ih rest.length (by omega) rest rfl
                    have hnone : host.answer depth env dbIndex (.ok frame) =
                        .ret ([], session.dbIndex) := by
                      rw [Host.answer, hargs, h]
                      rfl
                    rw [hturn]
                    obtain ⟨⟨replies, hbytes, hserved⟩, htaken, hleft⟩ := hrest
                    refine ⟨⟨replies, hbytes, ?_⟩, ?_, fun hsome => ?_⟩
                    · rw [hitems, List.foldl_cons, serve_ret h hnone, List.append_nil]
                      exact hserved
                    · rw [hitems, hdrain]
                      exact (List.prefix_cons_inj _).mpr htaken
                    · rw [hitems, hdrain, hleft hsome]
                      rfl
                | cons name args =>
                    obtain ⟨hturn, hitems⟩ := turn_request host depth env dbIndex hparse hargs
                    have hanswer : host.answer depth env dbIndex (.ok frame) =
                        Host.answerFrame <$> host.respond depth env dbIndex (name :: args) := by
                      rw [Host.answer, hargs]
                    -- nothing is to be computed from the request
                    generalize host.respond depth env dbIndex (name :: args) = respond
                      at hturn hanswer
                    rw [hturn, Program.run_map]
                    refine ⟨⟨_, afterReply_unsent rest _, ?_⟩, ?_, fun hsome => ?_⟩
                    · rw [hitems, List.foldl_cons, List.foldl_nil, serve_open h, hanswer,
                        Program.run_map, afterReply_dbIndex]
                    · rw [hitems, hdrain]
                      exact List.prefix_append [_] _
                    · rw [hitems, hdrain, afterReply_left hsome]
                      rfl

/-! ## Every run is serial -/

theorem parseBuffer_serves {buf : Bytes} {s : Server} {session : Session} {dbIndex : Nat}
    {chunks : List Bytes} {sent : Bytes} {done : List (Env × Outcome Frame)}
    (h : session.dbIndex = some dbIndex) (hsent : sent = Frame.encodeAll session.replies)
    (hleft : drainChunks reserve chunks =
      (done.map Prod.snd ++ (drainBuffer reserve buf).1, (drainBuffer reserve buf).2))
    {entries : List (Env × Outcome Frame)} {s' : Server} {conn : Connection}
    (hturn : host.parseBuffer depth reserve env dbIndex buf s chunks sent = (entries, s', conn)) :
    (entries.foldl (fun p e => host.serve depth e p) (s, session)).1 = s' ∧
      conn.Serves reserve (done ++ entries)
        (entries.foldl (fun p e => host.serve depth e p) (s, session)).2 := by
  have hturned := turn_turned host depth reserve env buf s h
  rw [Host.parseBuffer, Prod.mk.injEq, Prod.mk.injEq] at hturn
  obtain ⟨rfl, rfl, rfl⟩ := hturn
  obtain ⟨⟨replies, hbytes, hserved⟩, htaken, hrest⟩ := hturned
  have hitems : ((turnItems reserve buf).map (Prod.mk env)).map Prod.snd = turnItems reserve buf := by
    rw [List.map_map]
    exact List.map_id _
  rw [List.foldl_map, hserved]
  refine ⟨rfl, ?_, fun _ => ?_, ?_, fun db hdb => ⟨hdb, ?_⟩⟩
  · rw [hsent, encodeAll_append]
    exact List.prefix_append _ _
  · rw [hsent, encodeAll_append, hbytes]
  · rw [hleft, List.map_append, hitems]
    exact (List.prefix_append_right_inj _).mpr htaken
  · rw [hleft, hrest (Option.isSome_iff_exists.mpr ⟨db, hdb⟩), List.map_append, hitems,
      List.append_assoc]

theorem connectionTurn_serves (input : Input) (s : Server) (conn : Connection) (session : Session)
    (done entries : List (Env × Outcome Frame)) (s' : Server) (conn' : Connection)
    (hconn : conn.Serves reserve done session)
    (hturn : host.connectionTurn depth reserve input s conn = some (entries, s', conn')) :
    (entries.foldl (fun p e => host.serve depth e p) (s, session)).1 = s' ∧
      conn'.Serves reserve (done ++ entries)
        (entries.foldl (fun p e => host.serve depth e p) (s, session)).2 := by
  obtain ⟨task, chunks, sent⟩ := conn
  obtain ⟨hsent, hunsent, htaken, hleft⟩ := hconn
  -- the task has written `more` and executes nothing
  have hquiet : ∀ (task' : Task) (more : Bytes),
      sent ++ more <+: Frame.encodeAll session.replies →
      (task' ≠ .ended → sent ++ more ++ task'.unsent = Frame.encodeAll session.replies) →
      (∀ db, task'.dbIndex = some db → task.dbIndex = some db ∧
        task'.left reserve = task.left reserve) →
      (⟨task', chunks, sent ++ more⟩ : Connection).Serves reserve (done ++ []) session := by
    intro task' more hbytes hrest hgoes
    rw [List.append_nil]
    refine ⟨hbytes, hrest, htaken, fun db hdb => ?_⟩
    obtain ⟨hsame, hleft'⟩ := hgoes db hdb
    rw [hleft']
    exact hleft db hsame
  have hended : (⟨.ended, chunks, sent⟩ : Connection).Serves reserve (done ++ []) session := by
    have hclosed := hquiet .ended []
    rw [List.append_nil] at hclosed
    exact hclosed hsent (fun hne => absurd rfl hne) fun db hdb => absurd hdb (by simp [Task.dbIndex])
  have hnothing : ∀ {conn'' : Connection}, some (([] : List (Env × Outcome Frame)), s, conn'') =
      some (entries, s', conn') → [] = entries ∧ s = s' ∧ conn'' = conn' := by
    intro conn'' heq
    simpa using heq
  cases input with
  | close =>
      cases task with
      | ended => exact absurd hturn (by simp [Host.connectionTurn])
      | reading buf dbIndex =>
          obtain ⟨rfl, rfl, rfl⟩ := hnothing hturn
          exact ⟨rfl, hended⟩
      | writing unsent behind =>
          obtain ⟨rfl, rfl, rfl⟩ := hnothing hturn
          exact ⟨rfl, hended⟩
  | read env chunk =>
      cases task with
      | ended => exact absurd hturn (by simp [Host.connectionTurn])
      | writing unsent behind => exact absurd hturn (by simp [Host.connectionTurn])
      | reading buf dbIndex =>
          rw [connectionTurn_read] at hturn
          by_cases hchunk : chunk.isEmpty
          · rw [if_pos hchunk] at hturn
            exact absurd hturn (by simp)
          · rw [if_neg hchunk] at hturn
            obtain ⟨hdb, hbuffer⟩ := hleft dbIndex rfl
            refine parseBuffer_serves hdb ?_ ?_ (Option.some.inj hturn)
            · rw [← hunsent (by simp), Task.unsent, List.append_nil]
            · rw [drainChunks_concat hbuffer]
              simp [Task.left]
  | write env n =>
      cases task with
      | ended => exact absurd hturn (by simp [Host.connectionTurn])
      | reading buf dbIndex => exact absurd hturn (by simp [Host.connectionTurn])
      | writing unsent behind =>
          have hall : sent ++ unsent = Frame.encodeAll session.replies := hunsent (by simp)
          rw [connectionTurn_write] at hturn
          by_cases hn : n = 0 ∨ unsent.length < n
          · rw [if_pos hn] at hturn
            exact absurd hturn (by simp)
          rw [if_neg hn] at hturn
          by_cases hpart : n < unsent.length
          · rw [if_pos hpart] at hturn
            obtain ⟨rfl, rfl, rfl⟩ := hnothing hturn
            refine ⟨rfl, hquiet _ _ ?_ (fun _ => ?_) fun db hdb => ?_⟩
            · rw [← hall, List.prefix_append_right_inj]
              exact List.take_prefix n unsent
            · rw [← hall, Task.unsent, List.append_assoc, List.take_append_drop]
            · cases behind <;> exact ⟨hdb, rfl⟩
          rw [if_neg hpart] at hturn
          have hwritten : sent ++ unsent <+: Frame.encodeAll session.replies := by rw [hall]
          cases behind with
          | parse buf dbIndex =>
              obtain ⟨hdb, hbuffer⟩ := hleft dbIndex rfl
              exact parseBuffer_serves hdb hall hbuffer (Option.some.inj hturn)
          | read dbIndex =>
              obtain ⟨rfl, rfl, rfl⟩ := hnothing hturn
              refine ⟨rfl, hquiet _ _ hwritten (fun _ => ?_) fun db hdb => ⟨hdb, rfl⟩⟩
              rw [Task.unsent, List.append_nil, hall]
          | finish =>
              obtain ⟨rfl, rfl, rfl⟩ := hnothing hturn
              exact ⟨rfl, hquiet _ _ hwritten (fun hne => absurd rfl hne)
                fun db hdb => absurd hdb (by simp [Task.dbIndex])⟩

theorem tasks_isSerial (dbCount : Nat) {moves : List (Move Input Env)}
    {p : Pool Server Connection (Env × Outcome Frame) Env}
    (h : (host.tasks depth reserve).run (.start (.new dbCount)) moves = some p) :
    IsSerial (host.tasks depth reserve) (host.serve depth) Host.opened
      (Connection.Serves reserve) (.new dbCount) p := by
  have hfresh : (host.tasks depth reserve).fresh.Serves reserve [] Host.opened := by
    refine ⟨List.prefix_rfl, fun _ => rfl, List.prefix_rfl, fun db hdb => ⟨hdb, rfl⟩⟩
  exact Tasks.run_isSerial hfresh
    (fun input s conn session done entries s' conn' hconn hturn =>
      connectionTurn_serves input s conn session done entries s' conn' hconn hturn)
    (.new dbCount) h

/-- **Every run is serial.**  In whatever order connections are accepted, read chunks, write
parts of their replies, end or fail, and the sweeps come in between: the state is the one
that the items of all connections leave that are handled one by one in the order of the
log; each connection has taken its items in the order in which it has received them, and
its socket has the bytes of their replies, in order, but for those in flight. -/
theorem run_serial (dbCount : Nat) {moves : List (Move Input Env)}
    {p : Pool Server Connection (Env × Outcome Frame) Env}
    (h : (host.tasks depth reserve).run (.start (.new dbCount)) moves = some p) :
    p.shared = (host.serial depth (.new dbCount) p.log).shared ∧
      ∀ i (conn : Connection), p.tasks[i]? = some conn →
        conn.Serves reserve (entriesOf i p.log)
          ((host.serial depth (.new dbCount) p.log).sessions i) := by
  have hserial := tasks_isSerial dbCount h
  exact ⟨hserial.shared, hserial.tasks⟩

theorem answer_next (env : Env) (dbIndex : Nat) (item : Outcome Frame) (s : Server) :
    ((host.answer depth env dbIndex item).run ServerCall.exec s).2 = s ∨
      ∃ args, item >>= frameToCmdArgs = .ok args ∧
        ((host.answer depth env dbIndex item).run ServerCall.exec s).2 =
          host.next depth s (.request env dbIndex args) := by
  cases item with
  | error e => cases e <;> exact Or.inl rfl
  | ok frame =>
      cases hargs : frameToCmdArgs frame with
      | error e =>
          obtain ⟨msg, rfl⟩ := frameToCmdArgs_error hargs
          left
          rw [Host.answer, hargs]
          rfl
      | ok args =>
          cases args with
          | nil =>
              left
              rw [Host.answer, hargs]
              rfl
          | cons name args =>
              refine Or.inr ⟨name :: args, hargs, ?_⟩
              rw [Host.answer, hargs]
              simp only [Program.run_map, Host.next, Host.handle]

theorem serial_runEvents (s : Server) (log : List (Entry (Env × Outcome Frame) Env)) :
    ∃ events, (host.serial depth s log).shared = host.runEvents depth s events := by
  induction log using List.reverseRecOn with
  | nil => exact ⟨[], rfl⟩
  | append_singleton log entry ih =>
      obtain ⟨events, hevents⟩ := ih
      have hrun : host.serial depth s (log ++ [entry]) =
          Serial.exec (host.serve depth) Host.sweep (host.serial depth s log) entry :=
        Serial.run_append _ _ _ _ _
      have hconcat : ∀ event, host.runEvents depth s (events ++ [event]) =
          host.next depth (host.runEvents depth s events) event := fun event => List.foldl_concat ..
      rw [hrun]
      cases entry with
      | job env =>
          refine ⟨events ++ [.sweep env], ?_⟩
          rw [hconcat, ← hevents]
          rfl
      | own i item =>
          have hshared : (Serial.exec (host.serve depth) Host.sweep (host.serial depth s log)
              (.own i item)).shared =
              (host.serve depth item ((host.serial depth s log).shared,
                (host.serial depth s log).sessions i)).1 := rfl
          rw [hshared, hevents]
          cases hdb : ((host.serial depth s log).sessions i).dbIndex with
          | none =>
              refine ⟨events, ?_⟩
              rw [Host.serve]
              simp only [hdb]
          | some dbIndex =>
              rw [serve_open hdb]
              obtain hsame | ⟨args, -, hnext⟩ := answer_next item.1 dbIndex item.2
                (host.runEvents depth s events)
              · exact ⟨events, hsame⟩
              · exact ⟨events ++ [.request item.1 dbIndex args], by rw [hconcat, ← hnext]⟩

end

/-! One connection loads a script.  Another sends a request and types one, in chunks that do
not end where these end, and its socket takes a reply in two parts; a sweep comes in
between. -/

def pingFrame : Frame := .array [.bulk (asBytes "PING")]

def loadFrame : Frame :=
  .array [.bulk (asBytes "SCRIPT"), .bulk (asBytes "LOAD"), .bulk (asBytes "return 1")]

/-- A `PING`, and the first letters of a typed one. -/
def firstChunk : Bytes := pingFrame.serialize ++ asBytes "PI"

def lastChunk : Bytes := asBytes "NG" ++ crlf

def firstMoves : List (Move Input Env) :=
  [.spawn, .spawn, .turn 0 (.read (.at 0) loadFrame.serialize),
    .turn 1 (.read (.at 1) firstChunk), .turn 1 (.write (.at 1) 3)]

def lastMoves : List (Move Input Env) :=
  [.job (.at 5), .turn 0 (.write (.at 5) 14), .turn 1 (.write (.at 5) 4),
    .turn 1 (.read (.at 6) lastChunk), .turn 1 (.write (.at 6) 7)]

def loaded : Server :=
  ⟨.new 1, (∅ : StrMap String).insert (Host.plain.sha1Hex "return 1") "return 1"⟩

def loadReply : Frame := .bulkStr (Host.plain.sha1Hex "return 1")

/-- Both connections have a reply to write, and one has begun. -/
def midway : Pool Server Connection (Env × Outcome Frame) Env :=
  ⟨loaded, [⟨.writing loadReply.serialize (.parse [] 0), [loadFrame.serialize], []⟩,
    ⟨.writing (Frame.pong.serialize.drop 3) (.parse (asBytes "PI") 0), [firstChunk],
      Frame.pong.serialize.take 3⟩],
    [.own 0 (.at 0, .ok loadFrame), .own 1 (.at 1, .ok pingFrame)]⟩

/-- Both connections wait for more. -/
def served : Pool Server Connection (Env × Outcome Frame) Env :=
  ⟨Host.sweep (.at 5) loaded, [⟨.reading [] 0, [loadFrame.serialize], loadReply.serialize⟩,
    ⟨.reading [] 0, [firstChunk, lastChunk], Frame.pong.serialize ++ Frame.pong.serialize⟩],
    [.own 0 (.at 0, .ok loadFrame), .own 1 (.at 1, .ok pingFrame), .job (.at 5),
      .own 1 (.at 6, .ok pingFrame)]⟩

theorem parseFrame_ping (rest : Bytes) :
    parseFrame (fun _ => true) (pingFrame.serialize ++ rest) = (.ok (some pingFrame), rest) := by
  have hstorable : pingFrame.Storable fun _ => true := by
    have hname : (asBytes "PING").length ≤ isizeMax := by decide
    exact ⟨by decide, rfl, hname, trivial⟩
  rw [parseFrame_eq, Frame.serialize, frontFrame_encode hstorable ⟨trivial, trivial⟩]

theorem parseFrame_load :
    parseFrame (fun _ => true) loadFrame.serialize = (.ok (some loadFrame), []) := by
  have hstorable : loadFrame.Storable fun _ => true := by
    have hname : (asBytes "SCRIPT").length ≤ isizeMax := by decide
    have hsub : (asBytes "LOAD").length ≤ isizeMax := by decide
    have hscript : (asBytes "return 1").length ≤ isizeMax := by decide
    exact ⟨by decide, rfl, hname, hsub, hscript, trivial⟩
  exact parseFrame_alone hstorable ⟨trivial, trivial, trivial, trivial⟩

theorem parseFrame_half : parseFrame (fun _ => true) (asBytes "PI") = (.ok none, asBytes "PI") :=
  parseFrame_none_iff.mpr ⟨rfl, rfl⟩

theorem parseFrame_typed :
    parseFrame (fun _ => true) (asBytes "PI" ++ lastChunk) = (.ok (some pingFrame), []) := by
  rw [parseFrame_eq]
  rfl

section
variable {s : Server} {chunks : List Bytes} {sent : Bytes}

theorem read_load :
    Host.plain.connectionTurn 0 (fun _ => true) (.read (.at 0) loadFrame.serialize) (.new 1)
        ⟨.reading [] 0, [], []⟩ =
      some ([(.at 0, .ok loadFrame)], loaded,
        ⟨.writing loadReply.serialize (.parse [] 0), [loadFrame.serialize], []⟩) := by
  have hargs : frameToCmdArgs loadFrame =
      .ok [asBytes "SCRIPT", asBytes "LOAD", asBytes "return 1"] := rfl
  have hturn := turn_request Host.plain 0 (.at 0) 0 parseFrame_load hargs
  rw [connectionTurn_read, if_neg (by decide), List.nil_append, Host.parseBuffer, hturn.1, hturn.2]
  rfl

theorem read_ping (env : Env) (buf chunk rest : Bytes) (hchunk : chunk.isEmpty = false)
    (hparse : parseFrame (fun _ => true) (buf ++ chunk) = (.ok (some pingFrame), rest)) :
    Host.plain.connectionTurn 0 (fun _ => true) (.read env chunk) s ⟨.reading buf 0, chunks, sent⟩ =
      some ([(env, .ok pingFrame)], s,
        ⟨.writing Frame.pong.serialize (.parse rest 0), chunks ++ [chunk], sent⟩) := by
  have hargs : frameToCmdArgs pingFrame = .ok [asBytes "PING"] := rfl
  have hturn := turn_request Host.plain 0 env 0 hparse hargs
  rw [connectionTurn_read, hchunk, Host.parseBuffer, hturn.1, hturn.2]
  rfl

theorem write_part (env : Env) (n : Nat) (unsent : Bytes) (behind : Behind) (hpos : n ≠ 0)
    (hpart : n < unsent.length) :
    Host.plain.connectionTurn 0 (fun _ => true) (.write env n) s
        ⟨.writing unsent behind, chunks, sent⟩ =
      some ([], s, ⟨.writing (unsent.drop n) behind, chunks, sent ++ unsent.take n⟩) := by
  rw [connectionTurn_write, if_neg (by omega), if_pos hpart]

theorem write_rest (env : Env) (n : Nat) (buf unsent : Bytes) (hpos : n ≠ 0)
    (hall : n = unsent.length) (hnone : parseFrame (fun _ => true) buf = (.ok none, buf)) :
    Host.plain.connectionTurn 0 (fun _ => true) (.write env n) s
        ⟨.writing unsent (.parse buf 0), chunks, sent⟩ =
      some ([], s, ⟨.reading buf 0, chunks, sent ++ unsent⟩) := by
  have hturn := turn_none Host.plain 0 env 0 hnone
  rw [connectionTurn_write, if_neg (by omega), if_neg (by omega), Host.afterWrite,
    Host.parseBuffer, hturn.1, hturn.2]
  rfl

end

theorem run_midway :
    (Host.plain.tasks 0 fun _ => true).run (.start (.new 1)) firstMoves = some midway := by
  refine (Tasks.run_cons rfl _).trans <| (Tasks.run_cons rfl _).trans ?_
  refine (Tasks.run_cons (Tasks.step_of_turn rfl read_load) _).trans ?_
  refine (Tasks.run_cons (Tasks.step_of_turn rfl
    (read_ping (.at 1) [] firstChunk (asBytes "PI") rfl (parseFrame_ping _))) _).trans ?_
  refine (Tasks.run_cons (Tasks.step_of_turn rfl
    (write_part (.at 1) 3 Frame.pong.serialize _ (by decide) (by decide))) []).trans ?_
  rfl

theorem run_served :
    (Host.plain.tasks 0 fun _ => true).run (.start (.new 1)) (firstMoves ++ lastMoves) =
      some served := by
  have hempty : parseFrame (fun _ => true) [] = (.ok none, []) := parseFrame_none_iff.mpr ⟨rfl, rfl⟩
  rw [Tasks.run_append, run_midway, Option.bind_some]
  refine (Tasks.run_cons rfl _).trans ?_
  refine (Tasks.run_cons (Tasks.step_of_turn rfl
    (write_rest (.at 5) 14 [] loadReply.serialize (by decide) (by decide) hempty)) _).trans ?_
  refine (Tasks.run_cons (Tasks.step_of_turn rfl
    (write_rest (.at 5) 4 (asBytes "PI") (Frame.pong.serialize.drop 3) (by decide) (by decide)
      parseFrame_half)) _).trans ?_
  refine (Tasks.run_cons (Tasks.step_of_turn rfl
    (read_ping (.at 6) (asBytes "PI") lastChunk [] rfl parseFrame_typed)) _).trans ?_
  refine (Tasks.run_cons (Tasks.step_of_turn rfl
    (write_rest (.at 6) 7 [] Frame.pong.serialize (by decide) (by decide) hempty)) []).trans ?_
  rfl

theorem run_serial_served :
    served.shared = (Host.plain.serial 0 (.new 1) served.log).shared ∧
      ∀ i (conn : Connection), served.tasks[i]? = some conn →
        conn.Serves (fun _ => true) (entriesOf i served.log)
          ((Host.plain.serial 0 (.new 1) served.log).sessions i) :=
  run_serial 1 run_served

end MiniRudis
