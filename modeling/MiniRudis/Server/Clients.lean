import MiniRudis.Proto.Grammar
import MiniRudis.Server.Replies
import MiniRudis.Server.Serial

/-!
# Clients

What a client reads back on its connection is one reply for each request that it has sent,
in order, whatever the other connections do and however the streams are cut.
-/

namespace MiniRudis

open Lib

/-! ## Streams of frames -/

section
variable {reserve : Nat → Bool}

/-- `parse_frame` takes these bytes, whatever follows them, and the frame is a request with
these arguments. -/
def Spells (reserve : Nat → Bool) (b : Bytes) (args : List Bytes) : Prop :=
  ∃ frame, (∀ rest, frontFrame reserve (b ++ rest) = .ok (frame, rest)) ∧
    frameToCmdArgs frame = .ok args

theorem frameToCmdArgs_bulks (args : List Bytes) :
    frameToCmdArgs (.array (args.map .bulk)) = .ok args := by
  rw [frameToCmdArgs, List.mapM_map]
  exact (mapM_ok (g := id) fun b _ => rfl).trans (congrArg Except.ok (List.map_id args))

theorem storableAll_bulks {args : List Bytes} (h : ∀ b ∈ args, b.length ≤ isizeMax) :
    Frame.StorableAll reserve (args.map .bulk) := by
  induction args with
  | nil => trivial
  | cons b args ih =>
      exact ⟨h b List.mem_cons_self, ih fun b' hb' => h b' (List.mem_cons_of_mem b hb')⟩

theorem spells_array {args : List Bytes} (hlength : args.length ≤ isizeMax)
    (hreserve : reserve args.length = true) (hargs : ∀ b ∈ args, b.length ≤ isizeMax) :
    Spells reserve (Frame.array (args.map .bulk)).serialize args := by
  refine ⟨.array (args.map .bulk), frontFrame_encode ⟨?_, ?_, ?_⟩ ?_, frameToCmdArgs_bulks args⟩
  · rwa [List.length_map]
  · rwa [List.length_map]
  · exact storableAll_bulks hargs
  · exact Frame.lineSafe_map (f := .bulk) (fun _ => trivial) args

theorem spells_typed {line : String} (h : Typed line) :
    Spells reserve (asBytes line ++ crlf) (splitAsciiWhitespace (asBytes line)) := by
  have hpasses : Passes reserve true (asBytes line ++ crlf ++ [])
      [.array ((splitAsciiWhitespace (asBytes line)).map .bulk)] := .typed h .nil
  rw [List.append_nil] at hpasses
  exact ⟨_, hpasses.frontFrame, frameToCmdArgs_bulks _⟩

theorem spelled_frames {requests : List (Bytes × List Bytes)}
    (h : ∀ r ∈ requests, Spells reserve r.1 r.2) :
    ∃ items : List (Bytes × Frame), items.map Prod.fst = requests.map Prod.fst ∧
      (∀ p ∈ items, ∀ rest, frontFrame reserve (p.1 ++ rest) = .ok (p.2, rest)) ∧
      items.map (fun p => frameToCmdArgs p.2) = requests.map fun r => .ok r.2 := by
  induction requests with
  | nil => exact ⟨[], rfl, by simp, rfl⟩
  | cons r requests ih =>
      obtain ⟨items, hfst, hall, hsnd⟩ := ih fun r hr => h r (List.mem_cons_of_mem _ hr)
      obtain ⟨frame, hframe, hargs⟩ := h r List.mem_cons_self
      refine ⟨(r.1, frame) :: items, ?_, ?_, ?_⟩
      · rw [List.map_cons, List.map_cons, hfst]
      · intro p hp
        obtain rfl | hp := List.mem_cons.mp hp
        · exact hframe
        · exact hall p hp
      · rw [List.map_cons, List.map_cons, hsnd, hargs]

theorem drain_nil : drain (frontFrame_stable reserve) [] = ([], .ok []) := by
  rw [drain_error (e := incomplete) rfl, if_pos rfl]

theorem drain_frames {items : List (Bytes × Frame)}
    (h : ∀ p ∈ items, ∀ rest, frontFrame reserve (p.1 ++ rest) = .ok (p.2, rest)) :
    drain (frontFrame_stable reserve) (items.map Prod.fst).flatten =
      (items.map Prod.snd, .ok []) := by
  induction items with
  | nil => exact drain_nil
  | cons p items ih =>
      rw [List.map_cons, List.flatten_cons, drain_ok (h p List.mem_cons_self _),
        ih fun q hq => h q (List.mem_cons_of_mem p hq)]
      rfl

theorem drainChunk_drain {chunks : List Bytes} (items : List (Outcome Frame)) {buf rest : Bytes}
    {frames : List Frame} (hwait : drain (frontFrame_stable reserve) buf = ([], .ok buf))
    (h : drain (frontFrame_stable reserve) (buf ++ chunks.flatten) = (frames, .ok rest)) :
    chunks.foldl (drainChunk reserve) (items, some buf) = (items ++ frames.map .ok, some rest) := by
  induction chunks generalizing items buf frames with
  | nil =>
      rw [List.flatten_nil, List.append_nil, hwait, Prod.mk.injEq] at h
      obtain ⟨rfl, hbuf⟩ := h
      rw [← Except.ok.inj hbuf, List.foldl_nil, List.map_nil, List.append_nil]
  | cons chunk chunks ih =>
      rw [List.flatten_cons, ← List.append_assoc, drain_append] at h
      cases hout : drain (frontFrame_stable reserve) (buf ++ chunk) with
      | mk front out =>
          rw [hout] at h
          cases out with
          | error e =>
              simp only [Prod.mk.injEq] at h
              exact absurd h.2 (by simp)
          | ok next =>
              simp only [Prod.mk.injEq] at h
              obtain ⟨rfl, hrest⟩ := h
              have hdrained := (drainBuffer_drain hout).1 next rfl
              have hstep : drainChunk reserve (items, some buf) chunk =
                  (items ++ front.map .ok, some next) := by
                simp only [drainChunk, hdrained]
              rw [List.foldl_cons, hstep, ih _ (drain_rest hout) (Prod.ext rfl hrest),
                List.map_append, List.append_assoc]

theorem drainChunks_drain {chunks : List Bytes} {rest : Bytes} {frames : List Frame}
    (h : drain (frontFrame_stable reserve) chunks.flatten = (frames, .ok rest)) :
    drainChunks reserve chunks = (frames.map .ok, some rest) :=
  drainChunk_drain [] drain_nil h

end

/-! ## One reply for one request -/

/-- A request that names no scripting command, and whose name is known or could be shown on
one line with its arguments. -/
def Cmd.PlainRequest (args : List Bytes) : Prop :=
  ∃ name rest, args = name :: rest ∧
    ∀ env, commandName env name ∉ scriptNames ∧ OneLine env name rest

section
variable {host : Host} {depth : Nat} {env : Env} {db : Nat}

theorem respond_lineSafe {args : List Bytes} (h : Cmd.PlainRequest args) (s : Server)
    {frame : Frame}
    (hreply : ((host.respond depth env db args).run ServerCall.exec s).1.1 = .ok frame) :
    frame.LineSafe := by
  obtain ⟨name, rest, rfl, hplain⟩ := h
  have hparse := Cmd.parse_data env name rest (hplain env).1
  cases hlookup : (Cmd.commandTable env).lookup (Cmd.commandName env name) with
  | some parseRest =>
      rw [hlookup] at hparse
      have hmeets := @Host.respond_safe host depth env db
      -- nothing is to be computed from the request
      generalize host.respond depth env db = respond at hmeets hreply
      have hsafe := (hmeets hparse).result ServerCall.exec_answers s
      rw [hreply] at hsafe
      exact hsafe
  | none =>
      rw [hlookup] at hparse
      have hrun : host.respond depth env db (name :: rest) =
          .ret (.ok (.fromError (.generic (Cmd.unknownText env name rest))), some db) := by
        rw [Host.respond, hparse]
        rfl
      rw [hrun] at hreply
      obtain rfl := Except.ok.inj hreply
      obtain hknown | ⟨hname, hrest⟩ := (hplain env).2
      · rw [hlookup] at hknown
        exact absurd hknown (by simp)
      · have hbreaks := Cmd.breaksLine_unknownText env name rest
        intro hbroken
        obtain hbroken | ⟨b, hb, hbroken⟩ := hbreaks.mp hbroken
        · exact hname hbroken
        · exact hrest b hb hbroken

def Requests (args : List Bytes) (item : Outcome Frame) : Prop :=
  args ≠ [] ∧ item >>= frameToCmdArgs = .ok args

theorem answer_request {args : List Bytes} {item : Outcome Frame} (h : Requests args item) :
    host.answer depth env db item = Host.answerFrame <$> host.respond depth env db args := by
  obtain ⟨hne, hargs⟩ := h
  cases item with
  | error e => exact absurd hargs nofun
  | ok frame =>
      have hframe : frameToCmdArgs frame = .ok args := hargs
      cases args with
      | nil => exact absurd rfl hne
      | cons name args => rw [Host.answer, hframe]

/-- A connection that has got nothing but plain requests: while it goes on it has one
reply for each, and every reply is of one line. -/
structure Session.Answered (requests : List (List Bytes)) (session : Session) : Prop where
  count : session.dbIndex.isSome → session.replies.length = requests.length
  lineSafe : (∀ args ∈ requests, Cmd.PlainRequest args) → ∀ f ∈ session.replies, f.LineSafe

theorem serve_answered {item : Env × Outcome Frame} {args : List Bytes}
    {requests : List (List Bytes)} {session : Session} (hitem : Requests args item.2)
    (h : session.Answered requests) (s : Server) :
    (host.serve depth item (s, session)).2.Answered (requests ++ [args]) := by
  cases hdb : session.dbIndex with
  | none =>
      rw [Host.serve]
      simp only [hdb]
      refine ⟨fun hsome => absurd hsome (by simp [hdb]), fun hplain f hf => h.lineSafe ?_ f hf⟩
      exact fun args hargs => hplain args (List.mem_append_left _ hargs)
  | some dbIndex =>
      rw [serve_open hdb, answer_request hitem, Program.run_map]
      have hsafe : Cmd.PlainRequest args → ∀ frame,
          ((host.respond depth item.1 dbIndex args).run ServerCall.exec s).1.1 = .ok frame →
            frame.LineSafe := fun hplain frame hframe => respond_lineSafe hplain s hframe
      generalize ((host.respond depth item.1 dbIndex args).run ServerCall.exec s) = r at hsafe ⊢
      obtain ⟨⟨reply, next⟩, s'⟩ := r
      cases reply with
      | error e =>
          refine ⟨fun hsome => absurd hsome (by simp [Host.answerFrame]), fun hplain f hf => ?_⟩
          simp only [Host.answerFrame, List.append_nil] at hf
          exact h.lineSafe (fun args hargs => hplain args (List.mem_append_left _ hargs)) f hf
      | ok frame =>
          refine ⟨fun hsome => ?_, fun hplain f hf => ?_⟩
          · have hcount := h.count (by simp [hdb])
            simp [Host.answerFrame, hcount]
          · obtain hf | hf := List.mem_append.mp hf
            · exact h.lineSafe (fun args hargs => hplain args (List.mem_append_left _ hargs)) f hf
            · obtain rfl := List.mem_singleton.mp hf
              exact hsafe (hplain args (by simp)) f rfl

def argsOf (done : List (Env × Outcome Frame)) : List (Outcome (List Bytes)) :=
  done.map fun e => e.2 >>= frameToCmdArgs

theorem session_answered (s : Server) (log : List (Entry (Env × Outcome Frame) Env)) (i : Nat)
    {requests : List (List Bytes)} (hne : ∀ args ∈ requests, args ≠ [])
    (hargs : argsOf (entriesOf i log) = requests.map .ok) :
    ((host.serial depth s log).sessions i).Answered requests := by
  refine Serial.run_session (host.serve depth) Host.sweep
    (Q := fun done session => ∀ requests : List (List Bytes), (∀ args ∈ requests, args ≠ []) →
      argsOf done = requests.map .ok → session.Answered requests)
    ?_ ?_ s log i requests hne hargs
  · intro requests _ hargs
    obtain rfl := List.map_eq_nil_iff.mp hargs.symm
    exact ⟨fun _ => rfl, fun _ f hf => absurd hf (by simp [Host.opened])⟩
  · intro item s session done ih requests hne hargs
    rw [argsOf, List.map_append] at hargs
    obtain ⟨front, last, rfl, hfront, hlast⟩ := List.map_eq_append_iff.mp hargs.symm
    obtain ⟨args, rest, rfl, hitem, hrest⟩ := List.map_eq_cons_iff.mp hlast
    obtain rfl := List.map_eq_nil_iff.mp hrest
    refine serve_answered ⟨hne args (by simp), hitem.symm⟩ (ih front ?_ hfront.symm) s
    exact fun args hargs => hne args (List.mem_append_left _ hargs)

/-- **A client reads one reply for each request.**  On a connection that has got nothing but
plain requests, typed or as RESP and cut into any chunks, and that waits for more: the
requests have been executed once each, in order; and cut into any chunks again, the bytes
that its socket has taken are read back as the replies of the serial run, one for each
request. -/
theorem client_reads_replies {reserve : Nat → Bool} (dbCount : Nat) {moves : List (Move Input Env)}
    {p : Pool Server Connection (Env × Outcome Frame) Env}
    (h : (host.tasks depth reserve).run (.start (.new dbCount)) moves = some p)
    {i : Nat} {conn : Connection} (hconn : p.tasks[i]? = some conn)
    {buf : Bytes} (htask : conn.task = .reading buf db) {requests : List (Bytes × List Bytes)}
    (hspells : ∀ r ∈ requests, Spells reserve r.1 r.2 ∧ Cmd.PlainRequest r.2)
    (hstream : conn.received.flatten = (requests.map Prod.fst).flatten) :
    argsOf (entriesOf i p.log) = requests.map (fun r => .ok r.2) ∧
      ((host.serial depth (.new dbCount) p.log).sessions i).replies.length = requests.length ∧
      ∀ (reserve' : Nat → Bool) (chunks : List Bytes), chunks.flatten = conn.sent →
        (∀ f ∈ ((host.serial depth (.new dbCount) p.log).sessions i).replies,
          f.Storable reserve') →
        drainChunks reserve' chunks =
          (((host.serial depth (.new dbCount) p.log).sessions i).replies.map .ok, some []) := by
  have hserves : conn.Serves reserve (entriesOf i p.log)
      ((host.serial depth (.new dbCount) p.log).sessions i) :=
    (tasks_isSerial dbCount h).tasks i conn hconn
  obtain ⟨hsent, hunsent, htaken, hleft⟩ := hserves
  generalize hsession : (host.serial depth (.new dbCount) p.log).sessions i = session at *
  obtain ⟨hdb, hreceived⟩ := hleft db (by rw [htask]; rfl)
  obtain ⟨items, hfst, hall, hsnd⟩ := spelled_frames fun r hr => (hspells r hr).1
  have hdrained : drainChunks reserve conn.received = ((items.map Prod.snd).map .ok, some []) := by
    apply drainChunks_drain
    rw [hstream, ← hfst, drain_frames hall]
  have hdone : (entriesOf i p.log).map Prod.snd = (items.map Prod.snd).map .ok := by
    rw [hreceived, htask, Task.left, List.append_nil, Prod.mk.injEq] at hdrained
    exact hdrained.1
  have hargs : argsOf (entriesOf i p.log) = (requests.map Prod.snd).map .ok := by
    have hmap := congrArg (List.map (· >>= frameToCmdArgs)) hdone
    rw [List.map_map, List.map_map, List.map_map] at hmap
    rw [List.map_map]
    exact hmap.trans hsnd
  have hanswered : session.Answered (requests.map Prod.snd) := by
    rw [← hsession]
    refine session_answered _ _ i ?_ hargs
    intro args hargs
    obtain ⟨r, hr, rfl⟩ := List.mem_map.mp hargs
    obtain ⟨name, rest, hname, -⟩ := (hspells r hr).2
    rw [hname]
    exact List.cons_ne_nil _ _
  refine ⟨?_, ?_, fun reserve' chunks hchunks hstorable => ?_⟩
  · rw [hargs, List.map_map]
    rfl
  · rw [hanswered.count (by rw [hdb]; rfl), List.length_map]
  · have hbytes : conn.sent = Frame.encodeAll session.replies := by
      have hall := hunsent (by simp [htask])
      rwa [htask, Task.unsent, List.append_nil] at hall
    have hsafe := hanswered.lineSafe fun args hargs => by
      obtain ⟨r, hr, rfl⟩ := List.mem_map.mp hargs
      exact (hspells r hr).2
    apply drainChunks_drain
    rw [hchunks, hbytes]
    have hfront : ∀ p ∈ session.replies.map (fun f => (f.serialize, f)), ∀ rest,
        frontFrame reserve' (p.1 ++ rest) = .ok (p.2, rest) := by
      intro p hp rest
      obtain ⟨f, hf, rfl⟩ := List.mem_map.mp hp
      exact frontFrame_encode (hstorable f hf) (hsafe f hf) rest
    have hread := drain_frames hfront
    rw [List.map_map, List.map_map] at hread
    rw [encodeAll_eq]
    simpa [Function.comp_def] using hread

end

theorem plainRequest_ping : Cmd.PlainRequest [asBytes "PING"] := by
  refine ⟨_, [], rfl, fun env => ?_⟩
  have hname : Cmd.commandName env (asBytes "PING") = "PING" := by
    rw [Cmd.commandName, Cmd.upperText, fromUtf8Lossy_asBytes]
    rfl
  rw [Cmd.OneLine, hname]
  exact ⟨by decide, Or.inl rfl⟩

theorem typed_ping : Typed "PING" where
  unbroken := by decide
  unmarked := by
    intro m hm hhead
    have hfirst : (asBytes "PING").head? = some 80 := by decide
    obtain rfl := Option.some.inj (hfirst.symm.trans hhead)
    exact absurd hm (by decide)
  nonempty := by decide

/-- The second of two clients has sent a request and typed one. -/
theorem client_reads_replies_served :
    argsOf (entriesOf 1 served.log) = [.ok [asBytes "PING"], .ok [asBytes "PING"]] ∧
      ((Host.plain.serial 0 (.new 1) served.log).sessions 1).replies.length = 2 ∧
      ∀ (reserve' : Nat → Bool) (chunks : List Bytes),
        chunks.flatten = Frame.pong.serialize ++ Frame.pong.serialize →
        (∀ f ∈ ((Host.plain.serial 0 (.new 1) served.log).sessions 1).replies,
          f.Storable reserve') →
        drainChunks reserve' chunks =
          (((Host.plain.serial 0 (.new 1) served.log).sessions 1).replies.map .ok, some []) := by
  have hlengths : ∀ b ∈ [asBytes "PING"], b.length ≤ isizeMax := by
    intro b hb
    rw [List.mem_singleton.mp hb]
    decide
  have hping : Spells (fun _ => true) (Frame.array ([asBytes "PING"].map .bulk)).serialize
      [asBytes "PING"] := spells_array (by decide) rfl hlengths
  have hrequests : ∀ r ∈ [(pingFrame.serialize, [asBytes "PING"]),
      (asBytes "PING" ++ crlf, [asBytes "PING"])],
      Spells (fun _ => true) r.1 r.2 ∧ Cmd.PlainRequest r.2 := by
    intro r hr
    obtain rfl | hr := List.mem_cons.mp hr
    · exact ⟨hping, plainRequest_ping⟩
    · obtain rfl := List.mem_singleton.mp hr
      exact ⟨spells_typed typed_ping, plainRequest_ping⟩
  have hconn : served.tasks[1]? = some ⟨.reading [] 0, [firstChunk, lastChunk],
      Frame.pong.serialize ++ Frame.pong.serialize⟩ := rfl
  exact client_reads_replies 1 run_served hconn rfl hrequests rfl

end MiniRudis
