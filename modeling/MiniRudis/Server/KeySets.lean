import MiniRudis.Db.KeySets
import MiniRudis.Server.Sweeps

/-!
# Requests on different keys

What is requested on some keys is answered as if nothing were requested on the others, in
one logical database or in several.  How requests of clients that share no keys interleave
shows neither in the replies nor in the state.
-/

namespace MiniRudis

open Lib

/-! ## The keys that a command names -/

/-- The keys that a command names; `none` where it reaches the data in another way. -/
def Command.names : Command → Option (List String)
  | ping _ | echo _ | select _ | info | quit => some []
  | dbsize | flushdb | flushall | keys _ | randomkey | eval .. | evalSha .. | scriptLoad _
  | scriptFlush => none
  | del names | existsKeys names | mget names | sUnion names | sInter names | sDiff names =>
      some names
  | rename src dst | renamenx src dst | lMove src dst _ _ | sMove src dst _ => some [src, dst]
  | mset pairs | msetnx pairs => some (pairs.map Prod.fst)
  | sUnionStore dst names | sInterStore dst names | sDiffStore dst names => some (dst :: names)
  | set args => some [args.key]
  | getEx args => some [args.key]
  | zAdd args => some [args.key]
  | zRangeByScore args | zRevRangeByScore args => some [args.key]
  | type key | expire key _ | pExpire key _ | expireAt key _ | pExpireAt key _ | ttl key | pttl key
  | persist key | get key | getSet key _ | getDel key | setnx key _ | setex key _ _ | pSetex key _ _
  | incr key | incrBy key _ | incrByFloat key _ | decr key | decrBy key _ | append key _
  | strlen key | getRange key _ _ | setRange key _ _ | lPush key _ | rPush key _ | lPushX key _
  | rPushX key _ | lPop key _ | rPop key _ | lLen key | lRange key _ _ | lIndex key _ | lSet key _ _
  | lInsert key _ _ _ | lRem key _ _ | lTrim key _ _ | hSet key _ | hSetnx key _ _ | hGet key _
  | hMGet key _ | hMSet key _ | hDel key _ | hExists key _ | hGetAll key | hKeys key | hVals key
  | hLen key | hIncrBy key _ _ | hIncrByFloat key _ _ | sAdd key _ | sRem key _ | sMembers key
  | sIsMember key _ | sMIsMember key _ | sCard key | sPop key _ | sRandMember key _ | zRem key _
  | zScore key _ | zMScore key _ | zIncrBy key _ _ | zRank key _ | zRevRank key _ | zCard key
  | zCount key _ _ | zRange key _ _ _ _ | zRevRange key _ _ _ | zRemRangeByRank key _ _
  | zRemRangeByScore key _ _ | zPopMin key _ | zPopMax key _ => some [key]

/-! ## Calls -/

namespace Server

/-- What no request on keys changes: the number of databases, and the scripts. -/
def shape (s : Server) : Nat × StrMap String := (s.db.dbs.length, s.cache)

def entry (s : Server) (a : Nat × String) : Option Cell := s.db.entry a

abbrev SameOn (region : Nat × String → Prop) (s t : Server) : Prop := AgreeOn shape entry region s t

theorem sameOn_iff {region : Nat × String → Prop} {s t : Server} :
    s.SameOn region t ↔ s.db.SameOn region t.db ∧ s.cache = t.cache := by
  constructor
  · intro h
    exact ⟨⟨congrArg Prod.fst h.sameShape, h.entry⟩, congrArg Prod.snd h.sameShape⟩
  · rintro ⟨h, hcache⟩
    exact ⟨Prod.ext h.sameShape hcache, h.entry⟩

end Server

namespace ServerCall

/-- The call reads and writes these entries of the data only, or reads a script. -/
def Within (region : Nat × String → Prop) : (β : Type) → ServerCall β → Prop
  | _, .db _ op => op.Within region
  | _, .cacheGet _ => True
  | _, .cacheInsert .. | _, .cacheClear => False

/-- What the call does at these entries rests on them and on the cache. -/
def SeenIn (region : Nat × String → Prop) : (β : Type) → ServerCall β → Prop
  | _, .db _ op => op.SeenIn region
  | _, .cacheGet _ | _, .cacheInsert .. | _, .cacheClear => True

variable {region : Nat × String → Prop}

theorem Within.seenIn (β : Type) (call : ServerCall β) (h : Within region β call) :
    SeenIn region β call := by
  cases call with
  | db env op => exact Or.inl h
  | cacheGet | cacheInsert | cacheClear => trivial

theorem exec_seenIn (β : Type) (call : ServerCall β) {s t : Server} (hst : s.SameOn region t)
    (h : SeenIn region β call) : Alike (Server.SameOn region) (exec β call s) (exec β call t) := by
  obtain ⟨hdb, hcache⟩ := Server.sameOn_iff.mp hst
  cases call with
  | db env op =>
      obtain ⟨hreply, hentries⟩ := op.run_seenIn h env hdb
      exact ⟨hreply, Server.sameOn_iff.mpr ⟨hentries, hcache⟩⟩
  | cacheGet sha => exact ⟨congrArg (·[sha]?) hcache, hst⟩
  | cacheInsert sha script =>
      exact ⟨rfl, Server.sameOn_iff.mpr ⟨hdb, congrArg (·.insert sha script) hcache⟩⟩
  | cacheClear => exact ⟨rfl, Server.sameOn_iff.mpr ⟨hdb, rfl⟩⟩

theorem exec_within (β : Type) (call : ServerCall β) (h : Within region β call) :
    LocalOn Server.shape Server.entry region (exec β call) where
  agree s t hst := exec_seenIn β call hst (Within.seenIn β call h)
  frame s := by
    cases call with
    | db env op => exact Server.sameOn_iff.mpr ⟨(Op.onKeys h env).frame s.db, rfl⟩
    | cacheGet sha => exact .refl _ s
    | cacheInsert | cacheClear => exact h.elim

end ServerCall

/-! ## Requests -/

namespace Cmd

variable {env : Env} {db : Nat} {region : Nat × String → Prop} {α : Type}

theorem call_within {op : Op α} (f : α → Frame) (h : op.Within region) :
    CmdM.Calls (ServerCall.Within region) (call env op f) :=
  ⟨h, fun _ _ => trivial⟩

/-- **A command stays at the keys that it names.** -/
theorem executeOn_within (os : String) (last : Command → CmdM (Outcome Frame)) {cmd : Command}
    (hselect : ∀ idx, cmd ≠ .select idx) {names : List String} (hcmd : cmd.names = some names)
    (hnames : ∀ name ∈ names, region (db, name)) :
    CmdM.Calls (ServerCall.Within region) (executeOn os env db last cmd) := by
  cases cmd <;> simp only [Command.names, Option.some.injEq, reduceCtorEq] at hcmd <;> subst hcmd
  case select idx => exact absurd rfl (hselect idx)
  case ping msg => cases msg <;> trivial
  case echo | info | quit => trivial
  case set args => exact execSet_calls (fun _ => hnames _ List.mem_cons_self) rfl
  case getEx args => exact execGetex_calls (fun _ => hnames _ List.mem_cons_self) rfl
  case decrBy key delta =>
    unfold executeOn Strings.execute
    dsimp only
    split
    · trivial
    · exact call_within _ (hnames key List.mem_cons_self)
  case zCount | zRemRangeByScore | zRangeByScore | zRevRangeByScore =>
    exact withBounds_calls _ _ fun _ _ => call_within _ (hnames _ List.mem_cons_self)
  case del | existsKeys | mget | sUnion | sInter | sDiff => exact call_within _ hnames
  case mset | msetnx =>
    exact call_within _ fun p hp => hnames p.1 (List.mem_map_of_mem hp)
  case rename | renamenx | lMove | sMove =>
    exact call_within _ ⟨hnames _ List.mem_cons_self,
      hnames _ (List.mem_cons_of_mem _ List.mem_cons_self)⟩
  case sUnionStore | sInterStore | sDiffStore =>
    exact call_within _ ⟨hnames _ List.mem_cons_self,
      fun name hname => hnames name (List.mem_cons_of_mem _ hname)⟩
  all_goals exact call_within _ (hnames _ List.mem_cons_self)

def NamesIn (region : Nat × String → Prop) (env : Env) (db : Nat) (args : List Bytes) : Prop :=
  ∀ cmd, parse env args = .ok cmd →
    ∃ names, cmd.names = some names ∧ ∀ name ∈ names, region (db, name)

end Cmd

namespace Host

variable (host : Host) {region : Nat × String → Prop}

def StaysIn (depth : Nat) (region : Nat × String → Prop) (event : Event) : Prop :=
  CmdM.Calls (ServerCall.Within region) (host.reply depth event)

/-- What the event does at these entries, and its answer, rest on them and on the cache. -/
def RestsOn (depth : Nat) (region : Nat × String → Prop) (event : Event) : Prop :=
  CmdM.Calls (ServerCall.SeenIn region) (host.reply depth event)

variable {host} in
theorem StaysIn.restsOn {depth : Nat} {event : Event} (h : host.StaysIn depth region event) :
    host.RestsOn depth region event := h.weaken ServerCall.Within.seenIn

theorem staysIn_request (depth : Nat) {env : Env} {db : Nat} {args : List Bytes}
    (h : Cmd.NamesIn region env db args) :
    host.StaysIn depth region (.request env db args) := by
  have hrespond : CmdM.Calls (ServerCall.Within region) (host.respond depth env db args) := by
    unfold respond
    split
    · trivial
    · trivial
    · trivial
    · rename_i cmd _ hparse
      obtain ⟨names, hcmd, hnames⟩ := h cmd hparse
      have hexecute : CmdM.Calls (ServerCall.Within region) (host.execute depth env db cmd) := by
        unfold execute Cmd.execute
        split
        · split <;> trivial
        · rename_i hselect
          exact (Cmd.executeOn_within host.os _ hselect hcmd hnames).bind fun frame _ => trivial
      exact hexecute.map fun _ _ => trivial
  exact hrespond.map fun _ _ => trivial

theorem restsOn_sweep (depth : Nat) (env : Env) : host.RestsOn depth region (.sweep env) :=
  ⟨Or.inr rfl, fun _ _ => trivial⟩

section
variable {host}

theorem RestsOn.reply_alike {depth : Nat} {event : Event} (h : host.RestsOn depth region event)
    {s t : Server} (hst : s.SameOn region t) :
    Alike (Server.SameOn region) ((host.reply depth event).run ServerCall.exec s)
      ((host.reply depth event).run ServerCall.exec t) :=
  h.run_alike ServerCall.exec_anyReply
    (fun β call _ _ hst hcall _ => ServerCall.exec_seenIn β call hst hcall) hst
    (h.allCalls ServerCall.exec_anyReply (fun _ _ _ hcall => hcall) s)

theorem StaysIn.frame {depth : Nat} {event : Event} (h : host.StaysIn depth region event)
    (s : Server) :
    s.SameOn (fun a => ¬ region a) ((host.reply depth event).run ServerCall.exec s).2 :=
  ((h.weaken ServerCall.exec_within).localOn fun _ _ _ => trivial).frame s

end

theorem answers_alone (depth : Nat) {mine : Event → Bool} {events : List Event}
    (hmine : ∀ e ∈ events, mine e = true → host.RestsOn depth region e)
    (hothers : ∀ e ∈ events, mine e = false → ∀ s : Server,
      s.SameOn region ((host.reply depth e).run ServerCall.exec s).2) (s : Server) :
    (host.answers depth events s).1.filter (fun p => mine p.1) =
        (host.answers depth (events.filter mine) s).1 ∧
      (host.answers depth events s).2.SameOn region
        (host.answers depth (events.filter mine) s).2 := by
  refine Program.trace_purge (R := Server.SameOn region) ServerCall.exec (host.reply depth) ?_ ?_
    (.refl region s)
  · intro e he hkept s t hst
    exact (hmine e he hkept).reply_alike hst
  · intro e he hleft s t hst
    exact (hothers e he hleft s).symm.trans hst

/-- **Keys are isolated.**  Leave out of a run the requests that stay at other keys: what
remains, whose answers rest on these keys and on the cache, sweeps and scripts with it, is
answered as before, and these keys and the cache are left as before. -/
theorem keys_isolated (depth : Nat) {mine : Event → Bool} {events : List Event}
    (hmine : ∀ e ∈ events, mine e = true → host.RestsOn depth region e)
    (hothers : ∀ e ∈ events, mine e = false → host.StaysIn depth (fun a => ¬ region a) e)
    (s : Server) :
    (host.answers depth events s).1.filter (fun p => mine p.1) =
        (host.answers depth (events.filter mine) s).1 ∧
      (∀ a, region a → (host.answers depth events s).2.db.entry a =
        (host.answers depth (events.filter mine) s).2.db.entry a) ∧
      (host.answers depth events s).2.cache =
        (host.answers depth (events.filter mine) s).2.cache := by
  have hspared : ∀ e ∈ events, mine e = false → ∀ s : Server,
      s.SameOn region ((host.reply depth e).run ServerCall.exec s).2 := fun e he hleft s =>
    ((hothers e he hleft).frame s).weaken fun a ha => not_not_intro ha
  obtain ⟨htrace, hsame⟩ := host.answers_alone depth hmine hspared s
  obtain ⟨hdb, hcache⟩ := Server.sameOn_iff.mp hsame
  exact ⟨htrace, hdb.entry, hcache⟩

/-! ## Interleavings -/

end Host

/-- The event is one of the client `i`, or of no client. -/
def Event.concerns {ι : Type} [DecidableEq ι] (client : Event → Option ι) (i : ι) (e : Event) :
    Bool := (client e).all fun j => decide (j = i)

theorem Event.concerns_iff {ι : Type} [DecidableEq ι] {client : Event → Option ι} {i : ι}
    {e : Event} : e.concerns client i = true ↔ ∀ j, client e = some j → j = i := by
  unfold concerns
  cases client e <;> simp

namespace Host

variable (host : Host) {ι : Type} [DecidableEq ι] {client : Event → Option ι}
  {region : Nat × String → ι}

theorem client_alone (depth : Nat) {events : List Event}
    (hclients : ∀ e ∈ events, ∀ i, client e = some i → host.StaysIn depth (fun a => region a = i) e)
    (hsweeps : ∀ e ∈ events, client e = none → e.isRequest = false) (i : ι) (s : Server) :
    (host.answers depth events s).1.filter (fun p => p.1.concerns client i) =
        (host.answers depth (events.filter (Event.concerns client i)) s).1 ∧
      (host.answers depth events s).2.SameOn (fun a => region a = i)
        (host.answers depth (events.filter (Event.concerns client i)) s).2 := by
  refine host.answers_alone depth ?_ ?_ s
  · intro e he hmine
    cases hclient : client e with
    | none =>
        have hsweep := hsweeps e he hclient
        cases e with
        | request => exact absurd hsweep (by simp [Event.isRequest])
        | sweep env => exact host.restsOn_sweep depth env
    | some j =>
        obtain rfl := Event.concerns_iff.mp hmine j hclient
        exact (hclients e he j hclient).restsOn
  · intro e he hother t
    cases hclient : client e with
    | none => simp [Event.concerns, hclient] at hother
    | some j =>
        have hne : j ≠ i := by simpa [Event.concerns, hclient] using hother
        refine ((hclients e he j hclient).frame t).weaken fun a ha hj => ?_
        exact hne (hj.symm.trans ha)

/-- **Clients that share no keys do not meet.**  In two runs each client makes the same
requests, which stay at its own keys, and the sweeps come between the same ones: then each
client has the same answers in both, and they leave the same state. -/
theorem interleavings_agree (depth : Nat) {events events' : List Event}
    (hclients : ∀ e ∈ events, ∀ i, client e = some i → host.StaysIn depth (fun a => region a = i) e)
    (hsweeps : ∀ e ∈ events, client e = none → e.isRequest = false)
    (hsame : ∀ i, events.filter (Event.concerns client i) = events'.filter (Event.concerns client i))
    (s : Server) :
    (∀ i, (host.answers depth events s).1.filter (fun p => p.1.concerns client i) =
        (host.answers depth events' s).1.filter (fun p => p.1.concerns client i)) ∧
      (host.answers depth events s).2 = (host.answers depth events' s).2 := by
  have hmem : ∀ e ∈ events', e ∈ events := by
    intro e he
    have hconcerns : e.concerns client ((client e).getD (region (0, ""))) = true := by
      rw [Event.concerns_iff]
      intro j hj
      rw [hj, Option.getD_some]
    have hkept := List.mem_filter.mpr ⟨he, hconcerns⟩
    rw [← hsame] at hkept
    exact List.mem_of_mem_filter hkept
  have hleft := fun i => host.client_alone depth hclients hsweeps i s
  have hright := fun i => host.client_alone depth (fun e he => hclients e (hmem e he))
    (fun e he => hsweeps e (hmem e he)) i s
  have hstates : ∀ i, (host.answers depth events s).2.SameOn (fun a => region a = i)
      (host.answers depth events' s).2 := by
    intro i
    have hmine := (hleft i).2
    rw [hsame i] at hmine
    exact hmine.trans (hright i).2.symm
  refine ⟨fun i => ?_, ?_⟩
  · rw [(hleft i).1, (hright i).1, hsame i]
  · have hdb : (host.answers depth events s).2.db = (host.answers depth events' s).2.db :=
      Database.ext_entry fun a => (hstates (region a)).entry a rfl
    have hcache := (Server.sameOn_iff.mp (hstates (region (0, "")))).2
    exact Server.eq_of_parts hdb hcache

/-! ### Two clients -/

theorem namesIn_of_parse {region : Nat × String → Prop} {env : Env} {db : Nat} {args : List Bytes}
    {cmd : Command} {names : List String} (hparse : Cmd.parse env args = .ok cmd)
    (hcmd : cmd.names = some names) (hnames : ∀ name ∈ names, region (db, name)) :
    Cmd.NamesIn region env db args := by
  intro cmd' hparse'
  obtain rfl := Except.ok.inj (hparse.symm.trans hparse')
  exact ⟨names, hcmd, hnames⟩

def setK : Event := .request (.at 0) 0 [asBytes "SET", asBytes "k", asBytes "v"]

def saddM : Event := .request (.at 1) 0 [asBytes "SADD", asBytes "m", asBytes "x"]

theorem setK_stays {region : Nat × String → Prop} (h : region (0, "k")) :
    plain.StaysIn 0 region setK :=
  plain.staysIn_request 0 (namesIn_of_parse (Cmd.parse_set _ _ _) rfl (by
    simpa [Cmd.plainArgs] using h))

theorem saddM_stays {region : Nat × String → Prop} (h : region (0, "m")) :
    plain.StaysIn 0 region saddM :=
  plain.staysIn_request 0 (namesIn_of_parse (Cmd.parse_sadd _ _ _) rfl (by simpa using h))

def firstKey : Event → Option String
  | .request _ _ args => some (fromUtf8Lossy (args.getD 1 []))
  | .sweep _ => none

theorem firstKey_setK : firstKey setK = some "k" :=
  congrArg some (fromUtf8Lossy_asBytes "k")

theorem firstKey_saddM : firstKey saddM = some "m" :=
  congrArg some (fromUtf8Lossy_asBytes "m")

theorem keys_isolated_set :
    (plain.answers 0 [setK, saddM, .sweep (.at 5)] (.new 1)).1.filter
          (fun p => p.1.concerns firstKey "k") =
        (plain.answers 0 ([setK, saddM, .sweep (.at 5)].filter (Event.concerns firstKey "k"))
          (.new 1)).1 ∧
      (∀ a, a.2 = "k" → (plain.answers 0 [setK, saddM, .sweep (.at 5)] (.new 1)).2.db.entry a =
        (plain.answers 0 ([setK, saddM, .sweep (.at 5)].filter (Event.concerns firstKey "k"))
          (.new 1)).2.db.entry a) ∧
      (plain.answers 0 [setK, saddM, .sweep (.at 5)] (.new 1)).2.cache =
        (plain.answers 0 ([setK, saddM, .sweep (.at 5)].filter (Event.concerns firstKey "k"))
          (.new 1)).2.cache := by
  refine plain.keys_isolated 0 ?_ ?_ (.new 1)
  · intro e he hmine
    simp only [List.mem_cons, List.not_mem_nil, or_false] at he
    obtain rfl | rfl | rfl := he
    · have hset : plain.StaysIn 0 (fun a => a.2 = "k") setK := setK_stays rfl
      exact hset.restsOn
    · exact absurd (Event.concerns_iff.mp hmine "m" firstKey_saddM) (by decide)
    · exact plain.restsOn_sweep 0 _
  · intro e he hother
    simp only [List.mem_cons, List.not_mem_nil, or_false] at he
    obtain rfl | rfl | rfl := he
    · simp [Event.concerns, firstKey_setK] at hother
    · exact saddM_stays (by decide)
    · simp [Event.concerns, firstKey] at hother

theorem interleavings_agree_set :
    (∀ i, (plain.answers 0 [setK, saddM, .sweep (.at 5)] (.new 1)).1.filter
          (fun p => p.1.concerns firstKey i) =
        (plain.answers 0 [saddM, setK, .sweep (.at 5)] (.new 1)).1.filter
          (fun p => p.1.concerns firstKey i)) ∧
      (plain.answers 0 [setK, saddM, .sweep (.at 5)] (.new 1)).2 =
        (plain.answers 0 [saddM, setK, .sweep (.at 5)] (.new 1)).2 := by
  have hclients : ∀ e ∈ [setK, saddM, .sweep (.at 5)], ∀ i, firstKey e = some i →
      plain.StaysIn 0 (fun a => a.2 = i) e := by
    intro e he i hi
    simp only [List.mem_cons, List.not_mem_nil, or_false] at he
    obtain rfl | rfl | rfl := he
    · obtain rfl := Option.some.inj (firstKey_setK.symm.trans hi)
      exact setK_stays rfl
    · obtain rfl := Option.some.inj (firstKey_saddM.symm.trans hi)
      exact saddM_stays rfl
    · simp [firstKey] at hi
  refine plain.interleavings_agree 0 hclients ?_ ?_ (.new 1)
  · intro e he hnone
    simp only [List.mem_cons, List.not_mem_nil, or_false] at he
    obtain rfl | rfl | rfl := he
    · simp [firstKey_setK] at hnone
    · simp [firstKey_saddM] at hnone
    · rfl
  · intro i
    by_cases hk : "k" = i
    · subst hk
      simp [List.filter_cons, Event.concerns, firstKey_setK, firstKey_saddM]
    · simp [List.filter_cons, Event.concerns, firstKey_setK, firstKey_saddM, hk]

end Host

end MiniRudis
