import MiniRudis.Server.Calls
import MiniRudis.Server.Keys

/-!
# Logical databases are isolated

What is requested on one logical database is answered as if nothing else were requested on
the others, and requests on different databases can change places.
-/

namespace MiniRudis

open Lib

/-- What a request on the logical database `k` can see of the server. -/
def Server.view (k : Nat) (s : Server) : Option LogicalDb × StrMap String :=
  (s.db.logical k, s.cache)

theorem Server.eq_of_parts {s t : Server} (hdb : s.db = t.db) (hcache : s.cache = t.cache) :
    s = t := by
  cases s
  cases t
  cases hdb
  cases hcache
  rfl

namespace ServerCall

theorem from_sees {host : Host} {k : Nat} (β : Type) (call : ServerCall β)
    (h : From host k β call) : Program.SeesOnly exec (Server.view k) β call := by
  intro s t hview
  have hdb : s.db.logical k = t.db.logical k := congrArg Prod.fst hview
  have hcache : s.cache = t.cache := congrArg Prod.snd hview
  cases call with
  | db env op =>
      have hop : (op.run env s.db).1 = (op.run env t.db).1 ∧
          (op.run env s.db).2.logical k = (op.run env t.db).2.logical k := by
        obtain hon | heverywhere := h
        · exact (op.localAt env hon).agree s.db t.db hdb
        · exact op.run_everywhere env heverywhere hdb
      exact ⟨hop.1, Prod.ext hop.2 hcache⟩
  | cacheGet sha => exact ⟨congrArg (·[sha]?) hcache, hview⟩
  | cacheInsert sha script =>
      exact ⟨rfl, Prod.ext hdb (congrArg (·.insert sha script) hcache)⟩
  | cacheClear => exact ⟨rfl, Prod.ext hdb rfl⟩

theorem onDb_spares {env : Env} {db k : Nat} (hne : k ≠ db) (β : Type) (call : ServerCall β)
    (h : OnDb env db β call) : Program.Spares exec (Server.view k) β call := by
  intro s
  cases call with
  | db env' op => exact Prod.ext ((op.localAt env' h.2).frame s.db k hne) rfl
  | cacheGet | cacheInsert | cacheClear => exact h.elim

end ServerCall

/-- A request for a command on the data other than `FLUSHALL`, or one that is refused. -/
def Cmd.Confined (env : Env) (args : List Bytes) : Prop :=
  ∀ cmd, parse env args = .ok cmd → cmd.isScripting = false ∧ cmd ≠ .flushall

theorem Cmd.confined_set (env : Env) (k v : Bytes) : Confined env [asBytes "SET", k, v] := by
  intro cmd hcmd
  obtain rfl := Except.ok.inj ((parse_set env k v).symm.trans hcmd)
  exact ⟨rfl, by simp⟩

/-- The event happens on the logical database `k`, or on all of them. -/
def Event.touches (k : Nat) : Event → Bool
  | .request _ db _ => db == k
  | .sweep _ => true

namespace Host

variable (host : Host)

/-- What a request is answered with; a sweep is answered with nothing. -/
def reply (depth : Nat) : Event → CmdM (Option (Outcome Frame × Option Nat))
  | .request env db args => some <$> host.respond depth env db args
  | .sweep env => (fun _ => none) <$> Program.lift (.db env .evictExpired)

theorem reply_next (depth : Nat) (event : Event) (s : Server) :
    ((host.reply depth event).run ServerCall.exec s).2 = host.next depth s event := by
  cases event with
  | request env db args => simp only [reply, next, handle, Program.run_map]
  | sweep env => rfl

def answers (depth : Nat) (events : List Event) (s : Server) :
    List (Event × Option (Outcome Frame × Option Nat)) × Server :=
  Program.trace ServerCall.exec (host.reply depth) events s

theorem respond_sees (depth : Nat) (env : Env) {k : Nat} (args : List Bytes) {s t : Server}
    (h : s.view k = t.view k) :
    ((host.respond depth env k args).run ServerCall.exec s).1 =
        ((host.respond depth env k args).run ServerCall.exec t).1 ∧
      ((host.respond depth env k args).run ServerCall.exec s).2.view k =
        ((host.respond depth env k args).run ServerCall.exec t).2.view k :=
  ((host.respond_from depth env k args).weaken ServerCall.from_sees).run_sees
    ServerCall.exec_anyReply h

theorem respond_spares (depth : Nat) {env : Env} {db k : Nat} (hne : k ≠ db) {args : List Bytes}
    (h : Cmd.Confined env args) (s : Server) :
    ((host.respond depth env db args).run ServerCall.exec s).2.view k = s.view k :=
  Program.AllCalls.run_spares <|
    (host.respond_onDb depth db h).allCalls ServerCall.exec_anyReply
      (fun β call _ hcall => ServerCall.onDb_spares hne β call hcall) s

theorem reply_sees (depth : Nat) {k : Nat} {event : Event} (hevent : event.touches k = true)
    {s t : Server} (h : s.view k = t.view k) :
    ((host.reply depth event).run ServerCall.exec s).1 =
        ((host.reply depth event).run ServerCall.exec t).1 ∧
      ((host.reply depth event).run ServerCall.exec s).2.view k =
        ((host.reply depth event).run ServerCall.exec t).2.view k := by
  cases event with
  | request env db args =>
      obtain rfl : db = k := by simpa [Event.touches] using hevent
      obtain ⟨hreply, hview⟩ := host.respond_sees depth env args h
      simp only [reply, Program.run_map]
      exact ⟨congrArg some hreply, hview⟩
  | sweep env =>
      have hsweep : ServerCall.From host k _ (.db env .evictExpired) := Or.inr rfl
      exact ⟨rfl, (ServerCall.from_sees _ _ hsweep s t h).2⟩

/-- **Databases are isolated.**  Leave out of a run the requests on the databases other than
`k`, commands on the data but for `FLUSHALL`: what remains, scripts on `k` and sweeps with
it, is answered as before, and the database `k` and the cache are left as before. -/
theorem databases_isolated (depth k : Nat) {events : List Event}
    (hothers : ∀ env db args, Event.request env db args ∈ events → db ≠ k → Cmd.Confined env args)
    (s : Server) :
    (host.answers depth events s).1.filter (fun p => p.1.touches k) =
        (host.answers depth (events.filter (Event.touches k)) s).1 ∧
      (host.answers depth events s).2.db.dbs[k]? =
        (host.answers depth (events.filter (Event.touches k)) s).2.db.dbs[k]? ∧
      (host.answers depth events s).2.cache =
        (host.answers depth (events.filter (Event.touches k)) s).2.cache := by
  have hpurged : ∀ event ∈ events, event.touches k = false → ∀ s t : Server, s.view k = t.view k →
      ((host.reply depth event).run ServerCall.exec s).2.view k = t.view k := by
    intro event hmem hevent s t h
    cases event with
    | sweep env => exact absurd hevent (by simp [Event.touches])
    | request env db args =>
        have hne : db ≠ k := by simpa [Event.touches] using hevent
        simp only [reply, Program.run_map]
        rw [host.respond_spares depth (Ne.symm hne) (hothers env db args hmem hne) s, h]
  obtain ⟨htrace, hview⟩ := Program.trace_purge ServerCall.exec (host.reply depth)
    (fun event _ hevent s t h => host.reply_sees depth hevent h) hpurged (rfl : s.view k = s.view k)
  exact ⟨htrace, congrArg Prod.fst hview, congrArg Prod.snd hview⟩

def mixed : List Event :=
  [.request (.at 0) 0 [asBytes "GET", asBytes "k"],
    .request (.at 0) 1 [asBytes "SET", asBytes "k", asBytes "v"], .sweep (.at 5)]

theorem databases_isolated_mixed :
    (plain.answers 0 mixed (.new 2)).1.filter (fun p => p.1.touches 0) =
        (plain.answers 0 (mixed.filter (Event.touches 0)) (.new 2)).1 ∧
      (plain.answers 0 mixed (.new 2)).2.db.dbs[0]? =
        (plain.answers 0 (mixed.filter (Event.touches 0)) (.new 2)).2.db.dbs[0]? ∧
      (plain.answers 0 mixed (.new 2)).2.cache =
        (plain.answers 0 (mixed.filter (Event.touches 0)) (.new 2)).2.cache := by
  refine plain.databases_isolated 0 0 (fun env db args hmem hne => ?_) (.new 2)
  simp only [mixed, List.mem_cons, List.not_mem_nil, or_false, Event.request.injEq] at hmem
  obtain ⟨-, rfl, -⟩ | ⟨rfl, rfl, rfl⟩ | hsweep := hmem
  · exact absurd rfl hne
  · exact Cmd.confined_set _ _ _
  · exact absurd hsweep (by simp)

/-- **Requests on different databases change places**: each is answered as before, and they
leave the same state. -/
theorem requests_commute (depth : Nat) {env₁ env₂ : Env} {db₁ db₂ : Nat} {args₁ args₂ : List Bytes}
    (hne : db₁ ≠ db₂) (h₁ : Cmd.Confined env₁ args₁) (h₂ : Cmd.Confined env₂ args₂) (s : Server) :
    ((host.respond depth env₂ db₂ args₂).run ServerCall.exec
        ((host.respond depth env₁ db₁ args₁).run ServerCall.exec s).2).1 =
        ((host.respond depth env₂ db₂ args₂).run ServerCall.exec s).1 ∧
      ((host.respond depth env₁ db₁ args₁).run ServerCall.exec
          ((host.respond depth env₂ db₂ args₂).run ServerCall.exec s).2).1 =
        ((host.respond depth env₁ db₁ args₁).run ServerCall.exec s).1 ∧
      ((host.respond depth env₂ db₂ args₂).run ServerCall.exec
          ((host.respond depth env₁ db₁ args₁).run ServerCall.exec s).2).2 =
        ((host.respond depth env₁ db₁ args₁).run ServerCall.exec
          ((host.respond depth env₂ db₂ args₂).run ServerCall.exec s).2).2 := by
  have hspare₁ := fun (k : Nat) (hk : k ≠ db₁) (t : Server) =>
    host.respond_spares depth hk h₁ t
  have hspare₂ := fun (k : Nat) (hk : k ≠ db₂) (t : Server) =>
    host.respond_spares depth hk h₂ t
  have hsee₁ := host.respond_sees depth env₁ args₁ (hspare₂ db₁ hne s)
  have hsee₂ := host.respond_sees depth env₂ args₂ (hspare₁ db₂ hne.symm s)
  generalize host.respond depth env₁ db₁ args₁ = first at *
  generalize host.respond depth env₂ db₂ args₂ = second at *
  refine ⟨hsee₂.1, hsee₁.1, ?_⟩
  have hview : ∀ k, (second.run ServerCall.exec (first.run ServerCall.exec s).2).2.view k =
      (first.run ServerCall.exec (second.run ServerCall.exec s).2).2.view k := by
    intro k
    by_cases hk : k = db₁
    · subst hk
      rw [hspare₂ k hne, hsee₁.2]
    · rw [hspare₁ k hk]
      by_cases hk' : k = db₂
      · subst hk'
        exact hsee₂.2
      · rw [hspare₂ k hk', hspare₁ k hk, hspare₂ k hk']
  have hdb : (second.run ServerCall.exec (first.run ServerCall.exec s).2).2.db =
      (first.run ServerCall.exec (second.run ServerCall.exec s).2).2.db :=
    Database.logical_ext fun k => congrArg Prod.fst (hview k)
  exact Server.eq_of_parts hdb (congrArg Prod.snd (hview 0))

theorem requests_commute_set :
    ((plain.respond 0 (.at 5) 1 [asBytes "SET", asBytes "k", asBytes "w"]).run ServerCall.exec
        ((plain.respond 0 (.at 0) 0 [asBytes "SET", asBytes "k", asBytes "v"]).run
          ServerCall.exec (.new 2)).2).1 =
        ((plain.respond 0 (.at 5) 1 [asBytes "SET", asBytes "k", asBytes "w"]).run
          ServerCall.exec (.new 2)).1 ∧
      ((plain.respond 0 (.at 0) 0 [asBytes "SET", asBytes "k", asBytes "v"]).run ServerCall.exec
          ((plain.respond 0 (.at 5) 1 [asBytes "SET", asBytes "k", asBytes "w"]).run
            ServerCall.exec (.new 2)).2).1 =
        ((plain.respond 0 (.at 0) 0 [asBytes "SET", asBytes "k", asBytes "v"]).run
          ServerCall.exec (.new 2)).1 ∧
      ((plain.respond 0 (.at 5) 1 [asBytes "SET", asBytes "k", asBytes "w"]).run ServerCall.exec
          ((plain.respond 0 (.at 0) 0 [asBytes "SET", asBytes "k", asBytes "v"]).run
            ServerCall.exec (.new 2)).2).2 =
        ((plain.respond 0 (.at 0) 0 [asBytes "SET", asBytes "k", asBytes "v"]).run ServerCall.exec
          ((plain.respond 0 (.at 5) 1 [asBytes "SET", asBytes "k", asBytes "w"]).run
            ServerCall.exec (.new 2)).2).2 :=
  plain.requests_commute 0 (by decide) (Cmd.confined_set _ _ _) (Cmd.confined_set _ _ _) (.new 2)

end Host

end MiniRudis
