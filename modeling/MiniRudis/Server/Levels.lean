import MiniRudis.Db.Layouts
import MiniRudis.Server.Isolation

/-!
# Random levels

The levels that the skip lists draw are the server's own business.  No client and no script
learns anything of them.
-/

namespace MiniRudis

open Lib

def Server.Same (s t : Server) : Prop := s.db.Related Cell.Same t.db ∧ s.cache = t.cache

namespace ServerCall

/-- The call with other levels for the nodes that it inserts. -/
def relevel (levels : Nat → Level) : (β : Type) → ServerCall β → ServerCall β
  | _, .db env op => .db (env.relevel levels) op
  | _, .cacheGet sha => .cacheGet sha
  | _, .cacheInsert sha script => .cacheInsert sha script
  | _, .cacheClear => .cacheClear

/-- The calls of a server that draws the levels for each call anew. -/
def execDrawn (β : Type) (call : ServerCall β) :
    Server × (Nat → Nat → Level) → β × Server × (Nat → Nat → Level)
  | (s, draws) =>
      ((exec β (relevel (draws 0) β call) s).1, (exec β (relevel (draws 0) β call) s).2,
        fun i => draws (i + 1))

/-- The server is the same as one that draws its levels. -/
def SameDrawn (s : Server) (t : Server × (Nat → Nat → Level)) : Prop := s.Same t.1

theorem exec_same (β : Type) (call : ServerCall β) (s : Server) (t : Server × (Nat → Nat → Level))
    (h : SameDrawn s t) : Alike SameDrawn (exec β call s) (execDrawn β call t) := by
  obtain ⟨t, draws⟩ := t
  obtain ⟨hdb, hcache⟩ := h
  cases call with
  | db env op =>
      obtain ⟨hreply, hstates⟩ := op.run_same env (draws 0) hdb
      exact ⟨hreply, hstates, hcache⟩
  | cacheGet sha => exact ⟨congrArg (fun cache : StrMap String => cache[sha]?) hcache, hdb, hcache⟩
  | cacheInsert sha script =>
      exact ⟨rfl, hdb, congrArg (fun cache : StrMap String => cache.insert sha script) hcache⟩
  | cacheClear => exact ⟨rfl, hdb, rfl⟩

end ServerCall

/-- **Random levels do not show.**  Whatever levels `random_level` returns to the calls of a run,
all requests, those for scripts included, are answered the same, and the state that the run
leaves is the same but for the layout of the skip lists. -/
theorem Host.levels_invisible (host : Host) (depth : Nat) (events : List Event) (s : Server)
    (draws : Nat → Nat → Level) :
    (Program.trace ServerCall.execDrawn (host.reply depth) events (s, draws)).1 =
        (host.answers depth events s).1 ∧
      (host.answers depth events s).2.Same
        (Program.trace ServerCall.execDrawn (host.reply depth) events (s, draws)).2.1 := by
  have hstart : ServerCall.SameDrawn s (s, draws) := ⟨.refl Cell.Same.refl s.db, rfl⟩
  obtain ⟨hanswers, hstates⟩ :=
    Program.trace_alike ServerCall.exec_same (host.reply depth) events hstart
  exact ⟨hanswers.symm, hstates⟩

end MiniRudis
