import MiniRudis.Lib.Lease
import MiniRudis.Server.Histories
import MiniRudis.Server.Sweeps

/-!
# Locks

A key that is written by `SETNX` and `SET` with `NX` only is a lock.  It is held by the client
whose string it is, until it is deleted or its time is over.
-/

namespace MiniRudis

open Lib

/-! ## Claims and releases -/

/-- The lease that a request claims at the key: `SET` with `NX` and without `GET`, for the whole
seconds that are stored, or `SETNX`. -/
def Event.claim (db : Nat) (key : String) : Event → Option (Lease Instant Bytes)
  | .request env db' (name :: rest) =>
      match Cmd.parse env (name :: rest) with
      | .ok (.set a) =>
          if Cmd.commandName env name = "SET" ∧ db' = db ∧ a.key = key ∧ a.nx = true ∧
              a.get = false then
            some ⟨a.value, a.stamp.map fun d : Duration => env.now + d⟩
          else none
      | .ok (.setnx key' value) => if db' = db ∧ key' = key then some ⟨value, none⟩ else none
      | _ => none
  | _ => none

def granted : Option (Outcome Frame × Option Nat) → Bool
  | some (.ok (.simple _), _) => true
  | some (.ok (.integer n), _) => n == 1
  | _ => false

namespace ServerCall

def release (db : Nat) (key : String) : (β : Type) → ServerCall β → β →
    Option (LeaseCall Instant Bytes)
  | _, .db _ (.del db' keys), _ => if db' = db ∧ key ∈ keys then some .release else none
  | _, _, _ => none

theorem release_del (db : Nat) (key : String) (env : Env) (db' : Nat) (keys : List String)
    (reply : Outcome Int) :
    release db key _ (.db env (.del db' keys)) reply =
      if db' = db ∧ key ∈ keys then some .release else none := rfl

/-- The call deletes keys or does not write the key, and is made by the instant `now`. -/
def LeavesLock (db : Nat) (key : String) (now : Instant) :
    (β : Type) → ServerCall β → Server → Prop
  | _, .db env (.del _ _), _ => env.now ≤ now
  | _, .db env op, _ => env.now ≤ now ∧ ¬ op.Writes db key
  | _, _, _ => True

end ServerCall

theorem Event.claim_eq_some {db : Nat} {key : String} {event : Event}
    {lease : Lease Instant Bytes} (h : event.claim db key = some lease) :
    ∃ env name rest, event = .request env db (name :: rest) ∧
      ((∃ a, Cmd.parse env (name :: rest) = .ok (.set a) ∧ a.Parsed ∧ a.key = key ∧ a.nx = true ∧
          a.get = false ∧ lease = ⟨a.value, a.stamp.map fun d : Duration => env.now + d⟩) ∨
        ∃ value, Cmd.parse env (name :: rest) = .ok (.setnx key value) ∧
          lease = ⟨value, none⟩) := by
  cases event with
  | sweep env => exact absurd h (Option.some_ne_none lease).symm
  | request env db' args =>
      cases args with
      | nil => exact absurd h (Option.some_ne_none lease).symm
      | cons name rest =>
          cases hparse : Cmd.parse env (name :: rest) with
          | error e =>
              rw [claim, hparse] at h
              exact absurd h (Option.some_ne_none lease).symm
          | ok cmd =>
              rw [claim, hparse] at h
              cases cmd with
              | set a =>
                  obtain ⟨⟨hname, rfl, hkey, hnx, hget⟩, hlease⟩ :=
                    Option.ite_none_right_eq_some.mp h
                  exact ⟨env, name, rest, rfl, Or.inl ⟨a, hparse,
                    SetArgs.parsed_of_parse hname hparse, hkey, hnx, hget,
                    (Option.some.inj hlease).symm⟩⟩
              | setnx key' value =>
                  obtain ⟨⟨rfl, rfl⟩, hlease⟩ := Option.ite_none_right_eq_some.mp h
                  exact ⟨env, name, rest, rfl, Or.inr ⟨value, hparse,
                    (Option.some.inj hlease).symm⟩⟩
              | _ => exact absurd h (Option.some_ne_none lease).symm

/-! ## Runs -/

namespace Host

variable (host : Host) (depth : Nat)

/-- The claims of a run with their outcomes, and the deletions of the key. -/
def lockCalls (db : Nat) (key : String) : List Event → Server → List (LeaseCall Instant Bytes)
  | [], _ => []
  | event :: events, s =>
      (match event.claim db key with
        | some lease =>
            [.claim event.now lease (granted ((host.reply depth event).run ServerCall.exec s).1)]
        | none => (host.handle depth event).observe ServerCall.exec (ServerCall.release db key) s) ++
        lockCalls db key events (host.next depth s event)

/-- From `now` until `last`, each event of the run claims the lock, or its calls delete the key or
do not write it.  The clock does not go back, and it reaches the deadlines. -/
inductive Contended (db : Nat) (key : String) : Instant → List Event → Server → Instant → Prop
  | done (now : Instant) (s : Server) : Contended db key now [] s now
  | claim {now last : Instant} {event : Event} {events : List Event} {s : Server}
      {lease : Lease Instant Bytes} (hclaim : event.claim db key = some lease)
      (htime : now ≤ event.now) (hclock : ∀ d, lease.deadline = some d → d.toNat < clockEnd)
      (hrest : Contended db key event.now events (host.next depth s event) last) :
      Contended db key now (event :: events) s last
  | other {now later last : Instant} {event : Event} {events : List Event} {s : Server}
      (hclaim : event.claim db key = none) (htime : now ≤ later)
      (hcalls : (host.handle depth event).AllCalls ServerCall.exec
        (ServerCall.LeavesLock db key later) s)
      (hrest : Contended db key later events (host.next depth s event) last) :
      Contended db key now (event :: events) s last

end Host

/-- From the instant `now` on, the key is read as the token of the lease that runs. -/
structure Server.Locked (db : Nat) (key : String) (now : Instant)
    (held : Option (Lease Instant Bytes)) (s : Server) : Prop where
  exists_db : db < s.db.dbs.length
  live : ∀ t, now ≤ t →
    (s.db.cellAt db key).live t = (Lease.holder held t).map .str

theorem Server.Locked.later {db : Nat} {key : String} {now t : Instant}
    {held : Option (Lease Instant Bytes)} {s : Server} (h : s.Locked db key now held)
    (hle : now ≤ t) : s.Locked db key t held :=
  ⟨h.exists_db, fun u hu => h.live u (Int.le_trans hle hu)⟩

section
variable {db : Nat} {key : String} {now : Instant} {held : Option (Lease Instant Bytes)}
  {s : Server} {lease : Lease Instant Bytes}

theorem Server.Locked.grant (hdb : db < s.db.dbs.length) (lease : Lease Instant Bytes)
    (now : Instant) :
    { s with db := s.db.putCell db key ⟨some (.str lease.token), lease.deadline⟩ }.Locked db key now
      (some lease) := by
  refine ⟨by simpa using hdb, fun t _ => ?_⟩
  dsimp only
  rw [Database.cellAt_putCell hdb, Cell.live, Cell.expired, Lease.holder]
  cases hdeadline : lease.deadline with
  | none => simp [Lease.Over, hdeadline]
  | some d => by_cases hd : d ≤ t <;> simp [Lease.Over, hdeadline, hd]

theorem Cell.live_none_later {c : Cell} {t : Instant} (hle : now ≤ t) (h : c.live now = none) :
    c.live t = none := by
  rw [live] at h ⊢
  cases hexpired : c.expired now with
  | true => rw [expired_later hle hexpired, if_pos rfl]
  | false =>
      rw [hexpired, if_neg Bool.false_ne_true] at h
      rw [h, ite_self]

theorem Cell.setWith_lease (now : Instant) (value : Bytes) {stamp : Option Duration}
    (hclock : ∀ d, stamp = some d → (now + d).toNat < clockEnd) :
    setWith now value stamp =
      (.ok (), ⟨some (.str value), stamp.map fun d : Duration => now + d⟩) := by
  cases stamp with
  | none => rfl
  | some d => exact setWith_ok value (hclock d rfl)

/-! ## Single steps -/

theorem Host.claim_run (host : Host) (depth : Nat) {event : Event}
    (hclaim : event.claim db key = some lease)
    (hclock : ∀ d, lease.deadline = some d → d.toNat < clockEnd)
    (h : s.Locked db key now held) (htime : now ≤ event.now) :
    granted ((host.reply depth event).run ServerCall.exec s).1 =
        (Lease.holder held event.now).isNone ∧
      host.next depth s event =
        if (Lease.holder held event.now).isNone then
          { s with db := s.db.putCell db key ⟨some (.str lease.token), lease.deadline⟩ }
        else s := by
  have hlive := h.live event.now htime
  rw [← host.reply_next]
  obtain ⟨env, name, rest, rfl, ⟨a, hparse, ha, rfl, hnx, hget, rfl⟩ | ⟨value, hparse, rfl⟩⟩ :=
    Event.claim_eq_some hclaim
  all_goals rw [Event.now] at hlive ⊢
  · have hold : s.db.visible env.now db a.key = (Lease.holder held env.now).map .str := by
      rw [Database.visible_eq]
      exact hlive
    have hstamp : ∀ d : Duration, a.stamp = some d → (env.now + d).toNat < clockEnd := by
      intro d hd
      exact hclock _ (by rw [hd]; rfl)
    have hwrite := Cell.setWith_lease env.now a.value hstamp
    simp only [reply, Program.run_map, host.respond_set depth hparse]
    cases hholder : Lease.holder held env.now with
    | none =>
        rw [hholder] at hold
        have hallowed : a.Allowed ((none : Option Bytes).map .str) :=
          (SetArgs.allowed_nx ha hnx _).mpr rfl
        rw [Cmd.execSet_allowed ha h.exists_db hold hallowed, hwrite, hget]
        exact ⟨rfl, rfl⟩
    | some token =>
        rw [hholder] at hold
        have hrefused : ¬ a.Allowed ((some token).map RudisObject.str) := by
          rw [SetArgs.allowed_nx ha hnx]
          exact Bool.false_ne_true
        rw [Cmd.execSet_not_allowed ha h.exists_db hold hrefused]
        exact ⟨rfl, rfl⟩
  · have hrun := host.respond_onKey depth env hparse (by simp) (by simp) (fun last => rfl) h.exists_db
    simp only [reply, Program.run_map, hrun, KeyOp.onCell]
    rw [hlive]
    cases Lease.holder held env.now with
    | none => exact ⟨rfl, rfl⟩
    | some token =>
        simp only [Option.map_some, Option.isSome_some, if_true, Database.putCell_cellAt]
        exact ⟨rfl, rfl⟩

theorem ServerCall.exec_locked (β : Type) (call : ServerCall β) (h : s.Locked db key now held)
    (hcall : LeavesLock db key now β call s) :
    ∃ held', History LeaseCall.Step
        (release db key β call (exec β call s).1).toList held held' ∧
      (exec β call s).2.Locked db key now held' := by
  have hunwritten : ∀ {α : Type} (env : Env) (op : Op α), env.now ≤ now → ¬ op.Writes db key →
      { s with db := (op.run env s.db).2 }.Locked db key now held := by
    intro α env op htime hop
    have hcell := (op.run_unwritten env s.db hop).later htime
    refine ⟨?_, fun t ht => ?_⟩
    · rw [op.length_run]
      exact h.exists_db
    · rw [← h.live t ht, Cell.live_of_purge_eq (hcell.later ht).purge_eq]
  cases call with
  | cacheGet | cacheInsert | cacheClear => exact ⟨held, .nil held, h.exists_db, h.live⟩
  | db env op =>
      cases op with
      | del db' keys =>
          by_cases hkey : db' = db ∧ key ∈ keys
          · obtain ⟨rfl, hmem⟩ := hkey
            have hsome := List.getElem?_eq_getElem h.exists_db
            rw [release_del, if_pos ⟨rfl, hmem⟩]
            refine ⟨none, .cons rfl (.nil none), ?_, fun t _ => ?_⟩
            · exact ((Op.del db' keys).length_run env s.db).symm ▸ h.exists_db
            · have hcell : ((Op.del db' keys).run env s.db).2.cellAt db' key = .absent := by
                rw [Op.run, Database.del, Database.withDb_eq hsome,
                  Database.cellAt_eq (Database.dbs_setDb hsome _)]
                exact LogicalDb.cell_removeKeys_mem _ hmem
              exact congrArg (fun c : Cell => c.live t) hcell
          · rw [release_del, if_neg hkey]
            exact ⟨held, .nil held, hunwritten env _ hcall hkey⟩
      | _ => exact ⟨held, .nil held, hunwritten env _ hcall.1 hcall.2⟩

end

/-! ## Whole runs -/

namespace Host

variable (host : Host) (depth : Nat) {db : Nat} {key : String}

theorem other_locked {event : Event} {s : Server} {now : Instant}
    {held : Option (Lease Instant Bytes)} (h : s.Locked db key now held)
    (hcalls : (host.handle depth event).AllCalls ServerCall.exec
      (ServerCall.LeavesLock db key now) s) :
    ∃ held', History LeaseCall.Step
        ((host.handle depth event).observe ServerCall.exec (ServerCall.release db key) s) held held' ∧
      (host.next depth s event).Locked db key now held' := by
  have hkeeps : ∀ β (call : ServerCall β) (t : Server) seen,
      (∃ held', History LeaseCall.Step seen held held' ∧ t.Locked db key now held') → call.Full →
      ServerCall.LeavesLock db key now β call t →
      ∃ held', History LeaseCall.Step
          (seen ++ (ServerCall.release db key β call (ServerCall.exec β call t).1).toList) held held' ∧
        (ServerCall.exec β call t).2.Locked db key now held' := by
    rintro β call t seen ⟨held', hseen, ht⟩ - hcall
    obtain ⟨held'', hstep, hnext⟩ := ServerCall.exec_locked β call ht hcall
    exact ⟨held'', hseen.append hstep, hnext⟩
  have hrun := (host.handle_full depth event).observe_keeps ServerCall.exec_answers hkeeps
    ⟨held, .nil held, h⟩ hcalls
  rwa [List.nil_append] at hrun

/-- The claims and releases of a run are a history of one lease. -/
theorem lockCalls_history {events : List Event} {s : Server} {now last : Instant}
    {held : Option (Lease Instant Bytes)} (h : s.Locked db key now held)
    (hrun : host.Contended depth db key now events s last) :
    ∃ held', History LeaseCall.Step (host.lockCalls depth db key events s) held held' ∧
      (host.runEvents depth s events).Locked db key last held' := by
  induction hrun generalizing held with
  | done now s => exact ⟨held, .nil held, h⟩
  | claim hclaim htime hclock _ ih =>
      rename_i now last event events s lease hrest
      obtain ⟨hgranted, hnext⟩ := host.claim_run depth hclaim hclock h htime
      have hstep : ∃ held', LeaseCall.Step (.claim event.now lease
            (granted ((host.reply depth event).run ServerCall.exec s).1)) held held' ∧
          (host.next depth s event).Locked db key event.now held' := by
        rw [hgranted, hnext]
        cases hholder : Lease.holder held event.now with
        | none => exact ⟨some lease, ⟨hholder, rfl⟩, .grant h.exists_db lease _⟩
        | some token => exact ⟨held, ⟨by simp [hholder], rfl⟩, h.later htime⟩
      obtain ⟨held', hstep, hlocked⟩ := hstep
      obtain ⟨held'', hhistory, hend⟩ := ih hlocked
      rw [lockCalls, hclaim]
      exact ⟨held'', .cons hstep hhistory, hend⟩
  | other hclaim htime hcalls _ ih =>
      obtain ⟨held', hseen, hlocked⟩ := host.other_locked depth (h.later htime) hcalls
      obtain ⟨held'', hhistory, hend⟩ := ih hlocked
      rw [lockCalls, hclaim]
      exact ⟨held'', hseen.append hhistory, hend⟩

theorem observe_release {α : Type} (p : CmdM α) (s : Server) :
    ∀ call ∈ p.observe ServerCall.exec (ServerCall.release db key) s, call = .release := by
  induction p generalizing s with
  | ret a => exact fun call hmem => absurd hmem List.not_mem_nil
  | call op next ih =>
      intro call hmem
      obtain hfirst | hrest := List.mem_append.mp hmem
      · cases op with
        | cacheGet | cacheInsert | cacheClear => exact absurd hfirst List.not_mem_nil
        | db env op =>
            cases op with
            | del db' keys =>
                rw [ServerCall.release_del, Option.mem_toList, Option.ite_none_right_eq_some] at hfirst
                exact (Option.some.inj hfirst.2).symm
            | _ => exact absurd hfirst List.not_mem_nil
      · exact ih _ _ call hrest

theorem lockCalls_clock {events : List Event} {s : Server} {now last : Instant}
    (hrun : host.Contended depth db key now events s last) :
    (∀ call ∈ host.lockCalls depth db key events s, ∀ t ∈ call.time, now ≤ t) ∧
      (host.lockCalls depth db key events s).Pairwise LeaseCall.NotAfter ∧ now ≤ last := by
  induction hrun with
  | done now s => exact ⟨fun call hmem => absurd hmem List.not_mem_nil, .nil, Int.le_refl now⟩
  | claim hclaim htime _ _ ih =>
      obtain ⟨hfrom, hsorted, hlast⟩ := ih
      rw [lockCalls, hclaim]
      refine ⟨fun call hmem t ht => ?_, .cons (fun call hmem t ht t' ht' => ?_) hsorted,
        Int.le_trans htime hlast⟩
      · obtain rfl | hmem := List.mem_cons.mp hmem
        · obtain rfl := Option.mem_some.mp ht
          exact htime
        · exact Int.le_trans htime (hfrom call hmem t ht)
      · obtain rfl := Option.mem_some.mp ht
        exact hfrom call hmem t' ht'
  | other hclaim htime _ _ ih =>
      obtain ⟨hfrom, hsorted, hlast⟩ := ih
      rename_i event events s _ _
      have hnever : ∀ call ∈ (host.handle depth event).observe ServerCall.exec
          (ServerCall.release db key) s, call.time = none := by
        intro call hmem
        rw [observe_release _ _ call hmem]
        rfl
      rw [lockCalls, hclaim]
      refine ⟨fun call hmem t ht => ?_, ?_, Int.le_trans htime hlast⟩
      · obtain hmem | hmem := List.mem_append.mp hmem
        · rw [hnever call hmem] at ht
          exact absurd ht (by simp)
        · exact Int.le_trans htime (hfrom call hmem t ht)
      · refine List.pairwise_append.mpr ⟨?_, hsorted, ?_⟩
        · exact List.pairwise_of_forall_mem_list fun call hmem _ _ t ht => by
            rw [hnever call hmem] at ht
            exact absurd ht (by simp)
        · intro call hmem _ _ t ht
          rw [hnever call hmem] at ht
          exact absurd ht (by simp)

/-- **A lock excludes.**  The claims of a free key, by any connections, are those of a lease, for
the whole seconds that `SET` with `NX` stores: each is granted exactly if the lease that was
granted before has ended or been released, so that no two are held at a time, and `GET` replies
the string of the one that holds it. -/
theorem leases_exclusive {key : Bytes} {events : List Event} {s : Server} {now last : Instant}
    (hdb : db < s.db.dbs.length)
    (hfree : (s.db.cellAt db (fromUtf8Lossy key)).live now = none)
    (hrun : host.Contended depth db (fromUtf8Lossy key) now events s last) :
    (∃ held, History LeaseCall.Step (host.lockCalls depth db (fromUtf8Lossy key) events s) none
        held ∧
      ∀ env : Env, last ≤ env.now →
        ((host.respond depth env db [asBytes "GET", key]).run ServerCall.exec
            (host.runEvents depth s events)).1.1 =
          .ok (Cmd.bulkOrNull (Lease.holder held env.now))) ∧
      ∀ before between after t lease t' lease',
        host.lockCalls depth db (fromUtf8Lossy key) events s =
          before ++ .claim t lease true :: (between ++ .claim t' lease' true :: after) →
        .release ∉ between → lease.Over t' := by
  have hstart : s.Locked db (fromUtf8Lossy key) now none :=
    ⟨hdb, fun t ht => Cell.live_none_later ht hfree⟩
  obtain ⟨held, hhistory, hend⟩ := host.lockCalls_history depth hstart hrun
  obtain ⟨-, hclock, -⟩ := host.lockCalls_clock depth hrun
  refine ⟨⟨held, hhistory, fun env henv => ?_⟩, ?_⟩
  · have hget := host.respond_onKey depth env (Cmd.parse_get env key) (by simp) (by simp)
      (fun _ => rfl) hend.exists_db
    rw [hget, Cmd.onCell_get, hend.live env.now henv, readText_str]
    rfl
  · intro before between after t lease t' lease' hcalls hkept
    rw [hcalls] at hhistory hclock
    exact LeaseCall.exclusive hhistory hclock hkept

def claimAt (now : Instant) (token : String) : Event :=
  .request (.at now) 0 (["SET", "k", token, "NX", "EX", "10"].map asBytes)

/-- Two clients claim a lock, one of them again when the time is over. -/
def rivals : List Event :=
  [claimAt 0 "a", claimAt (3 * nanosPerSec) "b", .sweep (.at (11 * nanosPerSec)),
    claimAt (12 * nanosPerSec) "b"]

theorem rivals_contended (s : Server) :
    plain.Contended 0 0 (fromUtf8Lossy (asBytes "k")) 0 rivals s (12 * nanosPerSec) := by
  have hfirst : (claimAt 0 "a").claim 0 (fromUtf8Lossy (asBytes "k")) =
      some ⟨asBytes "a", some (10 * nanosPerSec)⟩ := by decide +kernel
  have hsecond : (claimAt (3 * nanosPerSec) "b").claim 0 (fromUtf8Lossy (asBytes "k")) =
      some ⟨asBytes "b", some (13 * nanosPerSec)⟩ := by decide +kernel
  have hagain : (claimAt (12 * nanosPerSec) "b").claim 0 (fromUtf8Lossy (asBytes "k")) =
      some ⟨asBytes "b", some (22 * nanosPerSec)⟩ := by decide +kernel
  have hreached : ∀ secs : Nat, secs < 100 → ∀ d : Instant,
      some ((secs : Int) * nanosPerSec) = some d → d.toNat < clockEnd := by
    intro secs hsecs d hd
    obtain rfl := Option.some.inj hd
    unfold clockEnd nanosPerSec
    omega
  have hsweep : (claimAt (3 * nanosPerSec) "b").now ≤ 11 * nanosPerSec := by decide +kernel
  refine .claim hfirst ?_ (hreached 10 (by decide)) (.claim hsecond ?_ (hreached 13 (by decide))
    (.other rfl hsweep ⟨⟨?_, fun hwrites => hwrites.elim⟩, trivial⟩
      (.claim hagain ?_ (hreached 22 (by decide)) (.done _ _))))
  all_goals decide +kernel

theorem leases_exclusive_rivals :
    (∃ held, History LeaseCall.Step
        (plain.lockCalls 0 0 (fromUtf8Lossy (asBytes "k")) rivals (.new 1)) none held ∧
      ∀ env : Env, 12 * nanosPerSec ≤ env.now →
        ((plain.respond 0 env 0 [asBytes "GET", asBytes "k"]).run ServerCall.exec
            (plain.runEvents 0 (.new 1) rivals)).1.1 =
          .ok (Cmd.bulkOrNull (Lease.holder held env.now))) ∧
      ∀ before between after t lease t' lease',
        plain.lockCalls 0 0 (fromUtf8Lossy (asBytes "k")) rivals (.new 1) =
          before ++ .claim t lease true :: (between ++ .claim t' lease' true :: after) →
        .release ∉ between → lease.Over t' :=
  plain.leases_exclusive 0 (by decide +kernel) (by decide +kernel) (rivals_contended _)

end Host

end MiniRudis
