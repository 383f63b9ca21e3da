import MiniRudis.Db.Cardinalities
import MiniRudis.Db.Patterns
import MiniRudis.Lib.Returns

/-!
# Views of existence

`get`, `ttl_ms`, `keys`, `dbsize` and `evict_expired` compare deadlines with the clock each
for itself.  At every instant they draw the same line, and time moves keys over it in one
direction.
-/

namespace MiniRudis

open Lib

/-! ## One cell -/

namespace Cell

variable {c : Cell} {now later : Instant}

/-- The remaining time fits the `i64` of `ttl_ms`. -/
def DeadlineNear (c : Cell) (now : Instant) : Prop :=
  ∀ exp, c.deadline = some exp → (((exp - now).toNat / nanosPerMilli : Nat) : Int) ≤ i64Max

theorem expired_iff : c.expired now = true ↔ ∃ exp, c.deadline = some exp ∧ exp ≤ now := by
  rw [expired]
  cases c.deadline with
  | none => simp
  | some exp => simp

theorem expired_later (hle : now ≤ later) (h : c.expired now = true) : c.expired later = true := by
  obtain ⟨exp, hexp, hpast⟩ := expired_iff.mp h
  exact expired_iff.mpr ⟨exp, hexp, Int.le_trans hpast hle⟩

theorem purge_later (hle : now ≤ later) (c : Cell) : (c.purge now).purge later = c.purge later := by
  by_cases hexp : c.expired now = true
  · rw [purge_of_expired hexp, purge_absent, purge_of_expired (expired_later hle hexp)]
  · have hsame : c.purge now = c := if_neg hexp
    rw [hsame]

theorem live_earlier (hle : now ≤ later) (h : (c.live later).isSome) : (c.live now).isSome := by
  obtain ⟨o, ho⟩ := Option.isSome_iff_exists.mp h
  obtain ⟨hexp, hobj⟩ := live_eq_some ho
  have hnow : ¬ c.expired now = true := by
    intro hnow
    rw [expired_later hle hnow] at hexp
    exact absurd hexp (by decide)
  rw [live, if_neg hnow, hobj]
  rfl

theorem ttlMs_deadline {exp : Instant} (hnear : c.DeadlineNear now)
    (hlive : (c.live now).isSome) (hexp : c.deadline = some exp) :
    c.ttlMs now = ((exp - now).toNat / nanosPerMilli : Nat) := by
  obtain ⟨o, ho⟩ := Option.isSome_iff_exists.mp hlive
  obtain ⟨hnot, hobj⟩ := live_eq_some ho
  have hfuture : ¬ exp ≤ now := by
    intro hpast
    rw [expired_iff.mpr ⟨exp, hexp, hpast⟩] at hnot
    exact absurd hnot (by decide)
  rw [ttlMs, hobj, if_pos Option.isSome_some, hexp]
  dsimp only
  rw [if_neg hfuture, asMillis_eq (hnear exp hexp)]

theorem ttlMs_persistent (hlive : (c.live now).isSome) (hexp : c.deadline = none) :
    c.ttlMs now = -1 := by
  obtain ⟨o, ho⟩ := Option.isSome_iff_exists.mp hlive
  rw [ttlMs, (live_eq_some ho).2, if_pos Option.isSome_some, hexp]

theorem ttlMs_gone (hlive : c.live now = none) : c.ttlMs now = -2 := by
  rw [ttlMs]
  cases hobj : c.obj with
  | none => rfl
  | some o =>
      have hexp : c.expired now = true := by
        by_contra hexp
        rw [live, if_neg hexp, hobj] at hlive
        exact absurd hlive (by simp)
      obtain ⟨exp, hdeadline, hpast⟩ := expired_iff.mp hexp
      rw [if_pos Option.isSome_some, hdeadline]
      dsimp only
      rw [if_pos hpast]

theorem ttlMs_nonneg {exp : Instant} (hnear : c.DeadlineNear now)
    (hlive : (c.live now).isSome) (hexp : c.deadline = some exp) : 0 ≤ c.ttlMs now := by
  rw [ttlMs_deadline hnear hlive hexp]
  exact Int.natCast_nonneg _

theorem ttlMs_eq_neg_two_iff (hnear : c.DeadlineNear now) :
    c.ttlMs now = -2 ↔ c.live now = none := by
  refine ⟨fun hgone => ?_, ttlMs_gone⟩
  by_contra hlive
  have hsome := Option.isSome_iff_ne_none.mpr hlive
  cases hexp : c.deadline with
  | none =>
      rw [ttlMs_persistent hsome hexp] at hgone
      exact absurd hgone (by decide)
  | some exp =>
      have hnonneg := ttlMs_nonneg hnear hsome hexp
      omega

theorem ttlMs_eq_neg_one_iff (hnear : c.DeadlineNear now) :
    c.ttlMs now = -1 ↔ (c.live now).isSome ∧ c.deadline = none := by
  refine ⟨fun hkept => ?_, fun h => ttlMs_persistent h.1 h.2⟩
  have hsome : (c.live now).isSome := by
    rw [Option.isSome_iff_ne_none]
    intro hgone
    rw [ttlMs_gone hgone] at hkept
    exact absurd hkept (by decide)
  refine ⟨hsome, ?_⟩
  cases hexp : c.deadline with
  | none => rfl
  | some exp =>
      have hnonneg := ttlMs_nonneg hnear hsome hexp
      omega

theorem millis_later (hle : now ≤ later) (exp : Instant) :
    (((exp - later).toNat / nanosPerMilli : Nat) : Int) ≤
      ((exp - now).toNat / nanosPerMilli : Nat) :=
  Int.ofNat_le.mpr (Nat.div_le_div_right (Int.toNat_le_toNat (Int.sub_le_sub_left hle exp)))

theorem deadlineNear_later (hle : now ≤ later) (h : c.DeadlineNear now) : c.DeadlineNear later :=
  fun exp hexp => Int.le_trans (millis_later hle exp) (h exp hexp)

theorem ttlMs_later (hle : now ≤ later) (hnear : c.DeadlineNear now)
    (hlive : (c.live later).isSome) : c.ttlMs later ≤ c.ttlMs now := by
  have hbefore := live_earlier hle hlive
  cases hexp : c.deadline with
  | none => rw [ttlMs_persistent hlive hexp, ttlMs_persistent hbefore hexp]
  | some exp =>
      rw [ttlMs_deadline (deadlineNear_later hle hnear) hlive hexp,
        ttlMs_deadline hnear hbefore hexp]
      exact millis_later hle exp

end Cell

theorem secondsOf_eq_neg_two_iff (ms : Int) : secondsOf ms = -2 ↔ ms = -2 := by
  unfold secondsOf
  split <;> omega

/-! ## The views of a database -/

namespace Database

variable {self : Database} {db : Nat} {now later : Instant}

theorem existsKeys_cellAt (hdb : db < self.dbs.length) (now : Instant) (keys : List String) :
    self.existsKeys now db keys =
      .ok ((keys.filter fun key => ((self.cellAt db key).live now).isSome).length : Nat) := by
  have hsome := List.getElem?_eq_getElem hdb
  rw [existsKeys, readDb_eq hsome]
  simp only [get_cellAt hsome]

theorem existsKeys_one (hdb : db < self.dbs.length) (now : Instant) (key : String) :
    self.existsKeys now db [key] = .ok (((self.cellAt db key).live now).isSome.toNat : Nat) := by
  rw [existsKeys_cellAt hdb]
  cases hlive : ((self.cellAt db key).live now).isSome <;> simp [hlive]

theorem existsKeys_one_iff (hdb : db < self.dbs.length) (now : Instant) (key : String) :
    self.existsKeys now db [key] = .ok 1 ↔ ((self.cellAt db key).live now).isSome := by
  rw [existsKeys_one hdb]
  cases ((self.cellAt db key).live now).isSome with
  | true => exact iff_of_true rfl rfl
  | false => exact iff_of_false (by simp) (by simp)

theorem typeName_ne_none (o : RudisObject) : o.typeName ≠ "none" := by
  cases o <;> simp [RudisObject.typeName]

theorem typeOf_iff (hdb : db < self.dbs.length) (now : Instant) (key : String) :
    self.typeOf now db key ≠ .ok "none" ↔ ((self.cellAt db key).live now).isSome := by
  have hsome := List.getElem?_eq_getElem hdb
  rw [typeOf, readDb_eq hsome, get_cellAt hsome]
  cases (self.cellAt db key).live now with
  | none => exact iff_of_false (fun h => h rfl) (by simp)
  | some o => exact iff_of_true (fun h => typeName_ne_none o (Except.ok.inj h)) rfl

theorem keys_star (hdb : db < self.dbs.length) (now : Instant) :
    self.keys now db "*" = .ok (self.dbs[db].liveKeys now) := by
  rw [keys, readDb_eq (List.getElem?_eq_getElem hdb)]
  rw [List.filter_eq_self.mpr fun key _ => globMatch_star key]

theorem dbsize_eq (hdb : db < self.dbs.length) (now : Instant) :
    self.dbsize now db = .ok (self.dbs[db].liveKeys now).length := by
  rw [dbsize, readDb_eq (List.getElem?_eq_getElem hdb)]

theorem ttl_cellAt (hdb : db < self.dbs.length) (now : Instant) (key : String) :
    self.ttl now db key = .ok (secondsOf ((self.cellAt db key).ttlMs now)) := by
  rw [ttl, pttl_cellAt hdb]
  rfl

/-- **All views of existence agree.** -/
structure ViewsAgree (before : Database) (now : Instant) (db : Nat) : Prop where
  type : ∀ key, before.existsKeys now db [key] = .ok 1 ↔ before.typeOf now db key ≠ .ok "none"
  pttl : ∀ key, before.existsKeys now db [key] = .ok 1 ↔ before.pttl now db key ≠ .ok (-2)
  ttl : ∀ key, before.existsKeys now db [key] = .ok 1 ↔ before.ttl now db key ≠ .ok (-2)
  keys : ∃ listed, before.keys now db "*" = .ok listed ∧ listed.Nodup ∧
    before.dbsize now db = .ok listed.length ∧
    ∀ key, before.existsKeys now db [key] = .ok 1 ↔ key ∈ listed
  persistent : ∀ key, before.pttl now db key = .ok (-1) ↔
    before.existsKeys now db [key] = .ok 1 ∧ (before.cellAt db key).deadline = none
  sum : ∀ keys, ∃ counts, keys.mapM (fun key => before.existsKeys now db [key]) = .ok counts ∧
    before.existsKeys now db keys = .ok counts.sum

theorem existsKeys_sum (hdb : db < self.dbs.length) (now : Instant) (keys : List String) :
    ∃ counts, keys.mapM (fun key => self.existsKeys now db [key]) = .ok counts ∧
      self.existsKeys now db keys = .ok counts.sum := by
  refine ⟨_, mapM_ok fun key _ => existsKeys_one hdb now key, ?_⟩
  rw [existsKeys_cellAt hdb]
  congr 1
  induction keys with
  | nil => rfl
  | cons key keys ih =>
      rw [List.map_cons, List.sum_cons, ← ih, List.filter_cons]
      cases ((self.cellAt db key).live now).isSome with
      | true =>
          rw [if_pos rfl, List.length_cons, Bool.toNat_true]
          omega
      | false =>
          rw [if_neg Bool.false_ne_true, Bool.toNat_false]
          omega

theorem viewsAgree (hdb : db < self.dbs.length)
    (hnear : ∀ key, (self.cellAt db key).DeadlineNear now) : self.ViewsAgree now db := by
  have hgone : ∀ key, ((self.cellAt db key).live now).isSome ↔
      (self.cellAt db key).ttlMs now ≠ -2 := by
    intro key
    rw [Option.isSome_iff_ne_none, Ne, Ne, Cell.ttlMs_eq_neg_two_iff (hnear key)]
  constructor
  case type =>
    intro key
    rw [existsKeys_one_iff hdb, typeOf_iff hdb]
  case pttl =>
    intro key
    rw [existsKeys_one_iff hdb, pttl_cellAt hdb, hgone, Ne, Ne, Except.ok.injEq]
  case ttl =>
    intro key
    rw [existsKeys_one_iff hdb, ttl_cellAt hdb, hgone, Ne, Ne, Except.ok.injEq,
      secondsOf_eq_neg_two_iff]
  case keys =>
    refine ⟨_, keys_star hdb now, LogicalDb.liveKeys_nodup _ now, dbsize_eq hdb now, fun key => ?_⟩
    rw [existsKeys_one_iff hdb, LogicalDb.mem_liveKeys, get_cellAt (List.getElem?_eq_getElem hdb)]
  case persistent =>
    intro key
    rw [existsKeys_one_iff hdb, pttl_cellAt hdb, Except.ok.injEq,
      Cell.ttlMs_eq_neg_one_iff (hnear key)]
  case sum => exact existsKeys_sum hdb now

/-! ## As the clock advances -/

/-- The states without a command since `start`: the clock advances, and the background task
sweeps. -/
inductive Idle (before : Database) (start : Instant) : Instant → Database → Prop
  | refl : Idle before start start before
  | pass {now later : Instant} {self : Database} (h : Idle before start now self)
      (hle : now ≤ later) : Idle before start later self
  | sweep {now : Instant} {self : Database} (h : Idle before start now self) :
      Idle before start now (self.evictExpired now)

theorem evictExpired_later (hle : now ≤ later) (self : Database) :
    (self.evictExpired now).evictExpired later = self.evictExpired later := by
  unfold evictExpired
  rw [List.map_map]
  congr 1
  refine List.map_congr_left fun ldb _ => LogicalDb.evictExpired_eq_iff.mpr fun key => ?_
  rw [LogicalDb.cell_purge, Cell.purge_later hle]

/-- The sweeps have evicted nothing that a sweep of the first state would not. -/
theorem Idle.normal {before : Database} {start : Instant} (h : before.Idle start now self) :
    start ≤ now ∧ ∀ later, now ≤ later → self.evictExpired later = before.evictExpired later := by
  induction h with
  | refl => exact ⟨Int.le_refl start, fun later _ => rfl⟩
  | pass _ hle ih =>
      exact ⟨Int.le_trans ih.1 hle, fun later hlater => ih.2 later (Int.le_trans hle hlater)⟩
  | @sweep now self _ ih =>
      refine ⟨ih.1, fun later hlater => ?_⟩
      calc (self.evictExpired now).evictExpired later = self.evictExpired later :=
            evictExpired_later hlater self
        _ = before.evictExpired later := ih.2 later hlater

theorem Idle.reply {α : Type} {before : Database} {start : Instant}
    (h : before.Idle start now self) (op : Op α) (hop : op.checksExpiry = true) :
    (op.run (.at now) self).1 = (op.run (.at now) before).1 :=
  (Op.run_respects hop (.at now) self before (h.normal.2 now (Int.le_refl now))).1

theorem Idle.existsKeys {before : Database} {start : Instant} (h : before.Idle start now self)
    (db : Nat) (keys : List String) :
    self.existsKeys now db keys = before.existsKeys now db keys :=
  h.reply (.existsKeys db keys) rfl

theorem Idle.pttl {before : Database} {start : Instant} (h : before.Idle start now self) (db : Nat)
    (key : String) : self.pttl now db key = before.pttl now db key :=
  h.reply (.onKey db key .pttl) rfl

/-- No key has come, and no key that is left has more time to live. -/
def Fades (before : Database) (now : Instant) (after : Database) (later : Instant) (db : Nat) :
    Prop :=
  ∀ key, after.existsKeys later db [key] = .ok 1 →
    before.existsKeys now db [key] = .ok 1 ∧
      ∃ ms ms', before.pttl now db key = .ok ms ∧ after.pttl later db key = .ok ms' ∧ ms' ≤ ms

theorem Idle.fades {before : Database} {start : Instant} (h : before.Idle start now self)
    (hdb : db < before.dbs.length) (hnear : ∀ key, (before.cellAt db key).DeadlineNear start) :
    before.Fades start self now db := by
  intro key hexists
  have hle := h.normal.1
  rw [h.existsKeys, existsKeys_one_iff hdb] at hexists
  refine ⟨(existsKeys_one_iff hdb start key).mpr (Cell.live_earlier hle hexists), _, _,
    pttl_cellAt hdb start key, ?_, Cell.ttlMs_later hle (hnear key) hexists⟩
  rw [h.pttl, pttl_cellAt hdb]

theorem views_law (hdb : db < self.dbs.length)
    (hnear : ∀ key, (self.cellAt db key).DeadlineNear now) :
    self.ViewsAgree now db ∧
      ∀ later after, self.Idle now later after → self.Fades now after later db :=
  ⟨viewsAgree hdb hnear, fun _ _ hidle => hidle.fades hdb hnear⟩

def briefDb : Database := (Database.new 1).putCell 0 "k" ⟨some (.str []), some 1000000000⟩

theorem briefDb_near (key : String) : (briefDb.cellAt 0 key).DeadlineNear 0 := by
  have hdb : 0 < (Database.new 1).dbs.length := by decide
  by_cases hkey : key = "k"
  · rw [briefDb, hkey, cellAt_putCell hdb]
    intro exp hexp
    rw [← Option.some.inj hexp]
    decide
  · rw [briefDb, cellAt_putCell_ne hdb hkey]
    intro exp hexp
    have hnew : (Database.new 1).cellAt 0 key = .absent := LogicalDb.cell_empty key
    rw [hnew] at hexp
    exact absurd hexp (by simp [Cell.absent])

theorem views_law_brief :
    briefDb.ViewsAgree 0 0 ∧
      ∀ later after, briefDb.Idle 0 later after → briefDb.Fades 0 after later 0 :=
  views_law (by decide) briefDb_near

end Database

end MiniRudis
