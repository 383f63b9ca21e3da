import MiniRudis.Server.Expiry

/-!
# Deadlines by timestamps

`EXPIREAT` is parsed as `EXPIRE`, so that its timestamp is taken for an amount, and
`PEXPIREAT` takes a negative timestamp for one in the far future.
-/

namespace MiniRudis

open Lib

/-! ## What a request does -/

namespace TimeUnit

def timestampName : TimeUnit → String
  | secs => "EXPIREAT"
  | millis => "PEXPIREAT"

def timestampOp (t : Int) : TimeUnit → KeyOp Bool
  | secs => .expire t
  | millis => .pexpireat t

/-- The instant that lies as far ahead as the timestamp `t`. -/
def meant (unit : TimeUnit) (t : Int) (env : Env) : Instant :=
  env.now + (t * unit.nanos - env.sysNow)

end TimeUnit

/-- What may become of the cell of the key. -/
inductive Timing
  | removed
  | stamped (exp : Instant)
  | panics

def Timing.onCell (c : Cell) : Timing → Outcome Bool × Cell
  | removed => (.ok true, .absent)
  | stamped exp => (.ok true, { c with deadline := some exp })
  | panics => (panicked, c)

def Timing.ofInstant (exp : Instant) : Timing :=
  if exp.toNat < clockEnd then stamped exp else panics

def TimeUnit.timing (t : Int) (env : Env) : TimeUnit → Timing
  | secs => if t < 0 then .removed else .ofInstant (env.now + t * nanosPerSec)
  | millis =>
      if (Duration.fromMillis t : Int) ≤ env.sysNow then .removed
      else .ofInstant (env.now + (Duration.fromMillis t - env.sysNow))

namespace Cell

variable {c : Cell}

theorem setExpiry_timing (hobj : c.obj.isSome) (now : Instant) (d : Duration) :
    c.setExpiry now d = (Timing.ofInstant (now + d)).onCell c := by
  unfold Timing.ofInstant
  split
  · rename_i h
    rw [setExpiry_ok hobj h]
    rfl
  · rename_i h
    rw [setExpiry_panics hobj h]
    rfl

theorem expireAt_timing (hobj : c.obj.isSome) (now : Instant) (sysNow : SystemTime) {d : Duration}
    (hd : d < clockEnd) :
    c.expireAt now sysNow d =
      (if (d : Int) ≤ sysNow then Timing.removed else .ofInstant (now + (d - sysNow))).onCell c := by
  have htarget : addDuration 0 d = .ok d := by
    have h : ((0 : Int) + d).toNat < clockEnd := by
      rwa [Int.zero_add, Int.toNat_natCast]
    rw [addDuration_eq_ok_iff.mpr h, Int.zero_add]
  by_cases hpast : (d : Int) ≤ sysNow
  · have hdeadline : absoluteDeadline now sysNow d = .ok none := by
      rw [absoluteDeadline, htarget]
      exact if_pos hpast
    rw [expireAt, hdeadline, if_pos hpast]
    show c.remove = _
    rw [remove, hobj]
    rfl
  · obtain ⟨ahead, hahead⟩ : ∃ ahead : Nat, (d : Int) - sysNow = ahead :=
      Int.eq_ofNat_of_zero_le (Int.sub_nonneg_of_le (Int.le_of_lt (Int.not_le.mp hpast)))
    have hdeadline : absoluteDeadline now sysNow d = (addDuration now ahead).map some := by
      rw [absoluteDeadline, htarget]
      show (if (d : Int) ≤ sysNow then _ else
        addDuration now ((d : Int) - sysNow).toNat >>= fun exp => return some exp) = _
      rw [if_neg hpast, hahead, Int.toNat_natCast]
      cases addDuration now ahead <;> rfl
    rw [expireAt, hdeadline, if_neg hpast, hahead, Timing.ofInstant]
    by_cases hclock : (now + (ahead : Int)).toNat < clockEnd
    · rw [if_pos hclock, addDuration_eq_ok_iff.mpr hclock]
      show c.setExpiryAt (now + (ahead : Int)) = _
      rw [setExpiryAt, if_pos hobj]
      rfl
    · rw [if_neg hclock, addDuration, if_neg hclock]
      rfl

end Cell

theorem TimeUnit.onCell_timing (unit : TimeUnit) {t : Int} (ht : InI64 t) (env : Env) {c : Cell}
    (hobj : c.obj.isSome) :
    (unit.timestampOp t).onCell env c = (unit.timing t env).onCell c := by
  cases unit with
  | secs =>
      show c.expireIn env.now t (Duration.fromSecs t) = _
      rw [Cell.expireIn, timing]
      split
      · rw [Cell.remove, hobj]
        rfl
      · rename_i hneg
        rw [Cell.setExpiry_timing hobj, fromSecs_eq ht (by omega), Int.natCast_mul,
          Int.toNat_of_nonneg (by omega)]
  | millis => exact Cell.expireAt_timing hobj env.now env.sysNow (fromMillis_lt_clockEnd t)

namespace Cmd

variable {env : Env} {name key amount : Bytes} {t : Int} {unit : TimeUnit}

theorem parse_timestamp (hname : commandName env name = unit.timestampName)
    (hamount : amountOf amount = some t) (extra : List Bytes) :
    ∃ cmd, parse env (name :: key :: amount :: extra) = .ok cmd ∧ cmd ≠ .quit ∧
      (∀ idx, cmd ≠ .select idx) ∧ ∀ os db last, executeOn os env db last cmd =
        call env (.onKey db (fromUtf8Lossy key) (unit.timestampOp t)) boolFrame := by
  cases unit with
  | secs =>
      have hlookup : (commandTable env ++ scriptTable env).lookup "EXPIREAT" =
          some fun rest => parseExpire rest true false := rfl
      refine ⟨.expire (fromUtf8Lossy key) t, ?_, by simp, by simp, fun os db last => rfl⟩
      rw [parse, hname, TimeUnit.timestampName, hlookup]
      exact atLeast_keyInt hamount extra "EXPIRE" .expire
  | millis =>
      have hlookup : (commandTable env ++ scriptTable env).lookup "PEXPIREAT" =
          some parsePexpireat := rfl
      refine ⟨.pExpireAt (fromUtf8Lossy key) t, ?_, by simp, by simp, fun os db last => rfl⟩
      rw [parse, hname, TimeUnit.timestampName, hlookup]
      exact atLeast_keyInt hamount extra "PEXPIREAT" .pExpireAt

end Cmd

namespace Host

variable (host : Host) (depth : Nat) {env : Env} {db : Nat} {s : Server} {unit : TimeUnit}
  {name key amount : Bytes} {t : Int} {o : RudisObject}

theorem respond_timestamp (hname : Cmd.commandName env name = unit.timestampName)
    (hamount : Cmd.amountOf amount = some t) (extra : List Bytes)
    (hlive : (s.db.cellAt db (fromUtf8Lossy key)).live env.now = some o) :
    (host.respond depth env db (name :: key :: amount :: extra)).run ServerCall.exec s =
      (goOn (Cmd.reply Cmd.boolFrame
          ((unit.timing t env).onCell (s.db.cellAt db (fromUtf8Lossy key))).1, db),
        { s with
          db := s.db.putCell db (fromUtf8Lossy key)
            ((unit.timing t env).onCell (s.db.cellAt db (fromUtf8Lossy key))).2 }) := by
  obtain ⟨cmd, hparse, hquit, hselect, hexec⟩ :=
    @Cmd.parse_timestamp env name key amount t unit hname hamount extra
  have hobj : (s.db.cellAt db (fromUtf8Lossy key)).obj.isSome := by
    rw [(Cell.live_eq_some hlive).2]
    rfl
  have hdb := Database.lt_of_live hlive
  rw [host.respond_onKey depth env hparse hquit hselect (hexec host.os db) hdb,
    unit.onCell_timing (Cmd.inI64_of_amountOf hamount) env hobj]

end Host

/-! ## The law -/

/-- The law of a request with the timestamp `t`, for a reply and the server afterwards. -/
def TimestampLaw (unit : TimeUnit) (t : Int) (env : Env) (db : Nat) (key : String)
    (before : Server) (reply : Outcome Frame) (after : Server) : Prop :=
  if t * unit.nanos ≤ env.sysNow then
    reply = .ok (.integer 1) ∧ after = { before with db := before.db.putCell db key .absent }
  else
    (unit.meant t env).toNat < clockEnd →
      reply = .ok (.integer 1) ∧
        after = { before with
          db := before.db.putCell db key
            { before.db.cellAt db key with deadline := some (unit.meant t env) } }

def TimeUnit.Understands (t : Int) (env : Env) : TimeUnit → Prop
  | secs =>
      if t * nanosPerSec ≤ env.sysNow then t < 0
      else (secs.meant t env).toNat < clockEnd → env.sysNow = 0
  | millis =>
      if t * nanosPerMilli ≤ env.sysNow then 0 ≤ t ∨ (2 ^ 64 + t) * nanosPerMilli ≤ env.sysNow
      else (millis.meant t env).toNat < clockEnd → 0 ≤ t

namespace Timing

theorem ofInstant_ne_removed (exp : Instant) : ofInstant exp ≠ removed := by
  unfold ofInstant
  split <;> simp

theorem ofInstant_eq_stamped {exp exp' : Instant} :
    ofInstant exp = stamped exp' ↔ exp.toNat < clockEnd ∧ exp = exp' := by
  unfold ofInstant
  split
  · rename_i h
    simp [h]
  · rename_i h
    simp [h]

theorem shows_iff {db : Nat} {key : String} {s : Server} (hdb : db < s.db.dbs.length)
    (hobj : (s.db.cellAt db key).obj.isSome) (w w' : Timing)
    (hok : (w'.onCell (s.db.cellAt db key)).1 = .ok true) :
    (Cmd.reply Cmd.boolFrame (w.onCell (s.db.cellAt db key)).1 = .ok (.integer 1) ∧
      ({ s with db := s.db.putCell db key (w.onCell (s.db.cellAt db key)).2 } : Server) =
        { s with db := s.db.putCell db key (w'.onCell (s.db.cellAt db key)).2 }) ↔ w = w' := by
  constructor
  · rintro ⟨hreply, hafter⟩
    have hcell := congrArg (fun t : Server => t.db.cellAt db key) hafter
    dsimp only at hcell
    rw [Database.cellAt_putCell hdb, Database.cellAt_putCell hdb] at hcell
    cases w with
    | panics => exact absurd hreply (by simp [onCell, Cmd.reply, panicked])
    | removed =>
        cases w' with
        | panics => exact absurd hok (by simp [onCell, panicked])
        | removed => rfl
        | stamped exp =>
            have hnone := congrArg Cell.obj hcell
            rw [← show none = (s.db.cellAt db key).obj from hnone] at hobj
            exact absurd hobj (by simp)
    | stamped exp =>
        cases w' with
        | panics => exact absurd hok (by simp [onCell, panicked])
        | removed => exact absurd (congrArg Cell.deadline hcell) (by simp [onCell, Cell.absent])
        | stamped exp' =>
            rw [Option.some.inj (congrArg Cell.deadline hcell)]
  · rintro rfl
    rw [hok]
    exact ⟨rfl, rfl⟩

end Timing

section
variable {unit : TimeUnit} {t : Int} {env : Env} {db : Nat} {key : String} {s : Server}

theorem timestampLaw_iff_timing (hdb : db < s.db.dbs.length)
    (hobj : (s.db.cellAt db key).obj.isSome) (w : Timing) :
    TimestampLaw unit t env db key s
        (Cmd.reply Cmd.boolFrame (w.onCell (s.db.cellAt db key)).1)
        { s with db := s.db.putCell db key (w.onCell (s.db.cellAt db key)).2 } ↔
      if t * unit.nanos ≤ env.sysNow then w = .removed
      else (unit.meant t env).toNat < clockEnd → w = .stamped (unit.meant t env) := by
  rw [TimestampLaw, ← Timing.shows_iff hdb hobj w .removed rfl,
    ← Timing.shows_iff hdb hobj w (.stamped (unit.meant t env)) rfl]
  rfl

theorem fromMillis_negative (ht : InI64 t) (hneg : t < 0) :
    (Duration.fromMillis t : Int) = (2 ^ 64 + t) * nanosPerMilli := by
  have hcast : ((asU64 t : Nat) : Int) = 2 ^ 64 + t := by
    unfold InI64 i64Min at ht
    unfold asU64
    omega
  rw [Duration.fromMillis, Int.natCast_mul, hcast]

/-- `EXPIREAT` counts its timestamp from now on, and not from the epoch. -/
theorem secs_understands :
    (if t * TimeUnit.secs.nanos ≤ env.sysNow then TimeUnit.secs.timing t env = .removed
      else (TimeUnit.secs.meant t env).toNat < clockEnd →
        TimeUnit.secs.timing t env = .stamped (TimeUnit.secs.meant t env)) ↔
      TimeUnit.secs.Understands t env := by
  show (if t * nanosPerSec ≤ env.sysNow then _ else _) ↔
    if t * nanosPerSec ≤ env.sysNow then _ else _
  by_cases hpast : t * nanosPerSec ≤ env.sysNow
  · rw [if_pos hpast, if_pos hpast, TimeUnit.timing]
    by_cases hneg : t < 0
    · rw [if_pos hneg]
      exact iff_of_true rfl hneg
    · rw [if_neg hneg]
      exact iff_of_false (Timing.ofInstant_ne_removed _) hneg
  · rw [if_neg hpast, if_neg hpast, TimeUnit.timing]
    apply imp_congr_right
    intro hclock
    have hmeant : TimeUnit.secs.meant t env = env.now + (t * nanosPerSec - env.sysNow) := rfl
    by_cases hneg : t < 0
    · have hbefore : t * nanosPerSec < 0 := Int.mul_neg_of_neg_of_pos hneg (by decide)
      rw [if_pos hneg]
      apply iff_of_false (by simp)
      intro hzero
      rw [hzero] at hpast
      exact hpast (Int.le_of_lt hbefore)
    · rw [if_neg hneg, Timing.ofInstant_eq_stamped, hmeant]
      rw [hmeant] at hclock
      constructor
      · rintro ⟨-, heq⟩
        exact sub_eq_self.mp (Int.add_left_cancel heq).symm
      · intro hzero
        rw [hzero, Int.sub_zero] at hclock ⊢
        exact ⟨hclock, rfl⟩

theorem millis_understands (ht : InI64 t) :
    (if t * TimeUnit.millis.nanos ≤ env.sysNow then TimeUnit.millis.timing t env = .removed
      else (TimeUnit.millis.meant t env).toNat < clockEnd →
        TimeUnit.millis.timing t env = .stamped (TimeUnit.millis.meant t env)) ↔
      TimeUnit.millis.Understands t env := by
  have hremoved : TimeUnit.millis.timing t env = .removed ↔
      (Duration.fromMillis t : Int) ≤ env.sysNow := by
    rw [TimeUnit.timing]
    split
    · rename_i h
      exact iff_of_true rfl h
    · rename_i h
      exact iff_of_false (Timing.ofInstant_ne_removed _) h
  show (if t * nanosPerMilli ≤ env.sysNow then _ else _) ↔
    if t * nanosPerMilli ≤ env.sysNow then _ else _
  by_cases hneg : t < 0
  · have hfar := fromMillis_negative ht hneg
    have hnot : ¬ 0 ≤ t := Int.not_le.mpr hneg
    by_cases hpast : t * nanosPerMilli ≤ env.sysNow
    · rw [if_pos hpast, if_pos hpast, hremoved, hfar]
      exact (or_iff_right hnot).symm
    · rw [if_neg hpast, if_neg hpast]
      apply imp_congr_right
      intro _
      apply iff_of_false _ hnot
      have hbefore : t * nanosPerMilli < 0 := Int.mul_neg_of_neg_of_pos hneg (by decide)
      rw [TimeUnit.timing]
      split
      · simp
      · rw [Timing.ofInstant_eq_stamped]
        rintro ⟨-, heq⟩
        have hsum : (Duration.fromMillis t : Int) - env.sysNow = t * nanosPerMilli - env.sysNow :=
          Int.add_left_cancel heq
        omega
  · have hnonneg : 0 ≤ t := Int.not_lt.mp hneg
    have hsame : (Duration.fromMillis t : Int) = t * nanosPerMilli := by
      rw [fromMillis_eq ht hnonneg, Int.natCast_mul, Int.toNat_of_nonneg hnonneg]
    by_cases hpast : t * nanosPerMilli ≤ env.sysNow
    · rw [if_pos hpast, if_pos hpast, hremoved, hsame]
      exact iff_of_true hpast (Or.inl hnonneg)
    · rw [if_neg hpast, if_neg hpast]
      apply imp_congr_right
      intro hclock
      apply iff_of_true _ hnonneg
      rw [TimeUnit.timing, hsame, if_neg hpast, Timing.ofInstant_eq_stamped]
      exact ⟨hclock, rfl⟩

end

namespace Host

variable (host : Host) (depth : Nat) {env : Env} {db : Nat} {s : Server} {unit : TimeUnit}
  {name key amount : Bytes} {t : Int} {o : RudisObject}

/-- **Absolute expiry means the timestamp**, exactly if it is negative for `EXPIREAT`, and not
negative for `PEXPIREAT`, but for wall clocks that stand at the epoch or at the end of their
range, and for deadlines that no clock reaches. -/
theorem respond_timestamp_law_iff (hname : Cmd.commandName env name = unit.timestampName)
    (hamount : Cmd.amountOf amount = some t) (extra : List Bytes)
    (hlive : (s.db.cellAt db (fromUtf8Lossy key)).live env.now = some o) :
    TimestampLaw unit t env db (fromUtf8Lossy key) s
        ((host.respond depth env db (name :: key :: amount :: extra)).run ServerCall.exec s).1.1
        ((host.respond depth env db (name :: key :: amount :: extra)).run ServerCall.exec s).2 ↔
      unit.Understands t env := by
  have hobj : (s.db.cellAt db (fromUtf8Lossy key)).obj.isSome := by
    rw [(Cell.live_eq_some hlive).2]
    rfl
  rw [host.respond_timestamp depth hname hamount extra hlive, goOn_fst,
    timestampLaw_iff_timing (Database.lt_of_live hlive) hobj]
  cases unit with
  | secs => exact secs_understands
  | millis => exact millis_understands (Cmd.inI64_of_amountOf hamount)

theorem respond_timestamp_law_sample :
    TimestampLaw .millis 5 (.at 0) 0 (fromUtf8Lossy (asBytes "k")) stringServer
        ((plain.respond 0 (.at 0) 0 (["PEXPIREAT", "k", "5"].map asBytes)).run ServerCall.exec
          stringServer).1.1
        ((plain.respond 0 (.at 0) 0 (["PEXPIREAT", "k", "5"].map asBytes)).run ServerCall.exec
          stringServer).2 ↔
      TimeUnit.millis.Understands 5 (.at 0) := by
  have hname : Cmd.commandName (.at 0) (asBytes "PEXPIREAT") = TimeUnit.millis.timestampName := by
    decide +kernel
  exact plain.respond_timestamp_law_iff 0 hname (by decide +kernel) [] (stringServer_live 0)

/-- A timestamp before the epoch leaves the key alive for ages. -/
theorem respond_pexpireat_negative :
    ¬ ∀ (host : Host) (depth : Nat) (env : Env) (db : Nat) (s : Server) (unit : TimeUnit)
        (name key amount : Bytes) (t : Int) (extra : List Bytes) (o : RudisObject),
      Cmd.commandName env name = unit.timestampName → Cmd.amountOf amount = some t →
      (s.db.cellAt db (fromUtf8Lossy key)).live env.now = some o →
      TimestampLaw unit t env db (fromUtf8Lossy key) s
        ((host.respond depth env db (name :: key :: amount :: extra)).run ServerCall.exec s).1.1
        ((host.respond depth env db (name :: key :: amount :: extra)).run ServerCall.exec s).2 := by
  intro hclaim
  have hname : Cmd.commandName (.at 0) (asBytes "PEXPIREAT") = TimeUnit.millis.timestampName := by
    decide +kernel
  have hamount : Cmd.amountOf (asBytes "-1") = some (-1) := by decide +kernel
  have hlive := stringServer_live 0
  have hobj : (stringServer.db.cellAt 0 (fromUtf8Lossy (asBytes "k"))).obj.isSome := by
    rw [(Cell.live_eq_some hlive).2]
    rfl
  have hlaw := hclaim .plain 0 (.at 0) 0 stringServer .millis _ (asBytes "k") _ (-1) [] _ hname hamount
    hlive
  rw [plain.respond_timestamp 0 hname hamount [] hlive, goOn_fst,
    timestampLaw_iff_timing (Database.lt_of_live hlive) hobj, millis_understands (by decide)] at hlaw
  have hpast : (-1 : Int) * nanosPerMilli ≤ (Env.at 0).sysNow := by decide
  rw [TimeUnit.Understands, if_pos hpast] at hlaw
  exact absurd hlaw (by decide +kernel)

end Host

end MiniRudis
