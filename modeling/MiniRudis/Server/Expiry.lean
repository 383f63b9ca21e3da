import MiniRudis.Cmd.Expiry
import MiniRudis.Server.Keys

/-!
# Deadlines by amounts of time

What the seven commands with an amount leave on a live string, and when that is the
deadline asked for.
-/

namespace MiniRudis

open Lib

/-! ## What a request does -/

namespace ExpiryForm

/-- What an accepted amount makes of the cell of the key. -/
def onCell (unit : TimeUnit) (n : Int) (now : Instant) : ExpiryForm → Cell → Outcome Bool × Cell
  | set value _, _ | setex value, _ => (Cell.ofStr value).setExpiry now (unit.duration n)
  -- `pexpire(exp.as_millis() as i64)`
  | getex _, c =>
      c.expireIn now (Duration.asMillis (unit.duration n))
        (Duration.fromMillis (Duration.asMillis (unit.duration n)))
  | expire _, c => c.expireIn now n (unit.duration n)

def frame (old : Bytes) : ExpiryForm → Bool → Frame
  | set .. , _ | setex _, _ => .ok
  | getex _, _ => .bulk old
  | expire _, b => Cmd.boolFrame b

def isExpire : ExpiryForm → Bool
  | expire _ => true
  | _ => false

def isGetex : ExpiryForm → Bool
  | getex _ => true
  | _ => false

def Accepts (form : ExpiryForm) (unit : TimeUnit) (n : Int) : Prop :=
  (form.refusal unit).isSome = true → 0 < n

theorem frame_ne_error (form : ExpiryForm) (old : Bytes) (b : Bool) (e : RedisError) :
    form.frame old b ≠ .fromError e := by
  cases form <;> simp [frame, Frame.ok, Frame.fromError, Cmd.boolFrame]

end ExpiryForm

namespace Cell

theorem setExpiry_error {now : Instant} {d : Duration} {c : Cell} {e : Fault}
    (h : (c.setExpiry now d).1 = .error e) : e = .panicked := by
  unfold setExpiry at h
  split at h
  · cases hadd : addDuration now d with
    | ok exp =>
        rw [hadd] at h
        exact absurd h (by simp)
    | error e' =>
        rw [hadd] at h
        obtain rfl := Except.error.inj h
        exact addDuration_error hadd
  · exact absurd h (by simp)

theorem expireIn_error {now : Instant} {amount : Int} {d : Duration} {c : Cell} {e : Fault}
    (h : (c.expireIn now amount d).1 = .error e) : e = .panicked := by
  unfold expireIn at h
  split at h
  · exact absurd h (by simp [remove])
  · exact setExpiry_error h

end Cell

theorem Cmd.ignoring_eq_reply {r : Outcome Bool} (h : ∀ e, r = .error e → e = .panicked)
    (f : Frame) : ignoring r f = reply (fun _ => f) r := by
  cases r with
  | ok b => rfl
  | error e =>
      obtain rfl := h e rfl
      rfl

namespace Cmd

variable {form : ExpiryForm} {unit : TimeUnit} {n : Int}

theorem parsedAs_accepted (h : form.Accepts unit n) (key : String) :
    parsedAs form unit key n = .ok (form.command unit key n) := by
  unfold parsedAs
  split
  · rename_i text htext
    have hpos : 0 < n := h (by rw [htext]; rfl)
    rw [if_neg (by omega)]
  · rfl

theorem parsedAs_refused {text : String} (htext : form.refusal unit = some text) (hn : n ≤ 0)
    (key : String) : parsedAs form unit key n = err (.generic text) := by
  rw [parsedAs, htext]
  exact if_pos hn

theorem execGetex_run (env : Env) {db : Nat} {s : Server} {key : String} {old : Bytes}
    (hlive : (s.db.cellAt db key).live env.now = some (.str old)) (d : Duration) :
    (execGetex ⟨key, some d, false⟩ env db).run ServerCall.exec s =
      (reply (fun _ => .bulk old) ((KeyOp.pexpire d.asMillis).onCell env (s.db.cellAt db key)).1,
        { s with
          db := s.db.putCell db key
            ((KeyOp.pexpire d.asMillis).onCell env (s.db.cellAt db key)).2 }) := by
  have hdb := Database.lt_of_live hlive
  have hget : (onKey env db key (.typed .get)).run ServerCall.exec s = (.ok (some old), s) := by
    rw [run_onKey_same env hdb (by rw [onCell_get]), onCell_get, hlive]
    rfl
  rw [execGetex, Program.run_bind, hget]
  show ((onKey env db key (.pexpire d.asMillis)) >>= fun expired =>
    return ignoring expired (.bulk old)).run ServerCall.exec s = _
  have herror : ∀ e, ((KeyOp.pexpire d.asMillis).onCell env (s.db.cellAt db key)).1 = .error e →
      e = .panicked := fun _ => Cell.expireIn_error
  rw [Program.run_bind, run_onKey env key _ hdb, ← ignoring_eq_reply herror]
  rfl

end Cmd

namespace Host

variable (host : Host) (depth : Nat) {env : Env} {db : Nat} {s : Server} {form : ExpiryForm}
  {unit : TimeUnit} {name key amount old : Bytes} {n : Int}

theorem respond_refused {text : String} (hspelled : form.Spelled unit env name)
    (hamount : Cmd.amountOf amount = some n) (htext : form.refusal unit = some text) (hn : n ≤ 0) :
    (host.respond depth env db (name :: form.args key amount)).run ServerCall.exec s =
      ((.ok (.fromError (.generic text)), some db), s) := by
  unfold respond
  rw [Cmd.parse_expiry hspelled hamount, Cmd.parsedAs_refused htext hn]
  rfl

theorem respond_accepted (hspelled : form.Spelled unit env name)
    (hamount : Cmd.amountOf amount = some n) (haccepts : form.Accepts unit n)
    (hlive : (s.db.cellAt db (fromUtf8Lossy key)).live env.now = some (.str old)) :
    (host.respond depth env db (name :: form.args key amount)).run ServerCall.exec s =
      (goOn (Cmd.reply (form.frame old)
          (form.onCell unit n env.now (s.db.cellAt db (fromUtf8Lossy key))).1, db),
        { s with
          db := s.db.putCell db (fromUtf8Lossy key)
            (form.onCell unit n env.now (s.db.cellAt db (fromUtf8Lossy key))).2 }) := by
  have hdb := Database.lt_of_live hlive
  have hparse : Cmd.parse env (name :: form.args key amount) = _ :=
    Cmd.parse_expiry hspelled hamount
  rw [Cmd.parsedAs_accepted haccepts] at hparse
  have hquit := form.command_ne_quit unit (fromUtf8Lossy key) n
  have hselect := form.command_ne_select unit (fromUtf8Lossy key) n
  cases form with
  | set value opt =>
      have hpos : 0 < n := haccepts rfl
      have ha : SetArgs.Parsed
          ⟨fromUtf8Lossy key, value, some (unit.duration n), false, false, false, false⟩ := by
        refine ⟨by simp, fun d hd => ?_⟩
        obtain rfl := Option.some.inj hd
        exact unit.duration_lt (Cmd.inI64_of_amountOf hamount) (Int.le_of_lt hpos)
      have hwrites : SetArgs.WritesAt
          ⟨fromUtf8Lossy key, value, some (unit.duration n), false, false, false, false⟩ env db s.db :=
        ⟨hdb, Or.inl ⟨rfl, rfl⟩, by simp⟩
      obtain ⟨old', -, hrun⟩ := Cmd.execSet_writes ha hwrites
      rw [host.respond_set depth hparse, hrun, Cmd.reply_map]
      exact congrArg (fun r => (goOn (r, db), _)) (Cmd.reply_map _ _ _)
  | setex value =>
      have hexec : ∀ last, Cmd.executeOn host.os env db last
          ((ExpiryForm.setex value).command unit (fromUtf8Lossy key) n) =
          Cmd.call env (.onKey db (fromUtf8Lossy key) (.set value (some (unit.duration n))))
            Cmd.okFrame := by
        cases unit <;> exact fun last => rfl
      rw [host.respond_onKey depth env hparse hquit hselect hexec hdb]
      exact congrArg (fun r => (goOn (r, db), _)) (Cmd.reply_map _ _ _)
  | getex opt =>
      rw [host.respond_run depth hparse hquit, host.execute_run depth env db hselect]
      show (goOn (((Cmd.execGetex _ env db).run ServerCall.exec s).1, db),
        ((Cmd.execGetex _ env db).run ServerCall.exec s).2) = _
      rw [Cmd.execGetex_run env hlive]
      rfl
  | expire extra =>
      cases unit with
      | secs =>
          exact host.respond_onKey depth env hparse hquit hselect (fun last => rfl) hdb
      | millis =>
          exact host.respond_onKey depth env hparse hquit hselect (fun last => rfl) hdb

end Host

theorem goOn_fst (r : Outcome Frame) (db : Nat) : (goOn (r, db)).1 = r := by
  cases r <;> rfl

/-! ## The law -/

/-- What an amount of time may come to. -/
inductive ExpiryLaw (form : ExpiryForm) (unit : TimeUnit) (n : Int) (env : Env) (db : Nat)
    (key : String) (before : Server) (reply : Outcome Frame) (after : Server) : Prop
  | refused (e : RedisError) (hreply : reply = .ok (.fromError e)) (hsame : after = before)
  | ended (hn : n ≤ 0) (hform : form.isExpire = true) (frame : Frame) (hreply : reply = .ok frame)
      (hgone : after.db.visible env.now db key = none)
  | timed (hn : 0 < n) (frame : Frame) (hreply : reply = .ok frame)
      (hdeadline : (after.db.cellAt db key).deadline = some (env.now + n * unit.nanos))
      (hpttl : after.db.pttl env.now db key = .ok (n * unit.inMillis))

/-- The amount is one that its command checks, and neither the clock nor an `i64` of
milliseconds is too small for it. -/
structure ExpiryForm.InTime (form : ExpiryForm) (unit : TimeUnit) (n : Int) (now : Instant) : Prop where
  positive : form.isGetex = true → 0 < n
  reached : 0 < n → (now + n * unit.nanos).toNat < clockEnd
  held : 0 < n → n * unit.inMillis ≤ i64Max

namespace Cell

theorem inI64_ttlMs (now : Instant) (c : Cell) : InI64 (c.ttlMs now) := by
  have hone : InI64 (-1) := by decide
  have htwo : InI64 (-2) := by decide
  unfold ttlMs
  split
  · split
    · exact hone
    · split
      · exact htwo
      · rw [Duration.asMillis]
        exact inI64_asI64 _
  · exact htwo

end Cell

namespace ExpiryForm

variable {form : ExpiryForm} {unit : TimeUnit} {n : Int} {now : Instant} {c : Cell}

def base : ExpiryForm → Cell → Cell
  | set value _, _ | setex value, _ => .ofStr value
  | getex _, c | expire _, c => c

theorem onCell_error {e : Fault} (h : (form.onCell unit n now c).1 = .error e) :
    e = .panicked := by
  cases form with
  | set value opt => exact Cell.setExpiry_error h
  | setex value => exact Cell.setExpiry_error h
  | getex opt => exact Cell.expireIn_error h
  | expire extra => exact Cell.expireIn_error h

theorem onCell_eq (hn : 0 < n) (hrange : InI64 n)
    (hheld : form.isGetex = true → n * unit.inMillis ≤ i64Max) :
    form.onCell unit n now c = (form.base c).setExpiry now (n.toNat * unit.nanos) := by
  have hnonneg : 0 ≤ n := Int.le_of_lt hn
  have hduration := unit.duration_eq hrange hnonneg
  cases form with
  | set value opt => rw [onCell, hduration, base]
  | setex value => rw [onCell, hduration, base]
  | getex opt =>
      -- only this form goes through milliseconds
      obtain ⟨hms, hback⟩ := unit.fromMillis_asMillis hrange hnonneg (hheld rfl)
      have hpos : ¬ n * unit.inMillis < 0 := by
        have := Int.mul_nonneg hnonneg (Int.natCast_nonneg unit.inMillis)
        omega
      rw [onCell, hback, hms, Cell.expireIn, if_neg hpos, base]
  | expire extra => rw [onCell, Cell.expireIn, if_neg (by omega), hduration, base]

theorem reply_ne_error (form : ExpiryForm) (old : Bytes) (e : RedisError) :
    Cmd.reply (form.frame old) (form.onCell unit n now c).1 ≠ .ok (.fromError e) := by
  cases hr : (form.onCell unit n now c).1 with
  | ok b =>
      intro heq
      exact form.frame_ne_error old b e (Except.ok.inj heq)
  | error e' =>
      obtain rfl := onCell_error hr
      simp [Cmd.reply, panicked]

theorem base_isSome (h : c.obj.isSome) : (form.base c).obj.isSome := by
  cases form with
  | set value opt => rfl
  | setex value => rfl
  | getex opt => exact h
  | expire extra => exact h

end ExpiryForm

section
variable {form : ExpiryForm} {unit : TimeUnit} {n : Int} {env : Env} {db : Nat} {key : String}
  {s : Server} {old : Bytes}

theorem ttlMs_just_set {c : Cell} {now : Instant} (hn : 0 < n) (hobj : c.obj.isSome)
    (hheld : n * unit.inMillis ≤ i64Max) :
    ({ c with deadline := some (now + (n.toNat * unit.nanos : Nat)) } : Cell).ttlMs now =
      n * unit.inMillis := by
  have hcast : ((n.toNat * unit.inMillis : Nat) : Int) = n * unit.inMillis := by
    rw [Int.natCast_mul, Int.toNat_of_nonneg (Int.le_of_lt hn)]
  have hpos : 0 < n.toNat * unit.nanos := by
    apply Nat.mul_pos
    · omega
    · cases unit <;> decide
  have hahead : ¬ now + (n.toNat * unit.nanos : Nat) ≤ now :=
    Int.not_le.mpr (Int.lt_add_of_pos_right now (Int.natCast_pos.mpr hpos))
  have hrest : (now + (n.toNat * unit.nanos : Nat) - now).toNat =
      n.toNat * unit.inMillis * nanosPerMilli := by
    rw [Int.add_comm, Int.add_sub_cancel, Int.toNat_natCast, TimeUnit.nanos_eq, Nat.mul_assoc]
  rw [Cell.ttlMs, if_pos hobj]
  dsimp only
  rw [if_neg hahead, hrest, asMillis_mul (by rwa [hcast]), hcast]

theorem expiryLaw_iff_of_pos (hn : 0 < n) (hrange : InI64 n) (hdb : db < s.db.dbs.length)
    (hobj : (s.db.cellAt db key).obj.isSome) :
    ExpiryLaw form unit n env db key s
        (Cmd.reply (form.frame old) (form.onCell unit n env.now (s.db.cellAt db key)).1)
        { s with
          db := s.db.putCell db key (form.onCell unit n env.now (s.db.cellAt db key)).2 } ↔
      (env.now + n * unit.nanos).toNat < clockEnd ∧ n * unit.inMillis ≤ i64Max := by
  have hcast : env.now + (n.toNat * unit.nanos : Nat) = env.now + n * unit.nanos := by
    rw [Int.natCast_mul, Int.toNat_of_nonneg (Int.le_of_lt hn)]
  have hsome : (form.base (s.db.cellAt db key)).obj.isSome := ExpiryForm.base_isSome hobj
  constructor
  · intro hlaw
    cases hlaw with
    | refused e hreply _ => exact absurd hreply (form.reply_ne_error old e)
    | ended hneg => omega
    | timed _ frame hreply _ hpttl =>
        have hheld : n * unit.inMillis ≤ i64Max := by
          rw [Database.pttl_cellAt (by simpa using hdb)] at hpttl
          have hshown := Cell.inI64_ttlMs env.now ((s.db.putCell db key
            (form.onCell unit n env.now (s.db.cellAt db key)).2).cellAt db key)
          rw [Except.ok.inj hpttl] at hshown
          exact hshown.2
        refine ⟨?_, hheld⟩
        by_contra hbeyond
        rw [← hcast] at hbeyond
        rw [ExpiryForm.onCell_eq hn hrange (fun _ => hheld),
          Cell.setExpiry_panics hsome hbeyond] at hreply
        exact absurd hreply (by simp [Cmd.reply, panicked])
  · rintro ⟨hreached, hheld⟩
    rw [ExpiryForm.onCell_eq hn hrange (fun _ => hheld)]
    rw [← hcast] at hreached
    rw [Cell.setExpiry_ok hsome hreached]
    apply ExpiryLaw.timed hn (form.frame old true) rfl
    · show ((s.db.putCell db key _).cellAt db key).deadline = _
      rw [Database.cellAt_putCell hdb, hcast]
    · show (s.db.putCell db key _).pttl env.now db key = _
      rw [Database.pttl_cellAt (by simpa using hdb), Database.cellAt_putCell hdb,
        ttlMs_just_set hn hsome hheld]

/-- The law for an amount that is not positive, where it is not refused: `EXPIRE` ends the
key, and `GETEX` takes the amount for another. -/
theorem expiryLaw_iff_of_nonpos (hn : n ≤ 0) (hrefusal : form.refusal unit = none)
    (hrange : InI64 n) (hnow : env.now.toNat < clockEnd)
    (hlive : (s.db.cellAt db key).live env.now = some (.str old)) :
    ExpiryLaw form unit n env db key s
        (Cmd.reply (form.frame old) (form.onCell unit n env.now (s.db.cellAt db key)).1)
        { s with
          db := s.db.putCell db key (form.onCell unit n env.now (s.db.cellAt db key)).2 } ↔
      form.isGetex = false := by
  have hdb := Database.lt_of_live hlive
  have hobj : (s.db.cellAt db key).obj.isSome := by
    rw [(Cell.live_eq_some hlive).2]
    rfl
  cases form with
  | set value opt => exact absurd hrefusal (by simp [ExpiryForm.refusal])
  | setex value => cases unit <;> exact absurd hrefusal (by simp [ExpiryForm.refusal])
  | getex opt =>
      apply iff_of_false _ (by simp [ExpiryForm.isGetex])
      intro hlaw
      cases hlaw with
      | refused e hreply _ => exact ExpiryForm.reply_ne_error _ old e hreply
      | ended _ hform => exact absurd hform (by simp [ExpiryForm.isExpire])
      | timed hpos => omega
  | expire extra =>
      apply iff_of_true _ rfl
      -- the cell is gone, or its deadline is the present
      obtain ⟨b, c, hcell, hgone⟩ : ∃ (b : Bool) (c : Cell),
          (ExpiryForm.expire extra).onCell unit n env.now (s.db.cellAt db key) = (.ok b, c) ∧
          c.live env.now = none := by
        by_cases hneg : n < 0
        · refine ⟨(s.db.cellAt db key).obj.isSome, .absent, ?_, Cell.live_absent env.now⟩
          rw [ExpiryForm.onCell, Cell.expireIn, if_pos hneg, Cell.remove]
        · obtain rfl : n = 0 := by omega
          have hzero : unit.duration 0 = 0 := by
            rw [unit.duration_eq hrange (Int.le_refl 0)]
            exact Nat.zero_mul _
          have hreached : (env.now + (0 : Duration)).toNat < clockEnd := by
            rwa [Int.natCast_zero, Int.add_zero]
          refine ⟨true, { s.db.cellAt db key with deadline := some (env.now + (0 : Duration)) },
            ?_, ?_⟩
          · rw [ExpiryForm.onCell, Cell.expireIn, if_neg hneg, hzero,
              Cell.setExpiry_ok hobj hreached]
          · simp [Cell.live, Cell.expired]
      rw [hcell]
      apply ExpiryLaw.ended hn rfl (Cmd.boolFrame b) rfl
      rw [Database.visible_eq]
      show ((s.db.putCell db key c).cellAt db key).live env.now = none
      rw [Database.cellAt_putCell hdb, hgone]

end

namespace Host

variable (host : Host) (depth : Nat) {env : Env} {db : Nat} {s : Server} {form : ExpiryForm}
  {unit : TimeUnit} {name key amount old : Bytes} {n : Int}

/-- **Relative expiry is exact or rejected** for requests without further options, exactly if
`GETEX` is given a positive amount and a positive amount neither leaves the clock nor, in
milliseconds, an `i64`. -/
theorem respond_expiry_law_iff (hspelled : form.Spelled unit env name)
    (hamount : Cmd.amountOf amount = some n) (hnow : env.now.toNat < clockEnd)
    (hlive : (s.db.cellAt db (fromUtf8Lossy key)).live env.now = some (.str old)) :
    ExpiryLaw form unit n env db (fromUtf8Lossy key) s
        ((host.respond depth env db (name :: form.args key amount)).run ServerCall.exec s).1.1
        ((host.respond depth env db (name :: form.args key amount)).run ServerCall.exec s).2 ↔
      form.InTime unit n env.now := by
  have hrange := Cmd.inI64_of_amountOf hamount
  by_cases hn : 0 < n
  · have hobj : (s.db.cellAt db (fromUtf8Lossy key)).obj.isSome := by
      rw [(Cell.live_eq_some hlive).2]
      rfl
    rw [host.respond_accepted depth hspelled hamount (fun _ => hn) hlive, goOn_fst,
      expiryLaw_iff_of_pos hn hrange (Database.lt_of_live hlive) hobj]
    constructor
    · exact fun h => ⟨fun _ => hn, fun _ => h.1, fun _ => h.2⟩
    · exact fun h => ⟨h.reached hn, h.held hn⟩
  · have hnonpos : n ≤ 0 := by omega
    have hintime : form.InTime unit n env.now ↔ form.isGetex = false := by
      constructor
      · intro h
        rw [← Bool.not_eq_true]
        exact fun hgetex => hn (h.positive hgetex)
      · intro h
        exact ⟨fun hgetex => absurd (h.symm.trans hgetex) Bool.false_ne_true,
          fun hpos => absurd hpos hn, fun hpos => absurd hpos hn⟩
    rw [hintime]
    cases hrefusal : form.refusal unit with
    | some text =>
        rw [host.respond_refused depth hspelled hamount hrefusal hnonpos]
        apply iff_of_true (ExpiryLaw.refused _ rfl rfl)
        cases form with
        | getex opt => exact absurd hrefusal (by simp [ExpiryForm.refusal])
        | _ => rfl
    | none =>
        have haccepts : form.Accepts unit n := by
          intro hsome
          rw [hrefusal] at hsome
          exact absurd hsome (by simp)
        rw [host.respond_accepted depth hspelled hamount haccepts hlive, goOn_fst,
          expiryLaw_iff_of_nonpos hnonpos hrefusal hrange hnow hlive]

def stringServer : Server := ⟨(Database.new 1).putCell 0 "k" (.ofStr (asBytes "v")), ∅⟩

theorem stringServer_live (now : Instant) :
    (stringServer.db.cellAt 0 (fromUtf8Lossy (asBytes "k"))).live now =
      some (.str (asBytes "v")) := by
  have hdb : 0 < (Database.new 1).dbs.length := by decide +kernel
  have hcell : stringServer.db.cellAt 0 "k" = .ofStr (asBytes "v") :=
    Database.cellAt_putCell hdb "k" _
  rw [fromUtf8Lossy_asBytes, hcell]
  rfl

theorem respond_expiry_law_sample :
    ExpiryLaw (.expire []) .secs 100 (.at 0) 0 (fromUtf8Lossy (asBytes "k")) stringServer
        ((plain.respond 0 (.at 0) 0 (["EXPIRE", "k", "100"].map asBytes)).run ServerCall.exec
          stringServer).1.1
        ((plain.respond 0 (.at 0) 0 (["EXPIRE", "k", "100"].map asBytes)).run ServerCall.exec
          stringServer).2 ↔
      (ExpiryForm.expire []).InTime .secs 100 0 := by
  have hspelled : (ExpiryForm.expire []).Spelled .secs (.at 0) (asBytes "EXPIRE") :=
    ⟨by decide +kernel, trivial⟩
  exact plain.respond_expiry_law_iff 0 hspelled (by decide +kernel) (by decide +kernel)
    (stringServer_live 0)

/-- `GETEX k EX -1` is neither refused nor takes its amount for one that has passed. -/
theorem respond_getex_negative :
    ¬ ∀ (host : Host) (depth : Nat) (env : Env) (db : Nat) (s : Server) (form : ExpiryForm)
        (unit : TimeUnit) (name key amount old : Bytes) (n : Int), form.Spelled unit env name →
      Cmd.amountOf amount = some n → env.now.toNat < clockEnd →
      (s.db.cellAt db (fromUtf8Lossy key)).live env.now = some (.str old) →
      ExpiryLaw form unit n env db (fromUtf8Lossy key) s
        ((host.respond depth env db (name :: form.args key amount)).run ServerCall.exec s).1.1
        ((host.respond depth env db (name :: form.args key amount)).run ServerCall.exec s).2 := by
  intro hclaim
  have hspelled : (ExpiryForm.getex (asBytes "EX")).Spelled .secs (.at 0) (asBytes "GETEX") :=
    ⟨by decide +kernel, by decide +kernel⟩
  have hamount : Cmd.amountOf (asBytes "-1") = some (-1) := by decide +kernel
  have hnow : Int.toNat 0 < clockEnd := by decide +kernel
  have hlaw := hclaim .plain 0 (.at 0) 0 stringServer _ .secs _ (asBytes "k") _ (asBytes "v") (-1)
    hspelled hamount hnow (stringServer_live 0)
  rw [plain.respond_accepted 0 hspelled hamount (by simp [ExpiryForm.Accepts, ExpiryForm.refusal])
    (stringServer_live 0), goOn_fst, expiryLaw_iff_of_nonpos (by decide) rfl (by decide) hnow
    (stringServer_live 0)] at hlaw
  exact absurd hlaw (by decide)

end Host

end MiniRudis
