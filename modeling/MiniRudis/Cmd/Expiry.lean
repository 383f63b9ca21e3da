import MiniRudis.Cmd.SetOptions

/-!
# Requests for a time to live

The commands that take an amount of time, how each is spelled and read, and what it makes
of the cell of its key.
-/

namespace MiniRudis

open Lib

/-! ## Units -/

inductive TimeUnit
  | secs
  | millis

namespace TimeUnit

def nanos : TimeUnit → Nat
  | secs => nanosPerSec
  | millis => nanosPerMilli

def inMillis : TimeUnit → Nat
  | secs => 1000
  | millis => 1

def duration : TimeUnit → Int → Duration
  | secs => Duration.fromSecs
  | millis => Duration.fromMillis

def optionName : TimeUnit → String
  | secs => "EX"
  | millis => "PX"

theorem nanos_eq (unit : TimeUnit) : unit.nanos = unit.inMillis * nanosPerMilli := by
  cases unit <;> rfl

theorem duration_eq (unit : TimeUnit) {n : Int} (h : InI64 n) (hnonneg : 0 ≤ n) :
    unit.duration n = n.toNat * unit.nanos := by
  cases unit with
  | secs => exact fromSecs_eq h hnonneg
  | millis => exact fromMillis_eq h hnonneg

theorem duration_lt (unit : TimeUnit) {n : Int} (h : InI64 n) (hnonneg : 0 ≤ n) :
    unit.duration n < clockEnd := by
  cases unit with
  | secs => exact fromSecs_lt h hnonneg
  | millis => exact fromMillis_lt h hnonneg

/-- The way of `GETEX` through milliseconds is exact as long as an `i64` holds them. -/
theorem fromMillis_asMillis (unit : TimeUnit) {n : Int} (h : InI64 n) (hnonneg : 0 ≤ n)
    (hmillis : n * unit.inMillis ≤ i64Max) :
    Duration.asMillis (unit.duration n) = n * unit.inMillis ∧
      Duration.fromMillis (Duration.asMillis (unit.duration n)) = n.toNat * unit.nanos := by
  have hcast : ((n.toNat * unit.inMillis : Nat) : Int) = n * unit.inMillis := by
    rw [Int.natCast_mul, Int.toNat_of_nonneg hnonneg]
  have hsplit : unit.duration n = n.toNat * unit.inMillis * nanosPerMilli := by
    rw [unit.duration_eq h hnonneg, nanos_eq, Nat.mul_assoc]
  have hms : Duration.asMillis (unit.duration n) = n * unit.inMillis := by
    rw [hsplit, asMillis_mul (by rwa [hcast]), hcast]
  have hrange : InI64 (n * unit.inMillis) := by
    rw [← hms, Duration.asMillis]
    exact inI64_asI64 _
  refine ⟨hms, ?_⟩
  rw [hms, fromMillis_eq hrange (Int.mul_nonneg hnonneg (Int.natCast_nonneg _)), ← hcast,
    Int.toNat_natCast, nanos_eq, Nat.mul_assoc]

end TimeUnit

/-! ## Forms -/

/-- The requests with an amount, and what they carry beside it and the key. -/
inductive ExpiryForm
  /-- `SET key value opt amount` -/
  | set (value opt : Bytes)
  /-- `SETEX key amount value`, or `PSETEX` -/
  | setex (value : Bytes)
  /-- `GETEX key opt amount` -/
  | getex (opt : Bytes)
  /-- `EXPIRE key amount`, or `PEXPIRE`; further arguments are ignored -/
  | expire (extra : List Bytes)

namespace ExpiryForm

def args (key amount : Bytes) : ExpiryForm → List Bytes
  | set value opt => [key, value, opt, amount]
  | setex value => [key, amount, value]
  | getex opt => [key, opt, amount]
  | expire extra => key :: amount :: extra

def commandName : TimeUnit → ExpiryForm → String
  | _, set .. => "SET"
  | .secs, setex _ => "SETEX"
  | .millis, setex _ => "PSETEX"
  | _, getex _ => "GETEX"
  | .secs, expire _ => "EXPIRE"
  | .millis, expire _ => "PEXPIRE"

structure Spelled (form : ExpiryForm) (unit : TimeUnit) (env : Env) (name : Bytes) : Prop where
  command : Cmd.commandName env name = form.commandName unit
  option : match form with
    | set _ opt | getex opt => Cmd.upperText env.upper opt = unit.optionName
    | setex _ | expire _ => True

/-- The command that a request comes to, unless its amount is refused. -/
def command (unit : TimeUnit) (key : String) (n : Int) : ExpiryForm → Command
  | set value _ => .set ⟨key, value, some (unit.duration n), false, false, false, false⟩
  | setex value =>
      match unit with
      | .secs => .setex key n value
      | .millis => .pSetex key n value
  | getex _ => .getEx ⟨key, some (unit.duration n), false⟩
  | expire _ =>
      match unit with
      | .secs => .expire key n
      | .millis => .pExpire key n

theorem command_ne_quit (form : ExpiryForm) (unit : TimeUnit) (key : String) (n : Int) :
    form.command unit key n ≠ .quit := by
  cases form <;> cases unit <;> simp [command]

theorem command_ne_select (form : ExpiryForm) (unit : TimeUnit) (key : String) (n : Int)
    (idx : Nat) : form.command unit key n ≠ .select idx := by
  cases form <;> cases unit <;> simp [command]

/-- The forms that refuse an amount that is not positive, and with what text. -/
def refusal (unit : TimeUnit) : ExpiryForm → Option String
  | set .. => some "ERR invalid expire time in 'set' command"
  | setex _ =>
      match unit with
      | .secs => some "ERR invalid expire time in 'setex' command"
      | .millis => some "ERR invalid expire time in 'psetex' command"
  | getex _ | expire _ => none

end ExpiryForm

/-! ## Parsing -/

namespace Cmd

variable {env : Env} {name key amount : Bytes} {n : Int} {unit : TimeUnit}

def amountOf (b : Bytes) : Option Int := (fromUtf8 b).bind parseTrimmedI64

theorem parseI64_of_amountOf (h : amountOf amount = some n) (cmd : String) :
    parseI64 amount cmd = .ok n := by
  obtain ⟨s, hs, hn⟩ := Option.bind_eq_some_iff.mp h
  rw [parseI64, hs]
  dsimp only
  rw [hn]

theorem atLeast_keyInt (h : amountOf amount = some n) (extra : List Bytes) (cmd : String)
    (build : String → Int → Command) :
    atLeast 2 cmd (key :: amount :: extra) (keyInt cmd build (key :: amount :: extra)) =
      .ok (build (fromUtf8Lossy key) n) := by
  have htwo : 2 ≤ (key :: amount :: extra).length := by simp
  rw [atLeast_of_le htwo]
  show (parseI64 amount cmd >>= fun n => return build (fromUtf8Lossy key) n) = _
  rw [parseI64_of_amountOf h]
  rfl

theorem inI64_of_amountOf (h : amountOf amount = some n) : InI64 n := by
  obtain ⟨s, -, hn⟩ := Option.bind_eq_some_iff.mp h
  exact parseTrimmedI64_inI64 hn

def parsedAs (form : ExpiryForm) (unit : TimeUnit) (key : String) (n : Int) : Outcome Command :=
  match form.refusal unit with
  | some text => if n ≤ 0 then err (.generic text) else .ok (form.command unit key n)
  | none => .ok (form.command unit key n)

theorem parse_set_amount (value opt : Bytes) (hopt : upperText env.upper opt = unit.optionName)
    (hamount : amountOf amount = some n) :
    parseSet env [key, value, opt, amount] =
      parsedAs (.set value opt) unit (fromUtf8Lossy key) n := by
  have hrule : byName env.upper (setRules env) opt =
      some (.ofValues [readSetDuration unit.duration]) := by
    rw [byName, hopt]
    cases unit <;> rfl
  have hread : readSetDuration unit.duration amount =
      if n ≤ 0 then err (.generic "ERR invalid expire time in 'set' command")
      else .ok fun a => { a with expire := some (unit.duration n) } := by
    rw [readSetDuration, parseI64_of_amountOf hamount]
    rfl
  have hloop := optionLoop_value hrule (.err .syntaxError) .panicked amount
    ⟨fromUtf8Lossy key, value, none, false, false, false, false⟩
  rw [hread, ← readOptions] at hloop
  have htwo : 2 ≤ [key, value, opt, amount].length := by simp
  have hkey : strAt [key, value, opt, amount] 0 = .ok (fromUtf8Lossy key) := rfl
  have hvalue : index [key, value, opt, amount] 1 = .ok value := rfl
  have hrest : [key, value, opt, amount].drop 2 = [opt, amount] := rfl
  rw [parseSet, atLeast_of_le htwo, hkey, hvalue, hrest]
  dsimp only [bind, Except.bind]
  rw [hloop, parsedAs]
  dsimp only [ExpiryForm.refusal]
  by_cases hn : n ≤ 0
  · rw [if_pos hn, if_pos hn]
    rfl
  · rw [if_neg hn, if_neg hn]
    rfl

theorem parse_getex_amount (opt : Bytes) (hopt : upperText env.upper opt = unit.optionName)
    (hamount : amountOf amount = some n) :
    parseGetex env [key, opt, amount] = parsedAs (.getex opt) unit (fromUtf8Lossy key) n := by
  have hrule : byName env.upper getexRules opt =
      some (.ofValues [readGetexDuration unit.duration]) := by
    rw [byName, hopt]
    cases unit <;> rfl
  have hread : readGetexDuration unit.duration amount =
      .ok fun a => { a with expire := some (unit.duration n) } := by
    rw [readGetexDuration, parseI64_of_amountOf hamount]
    rfl
  have hloop := optionLoop_value hrule (.err .syntaxError) .panicked amount
    ⟨fromUtf8Lossy key, none, false⟩
  rw [hread, ← readOptions] at hloop
  have hone : 1 ≤ [key, opt, amount].length := by simp
  have hkey : strAt [key, opt, amount] 0 = .ok (fromUtf8Lossy key) := rfl
  have hrest : [key, opt, amount].drop 1 = [opt, amount] := rfl
  rw [parseGetex, atLeast_of_le hone, hkey, hrest]
  dsimp only [bind, Except.bind]
  rw [hloop]
  rfl

theorem parse_expiry {form : ExpiryForm} (hspelled : form.Spelled unit env name)
    (hamount : amountOf amount = some n) :
    parse env (name :: form.args key amount) = parsedAs form unit (fromUtf8Lossy key) n := by
  have hread := parseI64_of_amountOf hamount
  have hlookup : ∀ parseRest, (commandTable env ++ scriptTable env).lookup
      (form.commandName unit) = some parseRest →
      parse env (name :: form.args key amount) = parseRest (form.args key amount) := by
    intro parseRest hfound
    rw [parse, hspelled.command, hfound]
  cases form with
  | set value opt =>
      rw [hlookup (parseSet env) rfl]
      exact parse_set_amount value opt hspelled.option hamount
  | getex opt =>
      rw [hlookup (parseGetex env) rfl]
      exact parse_getex_amount opt hspelled.option hamount
  | setex value =>
      cases unit with
      | secs =>
          rw [hlookup parseSetex rfl]
          show (parseI64 amount "SETEX" >>= fun n =>
            if n ≤ 0 then err (.generic _)
            else return Command.setex (fromUtf8Lossy key) n value) = _
          rw [hread]
          rfl
      | millis =>
          rw [hlookup parsePsetex rfl]
          show (parseI64 amount "PSETEX" >>= fun n =>
            if n ≤ 0 then err (.generic _)
            else return Command.pSetex (fromUtf8Lossy key) n value) = _
          rw [hread]
          rfl
  | expire extra =>
      cases unit with
      | secs =>
          rw [hlookup (fun rest => parseExpire rest false false) rfl]
          exact atLeast_keyInt hamount extra "EXPIRE" .expire
      | millis =>
          rw [hlookup parsePexpire rfl]
          exact atLeast_keyInt hamount extra "PEXPIRE" .pExpire

end Cmd

end MiniRudis
