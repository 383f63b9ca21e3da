import MiniRudis.Cmd.Parsed

/-!
# Panics of the parse functions

What is left to go wrong once the arity is tested: a value that an option takes and
that is not there, and the subtraction in `EXAT` and `PXAT`.
-/

namespace MiniRudis.Cmd

open Lib

/-! ## The loops -/

section
variable {σ : Type} {upper : Char → List Char} {rules : String → Option (OptionRule Bytes Fault σ)}
  {args : List Bytes} {s : σ}

theorem not_truncated_nil {rules : Bytes → Option (OptionRule Bytes Fault σ)} :
    ¬ Truncated rules [] := by
  rintro ⟨whole, opt, values, rule, h, -⟩
  exact absurd h (by simp)

theorem not_failsWith_nil {rules : Bytes → Option (OptionRule Bytes Fault σ)} {e : Fault} :
    ¬ FailsWith rules e [] := by
  rintro ⟨whole, opt, rule, earlier, read, later, values, v, rest, h, -⟩
  exact absurd h (by simp)

theorem readOptions_panics_iff :
    readOptions upper rules args s = panicked ↔
      Truncated (byName upper rules) args ∨ FailsWith (byName upper rules) .panicked args :=
  optionLoop_missing_iff (by simp) args s

/-- No loop reads a value with a reader that panics. -/
theorem not_failsWith (h : ∀ opt rule, rules opt = some rule →
      ∀ read ∈ rule.values, ∀ b, Returns (fun _ => True) Fault.Reported (read b)) :
    ¬ FailsWith (byName upper rules) .panicked args := by
  rintro ⟨whole, opt, rule, earlier, read, later, values, v, rest, -, -, hrule, hsplit, -, hread⟩
  exact (h _ rule hrule read (by simp [hsplit]) v).error hread

theorem bind_panics_iff {α β : Type} {x : Outcome α} {f : α → Outcome β}
    (hf : ∀ a, f a ≠ panicked) : x >>= f = panicked ↔ x = panicked := by
  cases x with
  | ok a =>
      constructor
      · intro h
        exact absurd h (hf a)
      · intro h
        exact absurd h (by simp)
  | error e =>
      constructor
      · intro h
        exact congrArg Except.error (Except.error.inj h)
      · intro h
        exact congrArg Except.error (Except.error.inj h)

theorem atLeast_panics_iff {n : Nat} {cmd : String} {body : Outcome Command}
    (hbody : n ≤ args.length → ∃ (s : σ) (build : σ → Outcome Command),
      (∀ a, build a ≠ panicked) ∧ body = readOptions upper rules (args.drop n) s >>= build) :
    atLeast n cmd args body = panicked ↔
      Truncated (byName upper rules) (args.drop n) ∨
        FailsWith (byName upper rules) .panicked (args.drop n) := by
  unfold atLeast
  split
  · rename_i hlen
    rw [List.drop_eq_nil_of_le (Nat.le_of_lt hlen)]
    constructor
    · intro h
      exact absurd h (by simp)
    · rintro (h | h)
      · exact absurd h not_truncated_nil
      · exact absurd h not_failsWith_nil
  · rename_i hlen
    obtain ⟨s, build, hbuild, rfl⟩ := hbody (Nat.not_lt.mp hlen)
    rw [bind_panics_iff hbuild, readOptions_panics_iff]

end

/-! ## The values of options -/

/-- The value of `EXAT` or `PXAT` lies so far in the past that its distance to `now` is
no `i64`. -/
def TooOld (now : Int) (b : Bytes) : Prop :=
  ∃ ts, parseI64 b "SET" = .ok ts ∧ ¬ InI64 (ts - now)

theorem readSetDeadline_panics_iff (env : Env) (unit : Int → Duration) (now : Int) (b : Bytes) :
    readSetDeadline env unit now b = panicked ↔ env.overflowChecks = true ∧ TooOld now b := by
  unfold readSetDeadline TooOld
  cases hread : parseI64 b "SET" with
  | error e =>
      have hne : e ≠ .panicked := by
        rintro rfl
        exact (parseI64_returns b (by decide)).error hread
      constructor
      · intro h
        exact absurd (Except.error.inj h) hne
      · rintro ⟨-, ts, hts, -⟩
        exact absurd hts (by simp)
  | ok ts =>
      have hdiff : (arithI64 env.overflowChecks (ts - now) >>= fun diff =>
          (pure fun a => { a with expire := some (unit (max diff 0)) } :
            Outcome (SetArgs → SetArgs))) = panicked ↔
          env.overflowChecks = true ∧ ¬ InI64 (ts - now) := by
        rw [bind_panics_iff (fun _ => by simp [pure, Except.pure]), arithI64_panics_iff]
      refine Iff.trans hdiff ?_
      constructor
      · rintro ⟨hchecks, hrange⟩
        exact ⟨hchecks, ts, rfl, hrange⟩
      · rintro ⟨hchecks, ts', hts, hrange⟩
        obtain rfl := Except.ok.inj hts
        exact ⟨hchecks, hrange⟩

/-- The build checks arithmetic, and the loop of `SET` comes to a value of `EXAT` or
`PXAT` that lies too far in the past. -/
def Overflows (env : Env) (args : List Bytes) : Prop :=
  env.overflowChecks = true ∧ ∃ whole opt b rest, args = whole ++ opt :: b :: rest ∧
    Whole (byName env.upper (setRules env)) whole ∧
    (upperText env.upper opt = "EXAT" ∧ TooOld (Duration.asSecs env.sysNow.toNat) b ∨
      upperText env.upper opt = "PXAT" ∧ TooOld (Duration.asMillis env.sysNow.toNat) b)

theorem eq_of_singleton_eq {α : Type} {x y : α} {xs ys : List α} (h : [x] = xs ++ y :: ys) :
    xs = [] ∧ y = x := by
  cases xs with
  | nil => exact ⟨rfl, (List.cons.inj h).1.symm⟩
  | cons z xs => exact absurd (List.cons.inj h).2 (by simp)

theorem setRules_fail_iff (env : Env) (args : List Bytes) :
    FailsWith (byName env.upper (setRules env)) .panicked args ↔ Overflows env args := by
  constructor
  · rintro ⟨whole, opt, rule, earlier, read, later, values, v, rest, rfl, hwhole, hrule, hsplit,
      hvalues, hread⟩
    unfold byName setRules at hrule
    have hdeadline : ∀ {unit : Int → Duration} {now : Int},
        rule = .ofValues [readSetDeadline env unit now] →
        values = [] ∧ env.overflowChecks = true ∧ TooOld now v := by
      rintro unit now rfl
      obtain ⟨rfl, rfl⟩ := eq_of_singleton_eq hsplit
      cases hvalues
      exact ⟨rfl, (readSetDeadline_panics_iff env unit now v).mp hread⟩
    have hduration : ∀ {unit : Int → Duration}, rule ≠ .ofValues [readSetDuration unit] := by
      rintro unit rfl
      obtain ⟨-, rfl⟩ := eq_of_singleton_eq hsplit
      exact (readSetDuration_returns unit v).error hread
    have hflag : ∀ {flag : SetArgs → SetArgs}, rule ≠ .ofFlag flag := by
      rintro flag rfl
      exact absurd hsplit (by simp [OptionRule.ofFlag])
    split at hrule
    · exact absurd (Option.some.inj hrule).symm hduration
    · exact absurd (Option.some.inj hrule).symm hduration
    · rename_i hname
      obtain ⟨rfl, hchecks, hold⟩ := hdeadline (Option.some.inj hrule).symm
      exact ⟨hchecks, whole, opt, v, rest, rfl, hwhole, Or.inl ⟨hname, hold⟩⟩
    · rename_i hname
      obtain ⟨rfl, hchecks, hold⟩ := hdeadline (Option.some.inj hrule).symm
      exact ⟨hchecks, whole, opt, v, rest, rfl, hwhole, Or.inr ⟨hname, hold⟩⟩
    · exact absurd (Option.some.inj hrule).symm hflag
    · exact absurd (Option.some.inj hrule).symm hflag
    · exact absurd (Option.some.inj hrule).symm hflag
    · exact absurd (Option.some.inj hrule).symm hflag
    · exact absurd hrule (by simp)
  · rintro ⟨hchecks, whole, opt, b, rest, rfl, hwhole, ⟨hname, hold⟩ | ⟨hname, hold⟩⟩
    · exact ⟨whole, opt, _, [], _, [], [], b, rest, rfl, hwhole, by rw [byName, hname]; rfl, rfl, .nil,
        (readSetDeadline_panics_iff env _ _ b).mpr ⟨hchecks, hold⟩⟩
    · exact ⟨whole, opt, _, [], _, [], [], b, rest, rfl, hwhole, by rw [byName, hname]; rfl, rfl, .nil,
        (readSetDeadline_panics_iff env _ _ b).mpr ⟨hchecks, hold⟩⟩

/-! ## All commands -/

def SafeOptions (env : Env) (name : Bytes) (rest : List Bytes) : Prop :=
  match commandName env name with
  | "SET" =>
      ¬ Truncated (byName env.upper (setRules env)) (rest.drop 2) ∧ ¬ Overflows env (rest.drop 2)
  | "GETEX" => ¬ Truncated (byName env.upper getexRules) (rest.drop 1)
  | "ZRANGEBYSCORE" | "ZREVRANGEBYSCORE" =>
      ¬ Truncated (byName env.upper zrangebyscoreRules) (rest.drop 3)
  | _ => True

theorem parseSet_panics_iff (env : Env) (args : List Bytes) :
    parseSet env args = panicked ↔
      Truncated (byName env.upper (setRules env)) (args.drop 2) ∨ Overflows env (args.drop 2) := by
  rw [← setRules_fail_iff]
  apply atLeast_panics_iff
  intro h
  rw [strAt_eq (by omega), index_ok (by omega)]
  refine ⟨_, _, ?_, rfl⟩
  intro a
  split <;> exact nofun

theorem parseGetex_panics_iff (env : Env) (args : List Bytes) :
    parseGetex env args = panicked ↔ Truncated (byName env.upper getexRules) (args.drop 1) := by
  have hloop : parseGetex env args = panicked ↔
      Truncated (byName env.upper getexRules) (args.drop 1) ∨
        FailsWith (byName env.upper getexRules) .panicked (args.drop 1) := by
    apply atLeast_panics_iff
    intro h
    rw [strAt_eq (by omega)]
    refine ⟨_, _, ?_, rfl⟩
    exact fun a => nofun
  rw [hloop, or_iff_left (not_failsWith getexRules_return)]

theorem parseZrangebyscore_panics_iff (env : Env) (args : List Bytes) (rev : Bool) :
    parseZrangebyscore env args rev = panicked ↔
      Truncated (byName env.upper zrangebyscoreRules) (args.drop 3) := by
  have hloop : parseZrangebyscore env args rev = panicked ↔
      Truncated (byName env.upper zrangebyscoreRules) (args.drop 3) ∨
        FailsWith (byName env.upper zrangebyscoreRules) .panicked (args.drop 3) := by
    apply atLeast_panics_iff
    intro h
    rcases boundIndex_lt h rev with ⟨hmin, hmax⟩
    rw [strAt_eq (by omega), strAt_eq hmin, strAt_eq hmax]
    refine ⟨_, _, ?_, rfl⟩
    exact fun a => nofun
  rw [hloop, or_iff_left (not_failsWith zrangebyscoreRules_return)]

/-- **The parser returns.**  `parse` answers with a command or an error, and does not
panic, exactly if the options that its loops read are complete and, in a build with
overflow checks, no deadline among them lies too far in the past. -/
theorem parse_returns_iff (env : Env) (name : Bytes) (rest : List Bytes) :
    parse env (name :: rest) ≠ panicked ↔ SafeOptions env name rest := by
  unfold SafeOptions
  split
  · rename_i hname
    have hlookup : (commandTable env ++ scriptTable env).lookup "SET" = some (parseSet env) := rfl
    rw [parse, hname, hlookup]
    simp only [ne_eq, parseSet_panics_iff, not_or]
  · rename_i hname
    have hlookup : (commandTable env ++ scriptTable env).lookup "GETEX" = some (parseGetex env) := rfl
    rw [parse, hname, hlookup]
    simp only [ne_eq, parseGetex_panics_iff]
  · rename_i hname
    have hlookup : (commandTable env ++ scriptTable env).lookup "ZRANGEBYSCORE" =
        some (fun rest => parseZrangebyscore env rest false) := rfl
    rw [parse, hname, hlookup]
    simp only [ne_eq, parseZrangebyscore_panics_iff]
  · rename_i hname
    have hlookup : (commandTable env ++ scriptTable env).lookup "ZREVRANGEBYSCORE" =
        some (fun rest => parseZrangebyscore env rest true) := rfl
    rw [parse, hname, hlookup]
    simp only [ne_eq, parseZrangebyscore_panics_iff]
  · rename_i hset hgetex hzrange hzrevrange
    rw [iff_true, parse]
    cases hlookup : (commandTable env ++ scriptTable env).lookup (commandName env name) with
    | none => simp [err, panicked]
    | some parseRest =>
        obtain hdata | hscript := List.mem_append.mp (lookup_mem hlookup)
        · have hloop : commandName env name ∉ loopNames := by
            simp only [loopNames, List.mem_cons, List.not_mem_nil, or_false, not_or]
            exact ⟨hset, hgetex, hzrange, hzrevrange⟩
          exact ne_panicked (commandTable_returns env _ hdata hloop rest)
        · simp only [scriptTable, List.mem_cons, Prod.mk.injEq, List.not_mem_nil, or_false] at hscript
          obtain ⟨-, rfl⟩ | ⟨-, rfl⟩ | ⟨-, rfl⟩ := hscript
          · exact ne_panicked (parseEval_returns rest false)
          · exact ne_panicked (parseEval_returns rest true)
          · intro h
            exact (parseScript_returns env rest).error h rfl

/-- `SET k v EX` ends where the seconds should stand. -/
theorem parse_set_panics :
    ¬ ∀ (env : Env) (args : List Bytes), args ≠ [] → parse env args ≠ panicked := by
  intro hclaim
  exact hclaim (.at 0) [asBytes "SET", asBytes "k", asBytes "v", asBytes "EX"] (by simp) rfl

end MiniRudis.Cmd
