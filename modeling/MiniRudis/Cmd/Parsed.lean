import MiniRudis.Cmd.Dispatch

/-!
# What the parse functions return

A command with the lists it needs, or an error whose text is fixed.  A panic is
left to the loops over options, where values are indexed without a test.
-/

namespace MiniRudis

open Lib

/-- The lists whose elements the command adds to its key have some. -/
def Command.Full : Command → Prop
  | lPush _ values | rPush _ values | lPushX _ values | rPushX _ values => values ≠ []
  | hSet _ fields | hMSet _ fields => fields ≠ []
  | sAdd _ members => members ≠ []
  | zAdd args => args.members ≠ []
  | _ => True

/-- A command on the data, as the parse functions make it. -/
structure Command.IsData (cmd : Command) : Prop where
  notScripting : cmd.isScripting = false
  full : cmd.Full

namespace Cmd

variable {args : List Bytes}

/-! ## Functions with a shape of their own -/

theorem parsePing_returns (args : List Bytes) :
    Returns Command.IsData Fault.Reported (parsePing args) := by
  unfold parsePing
  split
  · exact ⟨rfl, trivial⟩
  · rename_i hlen
    exact (index_returns (by omega)).bind fun msg _ => ⟨rfl, trivial⟩
  · show Plain (RedisError.wrongArity "PING").text
    decide

theorem parseSelect_returns (args : List Bytes) :
    Returns Command.IsData Fault.Reported (parseSelect args) := by
  apply exactly_plain (by decide)
  intro h
  apply (i64At_returns (by omega) (by decide)).bind
  intro n _
  split
  · show Plain RedisError.dbIndexOutOfRange.text
    decide
  · exact ⟨rfl, trivial⟩

theorem parsePairs_returns {cmd : String} {build : List (String × Bytes) → Command}
    (hcmd : Plain cmd) (hbuild : ∀ pairs, (build pairs).IsData) (args : List Bytes) :
    Returns Command.IsData Fault.Reported (parsePairs cmd build args) := by
  unfold parsePairs
  split
  · exact plain_wrongArity hcmd
  · exact (chunkPairs_returns (by omega)).map fun pairs _ => hbuild pairs

theorem parseTimed_returns {cmd msg : String} {build : String → Int → Bytes → Command}
    (hcmd : Plain cmd) (hmsg : Plain msg) (hbuild : ∀ key n value, (build key n value).IsData)
    (args : List Bytes) : Returns Command.IsData Fault.Reported (parseTimed cmd msg build args) := by
  apply exactly_plain hcmd
  intro h
  apply (strAt_returns (by omega)).bind
  intro key _
  apply (i64At_returns (by omega) hcmd).bind
  intro n _
  split
  · exact Plain.append (by decide) hmsg
  · exact (index_returns (by omega)).bind fun value _ => hbuild key n value

theorem parsePush_returns (args : List Bytes) (left x : Bool) :
    Returns Command.IsData Fault.Reported (parsePush args left x) := by
  have hcmd : Plain (pushName left x) := by
    cases left <;> cases x <;> decide
  apply atLeast_plain hcmd
  intro h
  apply (strAt_returns (by omega)).bind
  intro key _
  rw [argsFrom_eq (by omega)]
  have hne : args.drop 1 ≠ [] := by
    rw [Ne, List.drop_eq_nil_iff]
    omega
  show (pushCommand left x key (args.drop 1)).IsData
  cases left <;> cases x <;> exact ⟨rfl, hne⟩

theorem parsePop_returns (args : List Bytes) (left : Bool) :
    Returns Command.IsData Fault.Reported (parsePop args left) := by
  have hcmd : Plain (if left then "LPOP" else "RPOP") := by
    cases left <;> decide
  apply atLeast_plain hcmd
  intro h
  apply (strAt_returns (by omega)).bind
  intro key _
  apply (ifSecond_returns (P := fun n : Nat => (n : Int) ≤ i64Max)
    (fun h => usizeAt_returns (by omega) hcmd) (by decide)).bind
  intro count _
  cases left <;> exact ⟨rfl, trivial⟩

theorem parseZpop_returns (args : List Bytes) (min : Bool) :
    Returns Command.IsData Fault.Reported (parseZpop args min) := by
  have hcmd : Plain (if min then "ZPOPMIN" else "ZPOPMAX") := by
    cases min <;> decide
  apply atLeast_plain hcmd
  intro h
  apply (strAt_returns (by omega)).bind
  intro key _
  apply (ifSecond_returns (P := fun n : Nat => (n : Int) ≤ i64Max)
    (fun h => usizeAt_returns (by omega) (by decide)) (by decide)).bind
  intro count _
  cases min <;> exact ⟨rfl, trivial⟩

theorem parseSpop_returns (args : List Bytes) :
    Returns Command.IsData Fault.Reported (parseSpop args) := by
  apply atLeast_plain (by decide)
  intro h
  apply (strAt_returns (by omega)).bind
  intro key _
  exact (ifSecond_returns (fun h => usizeAt_returns (by omega) (by decide)) (by decide)).bind
    fun count _ => ⟨rfl, trivial⟩

theorem parseSrandmember_returns (args : List Bytes) :
    Returns Command.IsData Fault.Reported (parseSrandmember args) := by
  apply atLeast_plain (by decide)
  intro h
  apply (strAt_returns (by omega)).bind
  intro key _
  exact (ifSecond_returns (fun h => i64At_returns (by omega) (by decide)) (by decide)).bind
    fun count _ => ⟨rfl, trivial⟩

theorem keyFieldThird_returns {α : Type} {P : α → Prop} {third : Outcome α}
    {build : String → String → α → Command} (h : 3 ≤ args.length)
    (hthird : Returns P Fault.Reported third) (hbuild : ∀ key field x, (build key field x).IsData) :
    Returns Command.IsData Fault.Reported (do
      let key ← strAt args 0
      let field ← strAt args 1
      let x ← third
      return build key field x) :=
  (strAt_returns (by omega)).bind fun key _ => (strAt_returns (by omega)).bind fun field _ =>
    hthird.bind fun x _ => hbuild key field x

theorem parseStore_returns {cmd : String} (hcmd : cmd ∈ ["SUNIONSTORE", "SINTERSTORE", "SDIFFSTORE"])
    (args : List Bytes) : Returns Command.IsData Fault.Reported (parseStore args cmd) := by
  have hplain : Plain cmd := by
    simp only [List.mem_cons, List.not_mem_nil, or_false] at hcmd
    obtain rfl | rfl | rfl := hcmd <;> decide
  apply atLeast_returns (plain_wrongArity hplain)
  intro h
  apply (strAt_returns (by omega)).bind
  intro dst _
  apply (strsFrom_returns (by omega)).bind
  intro keys _
  simp only [List.mem_cons, List.not_mem_nil, or_false] at hcmd
  obtain rfl | rfl | rfl := hcmd <;> exact ⟨rfl, trivial⟩

theorem parseBefore_returns (env : Env) (pos : Bytes) :
    Returns (fun _ => True) Fault.Reported (parseBefore env pos) := by
  unfold parseBefore
  split
  · trivial
  · trivial
  · show Plain RedisError.syntaxError.text
    decide

theorem parseLinsert_returns (env : Env) (args : List Bytes) :
    Returns Command.IsData Fault.Reported (parseLinsert env args) := by
  have hbefore := parseBefore_returns env
  unfold parseLinsert
  -- nothing is to be computed from the words that it reads
  generalize parseBefore env = before at hbefore ⊢
  apply exactly_plain (by decide)
  intro h
  exact (strAt_returns (by omega)).bind fun key _ => (index_returns (by omega)).bind fun pos _ =>
    (hbefore pos).bind fun before _ => (index_returns (by omega)).bind fun pivot _ =>
      (index_returns (by omega)).bind fun value _ => ⟨rfl, trivial⟩

theorem parseLeft_returns (env : Env) (dir : Bytes) :
    Returns (fun _ => True) Fault.Reported (parseLeft env dir) := by
  unfold parseLeft
  split
  · trivial
  · trivial
  · show Plain RedisError.syntaxError.text
    decide

theorem parseLmove_returns (env : Env) (args : List Bytes) :
    Returns Command.IsData Fault.Reported (parseLmove env args) := by
  have hleft := parseLeft_returns env
  unfold parseLmove
  generalize parseLeft env = left at hleft ⊢
  apply exactly_plain (by decide)
  intro h
  exact (strAt_returns (by omega)).bind fun src _ => (strAt_returns (by omega)).bind fun dst _ =>
    (index_returns (by omega)).bind fun srcDir _ => (index_returns (by omega)).bind fun dstDir _ =>
      (hleft srcDir).bind fun srcLeft _ => (hleft dstDir).bind fun dstLeft _ => ⟨rfl, trivial⟩

theorem zaddMembers_returns : ∀ rest : List Bytes,
    Returns (fun members => 2 ≤ rest.length → members ≠ []) Fault.Reported (zaddMembers rest)
  | [] => fun h => absurd h (by simp)
  | [_] => fun h => absurd h (by simp)
  | score :: member :: rest =>
      (parseF64_returns score).bind fun s _ =>
        (zaddMembers_returns rest).bind fun members _ _ => List.cons_ne_nil _ _

theorem parseZadd_returns (env : Env) (args : List Bytes) :
    Returns Command.IsData Fault.Reported (parseZadd env args) := by
  apply atLeast_plain (by decide)
  intro h
  apply (strAt_returns (by omega)).bind
  intro key _
  cases zaddFlags env.upper (args.drop 1) ⟨false, false, false, false, false⟩ with
  | mk flags rest =>
      dsimp only
      split
      · exact plain_wrongArity (by decide)
      · rename_i hlen
        apply (zaddMembers_returns rest).bind
        intro members hmembers
        split
        · show Plain RedisError.syntaxError.text
          decide
        · exact ⟨rfl, hmembers (by omega)⟩

theorem parseZincrby_returns (args : List Bytes) :
    Returns Command.IsData Fault.Reported (parseZincrby args) := by
  apply exactly_plain (by decide)
  intro h
  exact (strAt_returns (by omega)).bind fun key _ => (f64At_returns (by omega)).bind fun delta _ =>
    (strAt_returns (by omega)).bind fun member _ => ⟨rfl, trivial⟩

theorem rangeOptions_returns {cmd : String} {build : String → Int → Int → List Bytes → Command}
    (hcmd : Plain cmd) (hbuild : ∀ key start stop opts, (build key start stop opts).IsData)
    (args : List Bytes) : Returns Command.IsData Fault.Reported (atLeast 3 cmd args do
      let key ← strAt args 0
      let start ← i64At args 1 cmd
      let stop ← i64At args 2 cmd
      let opts ← argsFrom args 3
      return build key start stop opts) := by
  apply atLeast_plain hcmd
  intro h
  apply (strAt_returns (by omega)).bind
  intro key _
  apply (i64At_returns (by omega) hcmd).bind
  intro start _
  apply (i64At_returns (by omega) hcmd).bind
  intro stop _
  rw [argsFrom_eq h]
  exact hbuild key start stop _

theorem parseIncrbyfloat_returns (args : List Bytes) :
    Returns Command.IsData Fault.Reported (parseIncrbyfloat args) := by
  apply exactly_plain (by decide)
  intro h
  exact (strAt_returns (by omega)).bind fun key _ =>
    (f64At_returns (by omega)).bind fun delta _ => ⟨rfl, trivial⟩

theorem parseSetrange_returns (args : List Bytes) :
    Returns Command.IsData Fault.Reported (parseSetrange args) := by
  apply exactly_plain (by decide)
  intro h
  exact (strAt_returns (by omega)).bind fun key _ =>
    (usizeAt_returns (by omega) (by decide)).bind fun offset _ =>
      (index_returns (by omega)).bind fun value _ => ⟨rfl, trivial⟩

theorem parseFields_returns {cmd : String} {build : String → List (String × Bytes) → Command}
    (hcmd : Plain cmd) (hbuild : ∀ key pairs, pairs ≠ [] → (build key pairs).IsData)
    (args : List Bytes) : Returns Command.IsData Fault.Reported (parseFields cmd build args) := by
  unfold parseFields
  split
  · exact plain_wrongArity hcmd
  · exact keyPairs_returns (by omega) (by omega) hbuild

/-! ## Loops over options -/

theorem readSetDuration_returns (unit : Int → Duration) (b : Bytes) :
    Returns (fun _ => True) Fault.Reported (readSetDuration unit b) := by
  apply (parseI64_returns b (by decide)).bind
  intro n _
  split
  · show Plain (RedisError.generic _).text
    decide
  · trivial

theorem getexRules_return (opt : String) (rule : OptionRule Bytes Fault GetExArgs)
    (h : getexRules opt = some rule) :
    ∀ read ∈ rule.values, ∀ b, Returns (fun _ => True) Fault.Reported (read b) := by
  unfold getexRules at h
  intro read hread b
  split at h
  · obtain rfl := Option.some.inj h
    obtain rfl := List.mem_singleton.mp hread
    exact (parseI64_returns b (by decide)).bind fun _ _ => trivial
  · obtain rfl := Option.some.inj h
    obtain rfl := List.mem_singleton.mp hread
    exact (parseI64_returns b (by decide)).bind fun _ _ => trivial
  · obtain rfl := Option.some.inj h
    exact absurd hread (by simp [OptionRule.ofFlag])
  · exact absurd h (by simp)

theorem zrangebyscoreRules_return (opt : String) (rule : OptionRule Bytes Fault ZRangeByScoreArgs)
    (h : zrangebyscoreRules opt = some rule) :
    ∀ read ∈ rule.values, ∀ b, Returns (fun _ => True) Fault.Reported (read b) := by
  unfold zrangebyscoreRules at h
  intro read hread b
  split at h
  · obtain rfl := Option.some.inj h
    exact absurd hread (by simp [OptionRule.ofFlag])
  · obtain rfl := Option.some.inj h
    simp only [OptionRule.ofValues, List.mem_cons, List.not_mem_nil, or_false] at hread
    obtain rfl | rfl := hread
    · exact (parseUsize_returns b (by decide)).bind fun _ _ => trivial
    · exact (parseI64_returns b (by decide)).bind fun _ _ => trivial
  · exact absurd h (by simp)

theorem setRules_return (env : Env) (opt : String) (rule : OptionRule Bytes Fault SetArgs)
    (h : setRules env opt = some rule) :
    ∀ read ∈ rule.values, ∀ b, Returns (fun _ => True) Fault.Plain (read b) := by
  have hdeadline : ∀ (unit : Int → Duration) (now : Int) (b : Bytes),
      Returns (fun _ => True) Fault.Plain (readSetDeadline env unit now b) := by
    intro unit now b
    apply ((parseI64_returns b (by decide)).mono (fun _ _ => trivial)
      fun f => Fault.Reported.plain).bind
    intro ts _
    cases hdiff : arithI64 env.overflowChecks (ts - now) with
    | ok diff => trivial
    | error e =>
        rw [arithI64_error hdiff]
        trivial
  unfold setRules at h
  intro read hread b
  split at h
  all_goals
    first
    | obtain rfl := Option.some.inj h
    | exact absurd h (by simp)
  · obtain rfl := List.mem_singleton.mp hread
    exact (readSetDuration_returns _ b).mono (fun _ _ => trivial) fun f => Fault.Reported.plain
  · obtain rfl := List.mem_singleton.mp hread
    exact (readSetDuration_returns _ b).mono (fun _ _ => trivial) fun f => Fault.Reported.plain
  · obtain rfl := List.mem_singleton.mp hread
    exact hdeadline _ _ b
  · obtain rfl := List.mem_singleton.mp hread
    exact hdeadline _ _ b
  all_goals exact absurd hread (by simp [OptionRule.ofFlag])

theorem readOptions_plain {σ : Type} {upper : Char → List Char}
    {rules : String → Option (OptionRule Bytes Fault σ)}
    (hrules : ∀ opt rule, rules opt = some rule →
      ∀ read ∈ rule.values, ∀ b, Returns (fun _ => True) Fault.Plain (read b))
    (args : List Bytes) (s : σ) :
    Returns (fun _ => True) Fault.Plain (readOptions upper rules args s) := by
  have hunknown : (Fault.err .syntaxError).Plain := by
    show Plain RedisError.syntaxError.text
    decide
  have hmissing : Fault.panicked.Plain := trivial
  exact optionLoop_returns (fun opt => hrules (upperText upper opt)) hunknown hmissing args s

theorem parseSet_plain (env : Env) (args : List Bytes) :
    Returns Command.IsData Fault.Plain (parseSet env args) := by
  apply atLeast_returns (plain_wrongArity (by decide))
  intro h
  rw [strAt_eq (by omega), index_ok (by omega)]
  apply (readOptions_plain (setRules_return env) _ _).bind
  intro a _
  split
  · show Plain RedisError.syntaxError.text
    decide
  · exact ⟨rfl, trivial⟩

theorem parseGetex_plain (env : Env) (args : List Bytes) :
    Returns Command.IsData Fault.Plain (parseGetex env args) := by
  apply atLeast_returns (plain_wrongArity (by decide))
  intro h
  rw [strAt_eq (by omega)]
  apply (readOptions_plain (fun opt rule hrule read hread b => (getexRules_return opt rule hrule read
    hread b).mono (fun _ _ => trivial) fun f => Fault.Reported.plain) _ _).bind
  intro a _
  exact ⟨rfl, trivial⟩

/-- The bounds stand behind the key, in an order that the direction tells. -/
theorem boundIndex_lt {n : Nat} (h : 3 ≤ n) (rev : Bool) :
    (if rev then 2 else 1) < n ∧ (if rev then 1 else 2) < n := by
  constructor
  · split <;> omega
  · split <;> omega

theorem parseZrangebyscore_plain (env : Env) (args : List Bytes) (rev : Bool) :
    Returns Command.IsData Fault.Plain (parseZrangebyscore env args rev) := by
  have hcmd : Plain (if rev then "ZREVRANGEBYSCORE" else "ZRANGEBYSCORE") := by
    cases rev <;> decide
  apply atLeast_returns (plain_wrongArity hcmd)
  intro h
  rcases boundIndex_lt h rev with ⟨hmin, hmax⟩
  rw [strAt_eq (by omega), strAt_eq hmin, strAt_eq hmax]
  apply (readOptions_plain (fun opt rule hrule read hread b => (zrangebyscoreRules_return opt rule
    hrule read hread b).mono (fun _ _ => trivial) fun f => Fault.Reported.plain) _ _).bind
  intro a _
  cases rev <;> exact ⟨rfl, trivial⟩

/-! ## Scripting commands -/

theorem parseEval_returns (args : List Bytes) (isSha : Bool) :
    Returns (fun cmd => cmd.isScripting = true) Fault.Reported (parseEval args isSha) := by
  have hcmd : Plain (if isSha then "EVALSHA" else "EVAL") := by
    cases isSha <;> decide
  apply atLeast_plain hcmd
  intro h
  apply (index_returns (by omega)).bind
  intro script _
  apply (usizeAt_returns (by omega) (by decide)).bind
  intro numkeys hnum
  have hsum : addUsize 2 numkeys = .ok (2 + numkeys) := by
    apply addUsize_ok
    unfold i64Max at hnum
    omega
  rw [hsum]
  show Returns _ _ (if args.length < 2 + numkeys then _ else _)
  split
  · show Plain (RedisError.generic _).text
    decide
  · rename_i hlen
    rw [sliceRange, if_pos ⟨by omega, by omega⟩, argsFrom_eq (by omega)]
    cases isSha <;> rfl

theorem parseScript_returns (env : Env) (args : List Bytes) :
    Returns (fun cmd => cmd.isScripting = true) (fun f => f ≠ .panicked) (parseScript env args) := by
  apply atLeast_returns nofun
  intro h
  rw [index_ok (by omega)]
  dsimp only [bind, Except.bind]
  unfold scriptCommand
  split
  · apply atLeast_returns nofun
    intro h
    rw [index_ok (by omega)]
    rfl
  · rfl
  · exact nofun

/-! ## The table -/

def loopNames : List String := ["SET", "GETEX", "ZRANGEBYSCORE", "ZREVRANGEBYSCORE"]

theorem commandTable_returns (env : Env) : ∀ e ∈ commandTable env, e.1 ∉ loopNames →
    ∀ args, Returns Command.IsData Fault.Reported (e.2 args) := by
  unfold commandTable
  simp only [List.forall_mem_cons]
  exact ⟨fun _ => parsePing_returns,
    fun _ _ => exactly_plain (by decide) fun h =>
      (index_returns (by omega)).map fun _ _ => ⟨rfl, trivial⟩,
    fun _ => parseSelect_returns,
    fun _ _ => ⟨rfl, trivial⟩,
    fun _ _ => ⟨rfl, trivial⟩,
    fun _ _ => ⟨rfl, trivial⟩,
    fun _ _ => ⟨rfl, trivial⟩,
    fun _ _ => ⟨rfl, trivial⟩,
    fun _ _ => atLeast_plain (by decide) fun h => all_returns h fun _ _ => ⟨rfl, trivial⟩,
    fun _ _ => atLeast_plain (by decide) fun h => all_returns h fun _ _ => ⟨rfl, trivial⟩,
    fun _ _ => atLeast_plain (by decide) fun h => all_returns h fun _ _ => ⟨rfl, trivial⟩,
    fun _ _ => exactly_plain (by decide) fun h => one_returns h fun _ => ⟨rfl, trivial⟩,
    fun _ _ => exactly_plain (by decide) fun h => two_returns h fun _ _ => ⟨rfl, trivial⟩,
    fun _ _ => exactly_plain (by decide) fun h => two_returns h fun _ _ => ⟨rfl, trivial⟩,
    fun _ _ => atLeast_plain (by decide) fun h =>
      keyInt_returns h (by decide) fun _ _ => ⟨rfl, trivial⟩,
    fun _ _ => atLeast_plain (by decide) fun h =>
      keyInt_returns h (by decide) fun _ _ => ⟨rfl, trivial⟩,
    fun _ _ => atLeast_plain (by decide) fun h =>
      keyInt_returns h (by decide) fun _ _ => ⟨rfl, trivial⟩,
    fun _ _ => atLeast_plain (by decide) fun h =>
      keyInt_returns h (by decide) fun _ _ => ⟨rfl, trivial⟩,
    fun _ _ => exactly_plain (by decide) fun h => one_returns h fun _ => ⟨rfl, trivial⟩,
    fun _ _ => exactly_plain (by decide) fun h => one_returns h fun _ => ⟨rfl, trivial⟩,
    fun _ _ => exactly_plain (by decide) fun h => one_returns h fun _ => ⟨rfl, trivial⟩,
    fun _ _ => exactly_plain (by decide) fun h => one_returns h fun _ => ⟨rfl, trivial⟩,
    fun _ _ => ⟨rfl, trivial⟩,
    fun h => absurd h (by decide),
    fun _ _ => exactly_plain (by decide) fun h => one_returns h fun _ => ⟨rfl, trivial⟩,
    fun _ _ => exactly_plain (by decide) fun h => keyValue_returns h fun _ _ => ⟨rfl, trivial⟩,
    fun _ _ => exactly_plain (by decide) fun h => one_returns h fun _ => ⟨rfl, trivial⟩,
    fun h => absurd h (by decide),
    fun _ => parsePairs_returns (by decide) fun _ => ⟨rfl, trivial⟩,
    fun _ _ => atLeast_plain (by decide) fun h => all_returns h fun _ _ => ⟨rfl, trivial⟩,
    fun _ => parsePairs_returns (by decide) fun _ => ⟨rfl, trivial⟩,
    fun _ _ => exactly_plain (by decide) fun h => keyValue_returns h fun _ _ => ⟨rfl, trivial⟩,
    fun _ => parseTimed_returns (by decide) (by decide) fun _ _ _ => ⟨rfl, trivial⟩,
    fun _ => parseTimed_returns (by decide) (by decide) fun _ _ _ => ⟨rfl, trivial⟩,
    fun _ _ => exactly_plain (by decide) fun h => one_returns h fun _ => ⟨rfl, trivial⟩,
    fun _ _ => exactly_plain (by decide) fun h =>
      keyInt_returns h (by decide) fun _ _ => ⟨rfl, trivial⟩,
    fun _ => parseIncrbyfloat_returns,
    fun _ _ => exactly_plain (by decide) fun h => one_returns h fun _ => ⟨rfl, trivial⟩,
    fun _ _ => exactly_plain (by decide) fun h =>
      keyInt_returns h (by decide) fun _ _ => ⟨rfl, trivial⟩,
    fun _ _ => exactly_plain (by decide) fun h => keyValue_returns h fun _ _ => ⟨rfl, trivial⟩,
    fun _ _ => exactly_plain (by decide) fun h => one_returns h fun _ => ⟨rfl, trivial⟩,
    fun _ _ => exactly_plain (by decide) fun h =>
      keyRange_returns h (by decide) fun _ _ _ => ⟨rfl, trivial⟩,
    fun _ _ => exactly_plain (by decide) fun h =>
      keyRange_returns h (by decide) fun _ _ _ => ⟨rfl, trivial⟩,
    fun _ => parseSetrange_returns,
    fun _ args => parsePush_returns args true false,
    fun _ args => parsePush_returns args false false,
    fun _ args => parsePush_returns args true true,
    fun _ args => parsePush_returns args false true,
    fun _ args => parsePop_returns args true,
    fun _ args => parsePop_returns args false,
    fun _ _ => exactly_plain (by decide) fun h => one_returns h fun _ => ⟨rfl, trivial⟩,
    fun _ _ => exactly_plain (by decide) fun h =>
      keyRange_returns h (by decide) fun _ _ _ => ⟨rfl, trivial⟩,
    fun _ _ => exactly_plain (by decide) fun h =>
      keyInt_returns h (by decide) fun _ _ => ⟨rfl, trivial⟩,
    fun _ _ => exactly_plain (by decide) fun h =>
      keyIntValue_returns h (by decide) fun _ _ _ => ⟨rfl, trivial⟩,
    fun _ => parseLinsert_returns env,
    fun _ _ => exactly_plain (by decide) fun h =>
      keyIntValue_returns h (by decide) fun _ _ _ => ⟨rfl, trivial⟩,
    fun _ _ => exactly_plain (by decide) fun h =>
      keyRange_returns h (by decide) fun _ _ _ => ⟨rfl, trivial⟩,
    fun _ => parseLmove_returns env,
    fun _ => parseFields_returns (by decide) fun _ _ hne => ⟨rfl, hne⟩,
    fun _ _ => exactly_plain (by decide) fun h =>
      keyFieldThird_returns h (index_returns (by omega)) fun _ _ _ => ⟨rfl, trivial⟩,
    fun _ _ => exactly_plain (by decide) fun h => two_returns h fun _ _ => ⟨rfl, trivial⟩,
    fun _ _ => atLeast_plain (by decide) fun h => oneAndRest_returns h fun _ _ _ => ⟨rfl, trivial⟩,
    fun _ => parseFields_returns (by decide) fun _ _ hne => ⟨rfl, hne⟩,
    fun _ _ => atLeast_plain (by decide) fun h => oneAndRest_returns h fun _ _ _ => ⟨rfl, trivial⟩,
    fun _ _ => exactly_plain (by decide) fun h => two_returns h fun _ _ => ⟨rfl, trivial⟩,
    fun _ _ => exactly_plain (by decide) fun h => one_returns h fun _ => ⟨rfl, trivial⟩,
    fun _ _ => exactly_plain (by decide) fun h => one_returns h fun _ => ⟨rfl, trivial⟩,
    fun _ _ => exactly_plain (by decide) fun h => one_returns h fun _ => ⟨rfl, trivial⟩,
    fun _ _ => exactly_plain (by decide) fun h => one_returns h fun _ => ⟨rfl, trivial⟩,
    fun _ _ => exactly_plain (by decide) fun h =>
      keyFieldThird_returns h (i64At_returns (by omega) (by decide))
        fun _ _ _ => ⟨rfl, trivial⟩,
    fun _ _ => exactly_plain (by decide) fun h =>
      keyFieldThird_returns h (f64At_returns (by omega)) fun _ _ _ => ⟨rfl, trivial⟩,
    fun _ _ => atLeast_plain (by decide) fun h => oneAndRest_returns h fun _ _ hne => ⟨rfl, hne⟩,
    fun _ _ => atLeast_plain (by decide) fun h => oneAndRest_returns h fun _ _ _ => ⟨rfl, trivial⟩,
    fun _ _ => exactly_plain (by decide) fun h => one_returns h fun _ => ⟨rfl, trivial⟩,
    fun _ _ => exactly_plain (by decide) fun h => two_returns h fun _ _ => ⟨rfl, trivial⟩,
    fun _ _ => atLeast_plain (by decide) fun h => oneAndRest_returns h fun _ _ _ => ⟨rfl, trivial⟩,
    fun _ _ => exactly_plain (by decide) fun h => one_returns h fun _ => ⟨rfl, trivial⟩,
    fun _ _ => atLeast_plain (by decide) fun h => all_returns h fun _ _ => ⟨rfl, trivial⟩,
    fun _ _ => atLeast_plain (by decide) fun h => all_returns h fun _ _ => ⟨rfl, trivial⟩,
    fun _ _ => atLeast_plain (by decide) fun h => all_returns h fun _ _ => ⟨rfl, trivial⟩,
    fun _ => parseStore_returns (by decide),
    fun _ => parseStore_returns (by decide),
    fun _ => parseStore_returns (by decide),
    fun _ => parseSpop_returns,
    fun _ => parseSrandmember_returns,
    fun _ _ => exactly_plain (by decide) fun h => three_returns h fun _ _ _ => ⟨rfl, trivial⟩,
    fun _ => parseZadd_returns env,
    fun _ _ => atLeast_plain (by decide) fun h => oneAndRest_returns h fun _ _ _ => ⟨rfl, trivial⟩,
    fun _ _ => exactly_plain (by decide) fun h => two_returns h fun _ _ => ⟨rfl, trivial⟩,
    fun _ _ => atLeast_plain (by decide) fun h => oneAndRest_returns h fun _ _ _ => ⟨rfl, trivial⟩,
    fun _ => parseZincrby_returns,
    fun _ _ => atLeast_plain (by decide) fun h => two_returns h fun _ _ => ⟨rfl, trivial⟩,
    fun _ _ => atLeast_plain (by decide) fun h => two_returns h fun _ _ => ⟨rfl, trivial⟩,
    fun _ _ => exactly_plain (by decide) fun h => one_returns h fun _ => ⟨rfl, trivial⟩,
    fun _ _ => exactly_plain (by decide) fun h => three_returns h fun _ _ _ => ⟨rfl, trivial⟩,
    fun _ => rangeOptions_returns (by decide) fun _ _ _ _ => ⟨rfl, trivial⟩,
    fun h => absurd h (by decide),
    fun h => absurd h (by decide),
    fun _ => rangeOptions_returns (by decide) fun _ _ _ _ => ⟨rfl, trivial⟩,
    fun _ _ => exactly_plain (by decide) fun h =>
      keyRange_returns h (by decide) fun _ _ _ => ⟨rfl, trivial⟩,
    fun _ _ => exactly_plain (by decide) fun h => three_returns h fun _ _ _ => ⟨rfl, trivial⟩,
    fun _ args => parseZpop_returns args true,
    fun _ args => parseZpop_returns args false,
    fun _ h => absurd h (by simp)⟩

theorem lookup_mem {α β : Type} [BEq α] [LawfulBEq α] {table : List (α × β)} {k : α} {v : β}
    (h : table.lookup k = some v) : (k, v) ∈ table := by
  obtain ⟨l₁, l₂, rfl, -⟩ := List.lookup_eq_some_iff.mp h
  exact List.mem_append_right _ List.mem_cons_self

theorem commandTable_plain {env : Env} {name : String} {parseRest : List Bytes → Outcome Command}
    (h : (commandTable env).lookup name = some parseRest) (args : List Bytes) :
    Returns Command.IsData Fault.Plain (parseRest args) := by
  by_cases hloop : name ∈ loopNames
  · simp only [loopNames, List.mem_cons, List.not_mem_nil, or_false] at hloop
    obtain rfl | rfl | rfl | rfl := hloop
    · obtain rfl := Option.some.inj h
      exact parseSet_plain env args
    · obtain rfl := Option.some.inj h
      exact parseGetex_plain env args
    · obtain rfl := Option.some.inj h
      exact parseZrangebyscore_plain env args false
    · obtain rfl := Option.some.inj h
      exact parseZrangebyscore_plain env args true
  · exact (commandTable_returns env _ (lookup_mem h) hloop args).mono (fun _ h => h)
      fun f => Fault.Reported.plain

def scriptNames : List String := ["EVAL", "EVALSHA", "SCRIPT"]

theorem lookup_scriptTable {env : Env} {name : String} {parseRest : List Bytes → Outcome Command}
    (h : (scriptTable env).lookup name = some parseRest) :
    name ∈ scriptNames ∧
      ∀ args, Returns (fun cmd => cmd.isScripting = true) (fun _ => True) (parseRest args) := by
  have hmem := lookup_mem h
  simp only [scriptTable, List.mem_cons, Prod.mk.injEq, List.not_mem_nil, or_false] at hmem
  obtain ⟨rfl, rfl⟩ | ⟨rfl, rfl⟩ | ⟨rfl, rfl⟩ := hmem
  · exact ⟨by decide, fun args =>
      (parseEval_returns args false).mono (fun _ h => h) fun _ _ => trivial⟩
  · exact ⟨by decide, fun args =>
      (parseEval_returns args true).mono (fun _ h => h) fun _ _ => trivial⟩
  · exact ⟨by decide, fun args =>
      (parseScript_returns env args).mono (fun _ h => h) fun _ _ => trivial⟩

/-- A request by a name that is not of the scripting commands: its command is one on the
data, and its error has a fixed text unless the name is unknown. -/
theorem parse_data (env : Env) (name : Bytes) (rest : List Bytes)
    (hname : commandName env name ∉ scriptNames) :
    match (commandTable env).lookup (commandName env name) with
    | some _ => Returns Command.IsData Fault.Plain (parse env (name :: rest))
    | none => parse env (name :: rest) = err (.generic (unknownText env name rest)) := by
  have hscript : (scriptTable env).lookup (commandName env name) = none := by
    cases h : (scriptTable env).lookup (commandName env name) with
    | none => rfl
    | some parseRest => exact absurd (lookup_scriptTable h).1 hname
  have htables : (commandTable env ++ scriptTable env).lookup (commandName env name) =
      (commandTable env).lookup (commandName env name) := by
    rw [List.lookup_append, hscript, Option.or_none]
  rw [parse, htables]
  cases h : (commandTable env).lookup (commandName env name) with
  | none => rfl
  | some parseRest => exact commandTable_plain h rest

theorem parse_isData_or_scripting {env : Env} {args : List Bytes} {cmd : Command}
    (h : parse env args = .ok cmd) : cmd.IsData ∨ cmd.isScripting = true := by
  cases args with
  | nil => exact absurd h nofun
  | cons name rest =>
      rw [parse, List.lookup_append] at h
      cases hdata : (commandTable env).lookup (commandName env name) with
      | some parseRest =>
          rw [hdata] at h
          exact Or.inl ((commandTable_plain hdata rest).ok h)
      | none =>
          rw [hdata, Option.none_or] at h
          cases hscript : (scriptTable env).lookup (commandName env name) with
          | some parseRest =>
              rw [hscript] at h
              exact Or.inr (((lookup_scriptTable hscript).2 rest).ok h)
          | none =>
              rw [hscript] at h
              exact absurd h nofun

theorem parse_full {env : Env} {args : List Bytes} {cmd : Command}
    (h : parse env args = .ok cmd) : cmd.Full := by
  obtain hdata | hscript := parse_isData_or_scripting h
  · exact hdata.full
  · cases cmd with
    | eval | evalSha | scriptLoad | scriptFlush => trivial
    | _ => exact absurd hscript nofun

end Cmd

end MiniRudis
