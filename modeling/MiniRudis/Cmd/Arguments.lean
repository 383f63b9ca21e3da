import MiniRudis.Cmd.Command
import MiniRudis.Proto.Decode
import MiniRudis.Proto.Lines
import MiniRudis.Lib.Options

/-!
# Reading arguments

The parse functions index the slice of arguments after they have tested its
length.  An index out of range panics here as it does there.
-/

namespace MiniRudis.Cmd

open Lib

def upperText (upper : Char → List Char) (b : Bytes) : String :=
  toUppercase upper (fromUtf8Lossy b)

/-! ## Arity -/

/-- `if args.len() != n { return Err(WrongArity(cmd)) }`, before the rest. -/
def exactly (n : Nat) (cmd : String) (args : List Bytes) (rest : Outcome Command) :
    Outcome Command :=
  if args.length ≠ n then err (.wrongArity cmd) else rest

/-- `if args.len() < n { return Err(WrongArity(cmd)) }`, before the rest. -/
def atLeast (n : Nat) (cmd : String) (args : List Bytes) (rest : Outcome Command) :
    Outcome Command :=
  if args.length < n then err (.wrongArity cmd) else rest

/-! ## One argument -/

def parseI64 (b : Bytes) (cmd : String) : Outcome Int :=
  match fromUtf8 b with
  | none => err (.wrongArity cmd)
  | some s =>
      match parseTrimmedI64 s with
      | none => err .notInteger
      | some n => .ok n

def parseUsize (b : Bytes) (cmd : String) : Outcome Nat := do
  let n ← parseI64 b cmd
  if n < 0 then err (.generic "ERR value is out of range, must be a positive integer or zero")
  else return asU64 n

/-- `parse_f64`; the command's name it ignores. -/
def parseF64 (b : Bytes) : Outcome F64 :=
  match (fromUtf8 b).bind fun s => F64.parse (trim s) with
  | none => err .notFloat
  | some f => .ok f

def strAt (args : List Bytes) (i : Nat) : Outcome String := fromUtf8Lossy <$> index args i

def i64At (args : List Bytes) (i : Nat) (cmd : String) : Outcome Int := do
  let b ← index args i
  parseI64 b cmd

def usizeAt (args : List Bytes) (i : Nat) (cmd : String) : Outcome Nat := do
  let b ← index args i
  parseUsize b cmd

def f64At (args : List Bytes) (i : Nat) : Outcome F64 := do
  let b ← index args i
  parseF64 b

def argsFrom (args : List Bytes) (i : Nat) : Outcome (List Bytes) := sliceRange args i args.length

def strsFrom (args : List Bytes) (i : Nat) : Outcome (List String) :=
  (fun rest => rest.map fromUtf8Lossy) <$> argsFrom args i

def ifSecond {α : Type} (args : List Bytes) (read : Outcome α) (default : α) : Outcome α :=
  if 2 ≤ args.length then read else .ok default

/-- `args.chunks(2).map(|c| (String::from_utf8_lossy(&c[0]).into_owned(), c[1].clone()))`. -/
def chunkPairs : List Bytes → Outcome (List (String × Bytes))
  | [] => .ok []
  | [_] => panicked
  | name :: value :: rest => do
      let pairs ← chunkPairs rest
      return (fromUtf8Lossy name, value) :: pairs

/-! ## The shapes of argument lists

What is left of a parse function behind its arity test. -/

def one (build : String → Command) (args : List Bytes) : Outcome Command :=
  build <$> strAt args 0

def all (build : List String → Command) (args : List Bytes) : Outcome Command :=
  return build (args.map fromUtf8Lossy)

def oneAndRest (build : String → List String → Command) (args : List Bytes) : Outcome Command := do
  let key ← strAt args 0
  let rest ← strsFrom args 1
  return build key rest

def two (build : String → String → Command) (args : List Bytes) : Outcome Command := do
  let a ← strAt args 0
  let b ← strAt args 1
  return build a b

def three (build : String → String → String → Command) (args : List Bytes) : Outcome Command := do
  let a ← strAt args 0
  let b ← strAt args 1
  let c ← strAt args 2
  return build a b c

def keyInt (cmd : String) (build : String → Int → Command) (args : List Bytes) :
    Outcome Command := do
  let key ← strAt args 0
  let n ← i64At args 1 cmd
  return build key n

def keyRange (cmd : String) (build : String → Int → Int → Command) (args : List Bytes) :
    Outcome Command := do
  let key ← strAt args 0
  let start ← i64At args 1 cmd
  let stop ← i64At args 2 cmd
  return build key start stop

def keyValue (build : String → Bytes → Command) (args : List Bytes) : Outcome Command := do
  let key ← strAt args 0
  let value ← index args 1
  return build key value

def keyIntValue (cmd : String) (build : String → Int → Bytes → Command) (args : List Bytes) :
    Outcome Command := do
  let key ← strAt args 0
  let n ← i64At args 1 cmd
  let value ← index args 2
  return build key n value

def keyPairs (build : String → List (String × Bytes) → Command) (args : List Bytes) :
    Outcome Command := do
  let key ← strAt args 0
  let rest ← argsFrom args 1
  let pairs ← chunkPairs rest
  return build key pairs

/-! ## Options -/

abbrev byName {σ : Type} (upper : Char → List Char)
    (rules : String → Option (OptionRule Bytes Fault σ)) (opt : Bytes) :
    Option (OptionRule Bytes Fault σ) :=
  rules (upperText upper opt)

/-- `while i < args.len() { match opt { … } i += 1; }` over `args[i..]`, where the arms
index `args[i]` without a test. -/
def readOptions {σ : Type} (upper : Char → List Char)
    (rules : String → Option (OptionRule Bytes Fault σ)) (args : List Bytes) (s : σ) : Outcome σ :=
  optionLoop (byName upper rules) (.err .syntaxError) .panicked [] args s

/-! ## What they return -/

section
variable {Q : Command → Prop} {E : Fault → Prop} {args : List Bytes} {i n : Nat} {cmd : String}

theorem plain_wrongArity (h : Plain cmd) : Plain (RedisError.wrongArity cmd).text :=
  (Plain.append (by decide) h).append (by decide)

theorem exactly_returns {rest : Outcome Command} (hcmd : E (.err (.wrongArity cmd)))
    (h : args.length = n → Returns Q E rest) : Returns Q E (exactly n cmd args rest) := by
  unfold exactly
  split
  · exact hcmd
  · rename_i hlen
    exact h (not_not.mp hlen)

theorem atLeast_returns {rest : Outcome Command} (hcmd : E (.err (.wrongArity cmd)))
    (h : n ≤ args.length → Returns Q E rest) : Returns Q E (atLeast n cmd args rest) := by
  unfold atLeast
  split
  · exact hcmd
  · rename_i hlen
    exact h (Nat.not_lt.mp hlen)

theorem exactly_plain {rest : Outcome Command} (hcmd : Plain cmd)
    (h : n ≤ args.length → Returns Q Fault.Reported rest) :
    Returns Q Fault.Reported (exactly n cmd args rest) :=
  exactly_returns (plain_wrongArity hcmd) fun hlen => h (Nat.le_of_eq hlen.symm)

theorem atLeast_plain {rest : Outcome Command} (hcmd : Plain cmd)
    (h : n ≤ args.length → Returns Q Fault.Reported rest) :
    Returns Q Fault.Reported (atLeast n cmd args rest) :=
  atLeast_returns (plain_wrongArity hcmd) h

theorem atLeast_of_le {rest : Outcome Command} (h : n ≤ args.length) :
    atLeast n cmd args rest = rest := by
  rw [atLeast, if_neg (Nat.not_lt.mpr h)]

theorem parseTrimmedI64_inI64 {s : String} {n : Int} (h : parseTrimmedI64 s = some n) :
    InI64 n :=
  parseI64_inI64 h

theorem parseI64_returns (b : Bytes) (hcmd : Plain cmd) :
    Returns InI64 Fault.Reported (parseI64 b cmd) := by
  unfold parseI64
  split
  · exact plain_wrongArity hcmd
  · split
    · show Plain RedisError.notInteger.text
      decide
    · rename_i n hn
      exact parseTrimmedI64_inI64 hn

theorem parseUsize_returns (b : Bytes) (hcmd : Plain cmd) :
    Returns (fun n : Nat => (n : Int) ≤ i64Max) Fault.Reported (parseUsize b cmd) := by
  unfold parseUsize
  apply (parseI64_returns b hcmd).bind
  intro n hn
  split
  · show Plain (RedisError.generic _).text
    decide
  · rename_i hneg
    show ((asU64 n : Nat) : Int) ≤ i64Max
    rw [asU64_of_nonneg hn (by omega), Int.toNat_of_nonneg (by omega)]
    exact hn.2

theorem parseF64_returns (b : Bytes) : Returns (fun _ => True) Fault.Reported (parseF64 b) := by
  unfold parseF64
  split
  · show Plain RedisError.notFloat.text
    decide
  · trivial

theorem index_ok {α : Type} {slice : List α} {i : Nat} (h : i < slice.length) :
    index slice i = .ok slice[i] := by
  rw [index, List.getElem?_eq_getElem h]

theorem strAt_eq {args : List Bytes} {i : Nat} (h : i < args.length) :
    strAt args i = .ok (fromUtf8Lossy args[i]) := by
  rw [strAt, index_ok h]
  rfl

theorem index_returns {α : Type} {slice : List α} (h : i < slice.length) :
    Returns (fun _ => True) Fault.Reported (index slice i) := by
  rw [index_ok h]
  trivial

theorem strAt_returns (h : i < args.length) :
    Returns (fun _ => True) Fault.Reported (strAt args i) :=
  (index_returns h).map fun _ _ => trivial

theorem i64At_returns (h : i < args.length) (hcmd : Plain cmd) :
    Returns InI64 Fault.Reported (i64At args i cmd) :=
  (index_returns h).bind fun b _ => parseI64_returns b hcmd

theorem usizeAt_returns (h : i < args.length) (hcmd : Plain cmd) :
    Returns (fun n : Nat => (n : Int) ≤ i64Max) Fault.Reported (usizeAt args i cmd) :=
  (index_returns h).bind fun b _ => parseUsize_returns b hcmd

theorem f64At_returns (h : i < args.length) :
    Returns (fun _ => True) Fault.Reported (f64At args i) :=
  (index_returns h).bind fun b _ => parseF64_returns b

theorem ifSecond_returns {α : Type} {P : α → Prop} {read : Outcome α} {default : α}
    (hread : 2 ≤ args.length → Returns P Fault.Reported read) (hdefault : P default) :
    Returns P Fault.Reported (ifSecond args read default) := by
  unfold ifSecond
  split
  · rename_i h
    exact hread h
  · exact hdefault

theorem argsFrom_eq (h : i ≤ args.length) : argsFrom args i = .ok (args.drop i) := by
  rw [argsFrom, sliceRange, if_pos ⟨h, Nat.le_refl _⟩, ← List.length_drop, List.take_length]

theorem strsFrom_returns (h : i < args.length) :
    Returns (fun rest => rest ≠ []) Fault.Reported (strsFrom args i) := by
  rw [strsFrom, argsFrom_eq (Nat.le_of_lt h)]
  show (args.drop i).map fromUtf8Lossy ≠ []
  intro hnil
  have hlen := congrArg List.length hnil
  rw [List.length_map, List.length_drop, List.length_nil] at hlen
  omega

theorem chunkPairs_returns : ∀ {rest : List Bytes}, rest.length % 2 = 0 →
    Returns (fun pairs => rest ≠ [] → pairs ≠ []) Fault.Reported (chunkPairs rest)
  | [], _ => fun h => absurd rfl h
  | [_], h => absurd h (by simp)
  | name :: value :: rest, h => by
      have hrest : rest.length % 2 = 0 := by
        rw [List.length_cons, List.length_cons] at h
        omega
      exact (chunkPairs_returns hrest).bind fun pairs _ _ => List.cons_ne_nil _ _

/-! ### The shapes -/

theorem one_returns {build : String → Command} (h : 1 ≤ args.length) (hQ : ∀ key, Q (build key)) :
    Returns Q Fault.Reported (one build args) :=
  (strAt_returns (by omega)).map fun key _ => hQ key

theorem all_returns {build : List String → Command} (h : 1 ≤ args.length)
    (hQ : ∀ keys, keys ≠ [] → Q (build keys)) : Returns Q Fault.Reported (all build args) := by
  apply hQ
  intro hnil
  have hlen := congrArg List.length hnil
  rw [List.length_map, List.length_nil] at hlen
  omega

theorem oneAndRest_returns {build : String → List String → Command} (h : 2 ≤ args.length)
    (hQ : ∀ key rest, rest ≠ [] → Q (build key rest)) :
    Returns Q Fault.Reported (oneAndRest build args) :=
  (strAt_returns (by omega)).bind fun key _ =>
    (strsFrom_returns (by omega)).bind fun rest hrest => hQ key rest hrest

theorem two_returns {build : String → String → Command} (h : 2 ≤ args.length)
    (hQ : ∀ a b, Q (build a b)) : Returns Q Fault.Reported (two build args) :=
  (strAt_returns (by omega)).bind fun a _ => (strAt_returns (by omega)).bind fun b _ => hQ a b

theorem three_returns {build : String → String → String → Command} (h : 3 ≤ args.length)
    (hQ : ∀ a b c, Q (build a b c)) : Returns Q Fault.Reported (three build args) :=
  (strAt_returns (by omega)).bind fun a _ => (strAt_returns (by omega)).bind fun b _ =>
    (strAt_returns (by omega)).bind fun c _ => hQ a b c

theorem keyInt_returns {build : String → Int → Command} (h : 2 ≤ args.length) (hcmd : Plain cmd)
    (hQ : ∀ key n, Q (build key n)) : Returns Q Fault.Reported (keyInt cmd build args) :=
  (strAt_returns (by omega)).bind fun key _ =>
    (i64At_returns (by omega) hcmd).bind fun n _ => hQ key n

theorem keyRange_returns {build : String → Int → Int → Command} (h : 3 ≤ args.length)
    (hcmd : Plain cmd) (hQ : ∀ key start stop, Q (build key start stop)) :
    Returns Q Fault.Reported (keyRange cmd build args) :=
  (strAt_returns (by omega)).bind fun key _ =>
    (i64At_returns (by omega) hcmd).bind fun start _ =>
      (i64At_returns (by omega) hcmd).bind fun stop _ => hQ key start stop

theorem keyValue_returns {build : String → Bytes → Command} (h : 2 ≤ args.length)
    (hQ : ∀ key value, Q (build key value)) : Returns Q Fault.Reported (keyValue build args) :=
  (strAt_returns (by omega)).bind fun key _ =>
    (index_returns (by omega)).bind fun value _ => hQ key value

theorem keyIntValue_returns {build : String → Int → Bytes → Command} (h : 3 ≤ args.length)
    (hcmd : Plain cmd) (hQ : ∀ key n value, Q (build key n value)) :
    Returns Q Fault.Reported (keyIntValue cmd build args) :=
  (strAt_returns (by omega)).bind fun key _ =>
    (i64At_returns (by omega) hcmd).bind fun n _ =>
      (index_returns (by omega)).bind fun value _ => hQ key n value

theorem keyPairs_returns {build : String → List (String × Bytes) → Command} (h : 3 ≤ args.length)
    (hodd : args.length % 2 ≠ 0) (hQ : ∀ key pairs, pairs ≠ [] → Q (build key pairs)) :
    Returns Q Fault.Reported (keyPairs build args) := by
  apply (strAt_returns (by omega)).bind
  intro key _
  rw [argsFrom_eq (by omega)]
  have heven : (args.drop 1).length % 2 = 0 := by
    rw [List.length_drop]
    omega
  have hne : args.drop 1 ≠ [] := by
    rw [Ne, List.drop_eq_nil_iff]
    omega
  exact (chunkPairs_returns heven).bind fun pairs hpairs => hQ key pairs (hpairs hne)

end

end MiniRudis.Cmd
