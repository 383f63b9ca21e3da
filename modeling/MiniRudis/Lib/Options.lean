import MiniRudis.Lib.Returns
import Mathlib.Data.List.Basic

/-!
# Loops over options

A loop reads options and, behind some of them, values.  It looks for the next value
without asking whether there is one.
-/

namespace MiniRudis.Lib

variable {ι ε σ : Type}

/-- Read the value of an option: what it changes in the settings. -/
abbrev ValueReader (ι ε σ : Type) := ι → Except ε (σ → σ)

/-- What an option does: it sets a flag, or reads the values behind it. -/
structure OptionRule (ι ε σ : Type) where
  flag : σ → σ
  values : List (ValueReader ι ε σ)

def OptionRule.ofFlag (flag : σ → σ) : OptionRule ι ε σ := ⟨flag, []⟩

def OptionRule.ofValues (values : List (ValueReader ι ε σ)) : OptionRule ι ε σ := ⟨id, values⟩

/-- The loop, with the readers of the values that are `pending`; `missing` is how it
fails without them, `unknown` how it refuses an option. -/
def optionLoop (rules : ι → Option (OptionRule ι ε σ)) (unknown missing : ε) :
    List (ValueReader ι ε σ) → List ι → σ → Except ε σ
  | [], [], s => .ok s
  | _ :: _, [], _ => .error missing
  | read :: pending, arg :: args, s => do
      let set ← read arg
      optionLoop rules unknown missing pending args (set s)
  | [], arg :: args, s =>
      match rules arg with
      | none => .error unknown
      | some rule => optionLoop rules unknown missing rule.values args (rule.flag s)

theorem optionLoop_value {rules : ι → Option (OptionRule ι ε σ)} {opt : ι}
    {read : ValueReader ι ε σ} (h : rules opt = some (.ofValues [read])) (unknown missing : ε) (v : ι)
    (s : σ) : optionLoop rules unknown missing [] [opt, v] s = (read v).map fun set => set s := by
  rw [optionLoop, h]
  show optionLoop rules unknown missing [read] [v] s = _
  rw [optionLoop]
  cases read v with
  | error e => rfl
  | ok set =>
      show optionLoop rules unknown missing [] [] (set s) = .ok (set s)
      rw [optionLoop]

section
variable {E : ε → Prop} {rules : ι → Option (OptionRule ι ε σ)} {unknown missing : ε}

/-- What flags and readers keep of the settings, the loop keeps, and how it fails is how a
reader fails, or one of its own two ways. -/
theorem optionLoop_keeps {I : σ → Prop}
    (hflags : ∀ opt rule, rules opt = some rule → ∀ s, I s → I (rule.flag s))
    (hrules : ∀ opt rule, rules opt = some rule →
      ∀ read ∈ rule.values, ∀ v, Returns (fun set => ∀ s, I s → I (set s)) E (read v))
    (hunknown : E unknown) (hmissing : E missing) (args : List ι)
    (pending : List (ValueReader ι ε σ)) {s : σ} (hs : I s)
    (hpending : ∀ read ∈ pending, ∀ v, Returns (fun set => ∀ s, I s → I (set s)) E (read v)) :
    Returns I E (optionLoop rules unknown missing pending args s) := by
  induction args generalizing pending s with
  | nil =>
      cases pending with
      | nil => exact hs
      | cons read pending => exact hmissing
  | cons arg args ih =>
      cases pending with
      | nil =>
          rw [optionLoop]
          cases hrule : rules arg with
          | none => exact hunknown
          | some rule => exact ih rule.values (hflags arg rule hrule s hs) (hrules arg rule hrule)
      | cons read pending =>
          apply (hpending read (by simp) arg).bind
          intro set hset
          exact ih pending (hset s hs) fun read hread => hpending read (List.mem_cons_of_mem _ hread)

theorem optionLoop_returns
    (hrules : ∀ opt rule, rules opt = some rule →
      ∀ read ∈ rule.values, ∀ v, Returns (fun _ => True) E (read v))
    (hunknown : E unknown) (hmissing : E missing) (args : List ι) (s : σ) :
    Returns (fun _ => True) E (optionLoop rules unknown missing [] args s) := by
  apply optionLoop_keeps (fun _ _ _ _ _ => trivial) _ hunknown hmissing args [] trivial
  · exact fun read hread => absurd hread (by simp)
  · intro opt rule hrule read hread v
    exact (hrules opt rule hrule read hread v).mono (fun _ _ _ _ => trivial) fun _ h => h

end

/-! ## Where values run out -/

def Accepted (readers : List (ValueReader ι ε σ)) (values : List ι) : Prop :=
  List.Forall₂ (fun read v => ∃ set, read v = .ok set) readers values

/-- Known options, each followed by the values it takes, all of them accepted. -/
inductive Whole (rules : ι → Option (OptionRule ι ε σ)) : List ι → Prop
  | nil : Whole rules []
  | cons {opt : ι} {values rest : List ι} {rule : OptionRule ι ε σ} (hrule : rules opt = some rule)
      (hvalues : Accepted rule.values values) (hrest : Whole rules rest) :
      Whole rules (opt :: values ++ rest)

/-- Whole options, and then one that the end of the list leaves without a value. -/
def Truncated (rules : ι → Option (OptionRule ι ε σ)) (args : List ι) : Prop :=
  ∃ whole opt values rule, args = whole ++ opt :: values ∧ Whole rules whole ∧
    rules opt = some rule ∧ values.length < rule.values.length ∧
    Accepted (rule.values.take values.length) values

/-- Whole options, and then one on one of whose values the reader fails with `e`. -/
def FailsWith (rules : ι → Option (OptionRule ι ε σ)) (e : ε) (args : List ι) : Prop :=
  ∃ whole opt rule earlier read later values v rest,
    args = whole ++ opt :: (values ++ v :: rest) ∧ Whole rules whole ∧ rules opt = some rule ∧
      rule.values = earlier ++ read :: later ∧ Accepted earlier values ∧ read v = .error e

section
variable {rules : ι → Option (OptionRule ι ε σ)} {unknown missing e : ε}
  {earlier later pending : List (ValueReader ι ε σ)} {args values : List ι}

theorem Truncated.cons {opt : ι} {rule : OptionRule ι ε σ} (hrule : rules opt = some rule)
    (hvalues : Accepted rule.values values) (h : Truncated rules args) :
    Truncated rules (opt :: values ++ args) := by
  obtain ⟨whole, last, found, last_rule, rfl, hwhole, hlast⟩ := h
  exact ⟨opt :: values ++ whole, last, found, last_rule, (List.append_assoc _ _ _).symm,
    hwhole.cons hrule hvalues, hlast⟩

theorem FailsWith.cons {opt : ι} {rule : OptionRule ι ε σ} (hrule : rules opt = some rule)
    (hvalues : Accepted rule.values values) (h : FailsWith rules e args) :
    FailsWith rules e (opt :: values ++ args) := by
  obtain ⟨whole, last, last_rule, earlier, read, later, found, v, rest, rfl, hwhole, hlast⟩ := h
  exact ⟨opt :: values ++ whole, last, last_rule, earlier, read, later, found, v, rest,
    (List.append_assoc _ _ _).symm, hwhole.cons hrule hvalues, hlast⟩

theorem optionLoop_values (rules : ι → Option (OptionRule ι ε σ)) (unknown missing : ε)
    (h : Accepted earlier values) (later : List (ValueReader ι ε σ))
    (rest : List ι) (s : σ) :
    ∃ s', optionLoop rules unknown missing (earlier ++ later) (values ++ rest) s =
      optionLoop rules unknown missing later rest s' := by
  induction h generalizing s with
  | nil => exact ⟨s, rfl⟩
  | @cons read v earlier values hread _ ih =>
      obtain ⟨set, hset⟩ := hread
      obtain ⟨s', hs'⟩ := ih (set s)
      refine ⟨s', ?_⟩
      rw [← hs', List.cons_append, List.cons_append, optionLoop, hset]
      rfl

theorem optionLoop_option {opt : ι} {rule : OptionRule ι ε σ} (hrule : rules opt = some rule)
    (args : List ι) (s : σ) :
    optionLoop rules unknown missing [] (opt :: args) s =
      optionLoop rules unknown missing rule.values args (rule.flag s) := by
  rw [optionLoop, hrule]

theorem optionLoop_whole (unknown missing : ε) {whole : List ι} (h : Whole rules whole)
    (rest : List ι) (s : σ) :
    ∃ s', optionLoop rules unknown missing [] (whole ++ rest) s =
      optionLoop rules unknown missing [] rest s' := by
  induction h generalizing s with
  | nil => exact ⟨s, rfl⟩
  | @cons opt values more rule hrule hvalues _ ih =>
      obtain ⟨s₁, h₁⟩ := optionLoop_values rules unknown missing hvalues [] (more ++ rest)
        (rule.flag s)
      obtain ⟨s₂, h₂⟩ := ih s₁
      refine ⟨s₂, ?_⟩
      rw [List.append_nil] at h₁
      rw [List.append_assoc, List.cons_append, optionLoop_option hrule, h₁, h₂]

theorem Truncated.fails (h : Truncated rules args) (s : σ) :
    optionLoop rules unknown missing [] args s = .error missing := by
  obtain ⟨whole, opt, values, rule, rfl, hwhole, hrule, hlen, hvalues⟩ := h
  obtain ⟨s₁, h₁⟩ := optionLoop_whole unknown missing hwhole
    (opt :: values) s
  obtain ⟨s₂, h₂⟩ := optionLoop_values rules unknown missing hvalues
    (rule.values.drop values.length) [] (rule.flag s₁)
  rw [List.take_append_drop, List.append_nil] at h₂
  rw [h₁, optionLoop_option hrule, h₂]
  cases hdrop : rule.values.drop values.length with
  | nil =>
      have hshort := List.drop_eq_nil_iff.mp hdrop
      omega
  | cons read pending => rfl

theorem FailsWith.fails (h : FailsWith rules e args) (s : σ) :
    optionLoop rules unknown missing [] args s = .error e := by
  obtain ⟨whole, opt, rule, earlier, read, later, values, v, rest, rfl, hwhole, hrule, hsplit,
    hvalues, hread⟩ := h
  obtain ⟨s₁, h₁⟩ := optionLoop_whole unknown missing hwhole
    (opt :: (values ++ v :: rest)) s
  obtain ⟨s₂, h₂⟩ := optionLoop_values rules unknown missing hvalues
    (read :: later) (v :: rest) (rule.flag s₁)
  rw [h₁, optionLoop_option hrule, hsplit, h₂, optionLoop, hread]
  rfl

/-- Where the loop fails for want of a value, with readers pending: behind their
values, among them, or at one of them. -/
theorem optionLoop_missing (hne : unknown ≠ missing) (args : List ι)
    (pending : List (ValueReader ι ε σ)) (s : σ)
    (h : optionLoop rules unknown missing pending args s = .error missing) :
    (∃ values rest, args = values ++ rest ∧ Accepted pending values ∧
      (Truncated rules rest ∨ FailsWith rules missing rest)) ∨
    (args.length < pending.length ∧ Accepted (pending.take args.length) args) ∨
    ∃ earlier read later values v rest, args = values ++ v :: rest ∧
      pending = earlier ++ read :: later ∧ Accepted earlier values ∧ read v = .error missing := by
  induction args generalizing pending s with
  | nil =>
      cases pending with
      | nil => exact absurd h (by simp [optionLoop])
      | cons read pending => exact Or.inr (Or.inl ⟨by simp, .nil⟩)
  | cons arg args ih =>
      cases pending with
      | nil =>
          left
          refine ⟨[], arg :: args, rfl, .nil, ?_⟩
          cases hrule : rules arg with
          | none =>
              rw [optionLoop, hrule] at h
              exact absurd (Except.error.inj h) hne
          | some rule =>
              rw [optionLoop_option hrule] at h
              obtain ⟨values, rest, rfl, hvalues, hrest⟩ | ⟨hlen, hvalues⟩ |
                ⟨earlier, read, later, values, v, rest, rfl, hsplit, hvalues, hread⟩ := ih _ _ h
              · exact hrest.imp (Truncated.cons hrule hvalues) (FailsWith.cons hrule hvalues)
              · exact Or.inl ⟨[], arg, args, rule, rfl, .nil, hrule, hlen, hvalues⟩
              · exact Or.inr ⟨[], arg, rule, earlier, read, later, values, v, rest, rfl, .nil, hrule,
                  hsplit, hvalues, hread⟩
      | cons read pending =>
          rw [optionLoop] at h
          cases hread : read arg with
          | error e =>
              rw [hread] at h
              obtain rfl := Except.error.inj h
              exact Or.inr (Or.inr ⟨[], read, pending, [], arg, args, rfl, rfl, .nil, hread⟩)
          | ok set =>
              rw [hread] at h
              obtain ⟨values, rest, rfl, hvalues, hrest⟩ | ⟨hlen, hvalues⟩ |
                ⟨earlier, read', later, values, v, rest, rfl, rfl, hvalues, hfail⟩ := ih _ _ h
              · exact Or.inl ⟨arg :: values, rest, rfl, .cons ⟨set, hread⟩ hvalues, hrest⟩
              · refine Or.inr (Or.inl ⟨?_, .cons ⟨set, hread⟩ hvalues⟩)
                rw [List.length_cons, List.length_cons]
                omega
              · exact Or.inr (Or.inr ⟨read :: earlier, read', later, arg :: values, v, rest, rfl, rfl,
                  .cons ⟨set, hread⟩ hvalues, hfail⟩)

/-- The loop fails for want of a value exactly on truncated lists, unless a reader
fails in that way. -/
theorem optionLoop_missing_iff (hne : unknown ≠ missing) (args : List ι) (s : σ) :
    optionLoop rules unknown missing [] args s = .error missing ↔
      Truncated rules args ∨ FailsWith rules missing args := by
  constructor
  · intro h
    obtain ⟨values, rest, rfl, hvalues, hrest⟩ | ⟨hlen, -⟩ |
      ⟨earlier, read, later, values, v, rest, -, hsplit, -⟩ := optionLoop_missing hne args [] s h
    · cases hvalues
      exact hrest
    · exact absurd hlen (by simp)
    · exact absurd hsplit (by simp)
  · rintro (h | h)
    · exact h.fails s
    · exact h.fails s

end

end MiniRudis.Lib
