import MiniRudis.Db.Filled
import MiniRudis.Db.Scores

/-!
# Updates that fail

`str_incr_float`, `hincrbyfloat`, `zincrby` and `zadd` change the database before they
know whether they will succeed.
-/

namespace MiniRudis

variable {α : Type}

/-! ## The law -/

inductive FloatUpdate : Type → Type
  | incrFloat (delta : F64) : FloatUpdate F64
  | hincrbyfloat (field : String) (delta : F64) : FloatUpdate F64
  | zincrby (delta : F64) (member : String) : FloatUpdate F64
  | zadd (members : List (F64 × String)) (flags : ZAddFlags) : FloatUpdate Int

namespace FloatUpdate

def op : FloatUpdate α → TypedOp α
  | incrFloat delta => .incrFloat delta
  | hincrbyfloat field delta => .hincrbyfloat field delta
  | zincrby delta member => .zincrby delta member
  | zadd members flags => .zadd members flags

/-- What a success has stored: the text of a finite number, where the number is stored as
a text. -/
def Stores : FloatUpdate α → α → Cell → Prop
  | incrFloat _, r, c => r.isFinite ∧ c.obj = some (.str (asBytes (F64.formatFloat r)))
  | hincrbyfloat field _, r, c =>
      r.isFinite ∧ ∃ h : StrMap Bytes, c.obj = some (.hash h) ∧
        h[field]? = some (asBytes (F64.formatFloat r))
  | zincrby _ _, _, _ => True
  | zadd _ _, _, _ => True

structure CellLaw (u : FloatUpdate α) (c : Cell) (r : Outcome α × Cell) : Prop where
  unchanged : ∀ e, r.1 = .error e → c.Same r.2
  finite : ∀ reply, r.1 = .ok reply → u.Stores reply r.2

/-- The states in which the law holds. -/
def Lawful : FloatUpdate α → Cell → Prop
  | incrFloat delta, c => c.obj = none → delta.isFinite
  | hincrbyfloat field delta, c =>
      ∀ h, c.valueAs hashKind.toKind ∅ = some h →
        match h[field]? with
        | none => delta.isFinite
        | some v => ∀ n, Str.number v = some n → n.Addable delta
  | zincrby delta _, c => c.obj = none → isNaN delta = false
  | zadd members flags, c =>
      (members.any fun p => isNaN p.1) → c.obj ≠ none ∧
        ∀ z, c.obj = some (.zset z) → ∀ member : String,
          flags.Unmoved z.scores[member]? (scoresOf member (beforeNaN members))

end FloatUpdate

/-- A failure leaves the database as it was, and a success stores a finite number. -/
structure Database.FailedUpdateLaw (before : Database) (db : Nat) (key : String) (u : FloatUpdate α)
    (r : Outcome α × Database) : Prop where
  unchanged : ∀ e, r.1 = .error e → before.Same r.2
  finite : ∀ reply, r.1 = .ok reply → u.Stores reply (r.2.cellAt db key)

/-! ## The four methods -/

namespace FloatUpdate

variable (env : Env) (c : Cell)

theorem incrFloat_law (delta : F64) :
    (incrFloat delta).CellLaw c (((incrFloat delta).op.access env).onCell env.now c) ↔
      (incrFloat delta).Lawful c := by
  have hfails := Access.create_failure_iff strKind Str.zeroText (Str.incrFloat delta) env.now c
  have hzero : (∀ e, (Str.incrFloat delta Str.zeroText).1 ≠ .error e) ↔ delta.isFinite = true := by
    rw [Str.incrFloat, Str.incrFloatWith_zeroText, F64.isFinite]
    cases isNaN delta <;> cases delta.isInfinite <;> simp
  have hkeep : ∀ v, c.obj = some (strKind.inj v) → ∀ e, (Str.incrFloat delta v).1 = .error e →
      (strKind.inj v).Same (strKind.inj (Str.incrFloat delta v).2) := by
    intro v _ e he
    have hsame : (Str.incrFloat delta v).2 = v := Str.incrFloatWith_error he
    rw [hsame]
    exact RudisObject.Same.refl _
  rw [hzero, and_iff_left hkeep] at hfails
  refine ⟨fun hlaw => hfails.mp hlaw.unchanged, fun hlawful => ⟨hfails.mpr hlawful, ?_⟩⟩
  intro r hr
  obtain ⟨v, -, hok, hobj⟩ := Access.create_ok hr
  have hwritten : (Str.incrFloat delta v).2 = asBytes (F64.formatFloat r) :=
    Str.incrFloatWith_written hok
  rw [hwritten] at hobj
  obtain ⟨n, -, -, href⟩ := Str.incrFloatWith_ok.mp hok
  rw [Bool.or_eq_false_iff] at href
  refine ⟨?_, hobj⟩
  rw [F64.isFinite, href.1, href.2]
  rfl

theorem zincrby_law (delta : F64) (member : String) :
    (zincrby delta member).CellLaw c (((zincrby delta member).op.access env).onCell env.now c) ↔
      (zincrby delta member).Lawful c := by
  have hfails := Access.create_failure_iff zsetKind.toKind .new
    (ZSetInner.zincrby (env.levels 0) delta member) env.now c
  have hnew : (∀ e, (ZSetInner.zincrby (env.levels 0) delta member .new).1 ≠ .error e) ↔
      isNaN delta = false := by
    rw [ZSetInner.zincrby, ZSetInner.first_score]
    cases isNaN delta <;> simp [err]
  have hkeep : ∀ z, c.obj = some (zsetKind.inj z) → ∀ e,
      (ZSetInner.zincrby (env.levels 0) delta member z).1 = .error e →
      (zsetKind.inj z).Same (zsetKind.inj (ZSetInner.zincrby (env.levels 0) delta member z).2) := by
    intro z _ e he
    unfold ZSetInner.zincrby at he ⊢
    dsimp only at he ⊢
    split
    · exact RudisObject.Same.refl _
    · rename_i hnan
      rw [if_neg hnan] at he
      exact absurd he (by simp)
  rw [hnew, and_iff_left hkeep] at hfails
  exact ⟨fun hlaw => hfails.mp hlaw.unchanged,
    fun hlawful => ⟨hfails.mpr hlawful, fun _ _ => trivial⟩⟩

theorem zadd_law (hz : ∀ z, c.obj = some (.zset z) → z.Coupled) (members : List (F64 × String))
    (flags : ZAddFlags) :
    (zadd members flags).CellLaw c (((zadd members flags).op.access env).onCell env.now c) ↔
      (zadd members flags).Lawful c := by
  have hfails := Access.create_failure_iff zsetKind.toKind .new
    (ZSetInner.zadd flags env.levels members) env.now c
  have herr : ∀ z, (∃ e, (ZSetInner.zadd flags env.levels members z).1 = .error e) ↔
      members.any fun p => isNaN p.1 :=
    ZSetInner.zaddLoop_fails_iff flags env.levels 0 members 0
  have hnew : (∀ e, (ZSetInner.zadd flags env.levels members .new).1 ≠ .error e) ↔
      ¬ (members.any fun p => isNaN p.1) := by
    rw [← herr .new, not_exists]
  have hsame : ∀ z, c.obj = some (.zset z) →
      ((RudisObject.zset z).Same (.zset (ZSetInner.zadd flags env.levels members z).2) ↔
        ∀ member : String,
          flags.Unmoved z.scores[member]? (scoresOf member (beforeNaN members))) := by
    intro z hobj
    have hcoupled := hz z hobj
    have hafter : (ZSetInner.zadd flags env.levels members z).2.Coupled :=
      ZSetInner.zaddLoop_coupled hcoupled flags env.levels 0 members 0
    rw [hcoupled.same_iff hafter]
    refine forall_congr' fun member => ?_
    rw [ZSetInner.zadd, ZSetInner.zaddLoop_scores]
    exact ZAddFlags.overwrites_iff (fun _ => hcoupled.score_not_nan) scoresOf_beforeNaN
  rw [hnew] at hfails
  constructor
  · intro hlaw hnan
    obtain ⟨hnone, hkept⟩ := hfails.mp hlaw.unchanged
    refine ⟨fun hobj => hnone hobj hnan, fun z hobj => ?_⟩
    obtain ⟨e, he⟩ := (herr z).mpr hnan
    exact (hsame z hobj).mp (hkept z hobj e he)
  · intro hlawful
    refine ⟨hfails.mpr ⟨fun hobj hnan => (hlawful hnan).1 hobj, ?_⟩, fun _ _ => trivial⟩
    intro z hobj e he
    exact (hsame z hobj).mpr ((hlawful ((herr z).mp ⟨e, he⟩)).2 z hobj)

/-- `hincrbyfloat` on one hash: a new field takes the amount itself. -/
theorem hincrbyfloat_field (field : String) (delta : F64) (h : StrMap Bytes) :
    ((h[field]? = none → isNaN delta = false) ∧
      ∀ r, (Hash.hincrbyfloat field delta h).1 = .ok r → r.isFinite = true) ↔
    match h[field]? with
    | none => delta.isFinite = true
    | some v => ∀ n, Str.number v = some n → n.Addable delta := by
  have hreply : ∀ r, (Hash.hincrbyfloat field delta h).1 = .ok r ↔
      ∃ n, Str.number (h[field]?.getD Str.zeroText) = some n ∧ n.add delta = r ∧ isNaN r = false :=
    fun r => Str.incrFloatWith_ok
  simp only [hreply, forall_exists_index, and_imp]
  cases h[field]? with
  | none =>
      dsimp only [Option.getD_none]
      rw [Str.number_zeroText]
      constructor
      · rintro ⟨hnum, hfinite⟩
        exact hfinite delta F64.zero rfl (F64.zero_add delta) (hnum rfl)
      · intro hfinite
        refine ⟨fun _ => (F64.isFinite_iff.mp hfinite).1, ?_⟩
        rintro _ n hn rfl -
        rwa [← Option.some.inj hn, F64.zero_add]
  | some v =>
      dsimp only [Option.getD_some]
      constructor
      · rintro ⟨-, hfinite⟩ n hn
        rw [← F64.isInfinite_add]
        cases hnan : isNaN (n.add delta) with
        | true => exact F64.isInfinite_of_isNaN hnan
        | false => exact (F64.isFinite_iff.mp (hfinite _ n hn rfl hnan)).2
      · intro hadd
        refine ⟨by simp, ?_⟩
        rintro _ n hn rfl hnan
        exact F64.isFinite_iff.mpr ⟨hnan, (F64.isInfinite_add n delta).mpr (hadd n hn)⟩

theorem hincrbyfloat_law (field : String) (delta : F64) :
    (hincrbyfloat field delta).CellLaw c
        (((hincrbyfloat field delta).op.access env).onCell env.now c) ↔
      (hincrbyfloat field delta).Lawful c := by
  have hfails := Hash.create_field_failure_iff (fun _ _ => Str.incrFloatWith_error) field env.now c
    (f := Str.incrFloatWith (fun r => isNaN r) "ERR resulting score is not a number (NaN)" delta)
  rw [Str.incrFloatWith_zeroText] at hfails
  constructor
  · intro hlaw h hvalue
    rw [← hincrbyfloat_field]
    refine ⟨hfails.mp hlaw.unchanged h hvalue, fun r hr => ?_⟩
    have hreply :
        ((Access.create hashKind.toKind ∅ (Hash.hincrbyfloat field delta)).onCell env.now c).1 =
          .ok r := by
      rw [Access.onCell_create, hvalue]
      exact hr
    exact (hlaw.finite r hreply).1
  · intro hlawful
    have hfield := fun h hvalue => (hincrbyfloat_field field delta h).mpr (hlawful h hvalue)
    refine ⟨hfails.mpr fun h hvalue => (hfield h hvalue).1, fun r hr => ?_⟩
    obtain ⟨h, hvalue, hok, hobj⟩ := Access.create_ok hr
    refine ⟨(hfield h hvalue).2 r hok, _, hobj, ?_⟩
    rw [Hash.hincrbyfloat, Hash.updateField, Std.ExtTreeMap.getElem?_insert_self]
    exact congrArg some (Str.incrFloatWith_written hok)

theorem cell_law_iff (hz : ∀ z, c.obj = some (.zset z) → z.Coupled) (u : FloatUpdate α) :
    u.CellLaw c ((u.op.access env).onCell env.now c) ↔ u.Lawful c := by
  cases u with
  | incrFloat delta => exact incrFloat_law env c delta
  | hincrbyfloat field delta => exact hincrbyfloat_law env c field delta
  | zincrby delta member => exact zincrby_law env c delta member
  | zadd members flags => exact zadd_law env c hz members flags

end FloatUpdate

namespace Database

variable {self : Database} {db : Nat} {key : String}

theorem failed_update_law (u : FloatUpdate α) (env : Env) (hdb : db < self.dbs.length)
    (hz : ∀ z, (self.cellAt db key).obj = some (.zset z) → z.Coupled) :
    self.FailedUpdateLaw db key u (u.op.run env db key self) ↔ u.Lawful (self.cellAt db key) := by
  have hrun := (KeyOp.typed u.op).run_cellAt env key hdb
  rw [← u.cell_law_iff env _ hz]
  constructor
  · rintro ⟨hunchanged, hfinite⟩
    rw [← KeyOp.run, hrun] at hunchanged hfinite
    rw [cellAt_putCell hdb] at hfinite
    exact ⟨fun e he => (same_putCell_iff hdb key _).mp (hunchanged e he), hfinite⟩
  · intro hlaw
    rw [← KeyOp.run, hrun]
    refine ⟨fun e he => (same_putCell_iff hdb key _).mpr (hlaw.unchanged e he), ?_⟩
    rw [cellAt_putCell hdb]
    exact hlaw.finite

/-- **A failed update of a float changes nothing**, and no text of a number becomes infinite,
exactly if the entry is there before a failure, and the pairs that `ZADD` reads before a NaN
leave every score where it was. -/
theorem failed_update_law_iff (u : FloatUpdate α) (env : Env)
    (hz : ∀ z, (self.cellAt db key).obj = some (.zset z) → z.Coupled) :
    self.FailedUpdateLaw db key u (u.op.run env db key self) ↔
      (db < self.dbs.length → u.Lawful (self.cellAt db key)) := by
  by_cases hdb : db < self.dbs.length
  · rw [forall_prop_of_true hdb]
    exact failed_update_law u env hdb hz
  · have hrun := (KeyOp.typed u.op).run_no_db env key hdb
    rw [← KeyOp.run, hrun]
    refine iff_of_true ⟨fun _ _ => Same.refl self, ?_⟩ fun h => absurd h hdb
    exact fun reply hok => absurd hok (by simp [err])

/-- The score of `a` is raised before the score of `b` turns out to be no number. -/
theorem failed_update_law_raised :
    let u := FloatUpdate.zadd [(.posInf, "a"), (.nan, "b")] ⟨false, false, false, false, false⟩
    (withZSet .twoMembers).FailedUpdateLaw 0 "k" u (u.op.run (.at 0) 0 "k" (withZSet .twoMembers)) ↔
      (0 < (withZSet .twoMembers).dbs.length → u.Lawful ((withZSet .twoMembers).cellAt 0 "k")) := by
  intro u
  apply failed_update_law_iff u (.at 0)
  intro z hobj
  have hlive := (Cell.live_eq_some (withZSet_live .twoMembers)).2
  rw [hlive] at hobj
  obtain rfl := RudisObject.zset.inj (Option.some.inj hobj)
  exact ZSetInner.twoMembers_coupled

/-- An infinite amount added to nothing is refused, and leaves a key behind. -/
theorem failed_update_creates_key :
    ¬ ∀ (α : Type) (u : FloatUpdate α) (env : Env) (self : Database) (db : Nat) (key : String),
      (∀ z, (self.cellAt db key).obj = some (.zset z) → z.Coupled) →
      self.FailedUpdateLaw db key u (u.op.run env db key self) := by
  intro hclaim
  have habsent : (Database.new 1).cellAt 0 "k" = .absent := rfl
  have hz : ∀ z, ((Database.new 1).cellAt 0 "k").obj = some (.zset z) → z.Coupled := by
    intro z hobj
    rw [habsent] at hobj
    exact absurd hobj (Option.some_ne_none _).symm
  have hlawful := (failed_update_law (.incrFloat .posInf) (.at 0) (by decide +kernel) hz).mp
    (hclaim F64 (.incrFloat .posInf) (.at 0) (Database.new 1) 0 "k" hz)
  exact Bool.false_ne_true (hlawful rfl)

end Database

end MiniRudis
