import MiniRudis.Db.Transfers
import MiniRudis.Rust.Rounding

/-!
# Entries that are created first

`entry(key).or_insert(..)` creates the key, and `entry(field).or_insert_with(..)` the field,
before the update of the value is known to succeed.  A failure leaves no trace exactly if
the entry was there.
-/

namespace MiniRudis

variable {α τ : Type}

/-! ## Equal states -/

/-- The objects differ at most in the layout of a skip list. -/
def RudisObject.Same : RudisObject → RudisObject → Prop
  | zset z, zset z' => z.scores = z'.scores ∧ z.sl.iter = z'.sl.iter
  | o, o' => o = o'

theorem RudisObject.Same.refl (o : RudisObject) : o.Same o := by
  cases o with
  | zset z => exact ⟨rfl, rfl⟩
  | _ => rfl

def Cell.Same (c c' : Cell) : Prop :=
  c.deadline = c'.deadline ∧ Option.Rel RudisObject.Same c.obj c'.obj

theorem Cell.Same.refl (c : Cell) : c.Same c := by
  refine ⟨rfl, ?_⟩
  cases c.obj with
  | none => exact Option.Rel.none
  | some o => exact Option.Rel.some (RudisObject.Same.refl o)

theorem Cell.same_obj_iff {c : Cell} {o o' : RudisObject} (hobj : c.obj = some o) :
    c.Same { c with obj := some o' } ↔ o.Same o' := by
  rw [Same, hobj, Option.rel_some_some]
  exact and_iff_right rfl

/-- No key has come, gone or changed. -/
structure Database.Same (before after : Database) : Prop where
  length : before.dbs.length = after.dbs.length
  cells : ∀ db key, (before.cellAt db key).Same (after.cellAt db key)

namespace Database

variable {self : Database} {db : Nat}

theorem Same.refl (self : Database) : self.Same self :=
  ⟨rfl, fun db key => Cell.Same.refl (self.cellAt db key)⟩

theorem cellAt_putCell_db {other : Nat} (hne : other ≠ db) (key name : String) (c : Cell) :
    (self.putCell db key c).cellAt other name = self.cellAt other name := by
  unfold putCell
  cases self.dbs[db]? with
  | none => rfl
  | some ldb => simp [cellAt, setDb, List.getElem?_set_ne (Ne.symm hne)]

theorem same_putCell_iff (hdb : db < self.dbs.length) (key : String) (c : Cell) :
    self.Same (self.putCell db key c) ↔ (self.cellAt db key).Same c := by
  constructor
  · intro hsame
    have hcell := hsame.cells db key
    rwa [cellAt_putCell hdb] at hcell
  · intro hcell
    refine ⟨(length_putCell self db key c).symm, fun other name => ?_⟩
    by_cases hother : other = db
    · subst hother
      by_cases hname : name = key
      · rwa [hname, cellAt_putCell hdb]
      · rw [cellAt_putCell_ne hdb hname]
        exact Cell.Same.refl _
    · rw [cellAt_putCell_db hother]
      exact Cell.Same.refl _

end Database

/-! ## An entry that is created before the update -/

/-- An update of a created entry fails without a trace exactly if there was an entry, and
the failure keeps its value. -/
theorem Access.create_failure_iff (K : Kind τ) (init : τ) (f : τ → Outcome α × τ) (now : Instant)
    (c : Cell) :
    (∀ e, ((Access.create K init f).onCell now c).1 = .error e →
      c.Same ((Access.create K init f).onCell now c).2) ↔
    (c.obj = none → ∀ e, (f init).1 ≠ .error e) ∧
      ∀ v, c.obj = some (K.inj v) → ∀ e, (f v).1 = .error e → (K.inj v).Same (K.inj (f v).2) := by
  rw [onCell_create, Cell.valueAs]
  cases hobj : c.obj with
  | none =>
      dsimp only
      have hcreated : ¬ c.Same { c with obj := some (K.inj (f init).2) } := by
        rw [Cell.Same, hobj]
        exact fun hsame => by cases hsame.2
      constructor
      · exact fun hkept => ⟨fun _ e he => hcreated (hkept e he), by simp⟩
      · exact fun hnone e he => absurd he (hnone.1 rfl e)
  | some o =>
      dsimp only
      cases hproj : K.proj o with
      | none =>
          have hother : ∀ v, o ≠ K.inj v := by
            rintro v rfl
            rw [K.proj_inj] at hproj
            exact Option.some_ne_none v hproj
          constructor
          · exact fun _ => ⟨by simp, fun v hv => absurd (Option.some.inj hv) (hother v)⟩
          · exact fun _ _ _ => Cell.Same.refl c
      | some v =>
          obtain rfl := K.inj_proj hproj
          dsimp only
          rw [Cell.same_obj_iff hobj]
          constructor
          · intro hkept
            refine ⟨by simp, fun v' hv' => ?_⟩
            have hsame : v' = v := by
              have hinj := congrArg K.proj (Option.some.inj hv')
              rw [K.proj_inj, K.proj_inj] at hinj
              exact (Option.some.inj hinj).symm
            rw [hsame]
            exact hkept
          · exact fun hkept => hkept.2 v rfl

theorem Access.create_ok {K : Kind τ} {init : τ} {f : τ → Outcome α × τ} {now : Instant} {c : Cell}
    {r : α} (h : ((Access.create K init f).onCell now c).1 = .ok r) :
    ∃ v, c.valueAs K init = some v ∧ (f v).1 = .ok r ∧
      ((Access.create K init f).onCell now c).2.obj = some (K.inj (f v).2) := by
  rw [onCell_create] at h ⊢
  cases hv : c.valueAs K init with
  | none =>
      rw [hv] at h
      exact absurd h (by simp [err])
  | some v =>
      rw [hv] at h
      exact ⟨v, rfl, h, rfl⟩

/-! ## Stored numbers -/

namespace Str

def number (v : Bytes) : Option F64 := (fromUtf8 v).bind fun s => F64.parse (trim s)

theorem number_zeroText : number zeroText = some F64.zero := by decide +kernel

variable {refused : F64 → Bool} {msg : String} {delta : F64} {v : Bytes}

theorem incrFloatWith_eq : incrFloatWith refused msg delta v =
    match number v with
    | none => (err .notFloat, v)
    | some n =>
        if refused (n.add delta) then (err (.generic msg), v)
        else (.ok (n.add delta), asBytes (F64.formatFloat (n.add delta))) := rfl

theorem incrFloatWith_error {e : Fault} (h : (incrFloatWith refused msg delta v).1 = .error e) :
    (incrFloatWith refused msg delta v).2 = v := by
  rw [incrFloatWith_eq] at h ⊢
  cases hn : number v with
  | none => rfl
  | some n =>
      rw [hn] at h
      dsimp only at h ⊢
      split
      · rfl
      · rename_i hok
        rw [if_neg hok] at h
        exact absurd h (by simp)

theorem incrFloatWith_ok {r : F64} :
    (incrFloatWith refused msg delta v).1 = .ok r ↔
      ∃ n, number v = some n ∧ n.add delta = r ∧ refused r = false := by
  rw [incrFloatWith_eq]
  cases number v with
  | none => simp [err]
  | some n =>
      dsimp only
      cases href : refused (n.add delta) with
      | true =>
          rw [if_pos rfl]
          simp only [err, reduceCtorEq, Option.some.injEq, false_iff, not_exists, not_and]
          rintro _ rfl rfl
          simp [href]
      | false =>
          rw [if_neg Bool.false_ne_true]
          constructor
          · intro hr
            obtain rfl := Except.ok.inj hr
            exact ⟨n, rfl, rfl, href⟩
          · rintro ⟨_, hn, rfl, -⟩
            rw [Option.some.inj hn]

theorem incrFloatWith_written {r : F64} (h : (incrFloatWith refused msg delta v).1 = .ok r) :
    (incrFloatWith refused msg delta v).2 = asBytes (F64.formatFloat r) := by
  obtain ⟨n, hn, rfl, href⟩ := incrFloatWith_ok.mp h
  rw [incrFloatWith_eq, hn]
  dsimp only
  rw [href]
  rfl

theorem incrFloatWith_zeroText :
    (∀ e, (incrFloatWith refused msg delta zeroText).1 ≠ .error e) ↔ refused delta = false := by
  rw [incrFloatWith_eq, number_zeroText]
  dsimp only
  rw [F64.zero_add]
  cases refused delta <;> simp [err]

end Str

namespace Hash

theorem insert_getD_iff (h : StrMap Bytes) (field : String) (d : Bytes) :
    h.insert field (h[field]?.getD d) = h ↔ (h[field]?).isSome := by
  constructor
  · intro hsame
    rw [← hsame]
    simp
  · intro hsome
    obtain ⟨v, hv⟩ := Option.isSome_iff_exists.mp hsome
    apply Std.ExtTreeMap.ext_getElem?
    intro name
    rw [hv, Std.ExtTreeMap.getElem?_insert]
    by_cases heq : field = name
    · simp [← heq, hv]
    · simp [heq]

variable {f : Bytes → Outcome α × Bytes}

/-- A failure on a field leaves the hash alone exactly if the field was there. -/
theorem updateField_failure_iff (hkeep : ∀ v e, (f v).1 = .error e → (f v).2 = v) (field : String)
    (h : StrMap Bytes) :
    (∀ e, (updateField field f h).1 = .error e → (updateField field f h).2 = h) ↔
      (h[field]? = none → ∀ e, (f Str.zeroText).1 ≠ .error e) := by
  have hreply : (updateField field f h).1 = (f (h[field]?.getD Str.zeroText)).1 := rfl
  have hafter : (updateField field f h).2 =
      h.insert field (f (h[field]?.getD Str.zeroText)).2 := rfl
  rw [hreply, hafter]
  constructor
  · intro hkept hnone e he
    have hsame := hkept e (by rwa [hnone])
    rw [hkeep _ e (by rwa [hnone]), insert_getD_iff, hnone] at hsame
    exact Bool.false_ne_true hsame
  · intro hfails e he
    rw [hkeep _ e he, insert_getD_iff]
    by_contra hnone
    rw [Option.not_isSome_iff_eq_none] at hnone
    rw [hnone] at he
    exact hfails hnone e he

theorem create_field_failure_iff (hkeep : ∀ v e, (f v).1 = .error e → (f v).2 = v) (field : String)
    (now : Instant) (c : Cell) :
    (∀ e, ((Access.create hashKind.toKind ∅ (updateField field f)).onCell now c).1 = .error e →
      c.Same ((Access.create hashKind.toKind ∅ (updateField field f)).onCell now c).2) ↔
    ∀ h, c.valueAs hashKind.toKind ∅ = some h → h[field]? = none →
      ∀ e, (f Str.zeroText).1 ≠ .error e := by
  have hempty : (updateField field f ∅).1 = (f Str.zeroText).1 := by simp [updateField]
  rw [Access.create_failure_iff, hempty]
  constructor
  · rintro ⟨hnone, hsome⟩ h hvalue
    obtain ⟨hobj, rfl⟩ | hobj := Cell.valueAs_eq_some.mp hvalue
    · exact fun _ => hnone hobj
    · rw [← updateField_failure_iff hkeep]
      intro e he
      exact (RudisObject.hash.inj (hsome h hobj e he)).symm
  · intro hfails
    constructor
    · exact fun hobj => hfails ∅ (Cell.valueAs_eq_some.mpr (Or.inl ⟨hobj, rfl⟩)) (by simp)
    · intro h hobj e he
      have hsame := (updateField_failure_iff hkeep field h).mpr
        (hfails h (Cell.valueAs_eq_some.mpr (Or.inr hobj))) e he
      rw [hsame]
      exact RudisObject.Same.refl _

end Hash

end MiniRudis
