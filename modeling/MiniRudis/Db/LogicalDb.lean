import MiniRudis.Db.Object
import MiniRudis.Rust.Time
import MiniRudis.Lib.Local

/-!
# One logical database

`LogicalDb` pairs a data map with a map of deadlines.  Its entry for a key is a
`Cell`, and each method on one key is a function of that cell.
-/

namespace MiniRudis

structure LogicalDb where
  data : StrMap RudisObject
  expiry : StrMap Instant

namespace LogicalDb

def empty : LogicalDb := ⟨∅, ∅⟩

def get (self : LogicalDb) (now : Instant) (key : String) : Option RudisObject :=
  match self.expiry[key]? with
  | some exp => if exp ≤ now then none else self.data[key]?
  | none => self.data[key]?

def isExpired (self : LogicalDb) (now : Instant) (key : String) : Bool :=
  match self.expiry[key]? with
  | some exp => decide (exp ≤ now)
  | none => false

/-- `get_mut`: the object, and the database in which an expired key is purged. -/
def getMut (self : LogicalDb) (now : Instant) (key : String) : Option RudisObject × LogicalDb :=
  if self.isExpired now key then
    (none, { data := self.data.erase key, expiry := self.expiry.erase key })
  else (self.data[key]?, self)

def remove (self : LogicalDb) (key : String) : Option RudisObject × LogicalDb :=
  (self.data[key]?, { data := self.data.erase key, expiry := self.expiry.erase key })

def insert (self : LogicalDb) (key : String) (value : RudisObject) : LogicalDb where
  data := self.data.insert key value
  expiry := self.expiry.erase key

/-- A write through a reference into the data map. -/
def store (self : LogicalDb) (key : String) (value : RudisObject) : LogicalDb :=
  { self with data := self.data.insert key value }

def setExpiryAt (self : LogicalDb) (key : String) (at_ : Instant) : Bool × LogicalDb :=
  if key ∈ self.data then (true, { self with expiry := self.expiry.insert key at_ })
  else (false, self)

def setExpiry (self : LogicalDb) (now : Instant) (key : String) (duration : Duration) :
    Outcome Bool × LogicalDb :=
  if key ∈ self.data then
    match addDuration now duration with
    | .ok exp => (.ok true, { self with expiry := self.expiry.insert key exp })
    | .error e => (.error e, self)
  else (.ok false, self)

def ttlMs (self : LogicalDb) (now : Instant) (key : String) : Option Int :=
  if key ∈ self.data then
    match self.expiry[key]? with
    | none => some (-1)
    | some exp =>
        if exp ≤ now then some (-2)
        else some (Duration.asMillis (exp - now).toNat)
  else some (-2)

def persist (self : LogicalDb) (key : String) : Bool × LogicalDb :=
  (self.expiry[key]?.isSome, { self with expiry := self.expiry.erase key })

def expiredKeys (self : LogicalDb) (now : Instant) : List String :=
  (self.expiry.toList.filter fun p => decide (p.2 ≤ now)).map Prod.fst

def evictExpired (self : LogicalDb) (now : Instant) : LogicalDb :=
  (self.expiredKeys now).foldl
    (fun ldb key => { data := ldb.data.erase key, expiry := ldb.expiry.erase key }) self

end LogicalDb

/-! ## Access patterns

The methods on values reach them in one of four ways. -/

inductive Access : Type → Type 1
  /-- `match ldb.get(key) { None => Ok(absent), Some(X(v)) => f(v), _ => Err(WrongType) }` -/
  | read {α τ : Type} (K : Kind τ) (absent : α) (f : τ → Outcome α) : Access α
  /-- The same through `get_mut`, where `f` may change the value. -/
  | modify {α τ : Type} (K : Kind τ) (absent : Outcome α) (f : τ → Outcome α × τ) : Access α
  /-- `data.entry(key).or_insert(init)`, then `f` on the value. -/
  | create {α τ : Type} (K : Kind τ) (init : τ) (f : τ → Outcome α × τ) : Access α
  /-- `data.get_mut(key)`, and `ldb.remove(key)` when `f` has left the value empty. -/
  | inPlace {α τ : Type} (K : Aggregate τ) (absent : α) (f : τ → Outcome α × τ) : Access α

def Access.kindName {α : Type} : Access α → String
  | .read K _ _ => K.name
  | .modify K _ _ => K.name
  | .create K _ _ => K.name
  | .inPlace K _ _ => K.name

namespace LogicalDb

variable {α τ : Type}

def readAs (K : Kind τ) (absent : α) (f : τ → Outcome α) (now : Instant) (key : String)
    (self : LogicalDb) : Outcome α :=
  match self.get now key with
  | none => .ok absent
  | some o =>
      match K.proj o with
      | some v => f v
      | none => err .wrongType

def modifyAs (K : Kind τ) (absent : Outcome α) (f : τ → Outcome α × τ) (now : Instant)
    (key : String) (self : LogicalDb) : Outcome α × LogicalDb :=
  match self.getMut now key with
  | (none, ldb) => (absent, ldb)
  | (some o, ldb) =>
      match K.proj o with
      | some v => ((f v).1, ldb.store key (K.inj (f v).2))
      | none => (err .wrongType, ldb)

def createAs (K : Kind τ) (init : τ) (f : τ → Outcome α × τ) (key : String)
    (self : LogicalDb) : Outcome α × LogicalDb :=
  match self.data[key]? with
  | none => ((f init).1, self.store key (K.inj (f init).2))
  | some o =>
      match K.proj o with
      | some v => ((f v).1, self.store key (K.inj (f v).2))
      | none => (err .wrongType, self)

def inPlaceAs (K : Aggregate τ) (absent : α) (f : τ → Outcome α × τ) (key : String)
    (self : LogicalDb) : Outcome α × LogicalDb :=
  match self.data[key]? with
  | none => (.ok absent, self)
  | some o =>
      match K.proj o with
      | none => (err .wrongType, self)
      | some v =>
          match f v with
          | (.error e, v) => (.error e, self.store key (K.inj v))
          | (.ok r, v) =>
              if K.isEmpty v then (.ok r, ((self.store key (K.inj v)).remove key).2)
              else (.ok r, self.store key (K.inj v))

end LogicalDb

def Access.run {α : Type} (now : Instant) (key : String) (self : LogicalDb) :
    Access α → Outcome α × LogicalDb
  | .read K absent f => (self.readAs K absent f now key, self)
  | .modify K absent f => self.modifyAs K absent f now key
  | .create K init f => self.createAs K init f key
  | .inPlace K absent f => self.inPlaceAs K absent f key

/-! ## Cells -/

@[ext] structure Cell where
  obj : Option RudisObject
  deadline : Option Instant

namespace Cell

def absent : Cell := ⟨none, none⟩

def expired (c : Cell) (now : Instant) : Bool :=
  match c.deadline with
  | some exp => decide (exp ≤ now)
  | none => false

def live (c : Cell) (now : Instant) : Option RudisObject :=
  if c.expired now then none else c.obj

@[simp] theorem obj_absent : absent.obj = none := rfl

@[simp] theorem live_absent (now : Instant) : absent.live now = none := rfl

theorem live_eq_some {c : Cell} {now : Instant} {o : RudisObject} (h : c.live now = some o) :
    c.expired now = false ∧ c.obj = some o := by
  unfold live at h
  cases hexp : c.expired now with
  | true => simp [hexp] at h
  | false => exact ⟨rfl, by simpa [hexp] using h⟩

end Cell

namespace LogicalDb

def cell (self : LogicalDb) (key : String) : Cell := ⟨self.data[key]?, self.expiry[key]?⟩

def putEntry {α : Type} (m : StrMap α) (key : String) : Option α → StrMap α
  | some v => m.insert key v
  | none => m.erase key

def put (self : LogicalDb) (key : String) (c : Cell) : LogicalDb where
  data := putEntry self.data key c.obj
  expiry := putEntry self.expiry key c.deadline

theorem getElem?_putEntry {α : Type} (m : StrMap α) (key other : String) (v : Option α) :
    (putEntry m key v)[other]? = if other = key then v else m[other]? := by
  cases v with
  | none =>
      rw [putEntry, Std.ExtTreeMap.getElem?_erase]
      by_cases h : other = key
      · simp [h]
      · simp [h, Ne.symm h]
  | some v =>
      rw [putEntry, Std.ExtTreeMap.getElem?_insert]
      by_cases h : other = key
      · simp [h]
      · simp [h, Ne.symm h]

@[simp] theorem cell_put (self : LogicalDb) (key : String) (c : Cell) :
    (self.put key c).cell key = c := by
  simp [cell, put, getElem?_putEntry]

theorem cell_put_ne (self : LogicalDb) {key other : String} (h : other ≠ key) (c : Cell) :
    (self.put key c).cell other = self.cell other := by
  simp [cell, put, getElem?_putEntry, h]

theorem ext_cell {a b : LogicalDb} (h : ∀ key, a.cell key = b.cell key) : a = b := by
  obtain ⟨da, ea⟩ := a
  obtain ⟨db, eb⟩ := b
  congr 1
  · exact Std.ExtTreeMap.ext_getElem? fun {key} => congrArg Cell.obj (h key)
  · exact Std.ExtTreeMap.ext_getElem? fun {key} => congrArg Cell.deadline (h key)

theorem put_eq {self ldb : LogicalDb} {key : String} {c : Cell} (hkey : ldb.cell key = c)
    (hother : ∀ other, other ≠ key → ldb.cell other = self.cell other) :
    ldb = self.put key c := by
  apply ext_cell
  intro other
  by_cases h : other = key
  · rw [h, cell_put, hkey]
  · rw [cell_put_ne self h, hother other h]

@[simp] theorem put_cell (self : LogicalDb) (key : String) : self.put key (self.cell key) = self :=
  (put_eq rfl fun _ _ => rfl).symm

@[simp] theorem put_put (self : LogicalDb) (key : String) (c c' : Cell) :
    (self.put key c).put key c' = self.put key c' := by
  apply ext_cell
  intro other
  by_cases h : other = key
  · rw [h, cell_put, cell_put]
  · rw [cell_put_ne _ h, cell_put_ne _ h, cell_put_ne _ h]

@[simp] theorem cell_empty (key : String) : empty.cell key = .absent := by
  simp [cell, empty, Cell.absent]

/-! ### The methods as functions of a cell -/

theorem get_eq (self : LogicalDb) (now : Instant) (key : String) :
    self.get now key = (self.cell key).live now := by
  cases h : self.expiry[key]? with
  | none => simp [get, Cell.live, Cell.expired, cell, h]
  | some exp => simp [get, Cell.live, Cell.expired, cell, h]

theorem isExpired_eq (self : LogicalDb) (now : Instant) (key : String) :
    self.isExpired now key = (self.cell key).expired now := rfl

theorem remove_eq (self : LogicalDb) (key : String) :
    self.remove key = ((self.cell key).obj, self.put key .absent) := by
  rfl

theorem getMut_eq (self : LogicalDb) (now : Instant) (key : String) :
    self.getMut now key =
      if (self.cell key).expired now then (none, self.put key .absent)
      else ((self.cell key).obj, self) := rfl

theorem insert_eq (self : LogicalDb) (key : String) (value : RudisObject) :
    self.insert key value = self.put key ⟨some value, none⟩ := rfl

theorem store_eq (self : LogicalDb) (key : String) (value : RudisObject) :
    self.store key value = self.put key ⟨some value, (self.cell key).deadline⟩ := by
  apply put_eq
  · simp [cell, store]
  · intro other h
    simp [cell, store, Std.ExtTreeMap.getElem?_insert, Ne.symm h]

theorem mem_data_iff (self : LogicalDb) (key : String) :
    key ∈ self.data ↔ (self.cell key).obj.isSome := by
  simp [cell]

theorem setDeadline_eq (self : LogicalDb) (key : String) (exp : Instant) :
    ({ self with expiry := self.expiry.insert key exp } : LogicalDb) =
      self.put key ⟨(self.cell key).obj, some exp⟩ := by
  apply put_eq
  · simp [cell]
  · intro other h
    simp [cell, Std.ExtTreeMap.getElem?_insert, Ne.symm h]

theorem persist_eq (self : LogicalDb) (key : String) :
    self.persist key =
      ((self.cell key).deadline.isSome, self.put key ⟨(self.cell key).obj, none⟩) := by
  unfold persist
  congr 1
  apply put_eq
  · simp [cell]
  · intro other h
    simp [cell, Std.ExtTreeMap.getElem?_erase, Ne.symm h]

theorem mem_expiredKeys (self : LogicalDb) (now : Instant) (key : String) :
    key ∈ self.expiredKeys now ↔ (self.cell key).expired now := by
  simp only [expiredKeys, List.mem_map, List.mem_filter, decide_eq_true_eq, Cell.expired, cell,
    Prod.exists, exists_and_right, exists_eq_right, Std.ExtTreeMap.mem_toList_iff_getElem?_eq_some]
  cases self.expiry[key]? <;> simp

/-- Eviction empties the expired cells and leaves the others. -/
theorem cell_evictExpired (self : LogicalDb) (now : Instant) (key : String) :
    (self.evictExpired now).cell key =
      if (self.cell key).expired now then .absent else self.cell key := by
  have hfold : ∀ (keys : List String) (ldb : LogicalDb),
      (keys.foldl (fun ldb key => { data := ldb.data.erase key, expiry := ldb.expiry.erase key })
        ldb).cell key = if key ∈ keys then .absent else ldb.cell key := by
    intro keys
    induction keys with
    | nil => simp
    | cons k keys ih =>
        intro ldb
        rw [List.foldl_cons, ih]
        have hput : ({ data := ldb.data.erase k, expiry := ldb.expiry.erase k } : LogicalDb) =
            ldb.put k .absent := rfl
        rw [hput]
        by_cases hk : key = k
        · simp [hk]
        · simp [hk, cell_put_ne ldb hk]
  rw [evictExpired, hfold]
  by_cases h : (self.cell key).expired now
  · rw [if_pos ((self.mem_expiredKeys now key).mpr h), if_pos h]
  · rw [if_neg fun hmem => h ((self.mem_expiredKeys now key).mp hmem), if_neg h]

end LogicalDb

/-! ## The access patterns as functions of a cell -/

namespace Access

variable {α τ : Type}

def onCell (now : Instant) : Access α → Cell → Outcome α × Cell
  | .read K absent f, c =>
      match c.live now with
      | none => (.ok absent, c)
      | some o =>
          match K.proj o with
          | some v => (f v, c)
          | none => (err .wrongType, c)
  | .modify K absent f, c =>
      if c.expired now then (absent, .absent)
      else
        match c.obj with
        | none => (absent, c)
        | some o =>
            match K.proj o with
            | some v => ((f v).1, { c with obj := some (K.inj (f v).2) })
            | none => (err .wrongType, c)
  | .create K init f, c =>
      match c.obj with
      | none => ((f init).1, { c with obj := some (K.inj (f init).2) })
      | some o =>
          match K.proj o with
          | some v => ((f v).1, { c with obj := some (K.inj (f v).2) })
          | none => (err .wrongType, c)
  | .inPlace K absent f, c =>
      match c.obj with
      | none => (.ok absent, c)
      | some o =>
          match K.proj o with
          | none => (err .wrongType, c)
          | some v =>
              match f v with
              | (.error e, v) => (.error e, { c with obj := some (K.inj v) })
              | (.ok r, v) =>
                  if K.isEmpty v then (.ok r, .absent)
                  else (.ok r, { c with obj := some (K.inj v) })

/-- An access changes its key's cell as `onCell` says, and nothing else. -/
theorem run_eq (a : Access α) (now : Instant) (key : String) (self : LogicalDb) :
    a.run now key self =
      ((a.onCell now (self.cell key)).1, self.put key (a.onCell now (self.cell key)).2) := by
  cases a with
  | read K absent f =>
      rw [run, LogicalDb.readAs, onCell, LogicalDb.get_eq]
      cases (self.cell key).live now with
      | none => simp
      | some o => cases hproj : K.proj o <;> simp [hproj]
  | modify K absent f =>
      rw [run, LogicalDb.modifyAs, onCell, LogicalDb.getMut_eq]
      by_cases hexp : (self.cell key).expired now
      · simp [hexp]
      · cases (self.cell key).obj with
        | none => simp [hexp]
        | some o => cases hproj : K.proj o <;> simp [hexp, hproj, LogicalDb.store_eq]
  | create K init f =>
      have hdata : self.data[key]? = (self.cell key).obj := rfl
      rw [run, LogicalDb.createAs, onCell, hdata]
      cases hobj : (self.cell key).obj with
      | none => simp [LogicalDb.store_eq]
      | some o => cases hproj : K.proj o <;> simp [hproj, LogicalDb.store_eq]
  | inPlace K absent f =>
      have hdata : self.data[key]? = (self.cell key).obj := rfl
      rw [run, LogicalDb.inPlaceAs, onCell, hdata]
      cases hobj : (self.cell key).obj with
      | none => simp
      | some o =>
          cases hproj : K.proj o with
          | none => simp [hproj]
          | some v =>
              cases hf : f v with
              | mk r v' =>
                  cases r with
                  | error e => simp [hproj, hf, LogicalDb.store_eq]
                  | ok r =>
                      by_cases hempty : K.isEmpty v'
                      · simp [hproj, hf, hempty, LogicalDb.store_eq, LogicalDb.remove_eq]
                      · simp [hproj, hf, hempty, LogicalDb.store_eq]

end Access

end MiniRudis
