import MiniRudis.Db.Operations

/-!
# Single-key operations as functions of a cell

Each method that names one key refines a function of that key's cell.
-/

namespace MiniRudis

variable {α β : Type}

namespace Cell

def setExpiry (now : Instant) (duration : Duration) (c : Cell) : Outcome Bool × Cell :=
  if c.obj.isSome then
    match addDuration now duration with
    | .ok exp => (.ok true, { c with deadline := some exp })
    | .error e => (.error e, c)
  else (.ok false, c)

def setExpiryAt (exp : Instant) (c : Cell) : Outcome Bool × Cell :=
  if c.obj.isSome then (.ok true, { c with deadline := some exp }) else (.ok false, c)

def remove (c : Cell) : Outcome Bool × Cell := (.ok c.obj.isSome, .absent)

def expireIn (now : Instant) (amount : Int) (duration : Duration) (c : Cell) :
    Outcome Bool × Cell :=
  if amount < 0 then c.remove else c.setExpiry now duration

def expireAt (now : Instant) (sysNow : SystemTime) (sinceEpoch : Duration) (c : Cell) :
    Outcome Bool × Cell :=
  match absoluteDeadline now sysNow sinceEpoch with
  | .error e => (.error e, c)
  | .ok none => c.remove
  | .ok (some exp) => c.setExpiryAt exp

/-- The cell that `insert` of a string leaves. -/
def ofStr (value : Bytes) : Cell := ⟨some (.str value), none⟩

def setWith (now : Instant) (value : Bytes) : Option Duration → Outcome Unit × Cell
  | none => (.ok (), ofStr value)
  | some dur =>
      (((ofStr value).setExpiry now dur).1.map fun _ => (), ((ofStr value).setExpiry now dur).2)

def ttlMs (now : Instant) (c : Cell) : Int :=
  if c.obj.isSome then
    match c.deadline with
    | none => -1
    | some exp => if exp ≤ now then -2 else Duration.asMillis (exp - now).toNat
  else -2

theorem setExpiry_ok {c : Cell} (hobj : c.obj.isSome) {now : Instant} {d : Duration}
    (h : (now + d).toNat < clockEnd) :
    c.setExpiry now d = (.ok true, { c with deadline := some (now + d) }) := by
  simp [setExpiry, hobj, addDuration_eq_ok_iff.mpr h]

/-- The clock panics, and the cell is as it was. -/
theorem setExpiry_panics {c : Cell} (hobj : c.obj.isSome) {now : Instant} {d : Duration}
    (h : ¬ (now + d).toNat < clockEnd) : c.setExpiry now d = (panicked, c) := by
  have hadd : addDuration now d = panicked := by
    rw [addDuration, if_neg h]
  simp [setExpiry, hobj, hadd, panicked]

end Cell

def KeyOp.onCell (env : Env) : KeyOp α → Cell → Outcome α × Cell
  | typed op, c => (op.access env).onCell env.now c
  | getset value, c =>
      match c.live env.now with
      | none => (.ok none, .ofStr value)
      | some (.str v) => (.ok (some v), .ofStr value)
      | some _ => (err .wrongType, c)
  | getdel, c =>
      match c.obj with
      | none => (.ok none, .absent)
      | some (.str v) => (.ok (some v), .absent)
      | some other => (err .wrongType, ⟨some other, none⟩)
  | set value dur, _ => Cell.setWith env.now value dur
  | setnx value, c =>
      if (c.live env.now).isSome then (.ok false, c) else (.ok true, .ofStr value)
  | setxx value dur, c =>
      if (c.live env.now).isNone then (.ok false, c)
      else
        ((Cell.setWith env.now value dur).1.map fun _ => true, (Cell.setWith env.now value dur).2)
  | typeOf, c =>
      match c.live env.now with
      | none => (.ok "none", c)
      | some obj => (.ok obj.typeName, c)
  | expire secs, c => c.expireIn env.now secs (Duration.fromSecs secs)
  | pexpire ms, c => c.expireIn env.now ms (Duration.fromMillis ms)
  | expireat tsSecs, c => c.expireAt env.now env.sysNow (Duration.fromSecs tsSecs)
  | pexpireat tsMs, c => c.expireAt env.now env.sysNow (Duration.fromMillis tsMs)
  | pttl, c => (.ok (c.ttlMs env.now), c)
  | ttl, c => (.ok (secondsOf (c.ttlMs env.now)), c)
  | persist, c => (.ok c.deadline.isSome, { c with deadline := none })

namespace LogicalDb

def onKey (key : String) (g : Cell → Outcome α × Cell) (self : LogicalDb) :
    Outcome α × LogicalDb :=
  ((g (self.cell key)).1, self.put key (g (self.cell key)).2)

theorem setExpiry_eq (self : LogicalDb) (now : Instant) (key : String) (duration : Duration) :
    self.setExpiry now key duration = self.onKey key (Cell.setExpiry now duration) := by
  unfold setExpiry onKey Cell.setExpiry
  by_cases hobj : (self.cell key).obj.isSome
  · simp only [(self.mem_data_iff key).mpr hobj, hobj, if_true]
    cases addDuration now duration with
    | ok exp => simp [setDeadline_eq]
    | error e => simp
  · simp [mem_data_iff, hobj]

theorem setExpiryAt_eq (self : LogicalDb) (key : String) (exp : Instant) :
    ((.ok (self.setExpiryAt key exp).1, (self.setExpiryAt key exp).2) :
      Outcome Bool × LogicalDb) = self.onKey key (Cell.setExpiryAt exp) := by
  unfold setExpiryAt onKey Cell.setExpiryAt
  by_cases hobj : (self.cell key).obj.isSome
  · simp [(self.mem_data_iff key).mpr hobj, hobj, setDeadline_eq]
  · simp [mem_data_iff, hobj]

theorem removed_eq (self : LogicalDb) (key : String) :
    ((.ok (self.remove key).1.isSome, (self.remove key).2) : Outcome Bool × LogicalDb) =
      self.onKey key Cell.remove := rfl

theorem expireIn_eq (self : LogicalDb) (now : Instant) (key : String) (amount : Int)
    (duration : Duration) :
    self.expireIn now key amount duration = self.onKey key (Cell.expireIn now amount duration) := by
  unfold expireIn
  split
  · rename_i hneg
    simp only [removed_eq, onKey, Cell.expireIn, hneg, if_true]
  · rename_i hneg
    simp only [setExpiry_eq, onKey, Cell.expireIn, hneg, if_false]

theorem expireAt_eq (self : LogicalDb) (now : Instant) (sysNow : SystemTime) (key : String)
    (sinceEpoch : Duration) :
    self.expireAt now sysNow key sinceEpoch =
      self.onKey key (Cell.expireAt now sysNow sinceEpoch) := by
  unfold expireAt onKey Cell.expireAt
  cases absoluteDeadline now sysNow sinceEpoch with
  | error e => simp
  | ok exp =>
      cases exp with
      | none => rfl
      | some exp => exact self.setExpiryAt_eq key exp

theorem setWith_eq (self : LogicalDb) (now : Instant) (key : String) (value : Bytes)
    (expire : Option Duration) :
    self.setWith now key value expire = self.onKey key fun _ => Cell.setWith now value expire := by
  unfold setWith
  cases expire with
  | none => rfl
  | some dur => simp [setExpiry_eq, onKey, Cell.setWith, insert_eq, Cell.ofStr]

theorem ttlMs_eq (self : LogicalDb) (now : Instant) (key : String) :
    (self.ttlMs now key).getD (-2) = (self.cell key).ttlMs now := by
  have hexp : self.expiry[key]? = (self.cell key).deadline := rfl
  unfold ttlMs Cell.ttlMs
  rw [hexp]
  by_cases hobj : (self.cell key).obj.isSome
  · simp only [(self.mem_data_iff key).mpr hobj, hobj, if_true]
    cases (self.cell key).deadline with
    | none => rfl
    | some exp =>
        -- the cast is hidden, as a check would compute with its bounds
        generalize Duration.asMillis (exp - now).toNat = ms
        by_cases hpast : exp ≤ now <;> simp [hpast]
  · simp [mem_data_iff, hobj]

theorem onKey_read (self : LogicalDb) (key : String) (g : Cell → Outcome α) :
    self.onKey key (fun c => (g c, c)) = (g (self.cell key), self) := by
  simp [onKey]

end LogicalDb

namespace Database

theorem withDb_congr {self : Database} {db : Nat} {f g : LogicalDb → Outcome α × LogicalDb}
    (h : ∀ ldb, f ldb = g ldb) : self.withDb db f = self.withDb db g :=
  congrArg _ (funext h)

def setDb (self : Database) (db : Nat) (ldb : LogicalDb) : Database := ⟨self.dbs.set db ldb⟩

theorem withDb_eq {self : Database} {db : Nat} {ldb : LogicalDb}
    (hdb : self.dbs[db]? = some ldb) (f : LogicalDb → Outcome α × LogicalDb) :
    self.withDb db f = ((f ldb).1, self.setDb db (f ldb).2) := by
  simp [withDb, setDb, hdb]

theorem readDb_eq {self : Database} {db : Nat} {ldb : LogicalDb} (hdb : self.dbs[db]? = some ldb)
    (f : LogicalDb → Outcome α) : self.readDb db f = f ldb := by
  rw [readDb, hdb]

theorem withDb_no_db {self : Database} {db : Nat} (hdb : ¬ db < self.dbs.length)
    (f : LogicalDb → Outcome α × LogicalDb) :
    self.withDb db f = (err .dbIndexOutOfRange, self) := by
  rw [withDb, List.getElem?_eq_none (Nat.not_lt.mp hdb)]

theorem dbs_setDb {self : Database} {db : Nat} {ldb : LogicalDb}
    (hdb : self.dbs[db]? = some ldb) (ldb' : LogicalDb) :
    (self.setDb db ldb').dbs[db]? = some ldb' := by
  obtain ⟨hlt, -⟩ := List.getElem?_eq_some_iff.mp hdb
  simp [setDb, hlt]

theorem setDb_self {self : Database} {db : Nat} {ldb : LogicalDb}
    (hdb : self.dbs[db]? = some ldb) : self.setDb db ldb = self := by
  obtain ⟨hlt, hget⟩ := List.getElem?_eq_some_iff.mp hdb
  simp [setDb, ← hget]

@[simp] theorem setDb_setDb (self : Database) (db : Nat) (ldb ldb' : LogicalDb) :
    (self.setDb db ldb).setDb db ldb' = self.setDb db ldb' := by
  simp [setDb]

theorem readDb_onKey {self : Database} {db : Nat} {key : String} {f : LogicalDb → Outcome α}
    {g : Cell → Outcome α} (h : ∀ ldb, f ldb = g (ldb.cell key)) :
    (self.readDb db f, self) = self.withDb db (LogicalDb.onKey key fun c => (g c, c)) := by
  rw [← self.withDb_read db f]
  apply withDb_congr
  intro ldb
  rw [ldb.onKey_read key g, h]

theorem strGetset_eq (self : Database) (now : Instant) (db : Nat) (key : String) (value : Bytes) :
    self.strGetset now db key value = self.withDb db fun ldb =>
      match ldb.readAs strKind none (fun v => .ok (some v)) now key with
      | .error e => (.error e, ldb)
      | .ok old => (.ok old, ldb.insert key (.str value)) := by
  unfold strGetset strGet strSet readDb withDb LogicalDb.setWith
  cases hdb : self.dbs[db]? with
  | none => rfl
  | some ldb =>
      obtain ⟨hlt, hget⟩ := List.getElem?_eq_some_iff.mp hdb
      simp only
      cases ldb.readAs strKind none (fun v => .ok (some v)) now key with
      | error e => simp [← hget]
      | ok old => rfl

end Database

/-- A single-key method changes its key's cell as `onCell` says, and nothing
else. -/
theorem KeyOp.run_eq (op : KeyOp α) (env : Env) (db : Nat) (key : String) (self : Database) :
    op.run env db key self = self.withDb db (LogicalDb.onKey key (op.onCell env)) := by
  cases op with
  | typed op =>
      rw [run, op.run_eq]
      exact Database.withDb_congr fun ldb => (op.access env).run_eq env.now key ldb
  | getset value =>
      rw [run, Database.strGetset_eq]
      apply Database.withDb_congr
      intro ldb
      simp only [LogicalDb.readAs, LogicalDb.get_eq, LogicalDb.onKey, onCell]
      cases (ldb.cell key).live env.now with
      | none => rfl
      | some o => cases o <;> simp [strKind, LogicalDb.insert_eq, Cell.ofStr]
  | getdel =>
      apply Database.withDb_congr
      intro ldb
      simp only [LogicalDb.remove_eq, LogicalDb.onKey, onCell]
      cases (ldb.cell key).obj with
      | none => rfl
      | some o => cases o <;> simp [LogicalDb.insert_eq]
  | set value dur => exact Database.withDb_congr fun ldb => ldb.setWith_eq env.now key value dur
  | setnx value =>
      apply Database.withDb_congr
      intro ldb
      rw [LogicalDb.get_eq, LogicalDb.onKey, onCell]
      split
      · simp
      · rfl
  | setxx value dur =>
      apply Database.withDb_congr
      intro ldb
      rw [LogicalDb.get_eq, LogicalDb.onKey, onCell, LogicalDb.setWith_eq]
      split
      · simp
      · rfl
  | typeOf =>
      rw [run, Database.typeOf, ← Database.withDb_read]
      apply Database.withDb_congr
      intro ldb
      rw [LogicalDb.get_eq, LogicalDb.onKey, onCell]
      cases (ldb.cell key).live env.now <;> simp
  | expire secs => exact Database.withDb_congr fun ldb => ldb.expireIn_eq env.now key secs _
  | pexpire ms => exact Database.withDb_congr fun ldb => ldb.expireIn_eq env.now key ms _
  | expireat tsSecs =>
      rw [run, Database.expireat]
      apply Database.withDb_congr
      intro ldb
      rw [LogicalDb.expireAt_eq]
      simp only [LogicalDb.onKey, onCell]
  | pexpireat tsMs =>
      rw [run, Database.pexpireat]
      apply Database.withDb_congr
      intro ldb
      rw [LogicalDb.expireAt_eq]
      simp only [LogicalDb.onKey, onCell]
  | pttl =>
      apply Database.readDb_onKey
      intro ldb
      rw [ldb.ttlMs_eq]
  | ttl =>
      have hread : self.ttl env.now db key = self.readDb db fun ldb =>
          .ok (secondsOf ((ldb.cell key).ttlMs env.now)) := by
        unfold Database.ttl Database.pttl Database.readDb
        cases self.dbs[db]? with
        | none => rfl
        | some ldb => simp only [ldb.ttlMs_eq, Except.map]
      rw [run, hread]
      exact Database.readDb_onKey fun ldb => rfl
  | persist =>
      apply Database.withDb_congr
      intro ldb
      rw [LogicalDb.persist_eq]
      rfl

/-! ## The cell of a key -/

namespace Database

def cellAt (self : Database) (db : Nat) (key : String) : Cell :=
  match self.dbs[db]? with
  | some ldb => ldb.cell key
  | none => .absent

def putCell (self : Database) (db : Nat) (key : String) (c : Cell) : Database :=
  match self.dbs[db]? with
  | some ldb => self.setDb db (ldb.put key c)
  | none => self

variable {self : Database} {db : Nat}

theorem cellAt_eq {ldb : LogicalDb} (hdb : self.dbs[db]? = some ldb) (key : String) :
    self.cellAt db key = ldb.cell key := by
  rw [cellAt, hdb]

theorem get_cellAt {ldb : LogicalDb} (hdb : self.dbs[db]? = some ldb) (now : Instant)
    (key : String) : ldb.get now key = (self.cellAt db key).live now := by
  rw [LogicalDb.get_eq, cellAt_eq hdb]

theorem putCell_eq {ldb : LogicalDb} (hdb : self.dbs[db]? = some ldb) (key : String) (c : Cell) :
    self.putCell db key c = self.setDb db (ldb.put key c) := by
  rw [putCell, hdb]

theorem dbs_putCell {ldb : LogicalDb} (hdb : self.dbs[db]? = some ldb) (key : String) (c : Cell) :
    (self.putCell db key c).dbs[db]? = some (ldb.put key c) := by
  rw [putCell_eq hdb, dbs_setDb hdb]

theorem cellAt_putCell (hdb : db < self.dbs.length) (key : String) (c : Cell) :
    (self.putCell db key c).cellAt db key = c := by
  have hsome := List.getElem?_eq_getElem hdb
  rw [cellAt_eq (dbs_putCell hsome key c), LogicalDb.cell_put]

theorem cellAt_putCell_ne (hdb : db < self.dbs.length) {key other : String} (h : other ≠ key)
    (c : Cell) : (self.putCell db key c).cellAt db other = self.cellAt db other := by
  have hsome := List.getElem?_eq_getElem hdb
  rw [cellAt_eq (dbs_putCell hsome key c), LogicalDb.cell_put_ne _ h, cellAt_eq hsome]

@[simp] theorem putCell_cellAt (self : Database) (db : Nat) (key : String) :
    self.putCell db key (self.cellAt db key) = self := by
  unfold putCell cellAt
  cases hdb : self.dbs[db]? with
  | none => rfl
  | some ldb =>
      dsimp only
      rw [LogicalDb.put_cell, setDb_self hdb]

@[simp] theorem putCell_putCell (self : Database) (db : Nat) (key : String) (c c' : Cell) :
    (self.putCell db key c).putCell db key c' = self.putCell db key c' := by
  cases hdb : self.dbs[db]? with
  | none => simp [putCell, hdb]
  | some ldb =>
      rw [putCell_eq (dbs_putCell hdb key c), putCell_eq hdb, putCell_eq hdb, setDb_setDb,
        LogicalDb.put_put]

theorem pttl_cellAt (hdb : db < self.dbs.length) (now : Instant) (key : String) :
    self.pttl now db key = .ok ((self.cellAt db key).ttlMs now) := by
  have hsome := List.getElem?_eq_getElem hdb
  rw [pttl, readDb_eq hsome, LogicalDb.ttlMs_eq, cellAt_eq hsome]

@[simp] theorem length_putCell (self : Database) (db : Nat) (key : String) (c : Cell) :
    (self.putCell db key c).dbs.length = self.dbs.length := by
  unfold putCell
  cases self.dbs[db]? with
  | none => rfl
  | some ldb => simp [setDb]

theorem putCell_eq_self_iff (hdb : db < self.dbs.length) (key : String) (c : Cell) :
    self.putCell db key c = self ↔ c = self.cellAt db key := by
  constructor
  · intro hsame
    have hcell := cellAt_putCell hdb key c
    rw [hsame] at hcell
    exact hcell.symm
  · intro hcell
    rw [hcell, putCell_cellAt]

theorem putCell_ne {key : String} {c : Cell} (hdb : db < self.dbs.length)
    (h : c.obj ≠ (self.cellAt db key).obj) : self.putCell db key c ≠ self := by
  rw [Ne, putCell_eq_self_iff hdb]
  exact fun hcell => h (congrArg Cell.obj hcell)

theorem cellAt_of_no_db (hdb : ¬ db < self.dbs.length) (key : String) :
    self.cellAt db key = .absent := by
  rw [cellAt, List.getElem?_eq_none (Nat.not_lt.mp hdb)]

theorem lt_of_isSome {key : String} (hobj : (self.cellAt db key).obj.isSome) :
    db < self.dbs.length := by
  by_contra hdb
  rw [cellAt_of_no_db hdb] at hobj
  exact Bool.false_ne_true hobj

theorem lt_of_live {now : Instant} {key : String} {o : RudisObject}
    (hlive : (self.cellAt db key).live now = some o) : db < self.dbs.length := by
  by_contra hdb
  rw [cellAt_of_no_db hdb] at hlive
  exact absurd hlive (by simp)

end Database

theorem Database.withDb_onKey {db : Nat} {self : Database} (hdb : db < self.dbs.length)
    (key : String) (g : Cell → Outcome α × Cell) :
    self.withDb db (LogicalDb.onKey key g) =
      ((g (self.cellAt db key)).1, self.putCell db key (g (self.cellAt db key)).2) := by
  have hsome := List.getElem?_eq_getElem hdb
  rw [withDb_eq hsome, cellAt_eq hsome, putCell_eq hsome]
  rfl

theorem Database.access_cellAt {db : Nat} {self : Database} (hdb : db < self.dbs.length)
    (now : Instant) (key : String) (a : Access α) :
    self.access now db key a =
      ((a.onCell now (self.cellAt db key)).1,
        self.putCell db key (a.onCell now (self.cellAt db key)).2) := by
  rw [access, ← withDb_onKey hdb]
  exact withDb_congr fun ldb => a.run_eq now key ldb

theorem KeyOp.run_cellAt (op : KeyOp α) (env : Env) {db : Nat} (key : String) {self : Database}
    (hdb : db < self.dbs.length) :
    op.run env db key self =
      ((op.onCell env (self.cellAt db key)).1,
        self.putCell db key (op.onCell env (self.cellAt db key)).2) := by
  rw [op.run_eq, Database.withDb_onKey hdb]

theorem KeyOp.run_no_db (op : KeyOp α) (env : Env) {db : Nat} (key : String) {self : Database}
    (hdb : ¬ db < self.dbs.length) : op.run env db key self = (err .dbIndexOutOfRange, self) := by
  rw [op.run_eq, Database.withDb_no_db hdb]

/-! ## Reads of a type -/

section
variable {τ : Type} {db : Nat} {self : Database} {now : Instant} {key : String} (K : Kind τ)

theorem Database.readDb_absent (hdb : db < self.dbs.length)
    (hlive : (self.cellAt db key).live now = none) (absent : α) (f : τ → Outcome α) :
    self.readDb db (LogicalDb.readAs K absent f now key) = .ok absent := by
  have hsome := List.getElem?_eq_getElem hdb
  rw [readDb_eq hsome, LogicalDb.readAs, get_cellAt hsome, hlive]

theorem Database.readDb_live {v : τ} (hlive : (self.cellAt db key).live now = some (K.inj v))
    (absent : α) (f : τ → Outcome α) :
    self.readDb db (LogicalDb.readAs K absent f now key) = f v := by
  have hsome := List.getElem?_eq_getElem (lt_of_live hlive)
  rw [readDb_eq hsome, LogicalDb.readAs, get_cellAt hsome, hlive]
  dsimp only
  rw [K.proj_inj]

theorem Database.readDb_other {o : RudisObject} (hlive : (self.cellAt db key).live now = some o)
    (hother : K.proj o = none) (absent : α) (f : τ → Outcome α) :
    self.readDb db (LogicalDb.readAs K absent f now key) = err .wrongType := by
  have hsome := List.getElem?_eq_getElem (lt_of_live hlive)
  rw [readDb_eq hsome, LogicalDb.readAs, get_cellAt hsome, hlive]
  dsimp only
  rw [hother]

end

/-! ## Values that are there -/

theorem Access.onCell_inPlace {τ : Type} (K : Aggregate τ) (absent : α) {f : τ → Outcome α × τ}
    {now : Instant} {c : Cell} {v v' : τ} {r : α} (hobj : c.obj = some (K.inj v))
    (hf : f v = (.ok r, v')) :
    (Access.inPlace K absent f).onCell now c =
      (.ok r, if K.isEmpty v' then .absent else { c with obj := some (K.inj v') }) := by
  rw [onCell, hobj]
  dsimp only
  rw [K.proj_inj]
  dsimp only
  rw [hf]
  dsimp only
  split <;> rfl

section
variable {τ : Type} {self : Database} {db : Nat} {key : String} (K : Aggregate τ) (absent : α)

theorem Database.access_stored {f : τ → Outcome α × τ} {v v' : τ} {r : α}
    (hdb : db < self.dbs.length) (hobj : (self.cellAt db key).obj = some (K.inj v))
    (hf : f v = (.ok r, v')) (now : Instant) :
    self.access now db key (.inPlace K absent f) =
      (.ok r, self.putCell db key (if K.isEmpty v' then .absent
        else { self.cellAt db key with obj := some (K.inj v') })) := by
  rw [access_cellAt hdb, Access.onCell_inPlace K absent hobj hf]

theorem Database.access_live (K : Kind τ) {absent : Outcome α} {f : τ → Outcome α × τ} {v : τ}
    {now : Instant} (hlive : (self.cellAt db key).live now = some (K.inj v)) :
    self.access now db key (.modify K absent f) =
      ((f v).1, self.putCell db key
        { self.cellAt db key with obj := some (K.inj (f v).2) }) := by
  obtain ⟨hexp, hobj⟩ := Cell.live_eq_some hlive
  rw [access_cellAt (lt_of_live hlive), Access.onCell, hexp, if_neg Bool.false_ne_true, hobj]
  dsimp only
  rw [K.proj_inj]

theorem Database.access_absent (hdb : db < self.dbs.length)
    (hobj : (self.cellAt db key).obj = none) (now : Instant) (f : τ → Outcome α × τ) :
    self.access now db key (.inPlace K absent f) = (.ok absent, self) := by
  rw [access_cellAt hdb, Access.onCell, hobj]
  dsimp only
  rw [putCell_cellAt]

end

end MiniRudis
