import MiniRudis.Lib.Regions
import MiniRudis.Db.Locality
import MiniRudis.Db.Writes

/-!
# Operations stay at the keys that they name

An operation reads and writes the entries of the keys that it names, however many, and of no
others.  `KEYS`, `DBSIZE`, `RANDOMKEY`, the flushes and the sweep name no keys.
-/

namespace MiniRudis

open Lib

variable {α β : Type}

/-! ## Logical databases -/

namespace LogicalDb

/-- The method reads and writes the cells of the keys only. -/
abbrev OnKeys (keys : String → Prop) (f : LogicalDb → α × LogicalDb) : Prop :=
  LocalOn (fun _ => ()) cell keys f

abbrev SameOn (keys : String → Prop) (a b : LogicalDb) : Prop := AgreeOn (fun _ => ()) cell keys a b

variable {keys : String → Prop} {a b : LogicalDb}

theorem put_localAt (key : String) (r : Cell → α) (c : Cell → Cell) :
    LocalAt cell key fun ldb : LogicalDb => (r (ldb.cell key), ldb.put key (c (ldb.cell key))) where
  agree s t h := by
    rw [cell_put, cell_put, h]
    exact ⟨rfl, rfl⟩
  frame s other h := cell_put_ne s h _

theorem onKey_onKeys {key : String} (hkey : keys key) (g : Cell → Outcome α × Cell) :
    OnKeys keys (onKey key g) :=
  .ofLocalAt hkey (put_localAt key (fun c => (g c).1) fun c => (g c).2) fun _ => rfl

theorem remove_onKeys {key : String} (hkey : keys key) :
    OnKeys keys fun ldb => ldb.remove key :=
  .ofLocalAt hkey (put_localAt key Cell.obj fun _ => .absent) fun _ => rfl

theorem insert_onKeys {key : String} (hkey : keys key) (r : α) (value : RudisObject) :
    OnKeys keys fun ldb => (r, ldb.insert key value) :=
  .ofLocalAt hkey (put_localAt key (fun _ => r) fun _ => ⟨some value, none⟩) fun _ => rfl

theorem removeKeys_onKeys {names : List String} (hnames : ∀ name ∈ names, keys name) :
    OnKeys keys (removeKeys names) := by
  induction names with
  | nil => exact .const keys 0
  | cons name names ih =>
      have hrest := ih fun other hother => hnames other (List.mem_cons_of_mem name hother)
      exact (remove_onKeys (hnames name List.mem_cons_self)).andThen fun taken =>
        hrest.map fun n => n + taken.isSome.toNat

theorem insertPairs_onKeys {pairs : List (String × Bytes)} (hpairs : ∀ p ∈ pairs, keys p.1)
    (r : α) : OnKeys keys fun ldb => (r, ldb.insertPairs pairs) := by
  induction pairs with
  | nil => exact .const keys r
  | cons p pairs ih =>
      have hrest := ih fun other hother => hpairs other (List.mem_cons_of_mem p hother)
      exact (insert_onKeys (hpairs p List.mem_cons_self) () (.str p.2)).andThen fun _ => hrest

theorem insertTaken_onKeys {src dst : String} (hsrc : keys src) (hdst : keys dst)
    (missing : Outcome α) (done : α) :
    OnKeys keys fun ldb => insertTaken dst missing done (ldb.remove src) := by
  have hput : ∀ taken : Option RudisObject,
      OnKeys keys fun ldb => insertTaken dst missing done (taken, ldb) := by
    intro taken
    cases taken with
    | none => exact .const keys missing
    | some obj => exact insert_onKeys hdst (Except.ok done) obj
  exact (remove_onKeys hsrc).andThen hput

def putVia (dst : String) (put : α → Option (Cell → Outcome α × Cell)) :
    Outcome α → LogicalDb → Outcome α × LogicalDb
  | .error e, ldb => (.error e, ldb)
  | .ok x, ldb =>
      match put x with
      | some g => ldb.onKey dst g
      | none => (.ok x, ldb)

theorem putVia_onKeys {dst : String} (hdst : keys dst)
    (put : α → Option (Cell → Outcome α × Cell)) (taken : Outcome α) :
    OnKeys keys (putVia dst put taken) := by
  cases taken with
  | error e => exact .const keys (Except.error e)
  | ok x =>
      cases hput : put x with
      | none =>
          refine (LocalOn.const keys (Except.ok x)).congr fun ldb => ?_
          simp only [putVia, hput]
      | some g =>
          refine (onKey_onKeys hdst g).congr fun ldb => ?_
          simp only [putVia, hput]

theorem moveVia_onKeys {src dst : String} (hsrc : keys src) (hdst : keys dst)
    (take : Cell → Outcome α × Cell) (put : α → Option (Cell → Outcome α × Cell)) :
    OnKeys keys (moveVia src dst take put) := by
  refine ((onKey_onKeys hsrc take).andThen (putVia_onKeys hdst put)).congr fun ldb => ?_
  unfold moveVia
  rcases ldb.onKey src take with ⟨_ | x, ldb'⟩ <;> rfl

/-! ### Reads -/

theorem get_sameOn (h : a.SameOn keys b) {key : String} (hkey : keys key)
    (now : Instant) : a.get now key = b.get now key := by
  rw [get_eq, get_eq, h.entry key hkey]

end LogicalDb

/-! ## The database -/

namespace Database

/-- The method reads and writes the entries of the keys only. -/
abbrev OnKeys (keys : Nat × String → Prop) (f : Database → α × Database) : Prop :=
  LocalOn (fun self => self.dbs.length) entry keys f

abbrev SameOn (keys : Nat × String → Prop) (s t : Database) : Prop :=
  AgreeOn (fun self : Database => self.dbs.length) entry keys s t

variable {keys : Nat × String → Prop} {db : Nat} {s t : Database}

theorem SameOn.logical (h : SameOn keys s t) {a : LogicalDb} (hs : s.dbs[db]? = some a) :
    ∃ b, t.dbs[db]? = some b ∧
      LogicalDb.SameOn (fun key => keys (db, key)) a b := by
  obtain ⟨hlt, -⟩ := List.getElem?_eq_some_iff.mp hs
  have hlt' : db < t.dbs.length := by
    have hlength : s.dbs.length = t.dbs.length := h.sameShape
    omega
  refine ⟨t.dbs[db], List.getElem?_eq_getElem hlt', rfl, fun key hkey => ?_⟩
  have hentry := h.entry (db, key) hkey
  rw [entry_eq hs, entry_eq (List.getElem?_eq_getElem hlt')] at hentry
  exact Option.some.inj hentry

theorem SameOn.no_logical (h : SameOn keys s t) (hs : s.dbs[db]? = none) :
    t.dbs[db]? = none := by
  have hlength : s.dbs.length = t.dbs.length := h.sameShape
  rw [List.getElem?_eq_none_iff] at hs ⊢
  omega

theorem SameOn.setDb {a b : LogicalDb} (h : SameOn keys s t) (hs : s.dbs[db]? = some a)
    (ht : t.dbs[db]? = some b) {a' b' : LogicalDb}
    (hab : LogicalDb.SameOn (fun key => keys (db, key)) a' b') :
    SameOn keys (s.setDb db a') (t.setDb db b') := by
  refine ⟨?_, fun p hp => ?_⟩
  · simpa [Database.setDb] using h.sameShape
  · obtain ⟨i, key⟩ := p
    by_cases hi : i = db
    · subst hi
      rw [entry_eq (dbs_setDb hs a'), entry_eq (dbs_setDb ht b'), hab.entry key hp]
    · have hentry := h.entry (i, key) hp
      simpa [entry, Database.setDb, List.getElem?_set_ne (Ne.symm hi)] using hentry

theorem SameOn.withDb (h : SameOn keys s t) {f : LogicalDb → Outcome α × LogicalDb}
    (hf : ∀ a b : LogicalDb, a.SameOn (fun key => keys (db, key)) b →
      (f a).1 = (f b).1 ∧ (f a).2.SameOn (fun key => keys (db, key)) (f b).2) :
    (s.withDb db f).1 = (t.withDb db f).1 ∧ SameOn keys (s.withDb db f).2 (t.withDb db f).2 := by
  cases hs : s.dbs[db]? with
  | none =>
      have ht := SameOn.no_logical h hs
      simp only [Database.withDb, hs, ht]
      exact ⟨trivial, h⟩
  | some a =>
      obtain ⟨b, ht, hab⟩ := SameOn.logical h hs
      obtain ⟨hreply, hcells⟩ := hf a b hab
      rw [withDb_eq hs, withDb_eq ht]
      exact ⟨hreply, SameOn.setDb h hs ht hcells⟩

theorem withDb_onKeys {f : LogicalDb → Outcome α × LogicalDb}
    (hf : LogicalDb.OnKeys (fun key => keys (db, key)) f) :
    OnKeys keys fun self => self.withDb db f where
  agree s t h := SameOn.withDb h hf.agree
  frame s := by
    cases hs : s.dbs[db]? with
    | none =>
        rw [withDb, hs]
        exact .refl _ s
    | some a =>
        rw [withDb_eq hs]
        have hkept : SameOn (fun p => ¬ keys p) (s.setDb db a) (s.setDb db (f a).2) :=
          SameOn.setDb (.refl _ s) hs hs (hf.frame a)
        rwa [setDb_self hs] at hkept

theorem SameOn.readDb (h : SameOn keys s t) {f : LogicalDb → Outcome α}
    (hf : ∀ a b : LogicalDb, a.SameOn (fun key => keys (db, key)) b → f a = f b) :
    s.readDb db f = t.readDb db f := by
  cases hs : s.dbs[db]? with
  | none => rw [Database.readDb, Database.readDb, hs, SameOn.no_logical h hs]
  | some a =>
      obtain ⟨b, ht, hab⟩ := SameOn.logical h hs
      rw [readDb_eq hs, readDb_eq ht, hf a b hab]

theorem readDb_onKeys {f : LogicalDb → Outcome α}
    (hf : ∀ a b : LogicalDb, a.SameOn (fun key => keys (db, key)) b → f a = f b) :
    OnKeys keys fun self : Database => (self.readDb db f, self) :=
  .ofRead fun _ _ h => SameOn.readDb h hf

/-! ### Operations on several sets -/

section
variable (h : SameOn keys s t) (now : Instant)
include h

theorem SameOn.getSetClone {name : String} (hname : keys (db, name)) :
    s.getSetClone now db name = t.getSetClone now db name :=
  SameOn.readDb h fun a b hab => by
    unfold LogicalDb.readAs
    rw [LogicalDb.get_sameOn hab hname]

theorem SameOn.sets {names : List String} (hnames : ∀ name ∈ names, keys (db, name)) :
    (names.mapM fun name => s.getSetClone now db name) =
      names.mapM fun name => t.getSetClone now db name := by
  induction names with
  | nil => rfl
  | cons name names ih =>
      rw [List.mapM_cons, List.mapM_cons, SameOn.getSetClone h now (hnames name List.mem_cons_self),
        ih fun other hother => hnames other (List.mem_cons_of_mem name hother)]

theorem SameOn.sunion {names : List String} (hnames : ∀ name ∈ names, keys (db, name)) :
    s.sunion now db names = t.sunion now db names := by
  unfold Database.sunion
  rw [SameOn.sets h now hnames]

theorem SameOn.sinter {names : List String} (hnames : ∀ name ∈ names, keys (db, name)) :
    s.sinter now db names = t.sinter now db names := by
  unfold Database.sinter
  rw [SameOn.sets h now hnames]

theorem SameOn.sdiff {names : List String} (hnames : ∀ name ∈ names, keys (db, name)) :
    s.sdiff now db names = t.sdiff now db names := by
  cases names with
  | nil => rfl
  | cons name names =>
      unfold Database.sdiff
      dsimp only
      rw [SameOn.getSetClone h now (hnames name List.mem_cons_self),
        SameOn.sets h now fun other hother => hnames other (List.mem_cons_of_mem name hother)]

end

theorem storeSet_onKeys {dst : String} (hdst : keys (db, dst)) (result : Outcome (List String)) :
    OnKeys keys fun self : Database => self.storeSet db dst result := by
  cases result with
  | error e => exact .const keys (Except.error e)
  | ok members => exact withDb_onKeys (LogicalDb.insert_onKeys hdst _ _)

theorem combine_onKeys {dst : String} (hdst : keys (db, dst))
    {r : Database → Outcome (List String)} (hr : ∀ s t, SameOn keys s t → r s = r t) :
    OnKeys keys fun self : Database => self.storeSet db dst (r self) :=
  (LocalOn.ofRead hr).andThen fun result => storeSet_onKeys hdst result

end Database

/-! ## Operations -/

def Op.Within (region : Nat × String → Prop) : Op α → Prop
  | onKey db key _ => region (db, key)
  | existsKeys db names | del db names | mget db names | sunion db names | sinter db names
  | sdiff db names => ∀ name ∈ names, region (db, name)
  | mset db pairs | msetnx db pairs => ∀ p ∈ pairs, region (db, p.1)
  | rename db src dst | renamenx db src dst | lmove db src dst _ _ | smove db src dst _ =>
      region (db, src) ∧ region (db, dst)
  | sunionstore db dst names | sinterstore db dst names | sdiffstore db dst names =>
      region (db, dst) ∧ ∀ name ∈ names, region (db, name)
  | keys _ _ | dbsize _ | flushdb _ | flushall | randomkey _ | evictExpired => False

/-- **An operation stays at the keys that it names.** -/
theorem Op.onKeys {region : Nat × String → Prop} {op : Op α} (h : op.Within region) (env : Env) :
    Database.OnKeys region fun self => op.run env self := by
  cases op with
  | keys | dbsize | flushdb | flushall | randomkey | evictExpired => exact h.elim
  | onKey db key op =>
      exact (Database.withDb_onKeys (LogicalDb.onKey_onKeys h (op.onCell env))).congr
        fun self => op.run_eq env db key self
  | existsKeys db names =>
      refine Database.readDb_onKeys fun a b hab => ?_
      rw [List.filter_congr fun name hname => by rw [LogicalDb.get_sameOn hab (h name hname)]]
  | mget db names =>
      refine Database.readDb_onKeys fun a b hab => ?_
      rw [List.map_congr_left fun name hname => by rw [LogicalDb.get_sameOn hab (h name hname)]]
  | del db names =>
      exact Database.withDb_onKeys
        ((LogicalDb.removeKeys_onKeys h).map fun removed => Except.ok (removed : Int))
  | rename db src dst =>
      exact Database.withDb_onKeys (LogicalDb.insertTaken_onKeys h.1 h.2 (err .noSuchKey) ())
  | renamenx db src dst =>
      refine Database.withDb_onKeys (LocalOn.ifElse (fun a b hab => ?_)
        (LocalOn.const _ (Except.ok false))
        (LogicalDb.insertTaken_onKeys h.1 h.2 (err .noSuchKey) true))
      rw [LogicalDb.get_sameOn hab h.2]
  | mset db pairs =>
      exact Database.withDb_onKeys (LogicalDb.insertPairs_onKeys (fun p hp => h p hp) (Except.ok ()))
  | msetnx db pairs =>
      refine Database.withDb_onKeys (LocalOn.ifElse (fun a b hab => ?_)
        (LocalOn.const _ (Except.ok false))
        (LogicalDb.insertPairs_onKeys (fun p hp => h p hp) (Except.ok true)))
      rw [Bool.eq_iff_iff, List.any_eq_true, List.any_eq_true]
      exact exists_congr fun p => and_congr_right fun hp => by
        rw [LogicalDb.get_sameOn hab (h p hp)]
  | lmove db src dst srcLeft dstLeft =>
      by_cases hsame : src = dst
      · subst hsame
        exact (Database.withDb_onKeys (LogicalDb.onKey_onKeys h.1 _)).congr fun self =>
          self.lmove_self_eq env.now db src srcLeft dstLeft
      · exact (Database.withDb_onKeys (LogicalDb.moveVia_onKeys h.1 h.2 _ _)).congr fun self =>
          self.lmove_eq env.now db hsame srcLeft dstLeft
  | smove db src dst member =>
      exact (Database.withDb_onKeys (LogicalDb.moveVia_onKeys h.1 h.2 _ _)).congr fun self =>
        self.smove_eq env.now db src dst member
  | sunion db names => exact .ofRead fun s t hst => Database.SameOn.sunion hst env.now h
  | sinter db names => exact .ofRead fun s t hst => Database.SameOn.sinter hst env.now h
  | sdiff db names => exact .ofRead fun s t hst => Database.SameOn.sdiff hst env.now h
  | sunionstore db dst names =>
      exact Database.combine_onKeys h.1 fun s t hst => Database.SameOn.sunion hst env.now h.2
  | sinterstore db dst names =>
      exact Database.combine_onKeys h.1 fun s t hst => Database.SameOn.sinter hst env.now h.2
  | sdiffstore db dst names =>
      exact Database.combine_onKeys h.1 fun s t hst => Database.SameOn.sdiff hst env.now h.2

/-- The operation clears entries without a look at the others. -/
def Op.clears : Op α → Bool
  | flushdb _ | flushall | evictExpired => true
  | _ => false

/-- What the operation does at these keys, and its reply, rest on their entries. -/
def Op.SeenIn (region : Nat × String → Prop) (op : Op α) : Prop :=
  op.Within region ∨ op.clears = true

namespace Database

variable {region : Nat × String → Prop} {s t : Database}

theorem entry_map (self : Database) {f : LogicalDb → LogicalDb} {g : Cell → Cell}
    (h : ∀ ldb key, (f ldb).cell key = g (ldb.cell key)) (a : Nat × String) :
    (⟨self.dbs.map f⟩ : Database).entry a = (self.entry a).map g := by
  unfold entry
  rw [List.getElem?_map]
  cases self.dbs[a.1]? with
  | none => rfl
  | some ldb => simp [h]

theorem SameOn.map (hst : SameOn region s t) {f : LogicalDb → LogicalDb} {g : Cell → Cell}
    (h : ∀ ldb key, (f ldb).cell key = g (ldb.cell key)) :
    SameOn region ⟨s.dbs.map f⟩ ⟨t.dbs.map f⟩ where
  sameShape := by simpa using hst.sameShape
  entry a ha := by rw [entry_map s h, entry_map t h, hst.entry a ha]

end Database

theorem Op.run_seenIn {region : Nat × String → Prop} {op : Op α} (h : op.SeenIn region) (env : Env)
    {s t : Database} (hst : Database.SameOn region s t) :
    (op.run env s).1 = (op.run env t).1 ∧
      Database.SameOn region (op.run env s).2 (op.run env t).2 := by
  obtain hwithin | hclears := h
  · exact (Op.onKeys hwithin env).agree s t hst
  · cases op with
    | flushall =>
        have hcells : ∀ (ldb : LogicalDb) (key : String), LogicalDb.empty.cell key = .absent :=
          fun _ => LogicalDb.cell_empty
        exact ⟨rfl, Database.SameOn.map (g := fun _ => .absent) hst hcells⟩
    | evictExpired =>
        exact ⟨rfl, Database.SameOn.map hst fun ldb key => ldb.cell_purge env.now key⟩
    | flushdb db => exact Database.SameOn.withDb hst fun a b _ => ⟨rfl, .refl _ _⟩
    | _ => exact absurd hclears Bool.false_ne_true

end MiniRudis
