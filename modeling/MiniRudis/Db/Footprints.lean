import MiniRudis.Lib.Footprint
import MiniRudis.Db.Locality
import MiniRudis.Db.Cells
import MiniRudis.Db.Operations

/-!
# Operations stay in their database

An operation reads and writes the logical database that it names, whichever keys it
touches there.  `FLUSHALL` and the sweep are on all of them.
-/

namespace MiniRudis

open Lib

variable {α : Type}

def Op.index : Op α → Option Nat
  | onKey db .. | existsKeys db _ | del db _ | rename db .. | renamenx db .. | keys db _
  | dbsize db | flushdb db | randomkey db | mset db _ | mget db _ | msetnx db _ | lmove db ..
  | sunion db _ | sinter db _ | sdiff db _ | sunionstore db .. | sinterstore db ..
  | sdiffstore db .. | smove db .. => some db
  | flushall | evictExpired => none

namespace Database

/-- The logical databases as the entries of the store. -/
def logical (self : Database) (i : Nat) : Option LogicalDb := self.dbs[i]?

theorem withDb_localAt (db : Nat) (f : LogicalDb → Outcome α × LogicalDb) :
    LocalAt logical db fun self : Database => self.withDb db f where
  agree s t h := by
    unfold logical at h ⊢
    unfold withDb
    rw [← h]
    cases hdb : s.dbs[db]? with
    | none => simp [hdb, ← h]
    | some ldb =>
        obtain ⟨hs, -⟩ := List.getElem?_eq_some_iff.mp hdb
        obtain ⟨ht, -⟩ := List.getElem?_eq_some_iff.mp (h.symm.trans hdb)
        simp [hs, ht]
  frame s i h := withDb_other s db f h

theorem readDb_localAt (db : Nat) (f : LogicalDb → Outcome α) :
    LocalAt logical db fun self : Database => (self.readDb db f, self) :=
  (LocalAt.ofRead db fun ldb : Option LogicalDb => ldb.elim (err .dbIndexOutOfRange) f).congr
    fun self => by
      unfold readDb logical
      cases self.dbs[db]? <;> rfl

theorem logical_ext {a b : Database} (h : ∀ i, a.logical i = b.logical i) : a = b :=
  congrArg Database.mk (List.ext_getElem? h)

theorem read_localAt {db : Nat} {r : Database → Outcome α}
    (h : ∀ s t : Database, s.logical db = t.logical db → r s = r t) :
    LocalAt logical db fun self : Database => (r self, self) where
  agree s t hst := ⟨h s t hst, hst⟩
  frame _ _ _ := rfl

theorem access_localAt (now : Instant) (db : Nat) (key : String) (a : Access α) :
    LocalAt logical db fun self : Database => self.access now db key a :=
  withDb_localAt db _

/-! ## Operations on several sets -/

theorem getSetClone_logical {db : Nat} {s t : Database} (h : s.logical db = t.logical db)
    (now : Instant) : s.getSetClone now db = t.getSetClone now db := by
  funext key
  unfold logical at h
  unfold getSetClone readDb
  rw [h]

theorem sunion_logical {db : Nat} {s t : Database} (h : s.logical db = t.logical db)
    (now : Instant) (keys : List String) : s.sunion now db keys = t.sunion now db keys := by
  unfold sunion
  rw [getSetClone_logical h]

theorem sinter_logical {db : Nat} {s t : Database} (h : s.logical db = t.logical db)
    (now : Instant) (keys : List String) : s.sinter now db keys = t.sinter now db keys := by
  unfold sinter
  rw [getSetClone_logical h]

theorem sdiff_logical {db : Nat} {s t : Database} (h : s.logical db = t.logical db)
    (now : Instant) (keys : List String) : s.sdiff now db keys = t.sdiff now db keys := by
  unfold sdiff
  rw [getSetClone_logical h]

theorem storeSet_localAt (db : Nat) (dst : String) (result : Outcome (List String)) :
    LocalAt logical db fun self : Database => self.storeSet db dst result := by
  cases result with
  | error e => exact LocalAt.const db (Except.error e)
  | ok members => exact withDb_localAt db _

theorem combine_localAt {db : Nat} {r : Database → Outcome (List String)}
    (h : ∀ s t : Database, s.logical db = t.logical db → r s = r t) (dst : String) :
    LocalAt logical db fun self : Database => self.storeSet db dst (r self) :=
  (read_localAt h).andThen fun result => storeSet_localAt db dst result

/-! ## Operations on two keys -/

/-- What `lmove` does with the element taken. -/
def pushTaken (now : Instant) (db : Nat) (dst : String) (dstLeft : Bool) :
    Outcome (Option Bytes) → Database → Outcome (Option Bytes) × Database
  | .ok (some elem), self =>
      let pushed := self.access now db dst
        (.create listKind.toKind [] (Deque.pushAll dstLeft [elem]))
      (pushed.1.map fun _ => some elem, pushed.2)
  | reply, self => (reply, self)

/-- What `smove` does once it knows whether the member was there. -/
def putTaken (now : Instant) (db : Nat) (dst member : String) :
    Outcome Bool → Database → Outcome Bool × Database
  | .ok true, self => self.access now db dst (.create setKind.toKind ∅ (HashSet.put member))
  | reply, self => (reply, self)

theorem pushTaken_localAt (now : Instant) (db : Nat) (dst : String) (dstLeft : Bool)
    (taken : Outcome (Option Bytes)) :
    LocalAt logical db (pushTaken now db dst dstLeft taken) := by
  rcases taken with e | (_ | elem)
  · exact LocalAt.const db (Except.error e)
  · exact LocalAt.const db (Except.ok none)
  · exact (access_localAt now db dst (.create listKind.toKind []
      (Deque.pushAll dstLeft [elem]))).andThen
        fun pushed => LocalAt.const db (pushed.map fun _ => some elem)

theorem putTaken_localAt (now : Instant) (db : Nat) (dst member : String) (taken : Outcome Bool) :
    LocalAt logical db (putTaken now db dst member taken) := by
  rcases taken with e | (_ | _)
  · exact LocalAt.const db (Except.error e)
  · exact LocalAt.const db (Except.ok false)
  · exact access_localAt now db dst _

theorem lmove_localAt (now : Instant) (db : Nat) (src dst : String) (srcLeft dstLeft : Bool) :
    LocalAt logical db fun self : Database => self.lmove now db src dst srcLeft dstLeft := by
  by_cases hsame : src = dst
  · exact (withDb_localAt db (LogicalDb.rotate src srcLeft dstLeft)).congr fun self => if_pos hsame
  · refine ((access_localAt now db src (.inPlace listKind none (Deque.take srcLeft))).andThen
      (pushTaken_localAt now db dst dstLeft)).congr fun self => ?_
    unfold lmove
    rw [if_neg hsame]
    rcases self.access now db src (.inPlace listKind none (Deque.take srcLeft)) with
      ⟨_ | _ | elem, self'⟩ <;> rfl

theorem smove_localAt (now : Instant) (db : Nat) (src dst member : String) :
    LocalAt logical db fun self : Database => self.smove now db src dst member := by
  refine ((withDb_localAt db (LogicalDb.takeMember src member)).andThen
    (putTaken_localAt now db dst member)).congr fun self => ?_
  unfold smove
  rcases self.withDb db (LogicalDb.takeMember src member) with ⟨_ | _ | _, self'⟩ <;> rfl

end Database

/-- **An operation stays in its database.** -/
theorem Op.localAt (op : Op α) (env : Env) {db : Nat} (h : op.index = some db) :
    LocalAt Database.logical db fun self => op.run env self := by
  cases op with
  | flushall | evictExpired => exact absurd h nofun
  | onKey db' key op =>
      obtain rfl := Option.some.inj h
      exact (Database.withDb_localAt _ _).congr fun self => op.run_eq env _ key self
  | existsKeys | keys | dbsize | randomkey | mget =>
      obtain rfl := Option.some.inj h
      exact Database.readDb_localAt _ _
  | del | rename | renamenx | flushdb | mset | msetnx =>
      obtain rfl := Option.some.inj h
      exact Database.withDb_localAt _ _
  | lmove db' src dst srcLeft dstLeft =>
      obtain rfl := Option.some.inj h
      exact Database.lmove_localAt env.now _ src dst srcLeft dstLeft
  | smove db' src dst member =>
      obtain rfl := Option.some.inj h
      exact Database.smove_localAt env.now _ src dst member
  | sunion db' names =>
      obtain rfl := Option.some.inj h
      exact Database.read_localAt fun s t hst => Database.sunion_logical hst env.now names
  | sinter db' names =>
      obtain rfl := Option.some.inj h
      exact Database.read_localAt fun s t hst => Database.sinter_logical hst env.now names
  | sdiff db' names =>
      obtain rfl := Option.some.inj h
      exact Database.read_localAt fun s t hst => Database.sdiff_logical hst env.now names
  | sunionstore db' dst names =>
      obtain rfl := Option.some.inj h
      exact Database.combine_localAt (fun s t hst => Database.sunion_logical hst env.now names) dst
  | sinterstore db' dst names =>
      obtain rfl := Option.some.inj h
      exact Database.combine_localAt (fun s t hst => Database.sinter_logical hst env.now names) dst
  | sdiffstore db' dst names =>
      obtain rfl := Option.some.inj h
      exact Database.combine_localAt (fun s t hst => Database.sdiff_logical hst env.now names) dst

/-- The operations on all databases treat each by itself. -/
theorem Op.run_everywhere (op : Op α) (env : Env) (h : op.index = none) {s t : Database} {i : Nat}
    (hst : s.logical i = t.logical i) :
    (op.run env s).1 = (op.run env t).1 ∧
      (op.run env s).2.logical i = (op.run env t).2.logical i := by
  cases op with
  | flushall =>
      refine ⟨rfl, ?_⟩
      simp only [run, Database.flushall, Database.logical, List.getElem?_map]
      exact congrArg _ hst
  | evictExpired =>
      refine ⟨rfl, ?_⟩
      simp only [run, Database.evictExpired, Database.logical, List.getElem?_map]
      exact congrArg _ hst
  | _ => exact absurd h nofun

end MiniRudis
