import MiniRudis.Db.Locality

/-!
# What holds of every cell

An invariant of the database here is one of its cells: a deadline belongs to an
object, and each object satisfies a predicate.  An operation keeps it if its work
on the value does.
-/

namespace MiniRudis

open Lib

variable {α : Type} {Q : RudisObject → Prop}

/-! ## Sound cells -/

/-- Only an object has a deadline, and the object satisfies `Q`. -/
structure Cell.Sound (Q : RudisObject → Prop) (c : Cell) : Prop where
  dated : c.deadline.isSome → c.obj.isSome
  good : ∀ o, c.obj = some o → Q o

namespace Cell

theorem Sound.absent : Cell.absent.Sound Q where
  dated h := absurd h (by simp [Cell.absent])
  good o h := absurd h (by simp [Cell.absent])

theorem Sound.ofObj {o : RudisObject} (h : Q o) (deadline : Option Instant) :
    (⟨some o, deadline⟩ : Cell).Sound Q where
  dated _ := rfl
  good o' ho := by
    rw [← Option.some.inj ho]
    exact h

theorem Sound.setExpiry {c : Cell} (h : c.Sound Q) (now : Instant) (duration : Duration) :
    (c.setExpiry now duration).2.Sound Q := by
  unfold Cell.setExpiry
  split
  · rename_i hobj
    split
    · exact ⟨fun _ => hobj, h.good⟩
    · exact h
  · exact h

theorem Sound.expireIn {c : Cell} (h : c.Sound Q) (now : Instant) (amount : Int)
    (duration : Duration) : (c.expireIn now amount duration).2.Sound Q := by
  unfold Cell.expireIn
  split
  · exact .absent
  · exact h.setExpiry now duration

theorem Sound.expireAt {c : Cell} (h : c.Sound Q) (now : Instant) (sysNow : SystemTime)
    (sinceEpoch : Duration) : (c.expireAt now sysNow sinceEpoch).2.Sound Q := by
  unfold Cell.expireAt
  split
  · exact h
  · exact .absent
  · unfold Cell.setExpiryAt
    split
    · rename_i hobj
      exact ⟨fun _ => hobj, h.good⟩
    · exact h

end Cell

/-! ## Single-key operations -/

/-- The work of an access on the value in `c` leaves a value that satisfies `Q`. -/
def Access.Keeps (Q : RudisObject → Prop) (now : Instant) (c : Cell) : Access α → Prop
  | .read _ _ _ => True
  | .modify K _ f => ∀ v, c.live now = some (K.inj v) → Q (K.inj (f v).2)
  | .create K init f =>
      (c.obj = none → Q (K.inj (f init).2)) ∧
        ∀ v, c.obj = some (K.inj v) → Q (K.inj (f v).2)
  | .inPlace K _ f =>
      ∀ v, c.obj = some (K.inj v) → (∀ r, (f v).1 = .ok r → K.isEmpty (f v).2 = false) →
        Q (K.inj (f v).2)

theorem Access.onCell_sound (a : Access α) {now : Instant} {c : Cell} (h : c.Sound Q)
    (hkeeps : a.Keeps Q now c) : (a.onCell now c).2.Sound Q := by
  cases a with
  | read K absent f =>
      rw [onCell]
      split
      · exact h
      · split <;> exact h
  | modify K absent f =>
      rw [onCell]
      by_cases hexp : c.expired now
      · rw [if_pos hexp]
        exact .absent
      · rw [if_neg hexp]
        cases hobj : c.obj with
        | none => exact h
        | some o =>
            cases hproj : K.proj o with
            | none => simpa only [hproj] using h
            | some v =>
                simp only [hproj]
                apply Cell.Sound.ofObj
                apply hkeeps v
                rw [← K.inj_proj hproj, ← hobj]
                simp [Cell.live, hexp]
  | create K init f =>
      rw [onCell]
      cases hobj : c.obj with
      | none => exact .ofObj (hkeeps.1 hobj) _
      | some o =>
          cases hproj : K.proj o with
          | none => simpa only [hproj] using h
          | some v =>
              simp only [hproj]
              apply Cell.Sound.ofObj
              apply hkeeps.2 v
              rw [hobj, K.inj_proj hproj]
  | inPlace K absent f =>
      rw [onCell]
      cases hobj : c.obj with
      | none => exact h
      | some o =>
          cases hproj : K.proj o with
          | none => simpa only [hproj] using h
          | some v =>
              have hv := hkeeps v (by rw [hobj, K.inj_proj hproj])
              simp only [hproj]
              cases hf : f v with
              | mk r v' =>
                  rw [hf] at hv
                  cases r with
                  | error e =>
                      apply Cell.Sound.ofObj
                      exact hv fun r hr => absurd hr (by simp)
                  | ok r =>
                      by_cases hempty : K.isEmpty v'
                      · simp only [hempty, if_true]
                        exact .absent
                      · simp only [hempty]
                        apply Cell.Sound.ofObj
                        apply hv
                        intro _ _
                        simpa using hempty

/-- `Q` says nothing of strings and of lists and sets with an element. -/
structure Lax (Q : RudisObject → Prop) : Prop where
  str : ∀ v, Q (.str v)
  list : ∀ l, l ≠ [] → Q (.list l)
  set : ∀ s : StrSet, s.isEmpty = false → Q (.set s)

def KeyOp.Keeps (Q : RudisObject → Prop) (env : Env) (c : Cell) : KeyOp α → Prop
  | typed op => (op.access env).Keeps Q env.now c
  | _ => True

theorem KeyOp.onCell_sound (hlax : Lax Q) (op : KeyOp α) {env : Env} {c : Cell}
    (h : c.Sound Q) (hkeeps : op.Keeps Q env c) : (op.onCell env c).2.Sound Q := by
  have hstr : ∀ value, (Cell.ofStr value).Sound Q := fun value => .ofObj (hlax.str value) _
  have hset : ∀ now value dur, (Cell.setWith now value dur).2.Sound Q := by
    intro now value dur
    cases dur with
    | none => exact hstr value
    | some dur => exact (hstr value).setExpiry now dur
  cases op with
  | typed op => exact (op.access env).onCell_sound h hkeeps
  | getset value =>
      rw [onCell]
      split
      · exact hstr value
      · exact hstr value
      · exact h
  | getdel =>
      rw [onCell]
      split
      · exact .absent
      · exact .absent
      · rename_i other hobj
        exact .ofObj (h.good _ hobj) _
  | set value dur => exact hset env.now value dur
  | setnx value =>
      rw [onCell]
      split
      · exact h
      · exact hstr value
  | setxx value dur =>
      rw [onCell]
      split
      · exact h
      · exact hset env.now value dur
  | typeOf =>
      rw [onCell]
      split <;> exact h
  | expire secs => exact h.expireIn env.now secs _
  | pexpire ms => exact h.expireIn env.now ms _
  | expireat tsSecs => exact h.expireAt env.now env.sysNow _
  | pexpireat tsMs => exact h.expireAt env.now env.sysNow _
  | pttl => exact h
  | ttl => exact h
  | persist => exact ⟨fun hsome => absurd hsome (by simp [onCell]), h.good⟩

/-! ## Sound databases -/

def LogicalDb.Sound (Q : RudisObject → Prop) (self : LogicalDb) : Prop :=
  ∀ key, (self.cell key).Sound Q

namespace LogicalDb.Sound

variable {self : LogicalDb}

theorem put (h : self.Sound Q) (key : String) {c : Cell} (hc : c.Sound Q) :
    (self.put key c).Sound Q := by
  intro other
  by_cases heq : other = key
  · rw [heq, cell_put]
    exact hc
  · rw [cell_put_ne self heq]
    exact h other

theorem onKey (h : self.Sound Q) (key : String) {g : Cell → Outcome α × Cell}
    (hg : (g (self.cell key)).2.Sound Q) : (self.onKey key g).2.Sound Q :=
  h.put key hg

theorem empty : LogicalDb.empty.Sound Q := by
  intro key
  rw [cell_empty]
  exact .absent

theorem remove (h : self.Sound Q) (key : String) : (self.remove key).2.Sound Q :=
  h.put key .absent

theorem insert (h : self.Sound Q) (key : String) {o : RudisObject} (ho : Q o) :
    (self.insert key o).Sound Q := by
  rw [insert_eq]
  exact h.put key (.ofObj ho _)

theorem store (h : self.Sound Q) (key : String) {o : RudisObject} (ho : Q o) :
    (self.store key o).Sound Q := by
  rw [store_eq]
  exact h.put key (.ofObj ho _)

theorem insertPairs (hlax : Lax Q) (h : self.Sound Q) (pairs : List (String × Bytes)) :
    (self.insertPairs pairs).Sound Q := by
  unfold LogicalDb.insertPairs
  induction pairs generalizing self with
  | nil => exact h
  | cons p pairs ih => exact ih (h.insert p.1 (hlax.str p.2))

theorem removeKeys (h : self.Sound Q) (keys : List String) :
    (self.removeKeys keys).2.Sound Q :=
  tally_invariant (P := LogicalDb.Sound Q) (fun _ key hldb => hldb.remove key) keys h

theorem evictExpired (h : self.Sound Q) (now : Instant) : (self.evictExpired now).Sound Q := by
  intro key
  rw [cell_evictExpired]
  split
  · exact .absent
  · exact h key

theorem move (h : self.Sound Q) {src : String} (dst : String) {o : RudisObject}
    {ldb : LogicalDb} (hsrc : self.remove src = (some o, ldb)) : (ldb.insert dst o).Sound Q := by
  have hldb := h.remove src
  rw [hsrc] at hldb
  exact hldb.insert dst ((h src).good o (congrArg Prod.fst hsrc))

theorem rotate (hlax : Lax Q) (h : self.Sound Q) (key : String) (srcLeft dstLeft : Bool) :
    (self.rotate key srcLeft dstLeft).2.Sound Q := by
  unfold LogicalDb.rotate
  split
  · exact h
  · rename_i l hl
    apply h.store
    have hlist : Q (.list l) := (h key).good _ hl
    unfold Deque.rotate
    split
    · exact hlist
    · split
      · exact hlist
      · apply hlax.list
        unfold Deque.pushAt
        split <;> simp [Deque.pushFront, Deque.pushBack]
  · exact h

theorem takeMember (hlax : Lax Q) (h : self.Sound Q) (src member : String) :
    (self.takeMember src member).2.Sound Q := by
  unfold LogicalDb.takeMember
  split
  · exact h
  · split
    · rename_i s _ _ s' _
      simp only
      cases hempty : s'.isEmpty with
      | false => exact h.store src (hlax.set s' hempty)
      | true =>
          simp only [if_true, remove_eq, store_eq, put_put]
          exact h.put src .absent
    · exact h
  · exact h

end LogicalDb.Sound

namespace Database

def Sound (Q : RudisObject → Prop) (self : Database) : Prop :=
  ∀ ldb ∈ self.dbs, ldb.Sound Q

theorem new_sound (dbCount : Nat) : (new dbCount).Sound Q := by
  intro ldb hldb
  rw [List.eq_of_mem_replicate hldb]
  exact .empty

theorem Sound.cellAt {self : Database} (h : self.Sound Q) (db : Nat) (key : String) :
    (self.cellAt db key).Sound Q := by
  unfold Database.cellAt
  split
  · rename_i ldb hdb
    exact h ldb (List.mem_of_getElem? hdb) key
  · exact .absent

theorem Sound.withDb {self : Database} (h : self.Sound Q) {db : Nat}
    {f : LogicalDb → Outcome α × LogicalDb}
    (hf : ∀ ldb, self.dbs[db]? = some ldb → ldb.Sound Q → (f ldb).2.Sound Q) :
    (self.withDb db f).2.Sound Q := by
  unfold Database.withDb
  cases hdb : self.dbs[db]? with
  | none => exact h
  | some ldb =>
      intro ldb' hmem
      obtain hmem | rfl := List.mem_or_eq_of_mem_set hmem
      · exact h ldb' hmem
      · exact hf ldb hdb (h ldb (List.mem_of_getElem? hdb))

theorem Sound.access {self : Database} (h : self.Sound Q) {now : Instant} {db : Nat}
    {key : String} {a : Access α}
    (ha : ∀ c, self.entry (db, key) = some c → c.Sound Q → a.Keeps Q now c) :
    (self.access now db key a).2.Sound Q := by
  apply h.withDb
  intro ldb hdb hldb
  rw [Access.run_eq]
  exact hldb.put key
    (a.onCell_sound (hldb key) (ha _ (by simp [Database.entry, hdb]) (hldb key)))

end Database

/-! ## All operations -/

def Op.Keeps (Q : RudisObject → Prop) (env : Env) (self : Database) : Op α → Prop
  | onKey db key op => ∀ c, self.entry (db, key) = some c → c.Sound Q → op.Keeps Q env c
  | sunionstore db _ names =>
      ∀ members, self.sunion env.now db names = .ok members → Q (.set (HashSet.ofList members))
  | sinterstore db _ names =>
      ∀ members, self.sinter env.now db names = .ok members → Q (.set (HashSet.ofList members))
  | sdiffstore db _ names =>
      ∀ members, self.sdiff env.now db names = .ok members → Q (.set (HashSet.ofList members))
  | _ => True

theorem Database.Sound.storeSet {self : Database} (h : self.Sound Q) (db : Nat) (dst : String)
    {result : Outcome (List String)}
    (hresult : ∀ members, result = .ok members → Q (.set (HashSet.ofList members))) :
    (self.storeSet db dst result).2.Sound Q := by
  unfold Database.storeSet
  cases result with
  | error e => exact h
  | ok members => exact h.withDb fun ldb _ hldb => hldb.insert dst (hresult members rfl)

theorem Database.Sound.lmove (hlax : Lax Q) {self : Database} (h : self.Sound Q) (now : Instant)
    (db : Nat) (src dst : String) (srcLeft dstLeft : Bool) :
    (self.lmove now db src dst srcLeft dstLeft).2.Sound Q := by
  have htake : (self.access now db src (.inPlace listKind none (Deque.take srcLeft))).2.Sound Q := by
    apply h.access
    intro c _ hc l hl hkept
    have hne : (Deque.take srcLeft l).2 ≠ [] := by
      have hok : ∃ r, (Deque.take srcLeft l).1 = .ok r := by
        unfold Deque.take
        split <;> exact ⟨_, rfl⟩
      obtain ⟨r, hr⟩ := hok
      simpa [listKind] using hkept r hr
    exact hlax.list _ hne
  unfold Database.lmove
  split
  · exact h.withDb fun ldb _ hldb => hldb.rotate hlax src srcLeft dstLeft
  · split
    · rename_i elem self' hrun
      rw [hrun] at htake
      apply htake.access
      intro c _ hc
      have hpush : ∀ l, (Deque.pushAll dstLeft [elem] l).2 ≠ [] := by
        intro l
        unfold Deque.pushAll Deque.pushAt
        split <;> simp [Deque.pushFront, Deque.pushBack]
      exact ⟨fun _ => hlax.list _ (hpush _), fun l _ => hlax.list _ (hpush l)⟩
    · rename_i reply self' _ hrun
      rw [hrun] at htake
      exact htake

theorem Database.Sound.smove (hlax : Lax Q) {self : Database} (h : self.Sound Q) (now : Instant)
    (db : Nat) (src dst member : String) : (self.smove now db src dst member).2.Sound Q := by
  have htake : (self.withDb db (LogicalDb.takeMember src member)).2.Sound Q :=
    h.withDb fun ldb _ hldb => hldb.takeMember hlax src member
  unfold Database.smove
  split
  · rename_i self' hrun
    rw [hrun] at htake
    apply htake.access
    intro c _ hc
    have hput : ∀ s : StrSet, (s.insert member).isEmpty = false := by
      intro s
      simp
    exact ⟨fun _ => hlax.set _ (hput ∅), fun s _ => hlax.set _ (hput s)⟩
  · rename_i reply self' _ hrun
    rw [hrun] at htake
    exact htake

theorem Op.run_sound (hlax : Lax Q) (op : Op α) {env : Env} {self : Database}
    (h : self.Sound Q) (hkeeps : op.Keeps Q env self) : (op.run env self).2.Sound Q := by
  cases op with
  | onKey db key op =>
      rw [run, op.run_eq]
      apply h.withDb
      intro ldb hdb hldb
      apply hldb.onKey
      apply op.onCell_sound hlax (hldb key)
      exact hkeeps _ (by simp [Database.entry, hdb]) (hldb key)
  | existsKeys | keys | dbsize | randomkey | mget | sunion | sinter | sdiff => exact h
  | del db names => exact h.withDb fun ldb _ hldb => hldb.removeKeys names
  | rename db src dst =>
      apply h.withDb
      intro ldb _ hldb
      split
      · rename_i ldb' hsrc
        have hremoved := hldb.remove src
        rw [hsrc] at hremoved
        exact hremoved
      · rename_i obj ldb' hsrc
        exact hldb.move dst hsrc
  | renamenx db src dst =>
      apply h.withDb
      intro ldb _ hldb
      split
      · exact hldb
      · split
        · rename_i ldb' hsrc
          have hremoved := hldb.remove src
          rw [hsrc] at hremoved
          exact hremoved
        · rename_i obj ldb' hsrc
          exact hldb.move dst hsrc
  | flushdb db => exact h.withDb fun _ _ _ => .empty
  | flushall =>
      intro ldb hldb
      obtain ⟨_, -, rfl⟩ := List.mem_map.mp hldb
      exact .empty
  | evictExpired =>
      intro ldb hldb
      obtain ⟨ldb', hldb', rfl⟩ := List.mem_map.mp hldb
      exact (h ldb' hldb').evictExpired env.now
  | mset db pairs => exact h.withDb fun ldb _ hldb => hldb.insertPairs hlax pairs
  | msetnx db pairs =>
      apply h.withDb
      intro ldb _ hldb
      split
      · exact hldb
      · exact hldb.insertPairs hlax pairs
  | lmove db src dst srcLeft dstLeft => exact h.lmove hlax env.now db src dst srcLeft dstLeft
  | sunionstore db dst names => exact h.storeSet db dst hkeeps
  | sinterstore db dst names => exact h.storeSet db dst hkeeps
  | sdiffstore db dst names => exact h.storeSet db dst hkeeps
  | smove db src dst member => exact h.smove hlax env.now db src dst member

end MiniRudis
