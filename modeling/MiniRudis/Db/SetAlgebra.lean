import MiniRudis.Db.Entries
import MiniRudis.Db.Filled

/-!
# The algebra of sets

The three operations on several sets are the set algebra on what their keys hold, and each
store leaves the result of its operation.
-/

namespace MiniRudis

open Lib

/-! ## The operations on sets -/

inductive SetOp
  | union
  | inter
  | diff

namespace SetOp

variable {α β : Type}

def denotes : SetOp → List (Set α) → Set α
  | union, sets => {m | ∃ s ∈ sets, m ∈ s}
  | inter, sets => {m | ∀ s ∈ sets, m ∈ s}
  | diff, [] => ∅
  | diff, first :: rest => {m | m ∈ first ∧ ∀ s ∈ rest, m ∉ s}

/-- The same operands, as far as the operation can tell: only a difference has a first. -/
def Reorders : SetOp → List β → List β → Prop
  | union, l, l' => l.Perm l'
  | inter, l, l' => l.Perm l'
  | diff, l, l' => l.head? = l'.head? ∧ l.tail.Perm l'.tail

theorem Reorders.mem_iff {op : SetOp} {l l' : List β} (h : op.Reorders l l') (b : β) :
    b ∈ l ↔ b ∈ l' := by
  cases op with
  | union => exact List.Perm.mem_iff h
  | inter => exact List.Perm.mem_iff h
  | diff =>
      rcases h with ⟨hhead, htail⟩
      cases l with
      | nil => rw [List.head?_eq_none_iff.mp hhead.symm]
      | cons a l =>
          obtain ⟨rest, rfl⟩ := List.head?_eq_some_iff.mp hhead.symm
          rw [List.mem_cons, List.mem_cons]
          exact or_congr_right htail.mem_iff

theorem Reorders.ne_nil {op : SetOp} {l l' : List β} (h : op.Reorders l l') (hl : l ≠ []) :
    l' ≠ [] := by
  obtain ⟨b, hb⟩ := List.exists_mem_of_ne_nil l hl
  exact List.ne_nil_of_mem ((h.mem_iff b).mp hb)

theorem Reorders.map {op : SetOp} {l l' : List β} (h : op.Reorders l l') (f : β → α) :
    op.Reorders (l.map f) (l'.map f) := by
  cases op with
  | union => exact List.Perm.map f h
  | inter => exact List.Perm.map f h
  | diff =>
      refine ⟨?_, ?_⟩
      · rw [List.head?_map, List.head?_map, h.1]
      · rw [← List.map_tail, ← List.map_tail]
        exact h.2.map f

theorem denotes_reorders {op : SetOp} {sets sets' : List (Set α)} (h : op.Reorders sets sets') :
    op.denotes sets = op.denotes sets' := by
  cases op with
  | union => simp only [denotes, h.mem_iff]
  | inter => simp only [denotes, h.mem_iff]
  | diff =>
      rcases h with ⟨hhead, htail⟩
      cases sets with
      | nil => rw [List.head?_eq_none_iff.mp hhead.symm]
      | cons first rest =>
          obtain ⟨rest', rfl⟩ := List.head?_eq_some_iff.mp hhead.symm
          have hmem : ∀ s, s ∈ rest ↔ s ∈ rest' := fun s => htail.mem_iff
          simp only [denotes, hmem]

end SetOp

/-! ## Operands -/

namespace Cell

variable {c : Cell} {now : Instant}

/-- There is no value of another type. -/
def SetOrAbsent (c : Cell) (now : Instant) : Prop :=
  ∀ o, c.live now = some o → ∃ s, o = .set s

def setAt (c : Cell) (now : Instant) : StrSet :=
  match c.live now with
  | some (.set s) => s
  | _ => ∅

end Cell

namespace HashSet

theorem nodup_toList (s : StrSet) : s.toList.Nodup :=
  (Std.ExtTreeSet.distinct_toList (t := s)).imp fun h heq => h (compare_eq_iff_eq.mpr heq)

theorem ofList_toList_perm {members : List String} (h : members.Nodup) :
    (ofList members).toList.Perm members := by
  rw [List.perm_ext_iff_of_nodup (nodup_toList _) h]
  intro m
  rw [Std.ExtTreeSet.mem_toList, mem_ofList]

end HashSet

/-! ## Replies -/

namespace Database

variable {self : Database} {now : Instant} {db : Nat} {keys keys' : List String} {op : SetOp}

def combine (self : Database) (now : Instant) (db : Nat) (keys : List String) :
    SetOp → Outcome (List String)
  | .union => self.sunion now db keys
  | .inter => self.sinter now db keys
  | .diff => self.sdiff now db keys

def combineStore (self : Database) (now : Instant) (db : Nat) (dst : String) (keys : List String) :
    SetOp → Outcome Nat × Database
  | .union => self.sunionstore now db dst keys
  | .inter => self.sinterstore now db dst keys
  | .diff => self.sdiffstore now db dst keys

def SetsOrAbsent (self : Database) (now : Instant) (db : Nat) (keys : List String) : Prop :=
  ∀ key ∈ keys, (self.cellAt db key).SetOrAbsent now

def membersAt (self : Database) (now : Instant) (db : Nat) (key : String) : Set String :=
  {m | m ∈ (self.cellAt db key).setAt now}

theorem getSetClone_ok (hdb : db < self.dbs.length) {key : String}
    (hkey : (self.cellAt db key).SetOrAbsent now) :
    self.getSetClone now db key = .ok ((self.cellAt db key).setAt now) := by
  rw [getSetClone, Cell.setAt]
  cases hlive : (self.cellAt db key).live now with
  | none => exact readDb_absent setKind.toKind hdb hlive ∅ _
  | some o =>
      obtain ⟨s, rfl⟩ := hkey o hlive
      exact readDb_live setKind.toKind hlive ∅ _

theorem getSetClone_other {key : String} {o : RudisObject}
    (hlive : (self.cellAt db key).live now = some o) (hother : ∀ s, o ≠ .set s) :
    self.getSetClone now db key = err .wrongType := by
  apply readDb_other setKind.toKind hlive
  cases o with
  | set s => exact absurd rfl (hother s)
  | str | list | hash | zset => rfl

theorem getSetClone_wrongType {key : String} (hkey : ¬ (self.cellAt db key).SetOrAbsent now) :
    self.getSetClone now db key = err .wrongType := by
  unfold Cell.SetOrAbsent at hkey
  push Not at hkey
  rcases hkey with ⟨o, hlive, hother⟩
  exact getSetClone_other hlive hother

theorem getSetClone_error (hdb : db < self.dbs.length) {key : String} {e : Fault}
    (he : self.getSetClone now db key = .error e) : e = .err .wrongType := by
  by_cases hkey : (self.cellAt db key).SetOrAbsent now
  · rw [getSetClone_ok hdb hkey] at he
    exact absurd he (by simp)
  · rw [getSetClone_wrongType hkey] at he
    exact (Except.error.inj he).symm

theorem mapM_getSetClone (hdb : db < self.dbs.length) (hsets : self.SetsOrAbsent now db keys) :
    keys.mapM (fun key => self.getSetClone now db key) =
      .ok (keys.map fun key => (self.cellAt db key).setAt now) :=
  mapM_ok fun key hkey => getSetClone_ok hdb (hsets key hkey)

theorem mapM_wrongType (hdb : db < self.dbs.length) (hsets : ¬ self.SetsOrAbsent now db keys) :
    keys.mapM (fun key => self.getSetClone now db key) = err .wrongType := by
  unfold SetsOrAbsent at hsets
  push Not at hsets
  rcases hsets with ⟨key, hkey, hother⟩
  exact mapM_error (fun key e he => getSetClone_error hdb he)
    ⟨key, hkey, getSetClone_wrongType hother⟩

/-- The reply lists a set of members without repetition. -/
def Lists (reply : Outcome (List String)) (s : Set String) : Prop :=
  ∃ members, reply = .ok members ∧ members.Nodup ∧ ∀ m, m ∈ members ↔ m ∈ s

theorem sunion_lists (hdb : db < self.dbs.length) (hsets : self.SetsOrAbsent now db keys) :
    Lists (self.sunion now db keys) (SetOp.union.denotes (keys.map (self.membersAt now db))) := by
  have heq : self.sunion now db keys = .ok (HashSet.ofList
      ((keys.map fun key => (self.cellAt db key).setAt now).flatMap fun s => s.toList)).toList := by
    rw [sunion, mapM_getSetClone hdb hsets]
    rfl
  refine ⟨_, heq, HashSet.nodup_toList _, fun m => ?_⟩
  rw [Std.ExtTreeSet.mem_toList, HashSet.mem_ofList, List.flatMap_map, List.mem_flatMap]
  simp only [SetOp.denotes, Set.mem_ofPred_eq, List.mem_map, exists_exists_and_eq_and,
    Std.ExtTreeSet.mem_toList]
  rfl

theorem sinter_lists (hdb : db < self.dbs.length) (hkeys : keys ≠ [])
    (hsets : self.SetsOrAbsent now db keys) :
    Lists (self.sinter now db keys) (SetOp.inter.denotes (keys.map (self.membersAt now db))) := by
  cases keys with
  | nil => exact absurd rfl hkeys
  | cons key keys =>
      have heq : self.sinter now db (key :: keys) =
          .ok (((self.cellAt db key).setAt now).toList.filter fun m =>
            (keys.map fun key => (self.cellAt db key).setAt now).all fun s => s.contains m) := by
        rw [sinter, if_neg (by simp), mapM_getSetClone hdb hsets]
        rfl
      refine ⟨_, heq, (HashSet.nodup_toList _).filter _, fun m => ?_⟩
      rw [List.mem_filter, Std.ExtTreeSet.mem_toList, List.all_map, List.all_eq_true]
      simp only [SetOp.denotes, Set.mem_ofPred_eq, List.map_cons, List.forall_mem_cons,
        List.forall_mem_map, Function.comp_apply, Std.ExtTreeSet.contains_iff_mem]
      rfl

theorem sdiff_lists (hdb : db < self.dbs.length) (hkeys : keys ≠ [])
    (hsets : self.SetsOrAbsent now db keys) :
    Lists (self.sdiff now db keys) (SetOp.diff.denotes (keys.map (self.membersAt now db))) := by
  cases keys with
  | nil => exact absurd rfl hkeys
  | cons key keys =>
      rcases List.forall_mem_cons.mp hsets with ⟨hfirst, hrest⟩
      have heq : self.sdiff now db (key :: keys) =
          .ok (((self.cellAt db key).setAt now).toList.filter fun m =>
            !(keys.map fun key => (self.cellAt db key).setAt now).any fun s => s.contains m) := by
        rw [sdiff, getSetClone_ok hdb hfirst, mapM_getSetClone hdb hrest]
        rfl
      refine ⟨_, heq, (HashSet.nodup_toList _).filter _, fun m => ?_⟩
      rw [List.mem_filter, Std.ExtTreeSet.mem_toList, List.any_map, Bool.not_eq_true',
        List.any_eq_false]
      simp only [SetOp.denotes, Set.mem_ofPred_eq, List.map_cons, List.forall_mem_map,
        Function.comp_apply, Std.ExtTreeSet.contains_iff_mem]
      rfl

theorem combine_lists (hdb : db < self.dbs.length) (hkeys : keys ≠ [])
    (hsets : self.SetsOrAbsent now db keys) (op : SetOp) :
    Lists (self.combine now db keys op) (op.denotes (keys.map (self.membersAt now db))) := by
  cases op with
  | union => exact sunion_lists hdb hsets
  | inter => exact sinter_lists hdb hkeys hsets
  | diff => exact sdiff_lists hdb hkeys hsets

theorem combine_wrongType (hdb : db < self.dbs.length) (hsets : ¬ self.SetsOrAbsent now db keys)
    (op : SetOp) : self.combine now db keys op = err .wrongType := by
  cases op with
  | union =>
      rw [combine, sunion, mapM_wrongType hdb hsets]
      rfl
  | inter =>
      have hkeys : keys ≠ [] := by
        rintro rfl
        exact hsets (by simp [SetsOrAbsent])
      rw [combine, sinter, if_neg (by simpa using hkeys), mapM_wrongType hdb hsets]
      rfl
  | diff =>
      cases keys with
      | nil => exact absurd (by simp [SetsOrAbsent]) hsets
      | cons key keys =>
          rw [combine, sdiff]
          by_cases hfirst : (self.cellAt db key).SetOrAbsent now
          · have hrest : ¬ self.SetsOrAbsent now db keys := fun hrest =>
              hsets (List.forall_mem_cons.mpr ⟨hfirst, hrest⟩)
            rw [getSetClone_ok hdb hfirst, mapM_wrongType hdb hrest]
            rfl
          · rw [getSetClone_wrongType hfirst]
            rfl

/-! ## Stores -/

theorem combineStore_eq (self : Database) (now : Instant) (db : Nat) (dst : String)
    (keys : List String) (op : SetOp) :
    self.combineStore now db dst keys op = self.storeSet db dst (self.combine now db keys op) := by
  cases op <;> rfl

theorem storeSet_ok (hdb : db < self.dbs.length) (dst : String) (members : List String) :
    self.storeSet db dst (.ok members) =
      (.ok members.length,
        self.putCell db dst ⟨some (.set (HashSet.ofList members)), none⟩) := by
  have hsome := List.getElem?_eq_getElem hdb
  rw [storeSet, withDb_eq hsome, putCell_eq hsome, LogicalDb.insert_eq]

/-- **Set algebra.**  `SUNION`, `SINTER` and `SDIFF` list what they denote on the sets at
their keys, whatever the order that they do not depend on, and refuse other types; their
stores reply the size of that list and leave it at `dst`, and every other key as it was. -/
structure SetAlgebra (before : Database) (now : Instant) (db : Nat) (keys : List String)
    (op : SetOp) : Prop where
  lists : before.SetsOrAbsent now db keys →
    Lists (before.combine now db keys op) (op.denotes (keys.map (before.membersAt now db)))
  reorders : before.SetsOrAbsent now db keys → ∀ keys', op.Reorders keys keys' →
    ∃ members members', before.combine now db keys op = .ok members ∧
      before.combine now db keys' op = .ok members' ∧ members.Perm members'
  wrongType : (∃ key ∈ keys, ∃ o, (before.cellAt db key).live now = some o ∧ ∀ s, o ≠ .set s) →
    before.combine now db keys op = err .wrongType ∧
      ∀ dst, before.combineStore now db dst keys op = (err .wrongType, before)
  stores : before.SetsOrAbsent now db keys → ∀ dst, ∃ members after,
    before.combine now db keys op = .ok members ∧
      before.combineStore now db dst keys op = (.ok members.length, after) ∧
      (∀ later, ∃ stored, after.smembers later db dst = .ok stored ∧ stored.Perm members) ∧
      (after.cellAt db dst).deadline = none ∧
      ∀ db' key, (db', key) ≠ (db, dst) → after.cellAt db' key = before.cellAt db' key

theorem SetsOrAbsent.reorders (h : self.SetsOrAbsent now db keys) (hkeys : op.Reorders keys keys') :
    self.SetsOrAbsent now db keys' :=
  fun key hkey => h key ((hkeys.mem_iff key).mpr hkey)

theorem Lists.perm {reply reply' : Outcome (List String)} {s : Set String} (h : Lists reply s)
    (h' : Lists reply' s) :
    ∃ members members', reply = .ok members ∧ reply' = .ok members' ∧ members.Perm members' := by
  rcases h with ⟨members, hreply, hnodup, hmem⟩
  rcases h' with ⟨members', hreply', hnodup', hmem'⟩
  refine ⟨members, members', hreply, hreply', ?_⟩
  rw [List.perm_ext_iff_of_nodup hnodup hnodup']
  exact fun m => (hmem m).trans (hmem' m).symm

theorem smembers_putCell (hdb : db < self.dbs.length) (now : Instant) (key : String) (s : StrSet) :
    (self.putCell db key ⟨some (.set s), none⟩).smembers now db key = .ok s.toList := by
  have hlive : ((self.putCell db key ⟨some (.set s), none⟩).cellAt db key).live now =
      some (setKind.inj s) := by
    rw [cellAt_putCell hdb]
    rfl
  rw [smembers, readDb_live setKind.toKind hlive]

theorem set_algebra (hdb : db < self.dbs.length) (hkeys : keys ≠ []) (now : Instant) (op : SetOp) :
    self.SetAlgebra now db keys op := by
  constructor
  case lists => exact fun hsets => combine_lists hdb hkeys hsets op
  case reorders =>
    intro hsets keys' hreorders
    have hlists := combine_lists hdb hkeys hsets op
    have hlists' := combine_lists hdb (hreorders.ne_nil hkeys) (hsets.reorders hreorders) op
    rw [← SetOp.denotes_reorders (hreorders.map (self.membersAt now db))] at hlists'
    exact hlists.perm hlists'
  case wrongType =>
    rintro ⟨key, hkey, o, hlive, hother⟩
    have hsets : ¬ self.SetsOrAbsent now db keys := by
      intro hsets
      obtain ⟨s, hs⟩ := hsets key hkey o hlive
      exact hother s hs
    refine ⟨combine_wrongType hdb hsets op, fun dst => ?_⟩
    rw [combineStore_eq, combine_wrongType hdb hsets]
    rfl
  case stores =>
    intro hsets dst
    obtain ⟨members, hreply, hnodup, -⟩ := combine_lists hdb hkeys hsets op
    have hstore : self.combineStore now db dst keys op = (.ok members.length,
        self.putCell db dst ⟨some (.set (HashSet.ofList members)), none⟩) := by
      rw [combineStore_eq, hreply, storeSet_ok hdb]
    refine ⟨members, _, hreply, hstore, fun later => ?_, ?_, fun db' key hne => ?_⟩
    · exact ⟨_, smembers_putCell hdb later dst _, HashSet.ofList_toList_perm hnodup⟩
    · rw [cellAt_putCell hdb]
    · by_cases hdb' : db' = db
      · subst hdb'
        exact cellAt_putCell_ne hdb (fun hkey => hne (by rw [hkey])) _
      · exact cellAt_putCell_db hdb' dst key _

theorem set_algebra_twice :
    ((Database.new 1).putCell 0 "k" ⟨some (.set (HashSet.ofList ["a", "b"])), none⟩).SetAlgebra
      0 0 ["k", "l", "l"] .diff :=
  set_algebra (by decide) (by decide) 0 .diff

end Database

end MiniRudis
