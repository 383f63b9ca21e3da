import MiniRudis.Db.ZSet
import Std.Data.ExtTreeSet.Lemmas

/-!
# Objects

The five types a key can hold, and for each the pattern by which the source
matches it.
-/

namespace MiniRudis

abbrev StrSet := Std.ExtTreeSet String compare

inductive RudisObject
  | str (v : Bytes)
  | list (l : List Bytes)
  | hash (h : StrMap Bytes)
  | set (s : StrSet)
  | zset (z : ZSetInner)

namespace RudisObject

def typeName : RudisObject → String
  | str _ => "string"
  | list _ => "list"
  | hash _ => "hash"
  | set _ => "set"
  | zset _ => "zset"

def isEmptyAggregate : RudisObject → Bool
  | str _ => false
  | list l => l.isEmpty
  | hash h => h.isEmpty
  | set s => s.isEmpty
  | zset z => z.isEmpty

def Coupled : RudisObject → Prop
  | zset z => z.Coupled
  | _ => True

end RudisObject

/-- One of the types: the match arm `RudisObject::X(v)`. -/
structure Kind (τ : Type) where
  inj : τ → RudisObject
  proj : RudisObject → Option τ
  /-- Its `type_name`. -/
  name : String
  proj_inj : ∀ v, proj (inj v) = some v
  inj_proj : ∀ {o v}, proj o = some v → o = inj v
  proj_none : ∀ {o}, proj o = none ↔ o.typeName ≠ name

/-- A type whose emptied values the source deletes. -/
structure Aggregate (τ : Type) extends Kind τ where
  isEmpty : τ → Bool
  isEmpty_inj : ∀ v, (inj v).isEmptyAggregate = isEmpty v

def strKind : Kind Bytes where
  inj := .str
  proj | .str v => some v | _ => none
  name := "string"
  proj_inj _ := rfl
  inj_proj {o v} h := by cases o <;> simp_all
  proj_none {o} := by cases o <;> simp [RudisObject.typeName]

def listKind : Aggregate (List Bytes) where
  inj := .list
  proj | .list l => some l | _ => none
  name := "list"
  proj_inj _ := rfl
  inj_proj {o v} h := by cases o <;> simp_all
  proj_none {o} := by cases o <;> simp [RudisObject.typeName]
  isEmpty := List.isEmpty
  isEmpty_inj _ := rfl

def hashKind : Aggregate (StrMap Bytes) where
  inj := .hash
  proj | .hash h => some h | _ => none
  name := "hash"
  proj_inj _ := rfl
  inj_proj {o v} h := by cases o <;> simp_all
  proj_none {o} := by cases o <;> simp [RudisObject.typeName]
  isEmpty h := h.isEmpty
  isEmpty_inj _ := rfl

def setKind : Aggregate StrSet where
  inj := .set
  proj | .set s => some s | _ => none
  name := "set"
  proj_inj _ := rfl
  inj_proj {o v} h := by cases o <;> simp_all
  proj_none {o} := by cases o <;> simp [RudisObject.typeName]
  isEmpty s := s.isEmpty
  isEmpty_inj _ := rfl

def zsetKind : Aggregate ZSetInner where
  inj := .zset
  proj | .zset z => some z | _ => none
  name := "zset"
  proj_inj _ := rfl
  inj_proj {o v} h := by cases o <;> simp_all
  proj_none {o} := by cases o <;> simp [RudisObject.typeName]
  isEmpty z := z.isEmpty
  isEmpty_inj _ := rfl

end MiniRudis
