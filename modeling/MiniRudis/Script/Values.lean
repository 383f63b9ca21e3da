import MiniRudis.Proto.Frame
import MiniRudis.Rust.Float

/-!
# Lua values

What a frame becomes in a script, and what frame a script's result becomes.  A table
is a finite map from keys to values, in which an absent key reads as nil.
-/

namespace MiniRudis

inductive LuaKey
  | int (i : Int)
  | str (s : Bytes)
  deriving DecidableEq

mutual

inductive LuaValue
  | nil
  | boolean (b : Bool)
  | integer (n : Int)
  | number (f : F64)
  | string (s : Bytes)
  | table (t : LuaTable)
  /-- A value of another type, with the text by which it is shown. -/
  | other (typeName shown : String)

inductive LuaTable
  | empty
  | entry (key : LuaKey) (value : LuaValue) (rest : LuaTable)

end

namespace LuaTable

def size : LuaTable → Nat
  | empty => 0
  | entry _ _ rest => rest.size + 1

def get (key : LuaKey) : LuaTable → LuaValue
  | empty => .nil
  | entry k value rest => if k = key then value else rest.get key

end LuaTable

def LuaValue.typeName : LuaValue → String
  | nil => "nil"
  | boolean _ => "boolean"
  | integer _ => "integer"
  | number _ => "number"
  | string _ => "string"
  | table _ => "table"
  | other typeName _ => typeName

def LuaValue.isNil : LuaValue → Bool
  | nil => true
  | _ => false

/-! ## From frames -/

mutual

def frameToLuaValue : Frame → LuaValue
  | .simple s => .string (asBytes s)
  | .error e => .table (.entry (.str (asBytes "err")) (.string (asBytes e)) .empty)
  | .integer n => .integer n
  | .bulk b => .string b
  | .null => .boolean false
  | .array items => .table (itemsTable 1 items)

def itemsTable (i : Int) : List Frame → LuaTable
  | [] => .empty
  | item :: items => .entry (.int i) (frameToLuaValue item) (itemsTable (i + 1) items)

end

/-! ## To frames -/

/-- `f as i64`: toward zero, and to the nearest bound beyond the range. -/
def F64.toI64 : F64 → Int
  | .nan => 0
  | .negInf => i64Min
  | .posInf => i64Max
  | .finite n _ => max i64Min (min i64Max (n.tdiv (2 ^ unitBits)))

/-- The frames at `i`, `i + 1`, and so on, up to the first key that reads as nil. -/
def framesFrom (frames : List (LuaKey × Option Frame)) : Nat → Int → List Frame
  | 0, _ => []
  | fuel + 1, i =>
      match frames.lookup (.int i) with
      | some (some frame) => frame :: framesFrom frames fuel (i + 1)
      | _ => []

mutual

/-- `lua_value_to_frame`, which never fails.  The loop over a table ends within as many
turns as the table has entries. -/
def luaValueToFrame : LuaValue → Frame
  | .nil => .null
  | .boolean b => if b then .integer 1 else .null
  | .integer n => .integer n
  | .number f => .integer f.toI64
  | .string s => .bulk s
  | .table t =>
      match t.get (.str (asBytes "err")), t.get (.str (asBytes "ok")) with
      | .string e, _ => .error (fromUtf8Lossy e)
      | _, .string s => .simple (fromUtf8Lossy s)
      | _, _ => .array (framesFrom (tableFrames t) t.size 1)
  | .other _ shown => .bulkStr shown

def tableFrames : LuaTable → List (LuaKey × Option Frame)
  | .empty => []
  | .entry key value rest =>
      (key, if value.isNil then none else some (luaValueToFrame value)) :: tableFrames rest

end

/-! ## There and back -/

/-- What a script returns that returns the reply of `redis.call`. -/
def throughLua (f : Frame) : Frame := luaValueToFrame (frameToLuaValue f)

theorem isNil_frameToLuaValue (f : Frame) : (frameToLuaValue f).isNil = false := by
  cases f <;> rfl

theorem size_itemsTable (i : Int) (items : List Frame) : (itemsTable i items).size = items.length := by
  induction items generalizing i with
  | nil => rfl
  | cons item items ih => rw [itemsTable, LuaTable.size, ih, List.length_cons]

theorem get_itemsTable_str (s : Bytes) (i : Int) (items : List Frame) :
    (itemsTable i items).get (.str s) = .nil := by
  induction items generalizing i with
  | nil => rfl
  | cons item items ih =>
      rw [itemsTable, LuaTable.get, if_neg (by simp)]
      exact ih (i + 1)

theorem lookup_tableFrames (i : Int) (items : List Frame) (k : Nat) :
    (tableFrames (itemsTable i items)).lookup (.int (i + k)) =
      (items[k]?).map fun item => some (throughLua item) := by
  induction items generalizing i k with
  | nil => rfl
  | cons item items ih =>
      rw [itemsTable, tableFrames, isNil_frameToLuaValue, List.lookup_cons]
      cases k with
      | zero => simp [throughLua]
      | succ k =>
          have hne : (LuaKey.int (i + (k + 1 : Nat)) == LuaKey.int i) = false := by
            rw [beq_eq_false_iff_ne]
            intro heq
            have hint := LuaKey.int.inj heq
            omega
          have hnext : i + ((k + 1 : Nat) : Int) = i + 1 + k := by omega
          rw [hne, List.getElem?_cons_succ, ← ih (i + 1) k, hnext]

theorem framesFrom_itemsTable (items : List Frame) (k : Nat) (hk : k ≤ items.length) :
    framesFrom (tableFrames (itemsTable 1 items)) (items.length - k) (1 + k) =
      (items.drop k).map throughLua := by
  induction hleft : items.length - k generalizing k with
  | zero =>
      rw [List.drop_eq_nil_of_le (by omega)]
      rfl
  | succ left ih =>
      have hlt : k < items.length := by omega
      have hnext : (1 : Int) + k + 1 = 1 + (k + 1 : Nat) := by omega
      rw [framesFrom, lookup_tableFrames, List.getElem?_eq_getElem hlt, Option.map_some]
      dsimp only
      rw [hnext, ih (k + 1) (by omega) (by omega), List.drop_eq_getElem_cons hlt, List.map_cons]

theorem throughLua_array (items : List Frame) :
    throughLua (.array items) = .array (items.map throughLua) := by
  have hframes := framesFrom_itemsTable items 0 (Nat.zero_le _)
  rw [Nat.sub_zero, Int.natCast_zero, Int.add_zero, List.drop_zero] at hframes
  rw [throughLua, frameToLuaValue, luaValueToFrame, get_itemsTable_str, get_itemsTable_str,
    size_itemsTable, hframes]

theorem throughLua_error (e : String) : throughLua (.error e) = .error e := by
  rw [throughLua, frameToLuaValue, luaValueToFrame, LuaTable.get, if_pos rfl]
  dsimp only
  rw [fromUtf8Lossy_asBytes]

mutual

/-- No status is in the frame. -/
def Frame.NoStatus : Frame → Prop
  | .simple _ => False
  | .error _ | .integer _ | .bulk _ | .null => True
  | .array items => Frame.NoStatusAll items

def Frame.NoStatusAll : List Frame → Prop
  | [] => True
  | item :: items => item.NoStatus ∧ Frame.NoStatusAll items

end

mutual

theorem throughLua_eq_iff : (f : Frame) → (throughLua f = f ↔ f.NoStatus)
  | .simple _ => ⟨nofun, False.elim⟩
  | .error e => ⟨fun _ => trivial, fun _ => throughLua_error e⟩
  | .integer _ => ⟨fun _ => trivial, fun _ => rfl⟩
  | .bulk _ => ⟨fun _ => trivial, fun _ => rfl⟩
  | .null => ⟨fun _ => trivial, fun _ => rfl⟩
  | .array items => by
      rw [throughLua_array, Frame.array.injEq, Frame.NoStatus]
      exact map_throughLua_eq_iff items

theorem map_throughLua_eq_iff : (items : List Frame) →
    (items.map throughLua = items ↔ Frame.NoStatusAll items)
  | [] => ⟨fun _ => trivial, fun _ => rfl⟩
  | item :: items => by
      rw [List.map_cons, List.cons.injEq, throughLua_eq_iff item, map_throughLua_eq_iff items,
        Frame.NoStatusAll]

end

/-- **A reply goes through Lua unchanged** exactly if no status is in it: a status
becomes a plain string, and comes back as a bulk.  Nulls inside arrays do come back. -/
theorem luaValueToFrame_frameToLuaValue_iff (f : Frame) :
    luaValueToFrame (frameToLuaValue f) = f ↔ f.NoStatus := throughLua_eq_iff f

/-- The reply of `SET` comes back as a bulk string. -/
theorem throughLua_ok : ¬ ∀ f : Frame, luaValueToFrame (frameToLuaValue f) = f := by
  intro hclaim
  exact nomatch hclaim .ok

end MiniRudis
