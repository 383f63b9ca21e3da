import MiniRudis.Db.Database

/-!
# The database: lists
-/

namespace MiniRudis

/-! ## The work on a value -/

namespace Deque

def pushFront (l : List Bytes) (v : Bytes) : List Bytes := v :: l

def pushBack (l : List Bytes) (v : Bytes) : List Bytes := l ++ [v]

def popFront : List Bytes → Option (Bytes × List Bytes)
  | [] => none
  | v :: l => some (v, l)

def popBack (l : List Bytes) : Option (Bytes × List Bytes) :=
  l.getLast?.map fun v => (v, l.dropLast)

/-- The end of a list that `left` names. -/
def pushAt (left : Bool) : List Bytes → Bytes → List Bytes :=
  if left then pushFront else pushBack

def popAt (left : Bool) : List Bytes → Option (Bytes × List Bytes) :=
  if left then popFront else popBack

def pushAll (left : Bool) (values : List Bytes) (l : List Bytes) : Outcome Nat × List Bytes :=
  let l := values.foldl (pushAt left) l
  (.ok l.length, l)

/-- `for _ in 0..count { match pop { Some(v) => result.push(v), None => break } }`. -/
def popLoop (left : Bool) : Nat → List Bytes → List Bytes × List Bytes
  | 0, l => ([], l)
  | count + 1, l =>
      match popAt left l with
      | none => ([], l)
      | some (v, l) => (v :: (popLoop left count l).1, (popLoop left count l).2)

def elemSize : Nat := 24

/-- The body of `lpop` and `rpop`, after `Vec::with_capacity(count)`. -/
def pop (left : Bool) (count : Nat) (l : List Bytes) : Outcome (List Bytes) × List Bytes :=
  if CapacityOk elemSize count then (.ok (popLoop left count l).1, (popLoop left count l).2)
  else (panicked, l)

/-- `normalize_index(stop, len).min((len - 1).max(0))`. -/
def lastIndex (stop : Int) (l : List Bytes) : Nat :=
  min (normalizeIndex stop l.length) (max ((l.length : Int) - 1) 0).toNat

def emptyRange (start stop : Int) (l : List Bytes) : Prop :=
  l.length < normalizeIndex start l.length ∨
    0 < l.length ∧ lastIndex stop l < normalizeIndex start l.length

instance (start stop : Int) (l : List Bytes) : Decidable (emptyRange start stop l) :=
  inferInstanceAs (Decidable (_ ∨ _))

def lrange (start stop : Int) (l : List Bytes) : List Bytes :=
  if emptyRange start stop l then []
  else
    (l.drop (normalizeIndex start l.length)).take
      (lastIndex stop l - normalizeIndex start l.length + 1)

def lindex (index : Int) (l : List Bytes) : Option Bytes := l[normalizeIndex index l.length]?

def lset (index : Int) (value : Bytes) (l : List Bytes) : Outcome Unit × List Bytes :=
  let i := normalizeIndex index l.length
  if i < l.length then (.ok (), l.set i value) else (err .indexOutOfRange, l)

def linsert (before : Bool) (pivot value : Bytes) (l : List Bytes) : Outcome Int × List Bytes :=
  match l.findIdx? (· == pivot) with
  | some pos =>
      let l := l.insertIdx (if before then pos else pos + 1) value
      (.ok l.length, l)
  | none => (.ok (-1), l)

/-- `retain` with the countdown of `lrem` for a positive count. -/
def removeFirst (value : Bytes) : Nat → List Bytes → Nat × List Bytes
  | _, [] => (0, [])
  | remaining, e :: l =>
      if 0 < remaining ∧ e = value then
        ((removeFirst value (remaining - 1) l).1 + 1, (removeFirst value (remaining - 1) l).2)
      else ((removeFirst value remaining l).1, e :: (removeFirst value remaining l).2)

/-- The flags that `lrem` computes from the tail for a negative count, with the
count still to remove and the count removed. -/
def keepFlags (value : Bytes) (remaining : Nat) (l : List Bytes) : List Bool × Nat × Nat :=
  l.foldr
    (fun e (keep, remaining, removed) =>
      if 0 < remaining ∧ e = value then (false :: keep, remaining - 1, removed + 1)
      else (true :: keep, remaining, removed))
    ([], remaining, 0)

def retainFlags (l : List Bytes) (keep : List Bool) : List Bytes :=
  ((l.zip keep).filter Prod.snd).map Prod.fst

def lrem (count : Int) (value : Bytes) (l : List Bytes) : Outcome Nat × List Bytes :=
  if count = 0 then (.ok (l.filter (· == value)).length, l.filter (· != value))
  else if 0 < count then
    (.ok (removeFirst value count.toNat l).1, (removeFirst value count.toNat l).2)
  else
    let flags := keepFlags value count.natAbs l
    (.ok flags.2.2, retainFlags l flags.1)

def ltrim (start stop : Int) (l : List Bytes) : Outcome Unit × List Bytes :=
  if emptyRange start stop l then (.ok (), [])
  else
    match subUsize (lastIndex stop l) (normalizeIndex start l.length) with
    | .error e => (.error e, l)
    | .ok span => (.ok (), (l.drop (normalizeIndex start l.length)).take (span + 1))

/-- The rotation of `lmove` with one key for source and destination. -/
def rotate (srcLeft dstLeft : Bool) (l : List Bytes) : Outcome (Option Bytes) × List Bytes :=
  if l.isEmpty then (.ok none, l)
  else
    match popAt srcLeft l with
    | none => (panicked, l)
    | some (elem, l) => (.ok (some elem), pushAt dstLeft l elem)

def take (left : Bool) (l : List Bytes) : Outcome (Option Bytes) × List Bytes :=
  match popAt left l with
  | none => (.ok none, l)
  | some (elem, l) => (.ok (some elem), l)

theorem popAt_eq_none (left : Bool) (l : List Bytes) : popAt left l = none ↔ l = [] := by
  cases left <;> cases l <;> simp [popAt, popFront, popBack]

theorem popAt_pushAt (left : Bool) (l : List Bytes) (elem : Bytes) :
    popAt left (pushAt left l elem) = some (elem, l) := by
  cases left with
  | true => rfl
  | false => simp [popAt, popBack, pushAt, pushBack]

theorem popAt_eq_some {left : Bool} {l rest : List Bytes} {elem : Bytes} :
    popAt left l = some (elem, rest) ↔ l = pushAt left rest elem := by
  constructor
  · intro h
    cases left with
    | true =>
        cases l with
        | nil => simp [popAt, popFront] at h
        | cons v l =>
            obtain ⟨rfl, rfl⟩ : v = elem ∧ l = rest := by simpa [popAt, popFront] using h
            rfl
    | false =>
        obtain ⟨v, hlast, hv⟩ : ∃ v, l.getLast? = some v ∧ (v, l.dropLast) = (elem, rest) :=
          Option.map_eq_some_iff.mp h
        obtain ⟨rfl, rfl⟩ := Prod.mk.inj hv
        exact (List.dropLast_append_getLast? v hlast).symm
  · intro h
    rw [h, popAt_pushAt]

theorem keepFlags_cons (value : Bytes) (n : Nat) (e : Bytes) (l : List Bytes) :
    keepFlags value n (e :: l) =
      if 0 < (keepFlags value n l).2.1 ∧ e = value then
        (false :: (keepFlags value n l).1, (keepFlags value n l).2.1 - 1,
          (keepFlags value n l).2.2 + 1)
      else (true :: (keepFlags value n l).1, (keepFlags value n l).2) := rfl

/-- The countdown stops at nothing or at the occurrences it has passed. -/
theorem keepFlags_remaining (value : Bytes) (n : Nat) (l : List Bytes) :
    (keepFlags value n l).2.1 = n - l.count value := by
  induction l with
  | nil => rfl
  | cons e l ih =>
      rw [keepFlags_cons]
      split
      · rename_i hremove
        show (keepFlags value n l).2.1 - 1 = _
        rw [hremove.2, List.count_cons_self, ih]
        omega
      · rename_i hkeep
        show (keepFlags value n l).2.1 = _
        rw [ih] at hkeep ⊢
        by_cases he : e = value
        · rw [he, List.count_cons_self]
          have hnone : ¬ 0 < n - l.count value := fun hpos => hkeep ⟨hpos, he⟩
          omega
        · rw [List.count_cons_of_ne he]

theorem retainFlags_cons (e : Bytes) (l : List Bytes) (keep : Bool) (flags : List Bool) :
    retainFlags (e :: l) (keep :: flags) =
      if keep then e :: retainFlags l flags else retainFlags l flags := by
  cases keep <;> simp [retainFlags]

/-- `ltrim`'s `e - s` does not underflow. -/
theorem ltrim_eq (start stop : Int) (l : List Bytes) :
    ltrim start stop l = (.ok (), lrange start stop l) := by
  unfold ltrim lrange
  by_cases hempty : emptyRange start stop l
  · simp only [hempty, if_true]
  · have hle : normalizeIndex start l.length ≤ lastIndex stop l := by
      unfold emptyRange at hempty
      unfold lastIndex at *
      unfold normalizeIndex at *
      by_cases hlen : l.length = 0
      · simp [hlen]
      · omega
    simp only [hempty, if_false, subUsize, hle, if_true]

end Deque

/-! ## The methods -/

namespace LogicalDb

/-- `lmove` with one key for source and destination: it deletes no list. -/
def rotate (key : String) (srcLeft dstLeft : Bool) (self : LogicalDb) :
    Outcome (Option Bytes) × LogicalDb :=
  match self.data[key]? with
  | none => (.ok none, self)
  | some (.list l) =>
      ((Deque.rotate srcLeft dstLeft l).1, self.store key (.list (Deque.rotate srcLeft dstLeft l).2))
  | some _ => (err .wrongType, self)

end LogicalDb

namespace Database

variable (self : Database)

def lpush (now : Instant) (db : Nat) (key : String) (values : List Bytes) :
    Outcome Nat × Database :=
  self.access now db key (.create listKind.toKind [] (Deque.pushAll true values))

def rpush (now : Instant) (db : Nat) (key : String) (values : List Bytes) :
    Outcome Nat × Database :=
  self.access now db key (.create listKind.toKind [] (Deque.pushAll false values))

def lpushx (now : Instant) (db : Nat) (key : String) (values : List Bytes) :
    Outcome Nat × Database :=
  self.access now db key (.modify listKind.toKind (.ok 0) (Deque.pushAll true values))

def rpushx (now : Instant) (db : Nat) (key : String) (values : List Bytes) :
    Outcome Nat × Database :=
  self.access now db key (.modify listKind.toKind (.ok 0) (Deque.pushAll false values))

def lpop (now : Instant) (db : Nat) (key : String) (count : Nat) :
    Outcome (List Bytes) × Database :=
  self.access now db key (.inPlace listKind [] (Deque.pop true count))

def rpop (now : Instant) (db : Nat) (key : String) (count : Nat) :
    Outcome (List Bytes) × Database :=
  self.access now db key (.inPlace listKind [] (Deque.pop false count))

def llen (now : Instant) (db : Nat) (key : String) : Outcome Nat :=
  self.readDb db (LogicalDb.readAs listKind.toKind 0 (fun l => .ok l.length) now key)

def lrange (now : Instant) (db : Nat) (key : String) (start stop : Int) : Outcome (List Bytes) :=
  self.readDb db
    (LogicalDb.readAs listKind.toKind [] (fun l => .ok (Deque.lrange start stop l)) now key)

def lindex (now : Instant) (db : Nat) (key : String) (index : Int) : Outcome (Option Bytes) :=
  self.readDb db
    (LogicalDb.readAs listKind.toKind none (fun l => .ok (Deque.lindex index l)) now key)

def lset (now : Instant) (db : Nat) (key : String) (index : Int) (value : Bytes) :
    Outcome Unit × Database :=
  self.access now db key (.modify listKind.toKind (err .noSuchKey) (Deque.lset index value))

def linsert (now : Instant) (db : Nat) (key : String) (before : Bool) (pivot value : Bytes) :
    Outcome Int × Database :=
  self.access now db key (.modify listKind.toKind (.ok (-1)) (Deque.linsert before pivot value))

def lrem (now : Instant) (db : Nat) (key : String) (count : Int) (value : Bytes) :
    Outcome Nat × Database :=
  self.access now db key (.modify listKind.toKind (.ok 0) (Deque.lrem count value))

def ltrim (now : Instant) (db : Nat) (key : String) (start stop : Int) :
    Outcome Unit × Database :=
  self.access now db key (.inPlace listKind () (Deque.ltrim start stop))

def lmove (now : Instant) (db : Nat) (src dst : String) (srcLeft dstLeft : Bool) :
    Outcome (Option Bytes) × Database :=
  if src = dst then self.withDb db (LogicalDb.rotate src srcLeft dstLeft)
  else
    match self.access now db src (.inPlace listKind none (Deque.take srcLeft)) with
    | (.ok (some elem), self) =>
        let pushed := self.access now db dst
          (.create listKind.toKind [] (Deque.pushAll dstLeft [elem]))
        (pushed.1.map fun _ => some elem, pushed.2)
    | (reply, self) => (reply, self)

end Database

end MiniRudis
