import MiniRudis.Db.Moves

/-!
# Transfers between two keys

`lmove` and `smove` take an element from one key and give it to another.  The element
is transferred whole or nothing changes, except where the destination turns out to be
of another type after the element has been taken.
-/

namespace MiniRudis

variable {α τ : Type}

/-- What `entry(key).or_insert(init)` comes to, if it is of the kind. -/
def Cell.valueAs (K : Kind τ) (init : τ) (c : Cell) : Option τ :=
  match c.obj with
  | none => some init
  | some o => K.proj o

theorem Cell.valueAs_eq_some {K : Kind τ} {init v : τ} {c : Cell} :
    c.valueAs K init = some v ↔ c.obj = none ∧ v = init ∨ c.obj = some (K.inj v) := by
  rw [valueAs]
  cases c.obj with
  | none => simp [eq_comm]
  | some o =>
      simp only [reduceCtorEq, false_and, false_or, Option.some.injEq]
      constructor
      · exact K.inj_proj
      · rintro rfl
        exact K.proj_inj v

theorem Access.onCell_create (K : Kind τ) (init : τ) (f : τ → Outcome α × τ) (now : Instant)
    (c : Cell) :
    (Access.create K init f).onCell now c =
      match c.valueAs K init with
      | some v => ((f v).1, { c with obj := some (K.inj (f v).2) })
      | none => (err .wrongType, c) := by
  rw [onCell, Cell.valueAs]
  cases c.obj with
  | none => rfl
  | some o => rfl

namespace Database

variable {self : Database} {db : Nat}

/-! ## Lists -/

def remnant (rest : List Bytes) (c : Cell) : Cell :=
  if rest.isEmpty then .absent else { c with obj := some (.list rest) }

/-- The element has gone from its end of the one list to its end of the other, and nothing
else has changed. -/
def ElementMoved (self : Database) (db : Nat) (src dst : String) (srcLeft dstLeft : Bool)
    (elem : Bytes) (after : Database) : Prop :=
  ∃ rest, (self.cellAt db src).obj = some (.list (Deque.pushAt srcLeft rest elem)) ∧
    if src = dst then
      after = self.putCell db src
        { self.cellAt db src with obj := some (.list (Deque.pushAt dstLeft rest elem)) }
    else
      ∃ old, (self.cellAt db dst).valueAs listKind.toKind [] = some old ∧
        after = (self.putCell db src (remnant rest (self.cellAt db src))).putCell db dst
          { self.cellAt db dst with obj := some (.list (Deque.pushAt dstLeft old elem)) }

def LmoveLaw (self : Database) (db : Nat) (src dst : String) (srcLeft dstLeft : Bool) :
    Outcome (Option Bytes) × Database → Prop
  | (.ok (some elem), after) => self.ElementMoved db src dst srcLeft dstLeft elem after
  | (_, after) => after = self

section
variable (now : Instant) (src dst : String) (srcLeft dstLeft : Bool)

theorem lmove_no_db (hdb : ¬ db < self.dbs.length) :
    self.lmove now db src dst srcLeft dstLeft = (err .dbIndexOutOfRange, self) := by
  unfold lmove access
  split
  · exact withDb_no_db hdb _
  · rw [withDb_no_db hdb]

theorem lmove_self (hdb : db < self.dbs.length) :
    self.lmove now db src src srcLeft dstLeft =
      (((self.cellAt db src).rotate srcLeft dstLeft).1,
        self.putCell db src ((self.cellAt db src).rotate srcLeft dstLeft).2) := by
  rw [lmove_self_eq, withDb_onKey hdb]

theorem lmove_ne (hdb : db < self.dbs.length) (hne : src ≠ dst) :
    self.lmove now db src dst srcLeft dstLeft =
      match (Access.inPlace listKind none (Deque.take srcLeft)).onCell now (self.cellAt db src) with
      | (.ok (some elem), c) =>
          let pushed := (Access.create listKind.toKind [] (Deque.pushAll dstLeft [elem])).onCell now
            (self.cellAt db dst)
          (pushed.1.map fun _ => some elem, (self.putCell db src c).putCell db dst pushed.2)
      | (reply, c) => (reply, self.putCell db src c) := by
  rw [lmove, if_neg hne, access_cellAt hdb]
  rcases (Access.inPlace listKind none (Deque.take srcLeft)).onCell now (self.cellAt db src) with
    ⟨reply, c⟩
  rcases reply with _ | _ | elem
  · rfl
  · rfl
  · dsimp only
    rw [access_cellAt (by simpa using hdb), cellAt_putCell_ne hdb (Ne.symm hne)]

theorem pushAt_ne_nil (left : Bool) (l : List Bytes) (elem : Bytes) :
    Deque.pushAt left l elem ≠ [] := by
  cases left <;> simp [Deque.pushAt, Deque.pushFront, Deque.pushBack]

theorem pushAt_ne (left : Bool) (l : List Bytes) (elem : Bytes) : Deque.pushAt left l elem ≠ l := by
  intro h
  have hlen := congrArg List.length h
  cases left <;> simp [Deque.pushAt, Deque.pushFront, Deque.pushBack] at hlen

theorem lmove_elem (hdb : db < self.dbs.length) (hne : src ≠ dst) {rest : List Bytes} {elem : Bytes}
    (hsrc : (self.cellAt db src).obj = some (.list (Deque.pushAt srcLeft rest elem))) :
    self.lmove now db src dst srcLeft dstLeft =
      match (self.cellAt db dst).valueAs listKind.toKind [] with
      | some old =>
          (.ok (some elem), (self.putCell db src (remnant rest (self.cellAt db src))).putCell db dst
            { self.cellAt db dst with obj := some (.list (Deque.pushAt dstLeft old elem)) })
      | none => (err .wrongType, self.putCell db src (remnant rest (self.cellAt db src))) := by
  have htake : (Access.inPlace listKind none (Deque.take srcLeft)).onCell now (self.cellAt db src) =
      (.ok (some elem), remnant rest (self.cellAt db src)) := by
    have hpop : Deque.take srcLeft (Deque.pushAt srcLeft rest elem) = (.ok (some elem), rest) := by
      rw [Deque.take, Deque.popAt_pushAt]
    exact Access.onCell_inPlace listKind none hsrc hpop
  rw [lmove_ne now src dst srcLeft dstLeft hdb hne, htake]
  dsimp only
  rw [Access.onCell_create]
  cases (self.cellAt db dst).valueAs listKind.toKind [] with
  | some old => rfl
  | none =>
      have hsame : (self.putCell db src (remnant rest (self.cellAt db src))).cellAt db dst =
          self.cellAt db dst := cellAt_putCell_ne hdb (Ne.symm hne) _
      dsimp only
      rw [← hsame, putCell_cellAt]
      rfl

theorem lmove_law_of_ne (hdb : db < self.dbs.length) (hne : src ≠ dst) :
    self.LmoveLaw db src dst srcLeft dstLeft (self.lmove now db src dst srcLeft dstLeft) ↔
      ∀ l, (self.cellAt db src).obj = some (.list l) →
        l ≠ [] ∧ ((self.cellAt db dst).valueAs listKind.toKind []).isSome := by
  cases hobj : (self.cellAt db src).obj with
  | none =>
      rw [lmove_ne now src dst srcLeft dstLeft hdb hne, Access.onCell, hobj]
      simp [LmoveLaw]
  | some o =>
      cases hproj : listKind.proj o with
      | none =>
          have hother : ∀ l, o ≠ .list l := by
            rintro l rfl
            simp [listKind] at hproj
          rw [lmove_ne now src dst srcLeft dstLeft hdb hne, Access.onCell, hobj]
          simp [LmoveLaw, hother, hproj]
      | some l =>
          obtain rfl : o = .list l := listKind.inj_proj hproj
          cases hpop : Deque.popAt srcLeft l with
          | none =>
              obtain rfl := (Deque.popAt_eq_none srcLeft l).mp hpop
              -- an empty list is deleted, and nothing is moved
              have hrun : self.lmove now db src dst srcLeft dstLeft =
                  (.ok none, self.putCell db src .absent) := by
                rw [lmove_ne now src dst srcLeft dstLeft hdb hne, Access.onCell, hobj]
                simp [Deque.take, hpop, listKind]
              have hchanged : self.putCell db src .absent ≠ self :=
                putCell_ne hdb (by simp [hobj])
              rw [hrun]
              apply iff_of_false hchanged
              exact fun h => (h [] rfl).1 rfl
          | some p =>
              obtain ⟨elem, rest⟩ := p
              obtain rfl := Deque.popAt_eq_some.mp hpop
              rw [lmove_elem now src dst srcLeft dstLeft hdb hne hobj]
              cases hold : (self.cellAt db dst).valueAs listKind.toKind [] with
              | some old =>
                  apply iff_of_true
                  · refine ⟨rest, hobj, ?_⟩
                    rw [if_neg hne]
                    exact ⟨old, hold, rfl⟩
                  · intro l hl
                    obtain rfl := RudisObject.list.inj (Option.some.inj hl)
                    exact ⟨pushAt_ne_nil srcLeft rest elem, rfl⟩
              | none =>
                  -- the element has been taken, and the destination refuses it
                  have hchanged : self.putCell db src (remnant rest (self.cellAt db src)) ≠ self := by
                    apply putCell_ne hdb
                    rw [hobj]
                    unfold remnant
                    split
                    · simp
                    · simpa using (pushAt_ne srcLeft rest elem).symm
                  apply iff_of_false hchanged
                  exact fun h => by simpa using (h _ rfl).2

/-- With one key for both, the list is rotated. -/
theorem lmove_law_of_eq (hdb : db < self.dbs.length) :
    self.LmoveLaw db src src srcLeft dstLeft (self.lmove now db src src srcLeft dstLeft) := by
  rw [lmove_self now src srcLeft dstLeft hdb, Cell.rotate]
  cases hobj : (self.cellAt db src).obj with
  | none => simp [LmoveLaw]
  | some o =>
      cases o with
      | list l =>
          cases hpop : Deque.popAt srcLeft l with
          | none =>
              obtain rfl := (Deque.popAt_eq_none srcLeft l).mp hpop
              have hcell : { self.cellAt db src with obj := some (.list []) } = self.cellAt db src := by
                rw [← hobj]
              simp [LmoveLaw, Deque.rotate, hcell]
          | some p =>
              obtain ⟨elem, rest⟩ := p
              obtain rfl := Deque.popAt_eq_some.mp hpop
              have hfull : (Deque.pushAt srcLeft rest elem).isEmpty = false := by
                simpa using pushAt_ne_nil srcLeft rest elem
              have hrotate : Deque.rotate srcLeft dstLeft (Deque.pushAt srcLeft rest elem) =
                  (.ok (some elem), Deque.pushAt dstLeft rest elem) := by
                rw [Deque.rotate, hfull, hpop]
                rfl
              dsimp only
              rw [hrotate]
              refine ⟨rest, hobj, ?_⟩
              rw [if_pos rfl]
      | str _ | hash _ | set _ | zset _ => simp [LmoveLaw]

/-- **LMOVE loses and duplicates nothing**, exactly if source and destination are the same
key, or the source holds no list, or it holds one with elements and the destination is
absent or a list. -/
theorem lmove_law_iff :
    self.LmoveLaw db src dst srcLeft dstLeft (self.lmove now db src dst srcLeft dstLeft) ↔
      ∀ l, src ≠ dst → (self.cellAt db src).obj = some (.list l) →
        l ≠ [] ∧ ((self.cellAt db dst).valueAs listKind.toKind []).isSome := by
  by_cases hdb : db < self.dbs.length
  · by_cases hne : src = dst
    · subst hne
      apply iff_of_true (lmove_law_of_eq now src srcLeft dstLeft hdb)
      exact fun l hne => absurd rfl hne
    · rw [lmove_law_of_ne now src dst srcLeft dstLeft hdb hne]
      exact forall_congr' fun l => (imp_iff_right hne).symm
  · rw [lmove_no_db now src dst srcLeft dstLeft hdb, cellAt_of_no_db hdb]
    simp [LmoveLaw]

/-- A list moves onto a string: the element is gone. -/
theorem lmove_loses_element :
    ¬ ∀ (self : Database) (now : Instant) (db : Nat) (src dst : String) (srcLeft dstLeft : Bool),
      (self.cellAt db src).expired now = false → (self.cellAt db dst).expired now = false →
      (self.cellAt db src).obj ≠ some (.list []) → (self.cellAt db dst).obj ≠ some (.list []) →
      self.LmoveLaw db src dst srcLeft dstLeft (self.lmove now db src dst srcLeft dstLeft) := by
  intro hclaim
  let self := ((Database.new 1).putCell 0 "a" ⟨some (.list [[120]]), none⟩).putCell 0 "b"
    ⟨some (.str [121]), none⟩
  have hsrc : self.cellAt 0 "a" = ⟨some (.list [[120]]), none⟩ := rfl
  have hdst : self.cellAt 0 "b" = ⟨some (.str [121]), none⟩ := rfl
  have hlaw := hclaim self 0 0 "a" "b" true true rfl rfl (by simp [hsrc]) (by simp [hdst])
  have hdb : 0 < self.dbs.length := by decide +kernel
  have htakes := ((lmove_law_of_ne 0 "a" "b" true true hdb (by decide)).mp hlaw [[120]]
    (by rw [hsrc])).2
  rw [hdst] at htakes
  exact absurd htakes (by simp [Cell.valueAs, listKind])

end

/-! ## Sets -/

def remainder (rest : StrSet) (c : Cell) : Cell :=
  if rest.isEmpty then .absent else { c with obj := some (.set rest) }

/-- The member has gone from the one set to the other, and nothing else has changed. -/
def MemberMoved (self : Database) (db : Nat) (src dst member : String) (after : Database) : Prop :=
  ∃ s, (self.cellAt db src).obj = some (.set s) ∧ member ∈ s ∧
    if src = dst then after = self
    else
      ∃ old, (self.cellAt db dst).valueAs setKind.toKind ∅ = some old ∧
        after = (self.putCell db src (remainder (s.erase member) (self.cellAt db src))).putCell db dst
          { self.cellAt db dst with obj := some (.set (old.insert member)) }

def SmoveLaw (self : Database) (db : Nat) (src dst member : String) :
    Outcome Bool × Database → Prop
  | (.ok true, after) => self.MemberMoved db src dst member after
  | (_, after) => after = self

section
variable (now : Instant) (src dst member : String)

theorem smove_cells (hdb : db < self.dbs.length) :
    self.smove now db src dst member =
      match (self.cellAt db src).takeMember member with
      | (.ok true, c) =>
          let pushed := (Access.create setKind.toKind ∅ (HashSet.put member)).onCell now
            ((self.putCell db src c).cellAt db dst)
          (pushed.1, (self.putCell db src c).putCell db dst pushed.2)
      | (reply, c) => (reply, self.putCell db src c) := by
  have htake : self.withDb db (LogicalDb.takeMember src member) =
      (((self.cellAt db src).takeMember member).1,
        self.putCell db src ((self.cellAt db src).takeMember member).2) := by
    rw [← withDb_onKey hdb]
    exact withDb_congr fun ldb => ldb.takeMember_eq src member
  rw [smove, htake]
  rcases (self.cellAt db src).takeMember member with ⟨reply, c⟩
  rcases reply with _ | _ | _
  · rfl
  · rfl
  · dsimp only
    rw [access_cellAt (by simpa using hdb)]

theorem insert_erase {s : StrSet} {member : String} (h : member ∈ s) :
    (s.erase member).insert member = s := by
  apply Std.ExtTreeSet.ext_mem
  intro m
  rw [Std.ExtTreeSet.mem_insert, Std.ExtTreeSet.mem_erase]
  by_cases hm : member = m
  · subst hm
    simp [h]
  · simp [hm]

theorem takeMember_of_mem {s : StrSet} (hsrc : (self.cellAt db src).obj = some (.set s))
    (h : member ∈ s) :
    (self.cellAt db src).takeMember member =
      (.ok true, remainder (s.erase member) (self.cellAt db src)) := by
  rw [Cell.takeMember, hsrc]
  dsimp only
  rw [if_pos h]
  rfl

theorem smove_nothing (hdb : db < self.dbs.length)
    (h : ∀ s, (self.cellAt db src).obj = some (.set s) → member ∉ s) :
    self.SmoveLaw db src dst member (self.smove now db src dst member) := by
  have htake : ∃ reply, reply ≠ .ok true ∧
      (self.cellAt db src).takeMember member = (reply, self.cellAt db src) := by
    unfold Cell.takeMember
    split
    · exact ⟨.ok false, by simp, rfl⟩
    · rename_i s hobj
      rw [if_neg (h s hobj)]
      exact ⟨.ok false, by simp, rfl⟩
    · exact ⟨err .wrongType, by simp, rfl⟩
  obtain ⟨reply, hreply, htake⟩ := htake
  rw [smove_cells now src dst member hdb, htake]
  rcases reply with _ | _ | _
  · exact putCell_cellAt self db src
  · exact putCell_cellAt self db src
  · exact absurd rfl hreply

/-- With one key for both, the set comes back, and its deadline unless it was the only member. -/
theorem smove_same (hdb : db < self.dbs.length) {s : StrSet}
    (hsrc : (self.cellAt db src).obj = some (.set s)) (h : member ∈ s) :
    self.SmoveLaw db src src member (self.smove now db src src member) ↔
      ((s.erase member).isEmpty = true → (self.cellAt db src).deadline = none) := by
  have hrun : self.smove now db src src member = (.ok true, self.putCell db src
      ⟨some (.set s), if (s.erase member).isEmpty then none else (self.cellAt db src).deadline⟩) := by
    rw [smove_cells now src src member hdb, takeMember_of_mem src member hsrc h]
    dsimp only
    rw [cellAt_putCell hdb, putCell_putCell, Access.onCell_create]
    by_cases hempty : (s.erase member).isEmpty
    · have hnone : s.erase member = ∅ := Std.ExtTreeSet.isEmpty_iff.mp hempty
      have hset : (∅ : StrSet).insert member = s := by
        rw [← hnone, insert_erase h]
      simp [remainder, hempty, Cell.valueAs, Cell.absent, HashSet.put, setKind, hset]
    · simp [remainder, hempty, Cell.valueAs, HashSet.put, setKind, insert_erase h]
  have hsame : ∀ d, (⟨some (.set s), d⟩ : Cell) = self.cellAt db src ↔
      d = (self.cellAt db src).deadline := by
    intro d
    rw [Cell.ext_iff, hsrc]
    exact and_iff_right rfl
  rw [hrun]
  constructor
  · rintro ⟨s', hs', -, hafter⟩ hempty
    rw [if_pos rfl, putCell_eq_self_iff hdb, hsame, if_pos hempty] at hafter
    exact hafter.symm
  · intro hdeadline
    refine ⟨s, hsrc, h, ?_⟩
    rw [if_pos rfl, putCell_eq_self_iff hdb, hsame]
    split
    · rename_i hempty
      exact (hdeadline hempty).symm
    · rfl

theorem smove_other (hdb : db < self.dbs.length) (hne : src ≠ dst) {s : StrSet}
    (hsrc : (self.cellAt db src).obj = some (.set s)) (h : member ∈ s) :
    self.SmoveLaw db src dst member (self.smove now db src dst member) ↔
      ((self.cellAt db dst).valueAs setKind.toKind ∅).isSome := by
  rw [smove_cells now src dst member hdb, takeMember_of_mem src member hsrc h]
  dsimp only
  rw [cellAt_putCell_ne hdb (Ne.symm hne), Access.onCell_create]
  cases hold : (self.cellAt db dst).valueAs setKind.toKind ∅ with
  | some old =>
      apply iff_of_true _ rfl
      refine ⟨s, hsrc, h, ?_⟩
      rw [if_neg hne]
      exact ⟨old, hold, rfl⟩
  | none =>
      -- the member has been taken, and the destination refuses it
      have hback : (self.putCell db src (remainder (s.erase member) (self.cellAt db src))).putCell db
          dst (self.cellAt db dst) =
          self.putCell db src (remainder (s.erase member) (self.cellAt db src)) := by
        rw [← cellAt_putCell_ne hdb (Ne.symm hne), putCell_cellAt]
      have hchanged : self.putCell db src (remainder (s.erase member) (self.cellAt db src)) ≠ self := by
        apply putCell_ne hdb
        rw [hsrc]
        unfold remainder
        split
        · simp
        · intro hobj
          have hset : s.erase member = s := RudisObject.set.inj (Option.some.inj hobj)
          rw [← hset] at h
          simp at h
      dsimp only
      rw [hback]
      exact iff_of_false hchanged (by simp)

/-- **SMOVE is atomic**, exactly if the member is not in the source, or the destination is
absent or a set, or it is the source itself and keeps a deadline only with other members. -/
theorem smove_law_iff :
    self.SmoveLaw db src dst member (self.smove now db src dst member) ↔
      ∀ s, (self.cellAt db src).obj = some (.set s) → member ∈ s →
        if src = dst then
          (s.erase member).isEmpty = true → (self.cellAt db src).deadline = none
        else ((self.cellAt db dst).valueAs setKind.toKind ∅).isSome := by
  by_cases hdb : db < self.dbs.length
  · by_cases h : ∃ s, (self.cellAt db src).obj = some (.set s) ∧ member ∈ s
    · obtain ⟨s, hsrc, hmem⟩ := h
      have honly : ∀ {P : StrSet → Prop}, (∀ s', (self.cellAt db src).obj = some (.set s') →
          member ∈ s' → P s') ↔ P s := by
        intro P
        constructor
        · exact fun hall => hall s hsrc hmem
        · intro hs s' hs' _
          rw [hsrc] at hs'
          obtain rfl := RudisObject.set.inj (Option.some.inj hs')
          exact hs
      rw [honly]
      split
      · rename_i hsame
        subst hsame
        exact smove_same now src member hdb hsrc hmem
      · rename_i hne
        exact smove_other now src dst member hdb hne hsrc hmem
    · have hnot : ∀ s, (self.cellAt db src).obj = some (.set s) → member ∉ s :=
        fun s hs hmem => h ⟨s, hs, hmem⟩
      apply iff_of_true (smove_nothing now src dst member hdb hnot)
      exact fun s hs hmem => absurd hmem (hnot s hs)
  · have hrun : self.smove now db src dst member = (err .dbIndexOutOfRange, self) := by
      rw [smove, withDb_no_db hdb]
    rw [hrun, cellAt_of_no_db hdb]
    simp [SmoveLaw]

/-- A member moves from its set onto a string: it is gone. -/
theorem smove_loses_member :
    ¬ ∀ (self : Database) (now : Instant) (db : Nat) (src dst member : String),
      (self.cellAt db src).expired now = false → (self.cellAt db dst).expired now = false →
      self.SmoveLaw db src dst member (self.smove now db src dst member) := by
  intro hclaim
  let self := ((Database.new 1).putCell 0 "a" ⟨some (.set (HashSet.ofList ["m"])), none⟩).putCell 0 "b"
    ⟨some (.str [121]), none⟩
  have hsrc : self.cellAt 0 "a" = ⟨some (.set (HashSet.ofList ["m"])), none⟩ := rfl
  have hdst : self.cellAt 0 "b" = ⟨some (.str [121]), none⟩ := rfl
  have hlaw := hclaim self 0 0 "a" "b" "m" rfl rfl
  have hdb : 0 < self.dbs.length := by decide +kernel
  have htakes := (smove_other 0 "a" "b" "m" hdb (by decide) (congrArg Cell.obj hsrc)
    (by decide +kernel)).mp hlaw
  rw [hdst] at htakes
  exact absurd htakes (by simp [Cell.valueAs, setKind])

end

end Database

end MiniRudis
