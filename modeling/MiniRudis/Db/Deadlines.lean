import MiniRudis.Db.Transfers

/-!
# Updates and deadlines

An update of a value leaves the deadline of its key alone, or takes it away together with
the key.
-/

namespace MiniRudis

variable {α : Type}

/-- A key with this deadline, or no trace of one. -/
def Cell.KeptUntil (exp : Instant) (c : Cell) : Prop :=
  c.obj.isSome ∧ c.deadline = some exp ∨ c = .absent

/-- The two cells share their deadline, unless the second is empty. -/
def Cell.SameDeadline (c c' : Cell) : Prop :=
  c'.obj.isSome ∧ c'.deadline = c.deadline ∨ c' = .absent

namespace Cell

variable {c : Cell}

theorem SameDeadline.refl (hobj : c.obj.isSome) : c.SameDeadline c := Or.inl ⟨hobj, rfl⟩

theorem SameDeadline.absent : c.SameDeadline .absent := Or.inr rfl

theorem SameDeadline.store (o : RudisObject) : c.SameDeadline { c with obj := some o } :=
  Or.inl ⟨rfl, rfl⟩

theorem SameDeadline.keptUntil {c' : Cell} {exp : Instant} (h : c.SameDeadline c')
    (hexp : c.deadline = some exp) : c'.KeptUntil exp := by
  obtain ⟨hobj, hsame⟩ | hgone := h
  · exact Or.inl ⟨hobj, hsame.trans hexp⟩
  · exact Or.inr hgone

theorem rotate_deadline (hobj : c.obj.isSome) (srcLeft dstLeft : Bool) :
    c.SameDeadline (c.rotate srcLeft dstLeft).2 := by
  unfold rotate
  split
  · exact .refl hobj
  · exact .store _
  · exact .refl hobj

end Cell

/-- What an access leaves at a key that holds an object. -/
theorem Access.onCell_deadline (a : Access α) (now : Instant) {c : Cell} (hobj : c.obj.isSome) :
    c.SameDeadline (a.onCell now c).2 := by
  obtain ⟨o, ho⟩ := Option.isSome_iff_exists.mp hobj
  cases a with
  | read K absent f =>
      rw [onCell]
      split
      · exact .refl hobj
      · split <;> exact .refl hobj
  | modify K absent f =>
      rw [onCell, ho]
      dsimp only
      split
      · exact .absent
      · cases K.proj o with
        | none => exact .refl hobj
        | some v => exact .store _
  | create K init f =>
      rw [onCell, ho]
      dsimp only
      cases K.proj o with
      | none => exact .refl hobj
      | some v => exact .store _
  | inPlace K absent f =>
      rw [onCell, ho]
      dsimp only
      cases K.proj o with
      | none => exact .refl hobj
      | some v =>
          dsimp only
          split
          · exact .store _
          · split
            · exact .absent
            · exact .store _

namespace Database

variable {self : Database} {db : Nat} {key : String}

section
variable (now : Instant) (srcLeft dstLeft : Bool)

theorem lmove_src_deadline (hobj : (self.cellAt db key).obj.isSome) (dst : String) :
    (self.cellAt db key).SameDeadline
      ((self.lmove now db key dst srcLeft dstLeft).2.cellAt db key) := by
  have hdb := lt_of_isSome hobj
  by_cases hne : key = dst
  · subst hne
    rw [lmove_self now key srcLeft dstLeft hdb, cellAt_putCell hdb]
    exact Cell.rotate_deadline hobj srcLeft dstLeft
  · have htake := (Access.inPlace listKind none (Deque.take srcLeft)).onCell_deadline now hobj
    rw [lmove_ne now key dst srcLeft dstLeft hdb hne]
    split
    · rename_i elem c htaken
      rw [htaken] at htake
      rw [cellAt_putCell_ne (by simpa using hdb) hne, cellAt_putCell hdb]
      exact htake
    · rename_i reply c _ htaken
      rw [htaken] at htake
      rw [cellAt_putCell hdb]
      exact htake

theorem lmove_dst_deadline (hobj : (self.cellAt db key).obj.isSome) (src : String) :
    (self.cellAt db key).SameDeadline
      ((self.lmove now db src key srcLeft dstLeft).2.cellAt db key) := by
  by_cases hne : src = key
  · rw [hne]
    exact lmove_src_deadline now srcLeft dstLeft hobj key
  · have hdb := lt_of_isSome hobj
    rw [lmove_ne now src key srcLeft dstLeft hdb hne]
    split
    · rw [cellAt_putCell (by simpa using hdb)]
      exact Access.onCell_deadline _ now hobj
    · rw [cellAt_putCell_ne hdb (Ne.symm hne)]
      exact .refl hobj

end

/-- **Updates keep the deadline.**  Whatever a typed operation or a move does to a key with
a deadline, and whether it succeeds or fails, the key has the same deadline afterwards or
has gone together with it. -/
theorem updates_keep_deadline (env : Env) {exp : Instant}
    (hlive : ((self.cellAt db key).live env.now).isSome)
    (hexp : (self.cellAt db key).deadline = some exp) :
    (∀ {α : Type} (op : TypedOp α), ((op.run env db key self).2.cellAt db key).KeptUntil exp) ∧
      ∀ (other : String) (srcLeft dstLeft : Bool),
        ((self.lmove env.now db key other srcLeft dstLeft).2.cellAt db key).KeptUntil exp ∧
        ((self.lmove env.now db other key srcLeft dstLeft).2.cellAt db key).KeptUntil exp := by
  have hobj : (self.cellAt db key).obj.isSome := by
    obtain ⟨o, ho⟩ := Option.isSome_iff_exists.mp hlive
    rw [(Cell.live_eq_some ho).2]
    rfl
  refine ⟨fun op => ?_, fun other srcLeft dstLeft => ⟨?_, ?_⟩⟩
  · have hdb := lt_of_isSome hobj
    have hrun := (KeyOp.typed op).run_cellAt env key hdb
    rw [← KeyOp.run, hrun, cellAt_putCell hdb]
    exact ((op.access env).onCell_deadline env.now hobj).keptUntil hexp
  · exact (lmove_src_deadline env.now srcLeft dstLeft hobj other).keptUntil hexp
  · exact (lmove_dst_deadline env.now srcLeft dstLeft hobj other).keptUntil hexp

theorem updates_keep_deadline_counter :
    (((TypedOp.incr 1).run (.at 0) 0 "k"
      ((Database.new 1).putCell 0 "k" ⟨some (.str [49]), some 100⟩)).2.cellAt 0 "k").KeptUntil 100 :=
  (updates_keep_deadline (.at 0) (by decide +kernel) (by decide +kernel)).1 (.incr 1)

end Database

end MiniRudis
