import MiniRudis.Lib.Local
import MiniRudis.Lib.Program

/-!
# Operations on several keys

An operation that is local on some keys of a store reads and writes their entries only.  The
store may have a shape, which such operations read and leave as it is.
-/

namespace MiniRudis.Lib

variable {S K V ι α β : Type} (shape : S → ι) (view : S → K → V)

/-- The stores have one shape, and the same entries at the keys. -/
structure AgreeOn (keys : K → Prop) (s t : S) : Prop where
  sameShape : shape s = shape t
  entry : ∀ a, keys a → view s a = view t a

structure LocalOn (keys : K → Prop) (f : S → α × S) : Prop where
  /-- The reply and the new entries are functions of the old entries. -/
  agree : ∀ s t, AgreeOn shape view keys s t →
    (f s).1 = (f t).1 ∧ AgreeOn shape view keys (f s).2 (f t).2
  frame : ∀ s, AgreeOn shape view (fun a => ¬ keys a) s (f s).2

variable {shape view} {keys keys' : K → Prop} {s t u : S}

namespace AgreeOn

theorem refl (keys : K → Prop) (s : S) : AgreeOn shape view keys s s := ⟨rfl, fun _ _ => rfl⟩

theorem symm (h : AgreeOn shape view keys s t) : AgreeOn shape view keys t s :=
  ⟨h.sameShape.symm, fun a ha => (h.entry a ha).symm⟩

theorem trans (h : AgreeOn shape view keys s t) (h' : AgreeOn shape view keys t u) :
    AgreeOn shape view keys s u :=
  ⟨h.sameShape.trans h'.sameShape, fun a ha => (h.entry a ha).trans (h'.entry a ha)⟩

theorem weaken (h : AgreeOn shape view keys s t) (hle : ∀ a, keys' a → keys a) :
    AgreeOn shape view keys' s t :=
  ⟨h.sameShape, fun a ha => h.entry a (hle a ha)⟩

end AgreeOn

namespace LocalOn

variable {f : S → α × S}

theorem ofRead {r : S → α} (h : ∀ s t, AgreeOn shape view keys s t → r s = r t) :
    LocalOn shape view keys fun s => (r s, s) where
  agree s t hst := ⟨h s t hst, hst⟩
  frame s := .refl _ s

theorem const (keys : K → Prop) (r : α) : LocalOn shape view keys fun s => (r, s) :=
  ofRead fun _ _ _ => rfl

theorem congr (hf : LocalOn shape view keys f) {g : S → α × S} (h : ∀ s, g s = f s) :
    LocalOn shape view keys g := by
  have hfun : g = f := funext h
  rw [hfun]
  exact hf

theorem map (hf : LocalOn shape view keys f) (r : α → β) :
    LocalOn shape view keys fun s => (r (f s).1, (f s).2) where
  agree s t h := ⟨congrArg r (hf.agree s t h).1, (hf.agree s t h).2⟩
  frame s := hf.frame s

theorem andThen (hf : LocalOn shape view keys f) {g : α → S → β × S}
    (hg : ∀ x, LocalOn shape view keys (g x)) :
    LocalOn shape view keys fun s => g (f s).1 (f s).2 where
  agree s t h := by
    obtain ⟨hreply, hentries⟩ := hf.agree s t h
    rw [← hreply]
    exact (hg (f s).1).agree _ _ hentries
  frame s := (hf.frame s).trans ((hg (f s).1).frame _)

theorem ifElse {test : S → Bool} (htest : ∀ s t, AgreeOn shape view keys s t → test s = test t)
    (hf : LocalOn shape view keys f) {g : S → α × S} (hg : LocalOn shape view keys g) :
    LocalOn shape view keys fun s => if test s then f s else g s := by
  have hbranch : ∀ holds : Bool, LocalOn shape view keys fun s => if holds then f s else g s := by
    intro holds
    cases holds with
    | true => exact hf
    | false => exact hg
  exact (ofRead htest).andThen hbranch

theorem ofLocalAt {a : K} (ha : keys a) (hf : LocalAt view a f)
    (hshape : ∀ s, shape (f s).2 = shape s) : LocalOn shape view keys f where
  agree s t h := by
    obtain ⟨hreply, hentry⟩ := hf.agree s t (h.entry a ha)
    refine ⟨hreply, by rw [hshape, hshape, h.sameShape], fun b hb => ?_⟩
    by_cases hba : b = a
    · rw [hba]
      exact hentry
    · rw [hf.frame s b hba, hf.frame t b hba]
      exact h.entry b hb
  frame s := ⟨(hshape s).symm, fun b hb => (hf.frame s b fun hba => hb (hba ▸ ha)).symm⟩

end LocalOn

/-- A program of local calls is local. -/
theorem Program.Meets.localOn {Op : Type → Type 1} {exec : (β : Type) → Op β → S → β × S}
    {post : (β : Type) → Op β → β → Prop} {Q : α → Prop}
    (hpost : ∀ β (op : Op β) reply, post β op reply) {p : Program Op α}
    (hp : p.Meets (fun β op => LocalOn shape view keys (exec β op)) post Q) :
    LocalOn shape view keys (p.run exec) := by
  induction p with
  | ret a => exact .const keys a
  | call op next ih => exact hp.1.andThen fun reply => ih reply (hp.2 reply (hpost _ op reply))

end MiniRudis.Lib
