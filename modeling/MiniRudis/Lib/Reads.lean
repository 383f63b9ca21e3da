import MiniRudis.Lib.Resumable

/-!
# What a decoder reads

A decoder reads an encoding when it turns it into its value and stops right after
it, whatever follows.
-/

namespace MiniRudis.Lib

variable {ι ε α β : Type}

/-- On unread input that starts with `b`, the decoder returns `a` and moves the
cursor behind `b`. -/
def Reads (d : Decoder ι ε α) (b : List ι) (a : α) : Prop :=
  ∀ (c : Cursor ι) (rest : List ι), c.unread = b ++ rest →
    d c = .ok (a, ⟨c.data, c.pos + b.length⟩)

theorem Cursor.unread_skip {c : Cursor ι} {b rest : List ι} (h : c.unread = b ++ rest) :
    (⟨c.data, c.pos + b.length⟩ : Cursor ι).unread = rest := by
  unfold Cursor.unread at *
  rw [← List.drop_drop, h, List.drop_left]

namespace Reads

variable {d : Decoder ι ε α} {b b' : List ι} {a : α}

theorem pure (a : α) : Reads (Pure.pure a : Decoder ι ε α) [] a := fun _ _ _ => rfl

theorem bind {k : α → Decoder ι ε β} {a' : β} (hd : Reads d b a) (hk : Reads (k a) b' a') :
    Reads (d >>= k) (b ++ b') a' := by
  intro c rest h
  rw [List.append_assoc] at h
  rw [Decoder.bind_apply, hd c (b' ++ rest) h, List.length_append, ← Nat.add_assoc]
  exact hk ⟨c.data, c.pos + b.length⟩ rest (Cursor.unread_skip h)

theorem andThen {k : α → Decoder ι ε β} {a' : β} (hd : Reads d b a) (hk : Reads (k a) [] a') :
    Reads (d >>= k) b a' := by
  have hboth := hd.bind hk
  rwa [List.append_nil] at hboth

theorem map (hd : Reads d b a) (f : α → β) : Reads (f <$> d) b (f a) := by
  rw [map_eq_pure_bind]
  exact hd.andThen (pure (f a))

theorem times_cons {n : Nat} {as : List α} (hd : Reads d b a) (hrest : Reads (d.times n) b' as) :
    Reads (d.times (n + 1)) (b ++ b') (a :: as) :=
  hd.bind (hrest.andThen (pure (a :: as)))

end Reads

end MiniRudis.Lib
