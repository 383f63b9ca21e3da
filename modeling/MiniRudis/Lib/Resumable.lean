import Mathlib.Data.List.Basic

/-!
# Resumable decoders

A decoder moves a cursor over its input.  Some of its errors only mean that the
input has ended too early.  A decoder is resumable when more input changes
neither a value nor any other error; then it does not matter how the input was
cut into chunks.
-/

namespace MiniRudis.Lib

variable {ι ε α β : Type}

structure Cursor (ι : Type) where
  data : List ι
  pos : Nat

namespace Cursor

def remaining (c : Cursor ι) : Nat := c.data.length - c.pos

def unread (c : Cursor ι) : List ι := c.data.drop c.pos

def InRange (c : Cursor ι) : Prop := c.pos ≤ c.data.length

def extend (c : Cursor ι) (ext : List ι) : Cursor ι := ⟨c.data ++ ext, c.pos⟩

structure Moved (n : Nat) (c c' : Cursor ι) : Prop where
  data : c'.data = c.data
  pos : c.pos + n ≤ c'.pos
  inRange : c'.InRange

theorem length_unread (c : Cursor ι) : c.unread.length = c.remaining := List.length_drop

theorem unread_extend {c : Cursor ι} (h : c.InRange) (ext : List ι) :
    (c.extend ext).unread = c.unread ++ ext :=
  List.drop_append_of_le_length h

theorem Moved.trans {m n : Nat} {c c' c'' : Cursor ι} (h : Moved m c c') (h' : Moved n c' c'') :
    Moved (m + n) c c'' where
  data := h'.data.trans h.data
  pos := by
    have hfirst := h.pos
    have hsecond := h'.pos
    omega
  inRange := h'.inRange

theorem Moved.mono {m n : Nat} {c c' : Cursor ι} (h : Moved m c c') (hle : n ≤ m) :
    Moved n c c' where
  data := h.data
  pos := by
    have hpos := h.pos
    omega
  inRange := h.inRange

theorem Moved.remaining {n : Nat} {c c' : Cursor ι} (h : Moved n c c') :
    c'.remaining + n ≤ c.remaining := by
  have hpos := h.pos
  have hrange := h.inRange
  unfold InRange at hrange
  rw [h.data] at hrange
  unfold Cursor.remaining
  rw [h.data]
  omega

end Cursor

abbrev Decoder (ι ε α : Type) := StateT (Cursor ι) (Except ε) α

namespace Decoder

theorem bind_apply (d : Decoder ι ε α) (k : α → Decoder ι ε β) (c : Cursor ι) :
    (d >>= k) c =
      match d c with
      | .ok (a, c') => k a c'
      | .error e => .error e := by
  show (d c >>= fun p => k p.1 p.2) = _
  cases d c <;> rfl

theorem bind_eq_ok {d : Decoder ι ε α} {k : α → Decoder ι ε β} {c c' : Cursor ι} {b : β} :
    (d >>= k) c = .ok (b, c') ↔ ∃ a c₁, d c = .ok (a, c₁) ∧ k a c₁ = .ok (b, c') := by
  rw [bind_apply]
  cases d c with
  | ok p =>
      constructor
      · exact fun h => ⟨p.1, p.2, rfl, h⟩
      · rintro ⟨a, c₁, heq, hk⟩
        cases heq
        exact hk
  | error e => simp

theorem map_eq_ok {d : Decoder ι ε α} {f : α → β} {c c' : Cursor ι} {b : β} :
    (f <$> d) c = .ok (b, c') ↔ ∃ a, d c = .ok (a, c') ∧ f a = b := by
  rw [map_eq_pure_bind, bind_eq_ok]
  constructor
  · rintro ⟨a, c₁, ha, hb⟩
    cases hb
    exact ⟨a, ha, rfl⟩
  · rintro ⟨a, ha, rfl⟩
    exact ⟨a, c', ha, rfl⟩

theorem pure_apply (a : α) (c : Cursor ι) : (pure a : Decoder ι ε α) c = .ok (a, c) := rfl

theorem throw_apply (e : ε) (c : Cursor ι) : (throw e : Decoder ι ε α) c = .error e := rfl

/-- `for _ in 0..n { items.push(d()?) }`. -/
def times (d : Decoder ι ε α) : Nat → Decoder ι ε (List α)
  | 0 => pure []
  | n + 1 => do
      let a ← d
      let as ← times d n
      return a :: as

end Decoder

/-! ## More input -/

/-- Each success moves the cursor by at least `n` items, and more input changes no
value and no error but those in `more`. -/
structure Resumable (more : ε → Prop) (n : Nat) (d : Decoder ι ε α) : Prop where
  moved : ∀ {c a c'}, c.InRange → d c = .ok (a, c') → c.Moved n c'
  ok_extend : ∀ {c a c'} ext, c.InRange → d c = .ok (a, c') →
    d (c.extend ext) = .ok (a, c'.extend ext)
  error_extend : ∀ {c e} ext, c.InRange → d c = .error e → ¬ more e → d (c.extend ext) = .error e

namespace Resumable

variable {more : ε → Prop} {m n : Nat} {d : Decoder ι ε α}

theorem pure (a : α) : Resumable more 0 (Pure.pure a : Decoder ι ε α) where
  moved {c a' c'} hrange h := by
    rw [Decoder.pure_apply] at h
    cases h
    exact ⟨rfl, Nat.le_refl _, hrange⟩
  ok_extend {c a' c'} ext _ h := by
    rw [Decoder.pure_apply] at h ⊢
    cases h
    rfl
  error_extend {c e} ext _ h := absurd h (by simp [Decoder.pure_apply])

theorem throw (n : Nat) (e : ε) : Resumable more n (MonadExcept.throw e : Decoder ι ε α) where
  moved _ h := absurd h (by simp [Decoder.throw_apply])
  ok_extend ext _ h := absurd h (by simp [Decoder.throw_apply])
  error_extend ext _ h _ := h

theorem bind {k : α → Decoder ι ε β} (hd : Resumable more m d)
    (hk : ∀ a, Resumable more n (k a)) : Resumable more (m + n) (d >>= k) where
  moved {c b c'} hrange h := by
    rw [Decoder.bind_apply] at h
    split at h
    · rename_i a c₁ hd'
      have hmoved := hd.moved hrange hd'
      exact hmoved.trans ((hk a).moved hmoved.inRange h)
    · exact absurd h (by simp)
  ok_extend {c b c'} ext hrange h := by
    rw [Decoder.bind_apply] at h ⊢
    split at h
    · rename_i a c₁ hd'
      rw [hd.ok_extend ext hrange hd']
      exact (hk a).ok_extend ext (hd.moved hrange hd').inRange h
    · exact absurd h (by simp)
  error_extend {c e} ext hrange h hmore := by
    rw [Decoder.bind_apply] at h ⊢
    split at h
    · rename_i a c₁ hd'
      rw [hd.ok_extend ext hrange hd']
      exact (hk a).error_extend ext (hd.moved hrange hd').inRange h hmore
    · rename_i e' hd'
      obtain rfl := Except.error.inj h
      rw [hd.error_extend ext hrange hd' hmore]

theorem mono (hd : Resumable more m d) (h : n ≤ m) : Resumable more n d where
  moved hrange hok := (hd.moved hrange hok).mono h
  ok_extend := hd.ok_extend
  error_extend := hd.error_extend

theorem andThen {k : α → Decoder ι ε β} (hd : Resumable more n d)
    (hk : ∀ a, Resumable more 0 (k a)) : Resumable more n (d >>= k) :=
  hd.bind hk

theorem map (hd : Resumable more n d) (f : α → β) : Resumable more n (f <$> d) := by
  rw [map_eq_pure_bind]
  exact hd.andThen fun a => pure (f a)

theorem times (hd : Resumable more 0 d) (count : Nat) : Resumable more 0 (d.times count) := by
  induction count with
  | zero => exact .pure []
  | succ count ih => exact hd.andThen fun a => ih.andThen fun as => .pure (a :: as)

end Resumable

/-! ## Errors -/

def ErrorsIn (E : ε → Prop) (d : Decoder ι ε α) : Prop := ∀ c e, d c = .error e → E e

namespace ErrorsIn

variable {E : ε → Prop} {d : Decoder ι ε α}

theorem pure (a : α) : ErrorsIn E (Pure.pure a : Decoder ι ε α) := by
  intro c e h
  exact absurd h (by simp [Decoder.pure_apply])

theorem throw {e : ε} (h : E e) : ErrorsIn E (MonadExcept.throw e : Decoder ι ε α) := by
  intro c e' h'
  rw [Decoder.throw_apply] at h'
  obtain rfl := Except.error.inj h'
  exact h

theorem bind {k : α → Decoder ι ε β} (hd : ErrorsIn E d)
    (hk : ∀ c a c', d c = .ok (a, c') → ErrorsIn E (k a)) : ErrorsIn E (d >>= k) := by
  intro c e h
  rw [Decoder.bind_apply] at h
  split at h
  · rename_i a c' hok
    exact hk c a c' hok c' e h
  · rename_i e' herr
    obtain rfl := Except.error.inj h
    exact hd c e' herr

theorem map (hd : ErrorsIn E d) (f : α → β) : ErrorsIn E (f <$> d) := by
  rw [map_eq_pure_bind]
  exact hd.bind fun _ a _ _ => pure (f a)

end ErrorsIn

/-! ## Decoders that agree on short inputs -/

/-- The decoders agree where fewer than `n` items remain. -/
def AgreeBelow (n : Nat) (d d' : Decoder ι ε α) : Prop :=
  ∀ c : Cursor ι, c.InRange → c.remaining < n → d c = d' c

namespace AgreeBelow

variable {more : ε → Prop} {m n : Nat} {d d' : Decoder ι ε α}

theorem refl (n : Nat) (d : Decoder ι ε α) : AgreeBelow n d d := fun _ _ _ => rfl

theorem bind {k k' : α → Decoder ι ε β} (hagree : AgreeBelow n d d') (hd : Resumable more m d)
    (hk : ∀ a, AgreeBelow (n - m) (k a) (k' a)) : AgreeBelow n (d >>= k) (d' >>= k') := by
  intro c hrange hc
  rw [Decoder.bind_apply, Decoder.bind_apply, ← hagree c hrange hc]
  split
  · rename_i a c' hok
    have hmoved := hd.moved hrange hok
    have hrest := hmoved.remaining
    exact hk a c' hmoved.inRange (by omega)
  · rfl

theorem map (hagree : AgreeBelow n d d') (f : α → β) : AgreeBelow n (f <$> d) (f <$> d') := by
  intro c hrange hc
  show (d c >>= _) = (d' c >>= _)
  rw [hagree c hrange hc]

theorem times (hagree : AgreeBelow n d d') (hd : Resumable more 0 d) (count : Nat) :
    AgreeBelow n (d.times count) (d'.times count) := by
  induction count with
  | zero => exact refl n _
  | succ count ih =>
      apply hagree.bind hd
      intro a
      exact ih.bind (hd.times count) fun as => refl _ _

end AgreeBelow

end MiniRudis.Lib
