import Mathlib.Data.List.Basic

/-!
# What a computation returns

A computation that can fail returns a value that satisfies `Q`, or an error that
satisfies `E`.
-/

namespace MiniRudis.Lib

variable {ε α β : Type}

def Returns (Q : α → Prop) (E : ε → Prop) : Except ε α → Prop
  | .ok a => Q a
  | .error e => E e

namespace Returns

variable {Q : α → Prop} {R : β → Prop} {E : ε → Prop}

theorem any (x : Except ε α) : Returns (fun _ => True) (fun _ => True) x := by
  cases x <;> trivial

theorem pure {a : α} (h : Q a) : Returns Q E (Pure.pure a) := h

theorem bind {x : Except ε α} {f : α → Except ε β} (hx : Returns Q E x)
    (hf : ∀ a, Q a → Returns R E (f a)) : Returns R E (x >>= f) := by
  cases x with
  | ok a => exact hf a hx
  | error e => exact hx

theorem map {x : Except ε α} {f : α → β} (hx : Returns Q E x) (hf : ∀ a, Q a → R (f a)) :
    Returns R E (f <$> x) := by
  cases x with
  | ok a => exact hf a hx
  | error e => exact hx

theorem mono {Q' : α → Prop} {E' : ε → Prop} {x : Except ε α} (hx : Returns Q E x)
    (hQ : ∀ a, Q a → Q' a) (hE : ∀ e, E e → E' e) : Returns Q' E' x := by
  cases x with
  | ok a => exact hQ a hx
  | error e => exact hE e hx

theorem ok {x : Except ε α} {a : α} (h : Returns Q E x) (hx : x = .ok a) : Q a := by
  rw [hx] at h
  exact h

theorem error {x : Except ε α} {e : ε} (h : Returns Q E x) (hx : x = .error e) : E e := by
  rw [hx] at h
  exact h

theorem mapM {f : α → Except ε β} (hf : ∀ a, Returns R E (f a)) (as : List α) :
    Returns (fun bs => ∀ b ∈ bs, R b) E (as.mapM f) := by
  induction as with
  | nil => exact fun b hb => absurd hb (by simp)
  | cons a as ih =>
      rw [List.mapM_cons]
      apply (hf a).bind
      intro b hb
      apply ih.bind
      intro bs hbs
      apply pure
      simpa using ⟨hb, hbs⟩

end Returns

theorem mapM_eq_ok {f : α → Except ε β} {as : List α} {bs : List β} (h : as.mapM f = .ok bs) :
    (∀ a ∈ as, ∃ b ∈ bs, f a = .ok b) ∧ ∀ b ∈ bs, ∃ a ∈ as, f a = .ok b := by
  induction as generalizing bs with
  | nil =>
      obtain rfl := Except.ok.inj h
      exact ⟨by simp, by simp⟩
  | cons a as ih =>
      rw [List.mapM_cons] at h
      cases hb : f a with
      | error e =>
          rw [hb] at h
          exact absurd h nofun
      | ok b =>
          cases hrest : as.mapM f with
          | error e =>
              rw [hb, hrest] at h
              exact absurd h nofun
          | ok rest =>
              rw [hb, hrest] at h
              obtain rfl := Except.ok.inj h
              obtain ⟨hto, hfrom⟩ := ih hrest
              constructor
              · intro a' ha'
                obtain rfl | ha' := List.mem_cons.mp ha'
                · exact ⟨b, List.mem_cons_self, hb⟩
                · obtain ⟨b', hb', heq⟩ := hto a' ha'
                  exact ⟨b', List.mem_cons_of_mem _ hb', heq⟩
              · intro b' hb'
                obtain rfl | hb' := List.mem_cons.mp hb'
                · exact ⟨a, List.mem_cons_self, hb⟩
                · obtain ⟨a', ha', heq⟩ := hfrom b' hb'
                  exact ⟨a', List.mem_cons_of_mem _ ha', heq⟩

theorem mapM_ok {f : α → Except ε β} {g : α → β} {as : List α} (h : ∀ a ∈ as, f a = .ok (g a)) :
    as.mapM f = .ok (as.map g) := by
  induction as with
  | nil => rfl
  | cons a as ih =>
      rw [List.mapM_cons, h a List.mem_cons_self, ih fun a' ha' => h a' (List.mem_cons_of_mem a ha')]
      rfl

/-- All errors being the same, it does not matter which comes first. -/
theorem mapM_error {f : α → Except ε β} {e : ε} {as : List α} (hf : ∀ a e', f a = .error e' → e' = e)
    (h : ∃ a ∈ as, f a = .error e) : as.mapM f = .error e := by
  induction as with
  | nil => simp at h
  | cons a as ih =>
      rw [List.mapM_cons]
      cases ha : f a with
      | error e' =>
          rw [hf a e' ha]
          rfl
      | ok b =>
          have hrest : ∃ a' ∈ as, f a' = .error e := by
            rcases h with ⟨a', ha', he⟩
            rcases List.mem_cons.mp ha' with rfl | hmem
            · rw [ha] at he
              exact absurd he (by simp)
            · exact ⟨a', hmem, he⟩
          rw [ih hrest]
          rfl

end MiniRudis.Lib
