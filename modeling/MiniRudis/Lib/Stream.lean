import MiniRudis.Lib.Resumable

/-!
# Reading a stream in chunks

A buffer is parsed again each time a chunk has been appended to it.  With a
stable parser the values and the first error depend on the stream alone.
-/

namespace MiniRudis.Lib

variable {ι ε α : Type}

/-- Each value takes at least one item from the front of the list, and more input
changes no value and no error but those in `more`. -/
structure Stable (more : ε → Prop) (parse : List ι → Except ε (α × List ι)) : Prop where
  shorter : ∀ {b a rest}, parse b = .ok (a, rest) → rest.length < b.length
  ok_append : ∀ {b a rest} ext, parse b = .ok (a, rest) →
    parse (b ++ ext) = .ok (a, rest ++ ext)
  error_append : ∀ {b e} ext, parse b = .error e → ¬ more e → parse (b ++ ext) = .error e

def Decoder.parse (d : Decoder ι ε α) (b : List ι) : Except ε (α × List ι) :=
  match d ⟨b, 0⟩ with
  | .ok (a, c) => .ok (a, c.unread)
  | .error e => .error e

theorem Resumable.stable {more : ε → Prop} {d : Decoder ι ε α} (hd : Resumable more 1 d) :
    Stable more d.parse := by
  have hzero : ∀ b : List ι, (⟨b, 0⟩ : Cursor ι).InRange := fun b => Nat.zero_le _
  constructor
  case shorter =>
    intro b a rest h
    unfold Decoder.parse at h
    split at h
    · rename_i a' c hok
      cases h
      have hrest := (hd.moved (hzero b) hok).remaining
      rw [Cursor.length_unread]
      simp only [Cursor.remaining] at hrest ⊢
      omega
    · exact absurd h (by simp)
  case ok_append =>
    intro b a rest ext h
    unfold Decoder.parse at h
    split at h
    · rename_i a' c hok
      cases h
      have hlong := hd.ok_extend ext (hzero b) hok
      rw [Cursor.extend] at hlong
      rw [Decoder.parse, hlong]
      simp only [Cursor.unread_extend (hd.moved (hzero b) hok).inRange]
    · exact absurd h (by simp)
  case error_append =>
    intro b e ext h hmore
    unfold Decoder.parse at h
    split at h
    · exact absurd h (by simp)
    · rename_i e' herr
      cases h
      have hlong := hd.error_extend ext (hzero b) herr hmore
      rw [Cursor.extend] at hlong
      rw [Decoder.parse, hlong]

variable {more : ε → Prop} [DecidablePred more] {parse : List ι → Except ε (α × List ι)}

/-- Parse until the input has ended too early, or fail: the values, and the unread
input or the error. -/
def drain (hparse : Stable more parse) (b : List ι) : List α × Except ε (List ι) :=
  match _h : parse b with
  | .ok (a, rest) => (a :: (drain hparse rest).1, (drain hparse rest).2)
  | .error e => if more e then ([], .ok b) else ([], .error e)
termination_by b.length
decreasing_by
  all_goals exact hparse.shorter _h

/-- Append each chunk to the buffer and drain it. -/
def feed (hparse : Stable more parse) (b : List ι) :
    List (List ι) → List α × Except ε (List ι)
  | [] => ([], .ok b)
  | chunk :: chunks =>
      match drain hparse (b ++ chunk) with
      | (as, .ok rest) => (as ++ (feed hparse rest chunks).1, (feed hparse rest chunks).2)
      | (as, .error e) => (as, .error e)

variable {hparse : Stable more parse}

theorem drain_ok {b rest : List ι} {a : α} (h : parse b = .ok (a, rest)) :
    drain hparse b = (a :: (drain hparse rest).1, (drain hparse rest).2) := by
  rw [drain]
  split
  · rename_i a' rest' h'
    rw [h] at h'
    cases h'
    rfl
  · rename_i e h'
    exact absurd (h.symm.trans h') (by simp)

theorem drain_error {b : List ι} {e : ε} (h : parse b = .error e) :
    drain hparse b = if more e then ([], .ok b) else ([], .error e) := by
  rw [drain]
  split
  · rename_i a' rest' h'
    exact absurd (h.symm.trans h') (by simp)
  · rename_i e' h'
    rw [Except.error.inj (h.symm.trans h')]

theorem drain_append (b ext : List ι) :
    drain hparse (b ++ ext) =
      match drain hparse b with
      | (as, .ok rest) => (as ++ (drain hparse (rest ++ ext)).1, (drain hparse (rest ++ ext)).2)
      | (as, .error e) => (as, .error e) := by
  induction hlen : b.length using Nat.strongRecOn generalizing b with
  | _ n ih =>
      cases hb : parse b with
      | ok p =>
          obtain ⟨a, rest⟩ := p
          have hshorter := hparse.shorter hb
          have hrest := ih rest.length (by omega) rest rfl
          rw [drain_ok (hparse.ok_append ext hb), drain_ok hb, hrest]
          cases hout : drain hparse rest with
          | mk as out => cases out <;> rfl
      | error e =>
          by_cases he : more e
          · simp [drain_error hb, he]
          · simp [drain_error hb, drain_error (hparse.error_append ext hb he), he]

theorem drain_rest {b rest : List ι} {as : List α} (h : drain hparse b = (as, .ok rest)) :
    drain hparse rest = ([], .ok rest) := by
  induction hlen : b.length using Nat.strongRecOn generalizing b as with
  | _ n ih =>
      cases hb : parse b with
      | ok p =>
          obtain ⟨a, rest'⟩ := p
          have hshorter := hparse.shorter hb
          rw [drain_ok hb] at h
          have hout : drain hparse rest' = ((drain hparse rest').1, .ok rest) :=
            Prod.ext rfl (Prod.ext_iff.mp h).2
          exact ih rest'.length (by omega) hout rfl
      | error e =>
          rw [drain_error hb] at h
          by_cases he : more e
          · rw [if_pos he] at h
            obtain rfl := Except.ok.inj (congrArg Prod.snd h)
            rw [drain_error hb, if_pos he]
          · rw [if_neg he] at h
            exact absurd (congrArg Prod.snd h) (by simp)

/-- **Chunks do not matter.**  Feeding chunks to a buffer that waits is draining
all of the input at once. -/
theorem feed_eq_drain {b : List ι} (hwait : drain hparse b = ([], .ok b))
    (chunks : List (List ι)) : feed hparse b chunks = drain hparse (b ++ chunks.flatten) := by
  induction chunks generalizing b with
  | nil => simp [feed, hwait]
  | cons chunk chunks ih =>
      rw [feed, List.flatten_cons, ← List.append_assoc, drain_append (b ++ chunk)]
      cases hout : drain hparse (b ++ chunk) with
      | mk as out =>
          cases out with
          | ok rest => simp only [ih (drain_rest hout)]
          | error e => rfl

end MiniRudis.Lib
