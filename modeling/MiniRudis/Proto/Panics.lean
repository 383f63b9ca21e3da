import MiniRudis.Proto.Resume

/-!
# Panics of the decoder

Positions, slices and lengths stay in range whatever the bytes are.  What is left
is `Vec::with_capacity` on the length that an array header announces.
-/

namespace MiniRudis

open Lib

/-! ## The headers that the decoder comes to -/

/-- The next frame as far as its elements: the length of an array, or `none` for a
frame without elements. -/
def readToken : CursorM (Option Nat) := do
  let byte ← nextByte
  if byte = 42 then
    let len ← readI64 "array length"
    if len = -1 then return none
    else if len < 0 then throw (.err (.protocol ("invalid array length: " ++ decimal len)))
    else return some len.toNat
  else
    let _ ← decodeBranch (fun _ => true) (pure .null) byte
    return none

/-- While `k` frames are still to be read from the cursor, an array header announces
`n` elements.  The elements of an array are further frames to be read. -/
inductive Announces : Nat → Cursor UInt8 → Nat → Prop
  | header {k n : Nat} {c c' : Cursor UInt8} :
      readToken c = .ok (some n, c') → Announces (k + 1) c n
  | element {k m n : Nat} {c c' : Cursor UInt8} :
      readToken c = .ok (some m, c') → Announces (k + m) c' n → Announces (k + 1) c n
  | next {k n : Nat} {c c' : Cursor UInt8} :
      readToken c = .ok (none, c') → Announces k c' n → Announces (k + 1) c n

theorem not_announces_zero {c : Cursor UInt8} {n : Nat} : ¬ Announces 0 c n := nofun

theorem announces_of_error {k n : Nat} {c : Cursor UInt8} {e : Fault}
    (h : readToken c = .error e) : ¬ Announces (k + 1) c n := by
  rintro (h' | ⟨h', -⟩ | ⟨h', -⟩) <;> exact absurd (h.symm.trans h') (by simp)

theorem announces_of_leaf {k n : Nat} {c c' : Cursor UInt8} (h : readToken c = .ok (none, c')) :
    Announces (k + 1) c n ↔ Announces k c' n := by
  constructor
  · rintro (h' | ⟨h', -⟩ | ⟨h', hrest⟩)
    · exact absurd (h.symm.trans h') (by simp)
    · exact absurd (h.symm.trans h') (by simp)
    · cases h.symm.trans h'
      exact hrest
  · exact .next h

theorem announces_of_array {k m n : Nat} {c c' : Cursor UInt8}
    (h : readToken c = .ok (some m, c')) :
    Announces (k + 1) c n ↔ n = m ∨ Announces (k + m) c' n := by
  constructor
  · rintro (h' | ⟨h', hrest⟩ | ⟨h', -⟩)
    · cases h.symm.trans h'
      exact Or.inl rfl
    · cases h.symm.trans h'
      exact Or.inr hrest
    · exact absurd (h.symm.trans h') (by simp)
  · rintro (rfl | hrest)
    · exact .header h
    · exact .element h hrest

/-! ## Frames without elements -/

def NoPanic (e : Fault) : Prop := e ≠ .panicked

theorem noPanic_err (e : RedisError) : NoPanic (.err e) := nofun

theorem readLine_noPanic : ErrorsIn NoPanic readLine := by
  intro c e h
  rw [readLine_eq] at h
  split at h
  · obtain rfl := Except.error.inj h
    exact noPanic_err _
  · split at h
    · exact absurd h (by simp)
    · obtain rfl := Except.error.inj h
      exact noPanic_err _

theorem readI64_noPanic (what : String) : ErrorsIn NoPanic (readI64 what) := by
  apply readLine_noPanic.bind
  intro c line c' _
  split
  · exact .pure _
  · exact .throw (noPanic_err _)

theorem readI64_inI64 {what : String} {c c' : Cursor UInt8} {n : Int}
    (h : readI64 what c = .ok (n, c')) : InI64 n := by
  rw [readI64, Decoder.bind_apply] at h
  cases hline : readLine c with
  | error e => exact absurd h (by simp [hline])
  | ok p =>
      rw [hline] at h
      cases hparse : parseI64 p.1 with
      | none => exact absurd h (by simp [hparse, Decoder.throw_apply])
      | some m =>
          simp only [hparse, Decoder.pure_apply] at h
          cases h
          exact parseI64_inI64 hparse

/-- `len + 2` does not overflow where `len` was an `i64`. -/
theorem readBody_noPanic {len : Int} (h : InI64 len) : ErrorsIn NoPanic (readBody len.toNat) := by
  intro c e herr
  have hadd : addUsize len.toNat 2 = .ok (len.toNat + 2) := by
    apply addUsize_ok
    have hmax := h.2
    unfold i64Max at hmax
    omega
  rw [readBody_eq hadd] at herr
  split at herr
  · obtain rfl := Except.error.inj herr
    exact noPanic_err _
  · exact absurd herr (by simp)

theorem readBulk_noPanic (what : String) :
    ErrorsIn NoPanic (readCounted what fun len => Frame.bulk <$> readBody len) := by
  apply (readI64_noPanic what).bind
  intro c len c' hlen
  split
  · exact .pure _
  · split
    · exact .throw (noPanic_err _)
    · exact (readBody_noPanic (readI64_inI64 hlen)).map _

theorem decodeInline_noPanic : ErrorsIn NoPanic decodeInline := by
  apply readLine_noPanic.bind
  intro c line c' _
  dsimp only
  split
  · exact .throw (noPanic_err _)
  · exact .pure _

theorem decodeBranch_noPanic (reserve : Nat → Bool) (element : CursorM Frame) {byte : UInt8}
    (hbyte : byte ≠ 42) {c : Cursor UInt8} (hpos : 1 ≤ c.pos) {e : Fault}
    (h : decodeBranch reserve element byte c = .error e) : NoPanic e := by
  unfold decodeBranch at h
  split at h
  · exact readLine_noPanic.map _ c e h
  · split at h
    · exact readLine_noPanic.map _ c e h
    · split at h
      · exact (readI64_noPanic _).map _ c e h
      · split at h
        · exact readBulk_noPanic _ c e h
        · rw [stepBack_eq, if_pos hpos] at h
          exact decodeInline_noPanic _ e h

theorem decodeBranch_leaf (reserve reserve' : Nat → Bool) (element element' : CursorM Frame)
    {byte : UInt8} (hbyte : byte ≠ 42) :
    decodeBranch reserve element byte = decodeBranch reserve' element' byte := by
  unfold decodeBranch
  simp only [hbyte, if_false]

/-! ## A frame and its token -/

theorem nextByte_pos {c c' : Cursor UInt8} {byte : UInt8} (h : nextByte c = .ok (byte, c')) :
    1 ≤ c'.pos := by
  rw [nextByte_eq] at h
  split at h
  · exact absurd h (by simp)
  · cases h
    exact Nat.le_add_left 1 _

theorem nextByte_noPanic : ErrorsIn NoPanic nextByte := by
  intro c e h
  rw [nextByte_eq] at h
  split at h
  · obtain rfl := Except.error.inj h
    exact noPanic_err _
  · exact absurd h (by simp)

/-- How a frame goes on after its token: an array with its elements, if the vector
can be reserved. -/
def AfterToken (reserve : Nat → Bool) (depth : Nat) (result : Except Fault (Frame × Cursor UInt8)) :
    Except Fault (Option Nat × Cursor UInt8) → Prop
  | .ok (none, c) => ∃ f, result = .ok (f, c)
  | .ok (some n, c) =>
      result = if reserve n then (Frame.array <$> (decodeFrame reserve depth).times n) c else panicked
  | .error e => result = .error e ∧ NoPanic e

theorem decodeFrame_token (reserve : Nat → Bool) (depth : Nat) (c : Cursor UInt8) :
    AfterToken reserve depth (decodeFrame reserve (depth + 1) c) (readToken c) := by
  rw [decodeFrame, readToken, Decoder.bind_apply, Decoder.bind_apply]
  cases hnext : nextByte c with
  | error e => exact ⟨rfl, nextByte_noPanic c e hnext⟩
  | ok p =>
      obtain ⟨byte, c'⟩ := p
      by_cases hbyte : byte = 42
      · subst hbyte
        simp only [if_true]
        have hbranch : decodeBranch reserve (decodeFrame reserve depth) 42 =
            readCounted "array length" fun count =>
              if reserve count then Frame.array <$> (decodeFrame reserve depth).times count
              else throw .panicked := rfl
        rw [hbranch, readCounted, Decoder.bind_apply, Decoder.bind_apply]
        cases hlen : readI64 "array length" c' with
        | error e => exact ⟨rfl, readI64_noPanic _ c' e hlen⟩
        | ok p =>
            obtain ⟨len, c''⟩ := p
            by_cases hnull : len = -1
            · simp only [hnull, if_true]
              exact ⟨.null, rfl⟩
            · by_cases hneg : len < 0
              · simp only [hnull, hneg, if_true, if_false]
                exact ⟨rfl, noPanic_err _⟩
              · simp only [hnull, hneg, if_false, Decoder.pure_apply, AfterToken]
                cases reserve len.toNat <;> rfl
      · simp only [hbyte, if_false]
        have hleaf := decodeBranch_leaf reserve (fun _ => true) (decodeFrame reserve depth)
          (pure .null) hbyte
        rw [hleaf, Decoder.bind_apply]
        cases hframe : decodeBranch (fun _ => true) (pure .null) byte c' with
        | error e => exact ⟨rfl, decodeBranch_noPanic _ _ hbyte (nextByte_pos hnext) hframe⟩
        | ok p => exact ⟨p.1, rfl⟩

/-! ## The whole buffer -/

/-- How the headers that come up relate to reading `k` frames of any number that are
still to be read. -/
def Scans {α : Type} (reserve : Nat → Bool) (k : Nat) (c : Cursor UInt8) :
    Except Fault (α × Cursor UInt8) → Prop
  | .ok (_, c') => ∀ rest n, (Announces rest c' n → Announces (rest + k) c n) ∧
      (Announces (rest + k) c n → reserve n = true ∨ Announces rest c' n)
  | .error .panicked => ∀ rest, ∃ n, Announces (rest + k) c n ∧ reserve n = false
  | .error (.err _) => ∀ rest n, Announces (rest + k) c n → reserve n = true

theorem Scans.map {α β : Type} {reserve : Nat → Bool} {k : Nat} {c c₁ : Cursor UInt8}
    {d : CursorM α} (h : Scans reserve k c (d c₁)) (f : α → β) :
    Scans reserve k c ((f <$> d) c₁) := by
  rw [map_eq_pure_bind, Decoder.bind_apply]
  cases hd : d c₁ with
  | ok p =>
      rw [hd] at h
      exact h
  | error e =>
      rw [hd] at h
      cases e with
      | err e => exact h
      | panicked => exact h

theorem Scans.times {reserve : Nat → Bool} {d : CursorM Frame} (hd : Resumable (· = incomplete) 0 d)
    {depth : Nat}
    (h : ∀ c : Cursor UInt8, c.InRange → c.remaining < depth → Scans reserve 1 c (d c)) (k : Nat)
    {c : Cursor UInt8} (hrange : c.InRange) (hdepth : c.remaining < depth) :
    Scans reserve k c (d.times k c) := by
  induction k generalizing c with
  | zero => exact fun rest n => ⟨id, Or.inr⟩
  | succ k ih =>
      have hfirst := h c hrange hdepth
      rw [Decoder.times, Decoder.bind_apply]
      cases hframe : d c with
      | error e =>
          rw [hframe] at hfirst
          cases e with
          | err e =>
              intro rest n hann
              exact hfirst (rest + k) n hann
          | panicked => exact fun rest => hfirst (rest + k)
      | ok p =>
          obtain ⟨f, c'⟩ := p
          rw [hframe] at hfirst
          have hmoved := hd.moved hrange hframe
          have hremaining := hmoved.remaining
          have hrest := ih hmoved.inRange (by omega)
          simp only [Decoder.bind_apply]
          cases hframes : d.times k c' with
          | error e =>
              rw [hframes] at hrest
              cases e with
              | err e =>
                  intro rest n hann
                  exact (((hfirst (rest + k) n).2 hann)).elim id (hrest rest n)
              | panicked =>
                  intro rest
                  obtain ⟨n, hann, hno⟩ := hrest rest
                  exact ⟨n, (hfirst (rest + k) n).1 hann, hno⟩
          | ok p =>
              rw [hframes] at hrest
              intro rest n
              refine ⟨fun hann => (hfirst (rest + k) n).1 ((hrest rest n).1 hann), fun hann => ?_⟩
              exact ((hfirst (rest + k) n).2 hann).elim Or.inl (hrest rest n).2

theorem Scans.ofElements {α : Type} {reserve : Nat → Bool} {m : Nat} {c c' : Cursor UInt8}
    (htoken : readToken c = .ok (some m, c')) (hreserve : reserve m = true)
    {result : Except Fault (α × Cursor UInt8)} (h : Scans reserve m c' result) :
    Scans reserve 1 c result := by
  cases result with
  | error e =>
      cases e with
      | err e =>
          intro rest n hann
          rcases (announces_of_array htoken).mp hann with rfl | hann
          · exact hreserve
          · exact h rest n hann
      | panicked =>
          intro rest
          obtain ⟨n, hann, hno⟩ := h rest
          exact ⟨n, .element htoken hann, hno⟩
  | ok p =>
      intro rest n
      refine ⟨fun hann => .element htoken ((h rest n).1 hann), fun hann => ?_⟩
      rcases (announces_of_array htoken).mp hann with rfl | hann
      · exact Or.inl hreserve
      · exact (h rest n).2 hann

theorem readToken_resumable : Resumable (· = incomplete) 1 readToken := by
  apply nextByte_resumable.andThen
  intro byte
  split
  · apply ((readI64_resumable _).mono (Nat.zero_le _)).andThen
    intro len
    split
    · exact .pure _
    · split
      · exact .throw 0 _
      · exact .pure _
  · exact (decodeBranch_resumable _ (.pure Frame.null) byte).andThen fun _ => .pure none

/-- The induction is on the depth, which exceeds what remains to be read. -/
theorem decodeFrame_scans (reserve : Nat → Bool) (depth : Nat) {c : Cursor UInt8}
    (hrange : c.InRange) (hdepth : c.remaining < depth) :
    Scans reserve 1 c (decodeFrame reserve depth c) := by
  induction depth generalizing c with
  | zero => exact absurd hdepth (Nat.not_lt_zero _)
  | succ depth ih =>
      have hafter := decodeFrame_token reserve depth c
      cases htoken : readToken c with
      | error e =>
          rw [htoken] at hafter
          obtain ⟨hframe, hno⟩ := hafter
          rw [hframe]
          cases e with
          | panicked => exact absurd rfl hno
          | err e => exact fun rest n hann => absurd hann (announces_of_error htoken)
      | ok p =>
          obtain ⟨len, c'⟩ := p
          rw [htoken] at hafter
          cases len with
          | none =>
              obtain ⟨f, hframe⟩ := hafter
              rw [hframe]
              intro rest n
              rw [announces_of_leaf htoken]
              exact ⟨id, Or.inr⟩
          | some m =>
              have hframe : decodeFrame reserve (depth + 1) c = if reserve m then
                  (Frame.array <$> (decodeFrame reserve depth).times m) c' else panicked := hafter
              rw [hframe]
              cases hreserve : reserve m with
              | false =>
                  intro rest
                  exact ⟨m, (announces_of_array htoken).mpr (Or.inl rfl), hreserve⟩
              | true =>
                  have hmoved := readToken_resumable.moved hrange htoken
                  have hremaining := hmoved.remaining
                  have helements := Scans.times ((decodeFrame_resumable reserve depth).mono
                    (Nat.zero_le 1)) (fun c => ih) m hmoved.inRange (by omega)
                  exact (helements.map Frame.array).ofElements htoken hreserve

/-- `parse_frame` panics exactly if the headers that it comes to announce an array for
which no vector can be reserved. -/
theorem parseFrame_panics_iff (reserve : Nat → Bool) (buf : Bytes) :
    (parseFrame reserve buf).1 = panicked ↔ ∃ n, Announces 1 ⟨buf, 0⟩ n ∧ reserve n = false := by
  have hscan := decodeFrame_scans reserve (buf.length + 1) (c := ⟨buf, 0⟩) (Nat.zero_le _)
    (Nat.lt_succ_self _)
  have hfront : (parseFrame reserve buf).1 = panicked ↔
      decodeFrame reserve (buf.length + 1) ⟨buf, 0⟩ = .error .panicked := by
    rw [parseFrame_eq, frontFrame, Decoder.parse]
    cases decodeFrame reserve (buf.length + 1) ⟨buf, 0⟩ with
    | ok p => simp
    | error e =>
        by_cases he : e = incomplete
        · simp [he, incomplete]
        · simp [if_neg he]
  rw [hfront]
  cases hframe : decodeFrame reserve (buf.length + 1) ⟨buf, 0⟩ with
  | ok p =>
      rw [hframe] at hscan
      refine iff_of_false (by simp) ?_
      rintro ⟨n, hann, hno⟩
      rcases (hscan 0 n).2 hann with hyes | hann
      · exact absurd hyes (by simp [hno])
      · exact not_announces_zero hann
  | error e =>
      rw [hframe] at hscan
      cases e with
      | panicked => exact iff_of_true rfl (hscan 0)
      | err e =>
          refine iff_of_false (by simp) ?_
          rintro ⟨n, hann, hno⟩
          exact absurd (hscan 0 n hann) (by simp [hno])

/-- The vectors of `size`-byte frames that `Vec::with_capacity` does not refuse. -/
def frameCapacity (size n : Nat) : Bool := decide (CapacityOk size n)

/-- **Panics of the decoder.**  `parse_frame` returns, with a frame, with nothing or
with an error, exactly on the buffers whose array headers, as far as it comes to
them, announce no more frames than a vector can hold. -/
theorem parseFrame_returns_iff (size : Nat) (buf : Bytes) :
    (parseFrame (frameCapacity size) buf).1 ≠ panicked ↔
      ∀ n, Announces 1 ⟨buf, 0⟩ n → CapacityOk size n := by
  rw [ne_eq, parseFrame_panics_iff, not_exists]
  apply forall_congr'
  intro n
  simp [frameCapacity]

/-- `*9223372036854775807`, of frames of eight bytes. -/
theorem parseFrame_capacity_overflow :
    ¬ ∀ size buf, 8 ≤ size → (parseFrame (frameCapacity size) buf).1 ≠ panicked := by
  intro hclaim
  exact hclaim 8 [42, 57, 50, 50, 51, 51, 55, 50, 48, 51, 54, 56, 53, 52, 55, 55, 53, 56, 48, 55,
    13, 10] (Nat.le_refl 8) rfl

end MiniRudis
