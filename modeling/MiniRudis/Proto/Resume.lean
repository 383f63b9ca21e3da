import MiniRudis.Proto.Decode

/-!
# Decoding with more bytes

Bytes that arrive later change no frame and no error but `incomplete`.
-/

namespace MiniRudis

open Lib

/-! ## Lines -/

def crlfAt : Bytes → Option Nat
  | [] => none
  | b :: rest => if b = 13 ∧ rest.head? = some 10 then some 0 else (crlfAt rest).map (· + 1)

theorem crlfAt_append {b : Bytes} {i : Nat} (h : crlfAt b = some i) (ext : Bytes) :
    crlfAt (b ++ ext) = some i := by
  induction b generalizing i with
  | nil => exact absurd h (by simp [crlfAt])
  | cons x rest ih =>
      rw [crlfAt] at h
      rw [List.cons_append, crlfAt]
      split at h
      · rename_i hcrlf
        simp [hcrlf, List.head?_append, h]
      · rename_i hcrlf
        obtain ⟨j, hj, rfl⟩ := Option.map_eq_some_iff.mp h
        cases rest with
        | nil => exact absurd hj (by simp [crlfAt])
        | cons y rest =>
            have hcrlf' : ¬ (x = 13 ∧ (y :: rest ++ ext).head? = some 10) := hcrlf
            rw [if_neg hcrlf', ih hj]
            rfl

theorem crlfAt_parts {b : Bytes} {i : Nat} (h : crlfAt b = some i) :
    b = b.take i ++ crlf ++ b.drop (i + 2) := by
  induction b generalizing i with
  | nil => exact absurd h (by simp [crlfAt])
  | cons x rest ih =>
      rw [crlfAt] at h
      split at h
      · rename_i hcrlf
        obtain ⟨tail, rfl⟩ := List.head?_eq_some_iff.mp hcrlf.2
        rw [← Option.some.inj h, hcrlf.1]
        rfl
      · obtain ⟨j, hj, rfl⟩ := Option.map_eq_some_iff.mp h
        rw [List.take_succ_cons, List.drop_succ_cons, List.cons_append, List.cons_append, ← ih hj]

theorem crlfAt_le {b : Bytes} {i : Nat} (h : crlfAt b = some i) : i + 2 ≤ b.length := by
  have hlength := congrArg List.length (crlfAt_parts h)
  have hcrlf : crlf.length = 2 := rfl
  simp only [List.length_append, List.length_take, List.length_drop] at hlength
  omega

theorem crlfAt_short {b : Bytes} (h : b.length ≤ 1) : crlfAt b = none := by
  by_contra hne
  obtain ⟨i, hi⟩ := Option.ne_none_iff_exists'.mp hne
  have hle := crlfAt_le hi
  omega

theorem index_eq {slice : Bytes} {i : Nat} (h : i < slice.length) :
    index slice i = .ok slice[i] := by
  simp [index, h]

theorem findCrlf_eq (slice : Bytes) (n i : Nat) (h : slice.length - 1 - i = n) :
    findCrlf slice n i = .ok ((crlfAt (slice.drop i)).map (· + i)) := by
  induction n generalizing i with
  | zero =>
      have hshort : (slice.drop i).length ≤ 1 := by
        rw [List.length_drop]
        omega
      rw [findCrlf, crlfAt_short hshort]
      rfl
  | succ n ih =>
      have hi : i < slice.length := by omega
      have hnext : i + 1 < slice.length := by omega
      have hrest : (crlfAt (slice.drop (i + 1))).map (· + (i + 1)) =
          ((crlfAt (slice.drop (i + 1))).map (· + 1)).map (· + i) := by
        rw [Option.map_map]
        congr 1
        funext k
        simp only [Function.comp_apply]
        omega
      rw [findCrlf, index_eq hi, index_eq hnext, ih (i + 1) (by omega), List.drop_eq_getElem_cons hi,
        crlfAt, List.drop_eq_getElem_cons hnext, List.head?_cons, ← List.drop_eq_getElem_cons hnext,
        hrest]
      by_cases hcr : slice[i] = 13
      · by_cases hlf : slice[i + 1] = 10
        · simp [hcr, hlf]
        · simp [hcr, hlf]
      · simp [hcr]

theorem readLine_eq (c : Cursor UInt8) :
    readLine c =
      match crlfAt c.unread with
      | none => .error incomplete
      | some k =>
          match fromUtf8 (c.unread.take k) with
          | some line => .ok (line, { c with pos := c.pos + (k + 2) })
          | none => err (.protocol "invalid UTF-8") := by
  have hscan : findCrlf c.data (c.data.length - 1 - c.pos) c.pos =
      .ok ((crlfAt c.unread).map (· + c.pos)) := findCrlf_eq _ _ _ rfl
  simp only [readLine, hscan]
  cases hfind : crlfAt c.unread with
  | none => rfl
  | some k =>
      have hle := crlfAt_le hfind
      rw [c.length_unread] at hle
      have hslice : sliceRange c.data c.pos (k + c.pos) = .ok (c.unread.take k) := by
        have hrange : c.pos ≤ k + c.pos ∧ k + c.pos ≤ c.data.length := by
          unfold Cursor.remaining at hle
          omega
        rw [sliceRange, if_pos hrange, Nat.add_sub_cancel]
        rfl
      have hpos : k + c.pos + 2 = c.pos + (k + 2) := by omega
      simp only [Option.map_some, hslice]
      cases fromUtf8 (c.unread.take k) with
      | none => rfl
      | some line => simp only [hpos]

theorem readLine_resumable : Resumable (· = incomplete) 2 readLine where
  moved {c line c'} hrange h := by
    rw [readLine_eq] at h
    split at h
    · exact absurd h (by simp)
    · rename_i k hk
      have hle := crlfAt_le hk
      rw [c.length_unread, Cursor.remaining] at hle
      unfold Cursor.InRange at hrange
      split at h
      · cases h
        constructor
        case data => rfl
        case pos => exact Nat.add_le_add_left (Nat.le_add_left 2 k) c.pos
        case inRange =>
          show c.pos + (k + 2) ≤ c.data.length
          omega
      · exact absurd h (by simp)
  ok_extend {c line c'} ext hrange h := by
    rw [readLine_eq] at h ⊢
    rw [Cursor.unread_extend hrange]
    cases hk : crlfAt c.unread with
    | none => exact absurd h (by simp [hk])
    | some k =>
        have hle : k ≤ c.unread.length := Nat.le_of_add_right_le (crlfAt_le hk)
        simp only [hk] at h
        simp only [crlfAt_append hk ext, List.take_append_of_le_length hle]
        cases hline : fromUtf8 (c.unread.take k) with
        | none => exact absurd h (by simp [hline])
        | some line =>
            rw [hline] at h
            cases h
            rfl
  error_extend {c e} ext hrange h hmore := by
    rw [readLine_eq] at h ⊢
    rw [Cursor.unread_extend hrange]
    cases hk : crlfAt c.unread with
    | none =>
        rw [hk] at h
        exact absurd (Except.error.inj h).symm hmore
    | some k =>
        have hle : k ≤ c.unread.length := Nat.le_of_add_right_le (crlfAt_le hk)
        simp only [hk] at h
        simp only [crlfAt_append hk ext, List.take_append_of_le_length hle]
        cases hline : fromUtf8 (c.unread.take k) with
        | none =>
            rw [hline] at h
            exact h
        | some line => exact absurd h (by simp [hline])

/-! ## Bytes -/

theorem nextByte_eq (c : Cursor UInt8) :
    nextByte c =
      match c.unread with
      | [] => .error incomplete
      | byte :: _ => .ok (byte, { c with pos := c.pos + 1 }) := by
  rw [nextByte, Decoder.bind_apply, needRemaining]
  by_cases hlt : c.pos < c.data.length
  · have hne : ¬ c.remaining = 0 := by
      unfold Cursor.remaining
      omega
    rw [if_neg hne, Cursor.unread, List.drop_eq_getElem_cons hlt]
    simp only [getU8, index_eq hlt]
  · have hzero : c.remaining = 0 := by
      unfold Cursor.remaining
      omega
    rw [if_pos hzero, Cursor.unread, List.drop_eq_nil_of_le (Nat.le_of_not_lt hlt)]

theorem nextByte_resumable : Resumable (· = incomplete) 1 nextByte where
  moved {c byte c'} hrange h := by
    rw [nextByte_eq] at h
    split at h
    · exact absurd h (by simp)
    · rename_i b rest hunread
      cases h
      constructor
      case data => rfl
      case pos => exact Nat.le_refl _
      case inRange =>
        have hlen := c.length_unread
        rw [hunread, List.length_cons, Cursor.remaining] at hlen
        show c.pos + 1 ≤ c.data.length
        omega
  ok_extend {c byte c'} ext hrange h := by
    rw [nextByte_eq] at h
    rw [nextByte_eq, Cursor.unread_extend hrange]
    cases hunread : c.unread with
    | nil => exact absurd h (by simp [hunread])
    | cons b rest =>
        rw [hunread] at h
        cases h
        rfl
  error_extend {c e} ext hrange h hmore := by
    rw [nextByte_eq] at h
    cases hunread : c.unread with
    | nil =>
        rw [hunread] at h
        exact absurd (Except.error.inj h).symm hmore
    | cons b rest => exact absurd h (by simp [hunread])

theorem readBody_eq {len : Nat} (hadd : addUsize len 2 = .ok (len + 2)) (c : Cursor UInt8) :
    readBody len c =
      if c.remaining < len + 2 then .error incomplete
      else .ok (c.unread.take len, { c with pos := c.pos + (len + 2) }) := by
  simp only [readBody, hadd]
  by_cases hshort : c.remaining < len + 2
  · rw [if_pos hshort, if_pos hshort]
  · have hlong : len + 2 ≤ c.remaining := Nat.le_of_not_lt hshort
    have hrange : c.pos ≤ c.pos + len ∧ c.pos + len ≤ c.data.length := by
      unfold Cursor.remaining at hlong
      omega
    have hslice : sliceRange c.data c.pos (c.pos + len) = .ok (c.unread.take len) := by
      rw [sliceRange, if_pos hrange, Nat.add_sub_cancel_left]
      rfl
    rw [if_neg hshort, if_neg hshort, hslice]
    simp only [advance, hlong, if_true]

theorem readBody_resumable (len : Nat) : Resumable (· = incomplete) 0 (readBody len) := by
  cases hadd : addUsize len 2 with
  | error e =>
      have hthrow : readBody len = throw e := by
        funext c
        simp only [readBody, hadd, Decoder.throw_apply]
      rw [hthrow]
      exact .throw 0 e
  | ok needed =>
      rw [addUsize_eq_ok hadd] at hadd
      constructor
      case moved =>
        intro c body c' hrange h
        rw [readBody_eq hadd] at h
        split at h
        · exact absurd h (by simp)
        · rename_i hshort
          cases h
          constructor
          case data => rfl
          case pos => exact Nat.le_add_right _ _
          case inRange =>
            show c.pos + (len + 2) ≤ c.data.length
            unfold Cursor.remaining at hshort
            unfold Cursor.InRange at hrange
            omega
      case ok_extend =>
        intro c body c' ext hrange h
        rw [readBody_eq hadd] at h ⊢
        split at h
        · exact absurd h (by simp)
        · rename_i hshort
          cases h
          have hlong : ¬ (c.extend ext).remaining < len + 2 := by
            simp only [Cursor.remaining, Cursor.extend, List.length_append] at hshort ⊢
            omega
          have hle : len ≤ c.unread.length := by
            rw [c.length_unread]
            omega
          rw [if_neg hlong, Cursor.unread_extend hrange, List.take_append_of_le_length hle]
          rfl
      case error_extend =>
        intro c e ext hrange h hmore
        rw [readBody_eq hadd] at h
        split at h
        · exact absurd (Except.error.inj h).symm hmore
        · exact absurd h (by simp)

/-! ## Frames -/

theorem readI64_resumable (what : String) : Resumable (· = incomplete) 2 (readI64 what) := by
  apply readLine_resumable.andThen
  intro line
  split
  · exact .pure _
  · exact .throw 0 _

theorem readCounted_resumable (what : String) {body : Nat → CursorM Frame}
    (h : ∀ len, Resumable (· = incomplete) 0 (body len)) :
    Resumable (· = incomplete) 2 (readCounted what body) := by
  apply (readI64_resumable what).andThen
  intro len
  split
  · exact .pure _
  · split
    · exact .throw 0 _
    · exact h _

theorem decodeInline_resumable : Resumable (· = incomplete) 2 decodeInline := by
  apply readLine_resumable.andThen
  intro line
  dsimp only
  split
  · exact .throw 0 _
  · exact .pure _

theorem stepBack_eq (d : CursorM Frame) (c : Cursor UInt8) :
    (stepBack >>= fun _ => d) c =
      if 1 ≤ c.pos then d { c with pos := c.pos - 1 } else panicked := by
  rw [Decoder.bind_apply, stepBack, subUsize]
  by_cases hpos : 1 ≤ c.pos
  · rw [if_pos hpos, if_pos hpos]
  · rw [if_neg hpos, if_neg hpos]

theorem stepBack_extend (d : CursorM Frame) (c : Cursor UInt8) (ext : Bytes) :
    (stepBack >>= fun _ => d) (c.extend ext) =
      if 1 ≤ c.pos then d (Cursor.extend { c with pos := c.pos - 1 } ext) else panicked :=
  stepBack_eq d (c.extend ext)

theorem stepBack_inRange {c : Cursor UInt8} (h : c.InRange) :
    ({ c with pos := c.pos - 1 } : Cursor UInt8).InRange :=
  Nat.le_trans (Nat.sub_le _ _) h

/-- A decoder that moves the cursor on can start one byte earlier. -/
theorem stepBack_resumable {d : CursorM Frame} (hd : Resumable (· = incomplete) 2 d) :
    Resumable (· = incomplete) 0 (stepBack >>= fun _ => d) where
  moved {c frame c'} hrange h := by
    have hback := stepBack_inRange hrange
    rw [stepBack_eq] at h
    split at h
    · have hmoved := hd.moved hback h
      constructor
      case data => exact hmoved.data
      case pos =>
        have hpos := hmoved.pos
        simp only at hpos
        omega
      case inRange => exact hmoved.inRange
    · exact absurd h (by simp)
  ok_extend {c frame c'} ext hrange h := by
    rw [stepBack_eq] at h
    rw [stepBack_extend]
    split at h
    · rename_i hpos
      rw [if_pos hpos]
      exact hd.ok_extend ext (stepBack_inRange hrange) h
    · exact absurd h (by simp)
  error_extend {c e} ext hrange h hmore := by
    rw [stepBack_eq] at h
    rw [stepBack_extend]
    split at h
    · rename_i hpos
      rw [if_pos hpos]
      exact hd.error_extend ext (stepBack_inRange hrange) h hmore
    · rename_i hpos
      rw [if_neg hpos]
      exact h

theorem decodeBranch_resumable (reserve : Nat → Bool) {element : CursorM Frame}
    (h : Resumable (· = incomplete) 0 element) (byte : UInt8) :
    Resumable (· = incomplete) 0 (decodeBranch reserve element byte) := by
  unfold decodeBranch
  split
  · exact (readLine_resumable.map _).mono (Nat.zero_le _)
  · split
    · exact (readLine_resumable.map _).mono (Nat.zero_le _)
    · split
      · exact ((readI64_resumable _).map _).mono (Nat.zero_le _)
      · split
        · exact (readCounted_resumable _ fun len => (readBody_resumable len).map _).mono
            (Nat.zero_le _)
        · split
          · refine (readCounted_resumable _ fun count => ?_).mono (Nat.zero_le _)
            split
            · exact (h.times count).map _
            · exact .throw 0 _
          · exact stepBack_resumable decodeInline_resumable

theorem decodeFrame_resumable (reserve : Nat → Bool) (depth : Nat) :
    Resumable (· = incomplete) 1 (decodeFrame reserve depth) := by
  induction depth with
  | zero => exact .throw 1 _
  | succ depth ih =>
      exact nextByte_resumable.andThen fun byte =>
        decodeBranch_resumable reserve (ih.mono (Nat.zero_le _)) byte

/-! ## The depth -/

theorem readCounted_agree (what : String) {n : Nat} {body body' : Nat → CursorM Frame}
    (h : ∀ len, AgreeBelow n (body len) (body' len)) :
    AgreeBelow n (readCounted what body) (readCounted what body') := by
  apply (AgreeBelow.refl n (readI64 what)).bind ((readI64_resumable what).mono (Nat.zero_le _))
  intro len
  split
  · exact .refl _ _
  · split
    · exact .refl _ _
    · exact h _

theorem decodeBranch_agree (reserve : Nat → Bool) {n : Nat} {element element' : CursorM Frame}
    (hagree : AgreeBelow n element element') (h : Resumable (· = incomplete) 0 element)
    (byte : UInt8) :
    AgreeBelow n (decodeBranch reserve element byte) (decodeBranch reserve element' byte) := by
  unfold decodeBranch
  split
  · exact .refl n _
  · split
    · exact .refl n _
    · split
      · exact .refl n _
      · split
        · exact .refl n _
        · split
          · apply readCounted_agree
            intro count
            split
            · exact (hagree.times h count).map _
            · exact .refl n _
          · exact .refl n _

/-- Beyond the number of unread bytes the depth does not matter. -/
theorem decodeFrame_agree (reserve : Nat → Bool) (depth extra : Nat) :
    AgreeBelow depth (decodeFrame reserve depth) (decodeFrame reserve (depth + extra)) := by
  induction depth with
  | zero => exact fun c _ hc => absurd hc (Nat.not_lt_zero _)
  | succ depth ih =>
      rw [Nat.add_right_comm]
      exact (AgreeBelow.refl _ nextByte).bind nextByte_resumable fun byte =>
        decodeBranch_agree reserve ih ((decodeFrame_resumable reserve depth).mono (Nat.zero_le _))
          byte

/-! ## `parse_frame` -/

/-- `decode_frame` at the front of a buffer, at a depth beyond its length. -/
def frontFrame (reserve : Nat → Bool) (buf : Bytes) : Except Fault (Frame × Bytes) :=
  (decodeFrame reserve (buf.length + 1)).parse buf

theorem frontFrame_eq (reserve : Nat → Bool) (buf : Bytes) (extra : Nat) :
    frontFrame reserve buf = (decodeFrame reserve (buf.length + 1 + extra)).parse buf := by
  have hagree := decodeFrame_agree reserve (buf.length + 1) extra ⟨buf, 0⟩ (Nat.zero_le _)
    (Nat.lt_succ_self _)
  rw [frontFrame, Decoder.parse, Decoder.parse, hagree]

theorem frontFrame_stable (reserve : Nat → Bool) :
    Stable (· = incomplete) (frontFrame reserve) := by
  have hlong : ∀ buf ext : Bytes, frontFrame reserve (buf ++ ext) =
      (decodeFrame reserve (buf.length + 1 + ext.length)).parse (buf ++ ext) := by
    intro buf ext
    rw [frontFrame, List.length_append, Nat.add_right_comm]
  constructor
  case shorter =>
    intro buf frame rest h
    exact (decodeFrame_resumable reserve _).stable.shorter h
  case ok_append =>
    intro buf frame rest ext h
    rw [frontFrame_eq reserve buf ext.length] at h
    rw [hlong]
    exact (decodeFrame_resumable reserve _).stable.ok_append ext h
  case error_append =>
    intro buf e ext h hmore
    rw [frontFrame_eq reserve buf ext.length] at h
    rw [hlong]
    exact (decodeFrame_resumable reserve _).stable.error_append ext h hmore

/-- On an empty buffer the decoder itself would miss a byte. -/
theorem parseFrame_eq (reserve : Nat → Bool) (buf : Bytes) :
    parseFrame reserve buf =
      match frontFrame reserve buf with
      | .ok (frame, rest) => (.ok (some frame), rest)
      | .error e => if e = incomplete then (.ok none, buf) else (.error e, buf) := by
  cases buf with
  | nil => rfl
  | cons byte buf =>
      rw [parseFrame, if_neg (by simp), frontFrame, Decoder.parse]
      cases hdecode : decodeFrame reserve ((byte :: buf).length + 1) ⟨byte :: buf, 0⟩ with
      | ok p =>
          obtain ⟨frame, c⟩ := p
          have hdata := ((decodeFrame_resumable reserve _).moved (Nat.zero_le _) hdecode).data
          simp only [Cursor.unread, hdata]
      | error e => rfl

end MiniRudis
