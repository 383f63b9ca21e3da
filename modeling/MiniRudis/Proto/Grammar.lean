import MiniRudis.Proto.Panics
import MiniRudis.Proto.Splitting

/-!
# The grammar of RESP

`decode_frame` takes the two bytes behind the payload of a bulk string for CR LF without
looking at them, and takes a typed command for an element of an array.  It accepts RESP where
it does neither.
-/

namespace MiniRudis

open Lib

/-! ## The grammar -/

inductive LineFrame : UInt8 → String → Frame → Prop
  | simple (line : String) : LineFrame 43 line (.simple line)
  | error (line : String) : LineFrame 45 line (.error line)
  | integer {line : String} {n : Int} (h : parseI64 line = some n) : LineFrame 58 line (.integer n)
  | nullBulk {line : String} (h : parseI64 line = some (-1)) : LineFrame 36 line .null
  | nullArray {line : String} (h : parseI64 line = some (-1)) : LineFrame 42 line .null

/-- The bytes of some frames, one after the other.  A line is a text up to the first CR LF. -/
inductive Derives : Bytes → List Frame → Prop
  | nil : Derives [] []
  | line {marker : UInt8} {line : String} {f : Frame} {b : Bytes} {fs : List Frame}
      (hline : ¬ BreaksLine line) (hf : LineFrame marker line f) (hrest : Derives b fs) :
      Derives (Frame.encodeLine marker line ++ b) (f :: fs)
  | bulk {line : String} {data b : Bytes} {fs : List Frame} (hline : ¬ BreaksLine line)
      (hlen : parseI64 line = some (data.length : Int)) (hrest : Derives b fs) :
      Derives (Frame.encodeLine 36 line ++ (data ++ crlf ++ b)) (.bulk data :: fs)
  | array {line : String} {elements b : Bytes} {frames fs : List Frame}
      (hline : ¬ BreaksLine line) (hlen : parseI64 line = some (frames.length : Int))
      (helements : Derives elements frames) (hrest : Derives b fs) :
      Derives (Frame.encodeLine 42 line ++ (elements ++ b)) (.array frames :: fs)

def markers : List UInt8 := [43, 45, 58, 36, 42]

/-- A command typed as a plain line. -/
structure Typed (line : String) : Prop where
  unbroken : ¬ BreaksLine line
  unmarked : ∀ m ∈ markers, (asBytes line).head? ≠ some m
  nonempty : splitAsciiWhitespace (asBytes line) ≠ []

/-- The bytes of frames in which some slips may pass: a payload that other bytes than CR LF
follow, or a typed command.  The index tells whether there is one; the vectors of the arrays
can be reserved. -/
inductive Passes (reserve : Nat → Bool) : Bool → Bytes → List Frame → Prop
  | nil : Passes reserve false [] []
  | line {marker : UInt8} {line : String} {f : Frame} {slip : Bool} {b : Bytes} {fs : List Frame}
      (hline : ¬ BreaksLine line) (hf : LineFrame marker line f) (hrest : Passes reserve slip b fs) :
      Passes reserve slip (Frame.encodeLine marker line ++ b) (f :: fs)
  | bulk {line : String} {data ending : Bytes} {slip : Bool} {b : Bytes} {fs : List Frame}
      (hline : ¬ BreaksLine line) (hlen : parseI64 line = some (data.length : Int))
      (hending : ending.length = 2) (hrest : Passes reserve slip b fs) :
      Passes reserve (decide (ending ≠ crlf) || slip)
        (Frame.encodeLine 36 line ++ (data ++ ending ++ b)) (.bulk data :: fs)
  | typed {line : String} {slip : Bool} {b : Bytes} {fs : List Frame} (htyped : Typed line)
      (hrest : Passes reserve slip b fs) :
      Passes reserve true (asBytes line ++ crlf ++ b)
        (.array ((splitAsciiWhitespace (asBytes line)).map .bulk) :: fs)
  | array {line : String} {inner slip : Bool} {elements b : Bytes} {frames fs : List Frame}
      (hline : ¬ BreaksLine line) (hlen : parseI64 line = some (frames.length : Int))
      (hreserve : reserve frames.length = true) (helements : Passes reserve inner elements frames)
      (hrest : Passes reserve slip b fs) :
      Passes reserve (inner || slip) (Frame.encodeLine 42 line ++ (elements ++ b))
        (.array frames :: fs)

/-! ## Slips -/

variable {reserve : Nat → Bool} {slip : Bool} {b b' : Bytes} {fs fs' : List Frame}

theorem encodeLine_append (m : UInt8) (line : String) (b : Bytes) :
    Frame.encodeLine m line ++ b = m :: (asBytes line ++ crlf ++ b) := rfl

theorem encodeLine_append_inj {m m' : UInt8} {line line' : String} (hline : ¬ BreaksLine line)
    (hline' : ¬ BreaksLine line')
    (h : Frame.encodeLine m line ++ b = Frame.encodeLine m' line' ++ b') :
    m = m' ∧ line = line' ∧ b = b' := by
  rw [encodeLine_append, encodeLine_append] at h
  obtain ⟨rfl, htail⟩ := List.cons.inj h
  have hlen : (asBytes line).length = (asBytes line').length := by
    have hfirst := crlfAt_line hline b
    rw [htail, crlfAt_line hline' b'] at hfirst
    exact (Option.some.inj hfirst).symm
  rw [List.append_assoc, List.append_assoc] at htail
  obtain ⟨htext, hrest⟩ := List.append_inj htail hlen
  have hsame : line = line' := by
    have hdecoded := congrArg fromUtf8 htext
    rwa [fromUtf8_asBytes, fromUtf8_asBytes, Option.some.injEq] at hdecoded
  exact ⟨rfl, hsame, List.append_cancel_left hrest⟩

theorem Passes.derives (h : Passes reserve slip b fs) (hslip : slip = false) : Derives b fs := by
  induction h with
  | nil => exact .nil
  | line hline hf _ ih => exact .line hline hf (ih hslip)
  | bulk hline hlen _ _ ih =>
      rw [Bool.or_eq_false_iff, decide_eq_false_iff_not, not_not] at hslip
      rw [hslip.1]
      exact .bulk hline hlen (ih hslip.2)
  | typed => exact absurd hslip (by decide)
  | array hline hlen _ _ _ ihelements ih =>
      rw [Bool.or_eq_false_iff] at hslip
      exact .array hline hlen (ihelements hslip.1) (ih hslip.2)

theorem Typed.head {line : String} (h : Typed line) :
    ∃ byte tail, asBytes line = byte :: tail ∧ byte ∉ markers := by
  cases hbytes : asBytes line with
  | nil =>
      have hwords := h.nonempty
      rw [hbytes] at hwords
      exact absurd (by decide) hwords
  | cons byte tail =>
      refine ⟨byte, tail, rfl, fun hmem => h.unmarked byte hmem ?_⟩
      rw [hbytes, List.head?_cons]

/-! What RESP derives, by the first of the frames. -/

theorem Derives.of_nil (h : Derives b []) : b = [] := by
  cases h
  rfl

theorem Derives.of_line {m : UInt8} {line : String} {f : Frame} (hf : LineFrame m line f)
    (h : Derives b (f :: fs)) :
    ∃ m' line' b', ¬ BreaksLine line' ∧ LineFrame m' line' f ∧ Derives b' fs ∧
      b = Frame.encodeLine m' line' ++ b' := by
  cases h with
  | line hline hf' hrest => exact ⟨_, _, _, hline, hf', hrest, rfl⟩
  | bulk hline hlen hrest => cases hf
  | array hline hlen helements hrest => cases hf

theorem Derives.of_bulk {data : Bytes} (h : Derives b (.bulk data :: fs)) :
    ∃ line b', ¬ BreaksLine line ∧ Derives b' fs ∧
      b = Frame.encodeLine 36 line ++ (data ++ crlf ++ b') := by
  cases h with
  | line hline hf hrest => cases hf
  | bulk hline hlen hrest => exact ⟨_, _, hline, hrest, rfl⟩

theorem Derives.of_array {frames : List Frame} (h : Derives b (.array frames :: fs)) :
    ∃ line elements b', ¬ BreaksLine line ∧ Derives elements frames ∧ Derives b' fs ∧
      b = Frame.encodeLine 42 line ++ (elements ++ b') := by
  cases h with
  | line hline hf hrest => cases hf
  | array hline hlen helements hrest => exact ⟨_, _, _, hline, helements, hrest, rfl⟩

theorem Passes.unslipped (h : Passes reserve slip b fs) {r r' : Bytes} (hd : Derives b' fs)
    (heq : b ++ r = b' ++ r') : b = b' ∧ slip = false := by
  induction h generalizing b' r r' with
  | nil => exact ⟨hd.of_nil.symm, rfl⟩
  | line hline hf _ ih =>
      obtain ⟨m, line, rest, hline', hf', hrest, rfl⟩ := hd.of_line hf
      rw [List.append_assoc, List.append_assoc] at heq
      obtain ⟨rfl, rfl, htail⟩ := encodeLine_append_inj hline hline' heq
      obtain ⟨rfl, hslip⟩ := ih hrest htail
      exact ⟨rfl, hslip⟩
  | bulk hline _ hending _ ih =>
      obtain ⟨line, rest, hline', hrest, rfl⟩ := hd.of_bulk
      simp only [List.append_assoc] at heq
      obtain ⟨-, rfl, htail⟩ := encodeLine_append_inj hline hline' heq
      obtain ⟨rfl, hbehind⟩ := List.append_inj (List.append_cancel_left htail) hending
      obtain ⟨rfl, hslip⟩ := ih hrest hbehind
      rw [hslip]
      exact ⟨rfl, rfl⟩
  | typed htyped _ _ =>
      obtain ⟨line, elements, rest, -, -, -, rfl⟩ := hd.of_array
      obtain ⟨byte, tail, hbytes, hbyte⟩ := htyped.head
      rw [hbytes] at heq
      exact absurd (List.cons.inj heq).1 fun hfirst => hbyte (by rw [hfirst]; decide)
  | array hline _ _ _ _ ihelements ih =>
      obtain ⟨line, elements, rest, hline', helements, hrest, rfl⟩ := hd.of_array
      simp only [List.append_assoc] at heq
      obtain ⟨-, rfl, htail⟩ := encodeLine_append_inj hline hline' heq
      obtain ⟨rfl, hinner⟩ := ihelements helements htail
      obtain ⟨rfl, hslip⟩ := ih hrest (List.append_cancel_left htail)
      rw [hinner, hslip]
      exact ⟨rfl, rfl⟩

/-! ## What the decoder reads -/

theorem length_le_isizeMax {line : String} {n : Nat} (h : parseI64 line = some (n : Int)) :
    n ≤ isizeMax := by
  have hmax := (parseI64_inI64 h).2
  unfold i64Max at hmax
  unfold isizeMax
  omega

theorem LineFrame.reads {m : UInt8} {line : String} {f : Frame} (hf : LineFrame m line f)
    (hline : ¬ BreaksLine line) (depth : Nat) :
    Reads (decodeFrame reserve (depth + 1)) (Frame.encodeLine m line) f := by
  apply decodeFrame_reads_byte
  cases hf with
  | simple => exact (readLine_reads hline).map Frame.simple
  | error => exact (readLine_reads hline).map Frame.error
  | integer h => exact (readI64_reads_line "integer" hline h).map Frame.integer
  | nullBulk h =>
      exact readCounted_null_line "bulk length" (fun len => Frame.bulk <$> readBody len) hline h
  | nullArray h =>
      exact readCounted_null_line "array length"
        (fun count =>
          if reserve count then Frame.array <$> (decodeFrame reserve depth).times count
          else throw .panicked) hline h

theorem bulk_reads {line : String} {data ending : Bytes} (hline : ¬ BreaksLine line)
    (hlen : parseI64 line = some (data.length : Int)) (hending : ending.length = 2) (depth : Nat) :
    Reads (decodeFrame reserve (depth + 1)) (Frame.encodeLine 36 line ++ (data ++ ending))
      (.bulk data) := by
  have hbody : Reads (readCounted "bulk length" fun len => Frame.bulk <$> readBody len)
      (asBytes line ++ crlf ++ (data ++ ending)) (.bulk data) :=
    readCounted_reads_line "bulk length" hline hlen
      ((readBody_reads (length_le_isizeMax hlen) hending).map Frame.bulk)
  exact decodeFrame_reads_byte hbody

theorem array_reads {line : String} {frames : List Frame} {elements : Bytes} {depth : Nat}
    (hline : ¬ BreaksLine line) (hlen : parseI64 line = some (frames.length : Int))
    (hreserve : reserve frames.length = true)
    (helements : Reads ((decodeFrame reserve depth).times frames.length) elements frames) :
    Reads (decodeFrame reserve (depth + 1)) (Frame.encodeLine 42 line ++ elements)
      (.array frames) := by
  have hbody : Reads (readCounted "array length" fun count =>
      if reserve count then Frame.array <$> (decodeFrame reserve depth).times count
      else throw .panicked) (asBytes line ++ crlf ++ elements) (.array frames) := by
    apply readCounted_reads_line "array length" hline hlen
    rw [if_pos hreserve]
    exact helements.map Frame.array
  exact decodeFrame_reads_byte hbody

theorem decodeBranch_typed {byte : UInt8} (hbyte : byte ∉ markers) (element : CursorM Frame) :
    decodeBranch reserve element byte = stepBack >>= fun _ => decodeInline := by
  simp only [markers, List.mem_cons, List.not_mem_nil, or_false, not_or] at hbyte
  rcases hbyte with ⟨hplus, hminus, hcolon, hdollar, hstar⟩
  rw [decodeBranch, if_neg hplus, if_neg hminus, if_neg hcolon, if_neg hdollar, if_neg hstar]

/-- The first byte is put back. -/
theorem decodeFrame_typed {byte : UInt8} (hbyte : byte ∉ markers) {c : Cursor UInt8} {tail : Bytes}
    (hunread : c.unread = byte :: tail) (depth : Nat) :
    decodeFrame reserve (depth + 1) c = decodeInline c := by
  rw [decodeFrame, Decoder.bind_apply, nextByte_eq, hunread]
  dsimp only
  rw [decodeBranch_typed hbyte, stepBack_eq, if_pos (Nat.le_add_left 1 c.pos)]
  rfl

theorem Typed.reads {line : String} (h : Typed line) (depth : Nat) :
    Reads (decodeFrame reserve (depth + 1)) (asBytes line ++ crlf)
      (.array ((splitAsciiWhitespace (asBytes line)).map .bulk)) := by
  have hinline : Reads decodeInline (asBytes line ++ crlf)
      (.array ((splitAsciiWhitespace (asBytes line)).map .bulk)) := by
    apply (readLine_reads h.unbroken).andThen
    dsimp only
    rw [if_neg (by simpa using h.nonempty)]
    exact .pure _
  intro c rest hunread
  obtain ⟨byte, tail, hbytes, hbyte⟩ := h.head
  have hfirst : c.unread = byte :: (tail ++ crlf ++ rest) := by
    rw [hunread, hbytes]
    rfl
  rw [decodeFrame_typed hbyte hfirst]
  exact hinline c rest hunread

theorem encodeLine_length_pos (m : UInt8) (line : String) : 0 < (Frame.encodeLine m line).length :=
  Nat.succ_pos _

/-- Whatever may pass is read, an array one level deeper than its elements. -/
theorem Passes.reads (h : Passes reserve slip b fs) {depth : Nat} (hdepth : b.length ≤ depth) :
    Reads ((decodeFrame reserve depth).times fs.length) b fs := by
  induction h generalizing depth with
  | nil => exact .pure []
  | @line m line _ _ _ _ hline hf _ ih =>
      have hpos := encodeLine_length_pos m line
      rw [List.length_append] at hdepth
      obtain ⟨depth, rfl⟩ : ∃ d, depth = d + 1 := Nat.exists_eq_add_one.mpr (by omega)
      exact (hf.reads hline depth).times_cons (ih (by omega))
  | @bulk line data ending _ _ _ hline hlen hending _ ih =>
      have hpos := encodeLine_length_pos 36 line
      rw [List.length_append, List.length_append] at hdepth
      obtain ⟨depth, rfl⟩ : ∃ d, depth = d + 1 := Nat.exists_eq_add_one.mpr (by omega)
      rw [← List.append_assoc]
      exact (bulk_reads hline hlen hending depth).times_cons (ih (by omega))
  | @typed line _ _ _ htyped _ ih =>
      rw [List.length_append, List.length_append] at hdepth
      have hcrlf : crlf.length = 2 := rfl
      obtain ⟨depth, rfl⟩ : ∃ d, depth = d + 1 := Nat.exists_eq_add_one.mpr (by omega)
      exact (htyped.reads depth).times_cons (ih (by omega))
  | @array line _ _ _ _ _ _ hline hlen hreserve _ _ ihelements ih =>
      have hpos := encodeLine_length_pos 42 line
      rw [List.length_append, List.length_append] at hdepth
      obtain ⟨depth, rfl⟩ : ∃ d, depth = d + 1 := Nat.exists_eq_add_one.mpr (by omega)
      rw [← List.append_assoc]
      exact (array_reads hline hlen hreserve (ihelements (by omega))).times_cons (ih (by omega))

/-! ## What the decoder has read -/

section
variable {c c' : Cursor UInt8}

theorem readLine_unread {line : String} (h : readLine c = .ok (line, c')) :
    ¬ BreaksLine line ∧ c.unread = asBytes line ++ crlf ++ c'.unread := by
  rw [readLine_eq] at h
  cases hk : crlfAt c.unread with
  | none => exact absurd h (by simp [hk])
  | some k =>
      simp only [hk] at h
      cases htext : fromUtf8 (c.unread.take k) with
      | none => exact absurd h (by simp [htext])
      | some text =>
          rw [htext] at h
          cases h
          obtain ⟨hbreaks, hsplit⟩ := crlfAt_split hk
          have hbytes := asBytes_of_fromUtf8 htext
          have hrest : (⟨c.data, c.pos + (k + 2)⟩ : Cursor UInt8).unread = c.unread.drop (k + 2) := by
            unfold Cursor.unread
            rw [List.drop_drop]
          rw [BreaksLine, hbytes, hrest]
          exact ⟨hbreaks, hsplit⟩

theorem readI64_unread {what : String} {n : Int} (h : readI64 what c = .ok (n, c')) :
    ∃ line, ¬ BreaksLine line ∧ parseI64 line = some n ∧
      c.unread = asBytes line ++ crlf ++ c'.unread := by
  obtain ⟨line, c₁, hline, hparse⟩ := Decoder.bind_eq_ok.mp h
  obtain ⟨hbreaks, hunread⟩ := readLine_unread hline
  cases hn : parseI64 line with
  | none => exact absurd hparse (by simp [hn, Decoder.throw_apply])
  | some m =>
      simp only [hn, Decoder.pure_apply] at hparse
      cases hparse
      exact ⟨line, hbreaks, hn, hunread⟩

theorem readCounted_unread {what : String} {body : Nat → CursorM Frame} {f : Frame}
    (h : readCounted what body c = .ok (f, c')) :
    ∃ line c₁, ¬ BreaksLine line ∧ c.unread = asBytes line ++ crlf ++ c₁.unread ∧
      (parseI64 line = some (-1) ∧ f = .null ∧ c' = c₁ ∨
        ∃ n : Nat, parseI64 line = some (n : Int) ∧ body n c₁ = .ok (f, c')) := by
  obtain ⟨len, c₁, hlen, hbody⟩ := Decoder.bind_eq_ok.mp h
  obtain ⟨line, hbreaks, hparse, hunread⟩ := readI64_unread hlen
  refine ⟨line, c₁, hbreaks, hunread, ?_⟩
  by_cases hnull : len = -1
  · rw [if_pos hnull] at hbody
    cases hbody
    exact Or.inl ⟨by rw [hparse, hnull], rfl, rfl⟩
  · rw [if_neg hnull] at hbody
    by_cases hneg : len < 0
    · rw [if_pos hneg] at hbody
      exact absurd hbody (by simp [Decoder.throw_apply])
    · rw [if_neg hneg] at hbody
      have hnat : (len.toNat : Int) = len := Int.toNat_of_nonneg (Int.not_lt.mp hneg)
      exact Or.inr ⟨len.toNat, by rw [hnat, hparse], hbody⟩

theorem readBody_unread {len : Nat} {data : Bytes} (h : readBody len c = .ok (data, c')) :
    data.length = len ∧ ∃ ending, ending.length = 2 ∧ c.unread = data ++ ending ++ c'.unread := by
  cases hadd : addUsize len 2 with
  | error e => exact absurd h (by simp [readBody, hadd])
  | ok needed =>
      rw [addUsize_eq_ok hadd] at hadd
      rw [readBody_eq hadd] at h
      split at h
      · exact absurd h (by simp)
      · rename_i hlong
        cases h
        have hlen : len + 2 ≤ c.unread.length := by
          rw [c.length_unread]
          omega
        have hrest : (⟨c.data, c.pos + (len + 2)⟩ : Cursor UInt8).unread =
            (c.unread.drop len).drop 2 := by
          unfold Cursor.unread
          rw [List.drop_drop, List.drop_drop]
        refine ⟨List.length_take_of_le (by omega), (c.unread.drop len).take 2, ?_, ?_⟩
        · rw [List.length_take, List.length_drop]
          omega
        · rw [hrest, List.append_assoc, List.take_append_drop, List.take_append_drop]

theorem nextByte_unread {byte : UInt8} (h : nextByte c = .ok (byte, c')) :
    c.unread = byte :: c'.unread := by
  rw [nextByte_eq] at h
  cases hunread : c.unread with
  | nil => exact absurd h (by simp [hunread])
  | cons b rest =>
      rw [hunread] at h
      cases h
      have hskip : c.unread = [byte] ++ rest := hunread
      rw [← Cursor.unread_skip hskip]
      rfl

theorem decodeInline_unread {f : Frame} (h : decodeInline c = .ok (f, c')) :
    ∃ line, ¬ BreaksLine line ∧ splitAsciiWhitespace (asBytes line) ≠ [] ∧
      f = .array ((splitAsciiWhitespace (asBytes line)).map .bulk) ∧
      c.unread = asBytes line ++ crlf ++ c'.unread := by
  obtain ⟨line, c₁, hline, hparts⟩ := Decoder.bind_eq_ok.mp h
  obtain ⟨hbreaks, hunread⟩ := readLine_unread hline
  split at hparts
  · exact absurd hparts (by simp [Decoder.throw_apply])
  · rename_i hsome
    cases hparts
    exact ⟨line, hbreaks, by simpa using hsome, rfl, hunread⟩

end

theorem Passes.append {slip' : Bool} (h : Passes reserve slip b fs)
    (h' : Passes reserve slip' b' fs') : ∃ u, Passes reserve u (b ++ b') (fs ++ fs') := by
  induction h with
  | nil => exact ⟨slip', h'⟩
  | line hline hf _ ih =>
      obtain ⟨u, hu⟩ := ih
      rw [List.append_assoc]
      exact ⟨u, .line hline hf hu⟩
  | bulk hline hlen hending _ ih =>
      obtain ⟨u, hu⟩ := ih
      simp only [List.append_assoc]
      have hbulk := Passes.bulk hline hlen hending hu
      rw [List.append_assoc] at hbulk
      exact ⟨_, hbulk⟩
  | typed htyped _ ih =>
      obtain ⟨u, hu⟩ := ih
      rw [List.append_assoc]
      exact ⟨true, .typed htyped hu⟩
  | array hline hlen hreserve helements _ _ ih =>
      obtain ⟨u, hu⟩ := ih
      simp only [List.append_assoc]
      exact ⟨_, .array hline hlen hreserve helements hu⟩

def ReadsPassing (reserve : Nat → Bool) (d : CursorM Frame) : Prop :=
  ∀ c f c', d c = .ok (f, c') → ∃ slip b, c.unread = b ++ c'.unread ∧ Passes reserve slip b [f]

theorem ReadsPassing.times {d : CursorM Frame} (hd : ReadsPassing reserve d) {n : Nat}
    {c c' : Cursor UInt8} (h : d.times n c = .ok (fs, c')) :
    fs.length = n ∧ ∃ slip b, c.unread = b ++ c'.unread ∧ Passes reserve slip b fs := by
  induction n generalizing c fs with
  | zero =>
      cases h
      exact ⟨rfl, false, [], rfl, .nil⟩
  | succ n ih =>
      obtain ⟨f, c₁, hfirst, hrest⟩ := Decoder.bind_eq_ok.mp h
      obtain ⟨rest, c₂, htimes, hcons⟩ := Decoder.bind_eq_ok.mp hrest
      cases hcons
      obtain ⟨slip, b, hunread, hpasses⟩ := hd c f c₁ hfirst
      obtain ⟨hlen, slip', b', hunread', hpasses'⟩ := ih htimes
      obtain ⟨u, hu⟩ := hpasses.append hpasses'
      refine ⟨congrArg Nat.succ hlen, u, b ++ b', ?_, hu⟩
      rw [hunread, hunread', List.append_assoc]

theorem LineFrame.passes {m : UInt8} {line : String} {f : Frame} (hf : LineFrame m line f)
    (hline : ¬ BreaksLine line) : Passes reserve false (m :: (asBytes line ++ crlf)) [f] := by
  have hpasses : Passes reserve false (Frame.encodeLine m line ++ []) [f] := .line hline hf .nil
  rwa [List.append_nil] at hpasses

section
variable {c c' : Cursor UInt8} {f : Frame}

theorem bulk_passes
    (h : readCounted "bulk length" (fun len => Frame.bulk <$> readBody len) c = .ok (f, c')) :
    ∃ slip b, c.unread = b ++ c'.unread ∧ Passes reserve slip (36 :: b) [f] := by
  obtain ⟨line, c₁, hbreaks, hunread, ⟨hparse, rfl, rfl⟩ | ⟨n, hparse, hbody⟩⟩ :=
    readCounted_unread h
  · exact ⟨false, _, hunread, (LineFrame.nullBulk hparse).passes hbreaks⟩
  · obtain ⟨data, hread, rfl⟩ := Decoder.map_eq_ok.mp hbody
    obtain ⟨rfl, ending, hending, hrest⟩ := readBody_unread hread
    have hpasses := Passes.bulk hbreaks hparse hending (.nil : Passes reserve false [] [])
    rw [List.append_nil] at hpasses
    refine ⟨_, asBytes line ++ crlf ++ (data ++ ending), ?_, hpasses⟩
    rw [hunread, hrest]
    simp only [List.append_assoc]

theorem array_passes {element : CursorM Frame} (helement : ReadsPassing reserve element)
    (h : readCounted "array length" (fun count =>
      if reserve count then Frame.array <$> element.times count else throw .panicked) c =
        .ok (f, c')) :
    ∃ slip b, c.unread = b ++ c'.unread ∧ Passes reserve slip (42 :: b) [f] := by
  obtain ⟨line, c₁, hbreaks, hunread, ⟨hparse, rfl, rfl⟩ | ⟨n, hparse, hbody⟩⟩ :=
    readCounted_unread h
  · exact ⟨false, _, hunread, (LineFrame.nullArray hparse).passes hbreaks⟩
  · split at hbody
    · rename_i hreserve
      obtain ⟨frames, htimes, rfl⟩ := Decoder.map_eq_ok.mp hbody
      obtain ⟨rfl, slip, elements, hrest, hpasses⟩ := helement.times htimes
      have harray := Passes.array hbreaks hparse hreserve hpasses (.nil : Passes reserve false [] [])
      rw [List.append_nil] at harray
      refine ⟨_, asBytes line ++ crlf ++ elements, ?_, harray⟩
      rw [hunread, hrest]
      simp only [List.append_assoc]
    · exact absurd hbody (by simp [Decoder.throw_apply])

theorem decodeBranch_passes {element : CursorM Frame} (helement : ReadsPassing reserve element)
    {byte : UInt8} (hbyte : byte ∈ markers) (h : decodeBranch reserve element byte c = .ok (f, c')) :
    ∃ slip b, c.unread = b ++ c'.unread ∧ Passes reserve slip (byte :: b) [f] := by
  simp only [markers, List.mem_cons, List.not_mem_nil, or_false] at hbyte
  rcases hbyte with rfl | rfl | rfl | rfl | rfl
  · obtain ⟨line, hread, rfl⟩ := Decoder.map_eq_ok.mp h
    obtain ⟨hbreaks, hunread⟩ := readLine_unread hread
    exact ⟨false, _, hunread, (LineFrame.simple line).passes hbreaks⟩
  · obtain ⟨line, hread, rfl⟩ := Decoder.map_eq_ok.mp h
    obtain ⟨hbreaks, hunread⟩ := readLine_unread hread
    exact ⟨false, _, hunread, (LineFrame.error line).passes hbreaks⟩
  · obtain ⟨n, hread, rfl⟩ := Decoder.map_eq_ok.mp h
    obtain ⟨line, hbreaks, hparse, hunread⟩ := readI64_unread hread
    exact ⟨false, _, hunread, (LineFrame.integer hparse).passes hbreaks⟩
  · exact bulk_passes h
  · exact array_passes helement h

end

theorem decodeFrame_passes (reserve : Nat → Bool) (depth : Nat) :
    ReadsPassing reserve (decodeFrame reserve depth) := by
  induction depth with
  | zero => exact fun c f c' h => absurd h (by simp [decodeFrame, Decoder.throw_apply])
  | succ depth ih =>
      intro c f c' h
      obtain ⟨byte, c₁, hnext, hbranch⟩ := Decoder.bind_eq_ok.mp h
      have hunread := nextByte_unread hnext
      by_cases hbyte : byte ∈ markers
      · obtain ⟨slip, b, hrest, hpasses⟩ := decodeBranch_passes ih hbyte hbranch
        exact ⟨slip, byte :: b, by rw [hunread, hrest]; rfl, hpasses⟩
      · rw [decodeFrame_typed hbyte hunread] at h
        obtain ⟨line, hbreaks, hwords, rfl, hline⟩ := decodeInline_unread h
        have htyped : Typed line := by
          refine ⟨hbreaks, fun m hm hfirst => hbyte ?_, hwords⟩
          obtain ⟨tail, hbytes⟩ := List.head?_eq_some_iff.mp hfirst
          rw [hbytes, hunread] at hline
          rwa [(List.cons.inj hline).1]
        have hpasses := Passes.typed htyped (.nil : Passes reserve false [] [])
        rw [List.append_nil] at hpasses
        exact ⟨true, asBytes line ++ crlf, hline, hpasses⟩

/-! ## `parse_frame` -/

theorem frontFrame_passes {buf rest : Bytes} {f : Frame}
    (h : frontFrame reserve buf = .ok (f, rest)) :
    ∃ slip b, buf = b ++ rest ∧ Passes reserve slip b [f] := by
  rw [frontFrame, Decoder.parse] at h
  split at h
  · rename_i g c hdecode
    cases h
    exact decodeFrame_passes reserve _ ⟨buf, 0⟩ f c hdecode
  · exact absurd h (by simp)

theorem Passes.frontFrame {f : Frame} (h : Passes reserve slip b [f]) (rest : Bytes) :
    frontFrame reserve (b ++ rest) = .ok (f, rest) := by
  have hdepth : b.length ≤ (b ++ rest).length + 1 := by
    rw [List.length_append]
    omega
  have hunread : (⟨b ++ rest, 0⟩ : Cursor UInt8).unread = b ++ rest := rfl
  obtain ⟨f', c₁, hfirst, hnone⟩ :=
    Decoder.bind_eq_ok.mp (h.reads hdepth ⟨b ++ rest, 0⟩ rest hunread)
  cases hnone
  rw [MiniRudis.frontFrame, Decoder.parse, hfirst]
  exact congrArg (fun b => Except.ok (f, b)) (Cursor.unread_skip hunread)

theorem parseFrame_iff {buf rest : Bytes} {f : Frame} :
    parseFrame reserve buf = (.ok (some f), rest) ↔
      ∃ slip b, buf = b ++ rest ∧ Passes reserve slip b [f] := by
  constructor
  · intro h
    apply frontFrame_passes
    rw [parseFrame_eq] at h
    cases hfront : frontFrame reserve buf with
    | ok p =>
        rw [hfront] at h
        cases h
        rfl
    | error e =>
        rw [hfront] at h
        dsimp only at h
        split at h
        · exact absurd h (by simp)
        · exact absurd h (by simp)
  · rintro ⟨slip, b, rfl, h⟩
    rw [parseFrame_eq, h.frontFrame rest]

/-- If `parse_frame` returns a frame, RESP derives it from the bytes that were taken. -/
def AcceptsResp (reserve : Nat → Bool) (buf : Bytes) : Prop :=
  ∀ f rest, parseFrame reserve buf = (.ok (some f), rest) → ∃ b, buf = b ++ rest ∧ Derives b [f]

theorem Passes.not_acceptsResp {f : Frame} (h : Passes reserve true b [f]) (rest : Bytes) :
    ¬ AcceptsResp reserve (b ++ rest) := by
  intro haccepts
  obtain ⟨b', heq, hderives⟩ := haccepts f rest (parseFrame_iff.mpr ⟨true, b, rfl, h⟩)
  exact absurd (h.unslipped hderives heq).2 (by decide)

/-- **Only RESP is accepted** where the buffer does not begin with a frame in which there is
a slip. -/
theorem acceptsResp_iff (reserve : Nat → Bool) (buf : Bytes) :
    AcceptsResp reserve buf ↔ ¬ ∃ b rest f, buf = b ++ rest ∧ Passes reserve true b [f] := by
  constructor
  · rintro haccepts ⟨b, rest, f, rfl, hpasses⟩
    exact hpasses.not_acceptsResp rest haccepts
  · intro hnone f rest h
    obtain ⟨slip, b, hbuf, hpasses⟩ := parseFrame_iff.mp h
    have hslip : slip = false := by
      rw [← Bool.not_eq_true]
      rintro rfl
      exact hnone ⟨b, rest, f, hbuf, hpasses⟩
    exact ⟨b, hbuf, hpasses.derives hslip⟩

/-- The payload `a` and then `XY`. -/
theorem not_acceptsResp_unterminated :
    ¬ ∀ (reserve : Nat → Bool) (buf : Bytes), (∃ m ∈ markers, buf.head? = some m) →
      AcceptsResp reserve buf := by
  intro hclaim
  have hline : ¬ BreaksLine "1" := by decide
  have hlen : parseI64 "1" = some (([97] : Bytes).length : Int) := by decide
  have hending : ([88, 89] : Bytes).length = 2 := rfl
  have hpasses : Passes (fun _ => true) true [36, 49, 13, 10, 97, 88, 89] [.bulk [97]] :=
    .bulk hline hlen hending .nil
  exact hpasses.not_acceptsResp [] (hclaim _ _ ⟨36, by decide, rfl⟩)

end MiniRudis
