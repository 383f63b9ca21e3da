import MiniRudis.Proto.Resume
import MiniRudis.Proto.Lines
import MiniRudis.Lib.Reads

/-!
# The round trip of frames

What `serialize` writes `parse_frame` reads back, and it stops right behind it.
-/

namespace MiniRudis

open Lib

/-! ## Lines -/

theorem crlfAt_line {line : Bytes} (h : ¬ crlf <:+: line) (rest : Bytes) :
    crlfAt (line ++ crlf ++ rest) = some line.length := by
  induction line with
  | nil => rfl
  | cons x line ih =>
      have hrest : ¬ crlf <:+: line := fun hwithin =>
        h (hwithin.trans (List.suffix_cons x line).isInfix)
      have hno : ¬ (x = 13 ∧ (line ++ crlf ++ rest).head? = some 10) := by
        rintro ⟨rfl, hhead⟩
        cases line with
        | nil => exact absurd hhead (by simp [crlf])
        | cons y line =>
            obtain rfl : y = 10 := by simpa using hhead
            exact h ⟨[], line, rfl⟩
      rw [List.cons_append, List.cons_append, crlfAt, if_neg hno, ih hrest]
      rfl

theorem readLine_reads {s : String} (h : ¬ crlf <:+: asBytes s) :
    Reads readLine (asBytes s ++ crlf) s := by
  intro c rest hunread
  have hlen : (asBytes s ++ crlf).length = (asBytes s).length + 2 := List.length_append
  rw [readLine_eq, hunread, crlfAt_line h, hlen]
  simp only [List.append_assoc, List.take_left, fromUtf8_asBytes]

theorem mem_decimal {n : Int} {c : Char} (h : c ∈ (decimal n).toList) :
    c = '-' ∨ c.isDigit = true := by
  have hdigits : ∀ m : Nat, c ∈ Nat.toDigits 10 m → c.isDigit = true := fun m hc =>
    List.all_eq_true.mp (all_isDigit_toDigits m) c hc
  cases n with
  | ofNat m =>
      rw [Int.ofNat_eq_natCast, decimal_toList_of_nonneg] at h
      exact Or.inr (hdigits m h)
  | negSucc m =>
      rw [decimal_toList_of_neg, List.mem_cons] at h
      exact h.imp_right (hdigits (m + 1))

theorem plain_decimal (n : Int) : Plain (decimal n) := by
  intro hcr
  obtain h | h := mem_decimal hcr
  · exact absurd h (by decide)
  · exact absurd h (by decide)

/-! ## Frames -/

theorem readI64_reads_line (what : String) {line : String} {n : Int}
    (hline : ¬ crlf <:+: asBytes line) (hn : parseI64 line = some n) :
    Reads (readI64 what) (asBytes line ++ crlf) n := by
  apply (readLine_reads hline).andThen
  rw [hn]
  exact .pure n

theorem readI64_reads (what : String) {n : Int} (h : InI64 n) :
    Reads (readI64 what) (asBytes (decimal n) ++ crlf) n :=
  readI64_reads_line what (plain_decimal n).lineSafe (parseI64_decimal h)

theorem nextByte_reads (byte : UInt8) : Reads nextByte [byte] byte := by
  intro c rest h
  rw [nextByte_eq, h]
  rfl

theorem inI64_length {n : Nat} (h : n ≤ isizeMax) : InI64 n := by
  unfold isizeMax at h
  unfold InI64 i64Min i64Max
  omega

/-- The two bytes behind the payload are not looked at. -/
theorem readBody_reads {data ending : Bytes} (h : data.length ≤ isizeMax)
    (hending : ending.length = 2) : Reads (readBody data.length) (data ++ ending) data := by
  intro c rest hunread
  have hadd : addUsize data.length 2 = .ok (data.length + 2) := by
    apply addUsize_ok
    unfold isizeMax at h
    omega
  have hremaining : ¬ c.remaining < data.length + 2 := by
    rw [← c.length_unread, hunread, List.length_append, List.length_append]
    omega
  have hlen : (data ++ ending).length = data.length + 2 := by
    rw [List.length_append, hending]
  rw [readBody_eq hadd, if_neg hremaining, hunread, List.append_assoc, List.take_left, hlen]

theorem readCounted_reads_line (what : String) {body : Nat → CursorM Frame} {line : String} {n : Nat}
    {b : Bytes} {f : Frame} (hline : ¬ crlf <:+: asBytes line) (hn : parseI64 line = some (n : Int))
    (hbody : Reads (body n) b f) :
    Reads (readCounted what body) (asBytes line ++ crlf ++ b) f := by
  apply (readI64_reads_line what hline hn).bind
  have hnull : ¬ (n : Int) = -1 := by omega
  have hneg : ¬ (n : Int) < 0 := by omega
  rw [if_neg hnull, if_neg hneg, Int.toNat_natCast]
  exact hbody

theorem readCounted_reads (what : String) {body : Nat → CursorM Frame} {n : Nat} {b : Bytes}
    {f : Frame} (hn : n ≤ isizeMax) (hbody : Reads (body n) b f) :
    Reads (readCounted what body) (asBytes (decimal n) ++ crlf ++ b) f :=
  readCounted_reads_line what (plain_decimal n).lineSafe (parseI64_decimal (inI64_length hn)) hbody

theorem readCounted_null_line (what : String) (body : Nat → CursorM Frame) {line : String}
    (hline : ¬ crlf <:+: asBytes line) (hn : parseI64 line = some (-1)) :
    Reads (readCounted what body) (asBytes line ++ crlf) .null :=
  (readI64_reads_line what hline hn).andThen (.pure Frame.null)

theorem readCounted_null (what : String) (body : Nat → CursorM Frame) :
    Reads (readCounted what body) [45, 49, 13, 10] .null := by
  have hnull := readCounted_null_line what body (plain_decimal (-1)).lineSafe
    (parseI64_decimal (by decide))
  have hbytes : asBytes (decimal (-1)) ++ crlf = [45, 49, 13, 10] := by decide
  rwa [hbytes] at hnull

theorem decodeFrame_reads_byte {reserve : Nat → Bool} {depth : Nat} {byte : UInt8} {b : Bytes}
    {f : Frame} (h : Reads (decodeBranch reserve (decodeFrame reserve depth) byte) b f) :
    Reads (decodeFrame reserve (depth + 1)) (byte :: b) f :=
  (nextByte_reads byte).bind h

theorem encode_length_pos (f : Frame) : 0 < f.encode.length := by
  cases f <;> simp [Frame.encode, Frame.encodeLine]

mutual

/-- What `encode` writes, `decode_frame` reads.  The induction is on the frame; an
array is decoded one level deeper than its elements. -/
theorem decodeFrame_reads (reserve : Nat → Bool) (f : Frame) (hstorable : f.Storable reserve)
    (hsafe : f.LineSafe) (depth : Nat) (hdepth : f.encode.length ≤ depth) :
    Reads (decodeFrame reserve depth) f.encode f := by
  obtain ⟨depth, rfl⟩ : ∃ d, depth = d + 1 := Nat.exists_eq_add_one.mpr
    (Nat.lt_of_lt_of_le (encode_length_pos f) hdepth)
  match f with
  | .simple s =>
      exact decodeFrame_reads_byte ((readLine_reads hsafe).map Frame.simple)
  | .error msg =>
      exact decodeFrame_reads_byte ((readLine_reads hsafe).map Frame.error)
  | .integer n =>
      exact decodeFrame_reads_byte ((readI64_reads "integer" hstorable).map Frame.integer)
  | .bulk data =>
      have hbody : Reads (readCounted "bulk length" fun len => Frame.bulk <$> readBody len)
          (asBytes (decimal data.length) ++ crlf ++ (data ++ crlf)) (.bulk data) :=
        readCounted_reads "bulk length" hstorable ((readBody_reads hstorable rfl).map Frame.bulk)
      rw [Frame.encode, List.append_assoc]
      exact decodeFrame_reads_byte hbody
  | .null =>
      exact decodeFrame_reads_byte
        (readCounted_null "bulk length" fun len => Frame.bulk <$> readBody len)
  | .array frames =>
      obtain ⟨hcount, hreserve, hall⟩ := hstorable
      have hlen : (Frame.encodeAll frames).length ≤ depth := by
        rw [Frame.encode, List.length_append, Frame.encodeLine, List.length_append,
          List.length_cons] at hdepth
        omega
      have helements := (times_reads reserve frames hall hsafe depth hlen).map Frame.array
      have hbody : Reads (readCounted "array length" fun count =>
          if reserve count then Frame.array <$> (decodeFrame reserve depth).times count
          else throw .panicked)
          (asBytes (decimal frames.length) ++ crlf ++ Frame.encodeAll frames) (.array frames) :=
        readCounted_reads "array length" hcount (by simpa only [hreserve, if_true] using helements)
      exact decodeFrame_reads_byte hbody

theorem times_reads (reserve : Nat → Bool) (frames : List Frame)
    (hstorable : Frame.StorableAll reserve frames) (hsafe : Frame.LineSafeAll frames) (depth : Nat)
    (hdepth : (Frame.encodeAll frames).length ≤ depth) :
    Reads ((decodeFrame reserve depth).times frames.length) (Frame.encodeAll frames) frames := by
  match frames with
  | [] => exact .pure []
  | f :: frames =>
      rw [Frame.encodeAll, List.length_append] at hdepth
      exact (decodeFrame_reads reserve f hstorable.1 hsafe.1 depth (by omega)).times_cons
        (times_reads reserve frames hstorable.2 hsafe.2 depth (by omega))

end

theorem frontFrame_encode {reserve : Nat → Bool} {f : Frame} (hstorable : f.Storable reserve)
    (hsafe : f.LineSafe) (rest : Bytes) : frontFrame reserve (f.encode ++ rest) = .ok (f, rest) := by
  have hdepth : f.encode.length ≤ (f.encode ++ rest).length + 1 := by
    rw [List.length_append]
    omega
  have hunread : (⟨f.encode ++ rest, 0⟩ : Cursor UInt8).unread = f.encode ++ rest := rfl
  have hread := decodeFrame_reads reserve f hstorable hsafe _ hdepth ⟨f.encode ++ rest, 0⟩ rest
    hunread
  rw [frontFrame, Decoder.parse, hread]
  exact congrArg (fun b => Except.ok (f, b)) (Cursor.unread_skip hunread)

/-- **Round trip.**  Whatever follows the bytes of a frame in the buffer,
`parse_frame` returns the frame and leaves what follows. -/
theorem parseFrame_serialize (reserve : Nat → Bool) (f : Frame) (hstorable : f.Storable reserve)
    (hsafe : f.LineSafe) (rest : Bytes) :
    parseFrame reserve (f.serialize ++ rest) = (.ok (some f), rest) := by
  rw [parseFrame_eq, Frame.serialize, frontFrame_encode hstorable hsafe]

theorem parseFrame_serialize_sample :
    parseFrame (fun _ => true)
        ((Frame.array [.simple "OK", .null, .bulk [13, 10, 43]]).serialize ++ [36]) =
      (.ok (some (.array [.simple "OK", .null, .bulk [13, 10, 43]])), [36]) :=
  parseFrame_serialize (fun _ => true) (.array [.simple "OK", .null, .bulk [13, 10, 43]])
    (by simp [Frame.Storable, Frame.StorableAll, isizeMax])
    (by
      have hok : ¬ crlf <:+: asBytes "OK" := by decide
      exact ⟨hok, trivial, trivial, trivial⟩)
    [36]

end MiniRudis
