import MiniRudis.Rust.Integer
import Mathlib.Data.String.Basic

/-!
# Bytes and text

A `Vec<u8>` or `Bytes` is a list of bytes.  A Rust `String` is a Lean one: both
hold valid UTF-8, and the order of the bytes is that of the code points.
-/

namespace MiniRudis

abbrev Bytes := List UInt8

def asBytes (s : String) : Bytes := s.toByteArray.data.toList

def fromUtf8 (b : Bytes) : Option String := String.fromUTF8? ⟨b.toArray⟩

@[simp] theorem fromUtf8_asBytes (s : String) : fromUtf8 (asBytes s) = some s := by
  have hbytes : (⟨(asBytes s).toArray⟩ : ByteArray) = s.toByteArray := by
    simp [asBytes]
  rw [fromUtf8, hbytes, String.fromUTF8?, dif_pos s.isValidUTF8]
  rfl

theorem asBytes_of_fromUtf8 {b : Bytes} {s : String} (h : fromUtf8 b = some s) : asBytes s = b := by
  rw [fromUtf8, String.fromUTF8?] at h
  split at h
  · rw [← Option.some.inj h, asBytes, String.fromUTF8]
  · exact absurd h (by simp)

theorem asBytes_eq (s : String) : asBytes s = s.toList.flatMap String.utf8EncodeChar := by
  rw [asBytes, ← String.utf8Encode_toList, List.utf8Encode]
  simp

theorem asBytes_append (s t : String) : asBytes (s ++ t) = asBytes s ++ asBytes t := by
  simp [asBytes_eq]

/-! ## Lossy decoding -/

/-- `utf8_char_width`, with 0 for a byte that starts no character. -/
def utf8CharWidth (b : UInt8) : Nat :=
  if b < 0x80 then 1
  else if 0xC2 ≤ b ∧ b ≤ 0xDF then 2
  else if 0xE0 ≤ b ∧ b ≤ 0xEF then 3
  else if 0xF0 ≤ b ∧ b ≤ 0xF4 then 4
  else 0

def isCont (b : UInt8) : Bool := 0x80 ≤ b && b ≤ 0xBF

/-- The second bytes that may follow a first byte of width 3 or 4. -/
def secondOk (first b : UInt8) : Bool :=
  if first = 0xE0 then 0xA0 ≤ b && b ≤ 0xBF
  else if first = 0xED then 0x80 ≤ b && b ≤ 0x9F
  else if first = 0xF0 then 0x90 ≤ b && b ≤ 0xBF
  else if first = 0xF4 then 0x80 ≤ b && b ≤ 0x8F
  else isCont b

/-- The conditions on the bytes after `first`, one for each byte. -/
def contTests (first : UInt8) : List (UInt8 → Bool) :=
  match utf8CharWidth first with
  | 2 => [isCont]
  | 3 => [secondOk first, isCont]
  | 4 => [secondOk first, isCont, isCont]
  | _ => []

/-- Take bytes as long as they pass the tests; `none` when one is missing. -/
def takeTests : List (UInt8 → Bool) → Bytes → Option Bytes × Bytes
  | [], rest => (some [], rest)
  | _ :: _, [] => (none, [])
  | t :: ts, b :: rest =>
      if t b then
        let (taken, rest) := takeTests ts rest
        (taken.map (b :: ·), rest)
      else (none, b :: rest)

/-- The loop of `String::from_utf8_lossy`: one replacement character for each
maximal prefix of a broken sequence.  Every turn consumes a byte, so the length
is enough fuel. -/
def lossyChars : Nat → Bytes → List Char
  | 0, _ => []
  | _ + 1, [] => []
  | fuel + 1, b :: rest =>
      if utf8CharWidth b = 0 then '\uFFFD' :: lossyChars fuel rest
      else
        match takeTests (contTests b) rest with
        | (some conts, rest) =>
            ((fromUtf8 (b :: conts)).getD "\uFFFD").toList ++ lossyChars fuel rest
        | (none, rest) => '\uFFFD' :: lossyChars fuel rest

def fromUtf8Lossy (b : Bytes) : String :=
  match fromUtf8 b with
  | some s => s
  | none => String.ofList (lossyChars b.length b)

@[simp] theorem fromUtf8Lossy_asBytes (s : String) : fromUtf8Lossy (asBytes s) = s := by
  simp [fromUtf8Lossy]

/-! ## Characters -/

def isWhitespace (c : Char) : Bool :=
  let n := c.toNat
  (0x09 ≤ n && n ≤ 0x0D) || n == 0x20 || n == 0x85 || n == 0xA0 || n == 0x1680 ||
    (0x2000 ≤ n && n ≤ 0x200A) || n == 0x2028 || n == 0x2029 || n == 0x202F || n == 0x205F ||
    n == 0x3000

def trim (s : String) : String :=
  String.ofList (((s.toList.dropWhile isWhitespace).reverse.dropWhile isWhitespace).reverse)

/-- `str::to_uppercase`.  The case table of the Unicode version behind the
standard library is the parameter `upper`; ASCII does not depend on it. -/
def toUppercase (upper : Char → List Char) (s : String) : String :=
  String.ofList (s.toList.flatMap fun c => if c.toNat < 0x80 then [c.toUpper] else upper c)

def parseTrimmedI64 (s : String) : Option Int := parseI64 (trim s)

theorem trim_eq_self {s : String} (h : ∀ c ∈ s.toList, isWhitespace c = false) : trim s = s := by
  have hkept : ∀ l : List Char, (∀ c ∈ l, c ∈ s.toList) → l.dropWhile isWhitespace = l := by
    intro l hl
    cases l with
    | nil => rfl
    | cons c l =>
        have hc := h c (hl c List.mem_cons_self)
        rw [List.dropWhile_cons_of_neg (by simp [hc])]
  rw [trim, hkept s.toList fun _ => id, hkept _ fun c hc => List.mem_reverse.mp hc,
    List.reverse_reverse, String.ofList_toList]

theorem isWhitespace_of_isDigit {c : Char} (hc : c.isDigit) : isWhitespace c = false := by
  have hrange : 48 ≤ c.toNat ∧ c.toNat ≤ 57 := by
    simpa [Char.isDigit, UInt32.le_iff_toNat_le] using hc
  simp only [isWhitespace]
  simp
  omega

theorem parseTrimmedI64_decimal {n : Int} (h : InI64 n) : parseTrimmedI64 (decimal n) = some n := by
  rw [parseTrimmedI64, trim_eq_self, parseI64_decimal h]
  intro c hc
  cases n with
  | ofNat n =>
      rw [Int.ofNat_eq_natCast, decimal_toList_of_nonneg] at hc
      exact isWhitespace_of_isDigit (List.all_eq_true.mp (all_isDigit_toDigits n) c hc)
  | negSucc n =>
      rw [decimal_toList_of_neg] at hc
      obtain rfl | hc := List.mem_cons.mp hc
      · rfl
      · exact isWhitespace_of_isDigit (List.all_eq_true.mp (all_isDigit_toDigits (n + 1)) c hc)

end MiniRudis
