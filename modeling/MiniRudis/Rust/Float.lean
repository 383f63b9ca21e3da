import MiniRudis.Rust.Text
import MiniRudis.Db.SkipList

/-!
# Floats

An `f64` is NaN, an infinity, or an exact multiple of `2^-1074`, the least
positive double.  The two zeros are one value: the program compares, adds and
prints floats, and none of this tells them apart.
-/

namespace MiniRudis

/-- The unit is `2^-unitBits`. -/
def unitBits : Nat := 1074

/-- `n * 2^-1074` is a double: 53 significant bits, below `2^1024`. -/
def Representable (n : Int) : Prop :=
  n.natAbs < 2 ^ (1024 + unitBits) ∧ 2 ^ (n.natAbs.log2 - 52) ∣ n.natAbs

instance (n : Int) : Decidable (Representable n) := inferInstanceAs (Decidable (_ ∧ _))

inductive F64
  | nan
  | negInf
  | posInf
  | finite (units : Int) (h : Representable units)
  deriving DecidableEq

namespace F64

instance : HasNaN F64 where
  isNaN
    | nan => true
    | _ => false

theorem representable_zero : Representable 0 := by
  unfold Representable
  rw [Int.natAbs_zero]
  exact ⟨Nat.two_pow_pos _, Nat.dvd_zero _⟩

def zero : F64 := finite 0 representable_zero

instance : Inhabited F64 := ⟨zero⟩

/-! ## Order -/

/-- The place of a float in the order of `OrderedFloat`, which puts NaN last. -/
def place : F64 → Int ×ₗ Int
  | negInf => toLex (0, 0)
  | finite n _ => toLex (1, n)
  | posInf => toLex (2, 0)
  | nan => toLex (3, 0)

theorem place_injective : Function.Injective place := by
  intro a b h
  cases a <;> cases b <;> simp_all [place]

instance : LinearOrder F64 := LinearOrder.lift' place place_injective

def lt (a b : F64) : Bool := !isNaN a && !isNaN b && decide (a < b)

def le (a b : F64) : Bool := !isNaN a && !isNaN b && decide (a ≤ b)

/-! ## Rounding -/

/-- `a / b` rounded to the nearest integer, ties to even. -/
def divHalfEven (a b : Nat) : Nat :=
  let q := a / b
  let r := a % b
  if 2 * r < b then q else if b < 2 * r then q + 1 else if q % 2 = 0 then q else q + 1

/-- The float at `n` units, or the infinity that overflow yields. -/
def ofUnits (n : Int) : F64 :=
  if h : Representable n then finite n h else if n < 0 then negInf else posInf

/-- The magnitude `a / b`, in units, rounded to 53 significant bits. -/
def roundUnits (a b : Nat) : Nat :=
  let shift := (a / b).log2 - 52
  divHalfEven a (b * 2 ^ shift) * 2 ^ shift

def round (num : Int) (den : Nat) : F64 :=
  let units : Int := roundUnits num.natAbs den
  ofUnits (if num < 0 then -units else units)

def add : F64 → F64 → F64
  | nan, _ | _, nan => nan
  | negInf, posInf | posInf, negInf => nan
  | negInf, _ | _, negInf => negInf
  | posInf, _ | _, posInf => posInf
  | finite a _, finite b _ => round (a + b) 1

def isInfinite : F64 → Bool
  | negInf | posInf => true
  | _ => false

/-! ## Parsing -/

/-- The exponent of a decimal literal.  `parse_scientific` stops adding digits
once the value has reached `0x10000`. -/
def exponentOf (ds : List Char) : Nat :=
  ds.foldl (fun e d => if e < 0x10000 then 10 * e + (d.toNat - '0'.toNat) else e) 0

/-- What may follow the digits: nothing, or an exponent. -/
def parseExponent : List Char → Option Int
  | [] => some 0
  | c :: rest =>
      if c = 'e' ∨ c = 'E' then
        let (neg, ds) := match rest with
          | '-' :: ds => (true, ds)
          | '+' :: ds => (false, ds)
          | ds => (false, ds)
        if ds ≠ [] ∧ ds.all Char.isDigit then
          some (if neg then -exponentOf ds else exponentOf ds)
        else none
      else none

/-- The float nearest to `digits * 10^exp`. -/
def ofDecimal (neg : Bool) (digits : Nat) (exp : Int) : F64 :=
  let num : Int := digits * 10 ^ exp.toNat * 2 ^ unitBits
  round (if neg then -num else num) (10 ^ (-exp).toNat)

/-- Digits, with an optional point among or beside them, and an optional exponent. -/
def parseNumber (neg : Bool) (s : List Char) : Option F64 := do
  let whole := s.takeWhile Char.isDigit
  let rest := s.dropWhile Char.isDigit
  let (frac, rest) := match rest with
    | '.' :: rest => (rest.takeWhile Char.isDigit, rest.dropWhile Char.isDigit)
    | rest => ([], rest)
  if whole = [] ∧ frac = [] then none
  else
    let exp ← parseExponent rest
    some (ofDecimal neg (Nat.ofDigitChars 10 (whole ++ frac) 0) (exp - frac.length))

def parseUnsigned (neg : Bool) (s : List Char) : Option F64 :=
  let word := s.map Char.toLower
  if word = "inf".toList ∨ word = "infinity".toList then some (if neg then negInf else posInf)
  else if word = "nan".toList then some nan
  else parseNumber neg s

def parse (s : String) : Option F64 :=
  match s.toList with
  | '-' :: rest => parseUnsigned true rest
  | '+' :: rest => parseUnsigned false rest
  | rest => parseUnsigned false rest

/-! ## Printing -/

/-- `format!("{:.17}", f)` for `n` units: the exact expansion, rounded half to
even at the 17th place. -/
def fixed17 (n : Int) : List Char :=
  let scaled := divHalfEven (n.natAbs * 10 ^ 17) (2 ^ unitBits)
  let frac := Nat.toDigits 10 (scaled % 10 ^ 17)
  (if n < 0 then ['-'] else []) ++ Nat.toDigits 10 (scaled / 10 ^ 17) ++
    '.' :: List.replicate (17 - frac.length) '0' ++ frac

def trimEnd (c : Char) (s : List Char) : List Char :=
  (s.reverse.dropWhile (· == c)).reverse

def formatFloat : F64 → String
  | nan => "NaN"
  | negInf => "-inf"
  | posInf => "inf"
  | finite n _ =>
      if (2 ^ unitBits : Nat) ∣ n.natAbs ∧ n.natAbs < 10 ^ 15 * 2 ^ unitBits then
        decimal (n / 2 ^ unitBits)
      else String.ofList (trimEnd '.' (trimEnd '0' (fixed17 n)))

end F64

end MiniRudis
