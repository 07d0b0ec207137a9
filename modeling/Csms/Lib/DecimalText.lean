import Csms.Lib.Decimal
import Csms.Lib.Text

/-!
# Decimal numbers from texts

`parse` reads the texts that Python's `Decimal` accepts: decimal digits of any script, underscores
anywhere, whitespace at the ends, an optional point and exponent, infinities and NaNs. `ctxMul`
multiplies under the default context of 28 digits and exponents up to 999999, which traps overflow.
-/

namespace DecimalText

open Decimal Rounding

/-- The zeros of the scripts with decimal digits. -/
def digitZeros : List ℕ :=
  [0x30, 0x660, 0x6f0, 0x7c0, 0x966, 0x9e6, 0xa66, 0xae6, 0xb66, 0xbe6, 0xc66, 0xce6, 0xd66, 0xde6, 0xe50,
    0xed0, 0xf20, 0x1040, 0x1090, 0x17e0, 0x1810, 0x1946, 0x19d0, 0x1a80, 0x1a90, 0x1b50, 0x1bb0, 0x1c40,
    0x1c50, 0xa620, 0xa8d0, 0xa900, 0xa9d0, 0xa9f0, 0xaa50, 0xabf0, 0xff10, 0x104a0, 0x10d30, 0x11066,
    0x110f0, 0x11136, 0x111d0, 0x112f0, 0x11450, 0x114d0, 0x11650, 0x116c0, 0x11730, 0x118e0, 0x11950,
    0x11c50, 0x11d50, 0x11da0, 0x11f50, 0x16a60, 0x16ac0, 0x16b50, 0x1d7ce, 0x1d7d8, 0x1d7e2, 0x1d7ec,
    0x1d7f6, 0x1e140, 0x1e2f0, 0x1e4f0, 0x1e950, 0x1fbf0]

/-- The value of a decimal digit. -/
def digit? (c : Char) : Option ℕ :=
  (digitZeros.find? fun first => first ≤ c.toNat ∧ c.toNat < first + 10).map (c.toNat - ·)

/-- The digits at the front, and what follows them. -/
def digits : List Char → List ℕ × List Char
  | [] => ([], [])
  | c :: rest =>
    match digit? c with
    | some d => let (ds, rest') := digits rest; (d :: ds, rest')
    | none => ([], c :: rest)

def ofDigits (ds : List ℕ) : ℕ := ds.foldl (fun n d => 10 * n + d) 0

/-- A number, or an infinity or NaN. -/
inductive Literal where
  | finite (negative : Bool) (coefficient : ℕ) (exponent : ℤ)
  | special
  deriving DecidableEq, Repr

def sign : List Char → Bool × List Char
  | '-' :: rest => (true, rest)
  | '+' :: rest => (false, rest)
  | rest => (false, rest)

/-- The exponent after a number; `none` is no exponent. -/
def exponent? : List Char → Option ℤ
  | [] => some 0
  | c :: rest =>
    if c = 'e' ∨ c = 'E' then
      let (negative, rest) := sign rest
      match digits rest with
      | ([], _) => none
      | (ds, []) => some (if negative then -(ofDigits ds : ℤ) else ofDigits ds)
      | _ => none
    else none

/-- `inf`, `infinity`, or a NaN with its digits. -/
def isSpecial (text : List Char) : Bool :=
  let lower := String.ofList (text.map Char.toLower)
  let payload (word : String) := word.toList.isPrefixOf lower.toList &&
    (digits (text.drop word.length)).2.isEmpty
  lower == "inf" || lower == "infinity" || payload "nan" || payload "snan"

/-- The literal of a text, if `Decimal` accepts it. -/
def parse (text : String) : Option Literal :=
  let (negative, body) := sign ((Text.strip text).toList.filter (· ≠ '_'))
  if isSpecial body then some .special
  else
    let (whole, rest) := digits body
    let (fraction, rest) := match rest with
      | '.' :: rest => digits rest
      | rest => ([], rest)
    if whole ++ fraction = [] then none
    else (exponent? rest).map fun e => .finite negative (ofDigits (whole ++ fraction)) (e - fraction.length)

inductive DecimalError where
  | invalidOperation | overflow
  deriving DecidableEq, Repr

def MAX_EMAX : ℤ := 999999999999999999
def MIN_ETINY : ℤ := -1999999999999999997
def EMAX : ℤ := 999999

/-- The number of decimal digits. -/
def width (n : ℕ) : ℤ := (Nat.toDigits 10 n).length

/-- `Decimal(text) * factor`, as the value of a finite product; a special value is `none`. -/
def ctxMul (text : String) (factor : ℕ) : Except DecimalError (Option ℚ) :=
  match parse text with
  | none => .error .invalidOperation
  | some .special => .ok none
  | some (.finite negative coefficient exponent) =>
    -- the conversion is exact or fails
    if MAX_EMAX < exponent + width coefficient - 1 ∨ exponent < MIN_ETINY then .error .invalidOperation
    else if coefficient = 0 then .ok (some 0)
    -- far below the smallest unit anything is stored in
    else if exponent + width coefficient < -30 then .ok (some 0)
    else
      let adjusted := exponent + width (coefficient * factor) - 1
      let product : ℚ := (coefficient * factor : ℕ) * (10 : ℚ) ^ exponent
      let rounded := ctxRound 28 (if negative then -product else product)
      if EMAX < adjusted ∨ (adjusted = EMAX ∧ 10 ^ (EMAX + 1) ≤ |rounded|) then .error .overflow
      else .ok (some rounded)

/-- `value.quantize(Decimal("0.000001"))`. -/
def micro (value : ℚ) : ℚ := roundHalfEven (value * 10 ^ 6) / 10 ^ 6

end DecimalText
