set_option autoImplicit false

/-! # Binary floating-point numbers

A `Binary` is a sign, a whole significand and a power of two, or one of the special values. A
`Format` fixes how many bits the significand may have and how far the exponent reaches; `round`
takes an exact quotient to the nearest value of a format, a tie to the even significand. Every
value is kept in the one form that `round` produces, so that two finite values other than zero are
equal exactly when their parts are.
-/

namespace ConfigLog.Number

/-- A floating-point value: `±significand * 2 ^ exponent`, an infinity, or not a number. -/
inductive Binary where
  | nan
  | infinity (negative : Bool)
  | finite (negative : Bool) (significand : Nat) (exponent : Int)
  deriving Repr, DecidableEq, Inhabited

/-- A binary interchange format, by the bits of its significand and its exponent range. -/
structure Format where
  /-- The number of bits of a significand. -/
  precision : Nat
  /-- The exponent of the least significand bit of the smallest values. -/
  minExponent : Int
  /-- The exponent of the least significand bit of the largest values. -/
  maxExponent : Int

/-- The 64-bit format. -/
def Format.double : Format := ⟨53, -1074, 971⟩

/-- The 32-bit format. -/
def Format.single : Format := ⟨24, -149, 104⟩

/-! ## Rounding -/

/-- `n / d` rounded to the nearest whole number, a tie to the even one. -/
def divNearest (n d : Nat) : Nat :=
  let q := n / d
  let r := n % d
  if 2 * r < d then q
  else if 2 * r > d then q + 1
  else if q % 2 == 0 then q else q + 1

/-- The quotient `n / d * 2 ^ (-e)` as a numerator and a denominator. -/
def scaleDown (n d : Nat) (e : Int) : Nat × Nat :=
  if e < 0 then (n * Nat.pow 2 (-e).toNat, d) else (n, d * Nat.pow 2 e.toNat)

/-- The zero of a format. -/
def Binary.zero (f : Format) (negative : Bool) : Binary := .finite negative 0 f.minExponent

/-- The value of the format nearest to `± n / d`; beyond the largest one, an infinity. -/
def Binary.round (f : Format) (negative : Bool) (n d : Nat) : Binary :=
  if n == 0 then .zero f negative
  else
    let guess : Int := (Nat.log2 n : Int) - Nat.log2 d - f.precision
    let low := max guess f.minExponent
    let (n1, d1) := scaleDown n d low
    let e := if n1 / d1 < Nat.pow 2 f.precision then low else low + 1
    let (n2, d2) := scaleDown n d e
    let s := divNearest n2 d2
    let (s, e) := if s == Nat.pow 2 f.precision then (Nat.pow 2 (f.precision - 1), e + 1)
      else (s, e)
    if e > f.maxExponent then .infinity negative else .finite negative s e

/-- The nearest value of the format to a whole number. -/
def Binary.ofInt (f : Format) (n : Int) : Binary := .round f (n < 0) n.natAbs 1

/-- The magnitude of a finite value as an exact quotient. -/
def ratio (significand : Nat) (exponent : Int) : Nat × Nat :=
  if exponent < 0 then (significand, Nat.pow 2 (-exponent).toNat)
  else (significand * Nat.pow 2 exponent.toNat, 1)

/-- The nearest value of the format to a value of any format. -/
def Binary.toFormat (f : Format) : Binary → Binary
  | .nan => .nan
  | .infinity s => .infinity s
  | .finite s m e => let (n, d) := ratio m e; .round f s n d

/-- The form of a single-precision value among the doubles; every one of them is a double. -/
def Binary.widen (x : Binary) : Binary := x.toFormat .double

/-! ## Comparison -/

/-- Zero, of either sign. -/
def Binary.isZero : Binary → Bool
  | .finite _ m _ => m == 0
  | _ => false

/-- Equality of numbers: not a number differs from itself, and the two zeros are equal. -/
def Binary.equal (x y : Binary) : Bool :=
  match x, y with
  | .nan, _ => false
  | _, .nan => false
  | x, y => x == y || (x.isZero && y.isZero)

/-- Equality of tree leaves: not a number equals itself, and the two zeros are equal. -/
def Binary.same (x y : Binary) : Bool := x == y || (x.isZero && y.isZero)

/-- A value that is neither infinite nor not a number. -/
def Binary.isFinite : Binary → Bool
  | .finite .. => true
  | _ => false

/-- A value that is finite. -/
def Binary.finite? (x : Binary) : Option Binary := if x.isFinite then some x else none

/-- The value with the other sign. -/
def Binary.negate : Binary → Binary
  | .nan => .nan
  | .infinity s => .infinity !s
  | .finite s m e => .finite (!s) m e

/-! ## Arithmetic on finite values -/

/-- The rounded product of two finite doubles; other values give not a number. -/
def Binary.mul (x y : Binary) : Binary :=
  match x, y with
  | .finite s m e, .finite t k g =>
    let (n, d) := ratio (m * k) (e + g)
    .round .double (s != t) n d
  | _, _ => .nan

/-- The rounded quotient of two finite doubles, the second not zero; other values give not a
number. -/
def Binary.div (x y : Binary) : Binary :=
  match x, y with
  | .finite s m e, .finite t k g =>
    let (n, d) := ratio m (e - g)
    .round .double (s != t) n (d * k)
  | _, _ => .nan

end ConfigLog.Number
