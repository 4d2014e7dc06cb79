import CorpusAnnotator.Number.Integer

/-! Binary floating-point numbers of 64 bits, as exact data. Every operation is the exact rational
result rounded once to the nearest such number, a tie going to the even mantissa. -/
namespace CorpusAnnotator.Number

/-- The quotient rounded to the nearest whole number; a tie goes to the even one. -/
def roundDiv (num den : Nat) : Nat :=
  let q := num / den
  let r := num % den
  if 2 * r < den then q else if den < 2 * r then q + 1 else q + q % 2

/-- A number of the format. A finite one is `mantissa * 2 ^ exponent`, with `mantissa` below
`2 ^ 53` and `exponent` from `-1074` to `971`; below `2 ^ 52` the mantissa occurs only with the
least exponent, so each number but zero is written in one way for each sign. -/
inductive Binary64 where
  | nan
  | infinite (negative : Bool)
  | finite (negative : Bool) (mantissa : Nat) (exponent : Int)
  deriving Repr, DecidableEq

namespace Binary64

/-- The least mantissa of 53 bits. -/
def leadingBit : Nat := 0x10000000000000

def leastExponent : Int := -1074

def greatestExponent : Int := 971

def zero : Binary64 := .finite false 0 leastExponent

/-- `num / den * 2 ^ -exponent`, rounded. -/
def quotient (num den : Nat) (exponent : Int) : Nat :=
  match exponent with
  | .ofNat e => roundDiv num (den <<< e)
  | .negSucc e => roundDiv (num <<< (e + 1)) den

/-- The exponent that leaves 53 bits before the point of `num / den`, or the least one. -/
def exponentFor (num den : Nat) : Int :=
  let e : Int := (num.log2 : Int) - den.log2 - 53
  let wide : Bool :=
    match e with
    | .ofNat k => (den <<< (k + 53)) ≤ num
    | .negSucc k => (den <<< 53) ≤ (num <<< (k + 1))
  max leastExponent (if wide then e + 1 else e)

/-- The number nearest to `num / den`, with the given sign. -/
def ofRatio (negative : Bool) (num den : Nat) : Binary64 :=
  if num = 0 then .finite negative 0 leastExponent
  else
    let e := exponentFor num den
    let m := quotient num den e
    let (m, e) := if m = 2 * leadingBit then (leadingBit, e + 1) else (m, e)
    if greatestExponent < e then .infinite negative else .finite negative m e

def ofNat (n : Nat) : Binary64 := ofRatio false n 1

def ofInt (n : Int) : Binary64 := ofRatio (n < 0) n.natAbs 1

/-- `n * 10 ^ e`. -/
def ofDecimal (negative : Bool) (n : Nat) (e : Int) : Binary64 :=
  match e with
  | .ofNat k => ofRatio negative (n * Nat.pow 10 k) 1
  | .negSucc k => ofRatio negative n (Nat.pow 10 (k + 1))

/-- The bits of the interchange format; every NaN gives the same ones. -/
def toBits : Binary64 → UInt64
  | .nan => 0x7ff8000000000000
  | .infinite negative => (if negative then 0x8000000000000000 else 0) ||| 0x7ff0000000000000
  | .finite negative m e =>
    let field : Nat := if m < leadingBit then m else (e - leastExponent).toNat * leadingBit + m
    (if negative then 0x8000000000000000 else 0) ||| UInt64.ofNat field

def isFinite : Binary64 → Bool
  | .finite _ _ _ => true
  | _ => false

def isZero : Binary64 → Bool
  | .finite _ m _ => m = 0
  | _ => false

def isNegative : Binary64 → Bool
  | .nan => false
  | .infinite negative => negative
  | .finite negative _ _ => negative

def neg : Binary64 → Binary64
  | .nan => .nan
  | .infinite negative => .infinite !negative
  | .finite negative m e => .finite (!negative) m e

/-- `m * 2 ^ e` as a fraction. -/
def fraction (m : Nat) (e : Int) : Nat × Nat :=
  match e with
  | .ofNat k => (m <<< k, 1)
  | .negSucc k => (m, 1 <<< (k + 1))

/-- The whole part, held between zero and the largest word. What is no number counts as zero. -/
def wholePart : Binary64 → Nat
  | .nan => 0
  | .infinite negative => if negative then 0 else maxNat64
  | .finite negative m e =>
    if negative then 0
    else
      let (num, den) := fraction m e
      min (num / den) maxNat64

def signed (negative : Bool) (m : Nat) : Int :=
  if negative then -(m : Int) else m

def add : Binary64 → Binary64 → Binary64
  | .nan, _ => .nan
  | _, .nan => .nan
  | .infinite s, .infinite t => if s = t then .infinite s else .nan
  | .infinite s, _ => .infinite s
  | _, .infinite t => .infinite t
  | .finite s m e, .finite t n f =>
    let least := min e f
    let sum := signed s (m <<< (e - least).toNat) + signed t (n <<< (f - least).toNat)
    if sum = 0 then .finite (s && t) 0 leastExponent
    else
      let (num, den) := fraction sum.natAbs least
      ofRatio (sum < 0) num den

def mul : Binary64 → Binary64 → Binary64
  | .nan, _ => .nan
  | _, .nan => .nan
  | .finite s m e, .finite t n f =>
    let (num, den) := fraction (m * n) (e + f)
    ofRatio (s != t) num den
  | a, b => if a.isZero || b.isZero then .nan else .infinite (a.isNegative != b.isNegative)

def div : Binary64 → Binary64 → Binary64
  | .nan, _ => .nan
  | _, .nan => .nan
  | .infinite _, .infinite _ => .nan
  | .infinite s, b => .infinite (s != b.isNegative)
  | a, .infinite t => .finite (a.isNegative != t) 0 leastExponent
  | .finite s m e, .finite t n f =>
    if n = 0 then (if m = 0 then .nan else .infinite (s != t))
    else
      let (a, b) := fraction m e
      let (c, d) := fraction n f
      ofRatio (s != t) (a * d) (b * c)

instance : Add Binary64 := ⟨add⟩
instance : Mul Binary64 := ⟨mul⟩
instance : Div Binary64 := ⟨div⟩
instance : Neg Binary64 := ⟨neg⟩

end Binary64

end CorpusAnnotator.Number
