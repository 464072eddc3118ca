/-!
# Decimal numerals of binary64 values

`Binary64.ofDecimal` rounds a decimal numeral to the nearest binary64 value, a tie to the even one;
`Binary64.mul` and `Binary64.div` round products and quotients likewise. `Binary64.shortest` goes
back: the fewest decimal digits that lie within the rounding interval of the value, and of those the
nearest. All compute exactly, over natural numbers.
-/

namespace Bundler.Binary64

/-- The number of decimal digits of `n`. -/
def digitCount (n : Nat) : Nat := (Nat.toDigits 10 n).length

/-- The first bit of the exponent, which is also the leading bit of a normal mantissa. -/
def leadingBit : Nat := 0x10000000000000

/-- The first bit pattern beyond the finite values. -/
def infinityBits : Nat := 0x7FF * leadingBit

def signBit : Nat := 0x8000000000000000

/-- The nearest value to `num / den`, as a bit pattern; `none` beyond the finite values. -/
def ofRatio (num den : Nat) : Option Nat :=
  if num = 0 then some 0
  else
    let scale : Int := (num.log2 : Int) - den.log2 - 52
    let quotient (k : Int) : Nat × Nat := (num * Nat.pow 2 (-k).toNat, den * Nat.pow 2 k.toNat)
    let (n, d) := quotient scale
    let fitted := if n / d < leadingBit then scale - 1 else scale
    let k := max fitted (-1074)
    let (n, d) := quotient k
    let q := n / d
    let r := n % d
    let rounded := if 2 * r > d ∨ (2 * r = d ∧ q % 2 = 1) then q + 1 else q
    let bits : Nat := (k + 1074).toNat * leadingBit + rounded
    if bits < infinityBits then some bits else none

/-- The nearest value to `digits * 10 ^ exponent`; exponents far outside the range are decided by
their size. -/
def ofDecimal (digits : Nat) (exponent : Int) : Option Nat :=
  if digits = 0 then some 0
  else
    let top := exponent + digitCount digits
    if top > 400 then none
    else if top < -400 then some 0
    else ofRatio (digits * Nat.pow 10 exponent.toNat) (Nat.pow 10 (-exponent).toNat)

/-- The magnitude `mantissa * 2 ^ exponent` of a finite bit pattern without its sign. -/
def decode (bits : Nat) : Nat × Int :=
  let field : Nat := bits / leadingBit
  let fraction : Nat := bits % leadingBit
  if field = 0 then (fraction, -1074) else (fraction + leadingBit, (field : Int) - 1075)

/-- The nearest value to `num / den * 2 ^ exponent`. -/
def ofScaled (num den : Nat) (exponent : Int) : Option Nat :=
  ofRatio (num * Nat.pow 2 exponent.toNat) (den * Nat.pow 2 (-exponent).toNat)

def mul (a b : Nat) : Option Nat :=
  let (m, p) := decode a
  let (n, q) := decode b
  ofScaled (m * n) 1 (p + q)

def div (a b : Nat) : Option Nat :=
  let (m, p) := decode a
  let (n, q) := decode b
  ofScaled m n (p - q)

/-- The least `k` with `num / den < 10 ^ k`, for a positive ratio. -/
def decimalPoint (num den : Nat) : Int :=
  if den ≤ num then digitCount (num / den)
  else
    let j := digitCount (den / num) - 1
    if num * Nat.pow 10 j ≥ den then 1 - (j : Int) else -(j : Int)

/-- A point of the grid of multiples of `10 ^ p` with distance from `num / den` at most `below / den`
downward and `above / den` upward (the ends only when `closed`): one of the two neighbours of the
value, the nearer if both qualify, the even one in a tie. -/
def gridPoint (num den below above : Nat) (closed : Bool) (p : Int) : Option Nat :=
  let up := Nat.pow 10 p.toNat
  let down := Nat.pow 10 (-p).toNat
  let n := num * down
  let d := den * up
  let c := n / d
  let under := n - c * d
  let rest := (c + 1) * d - n
  let within (distance bound : Nat) : Bool :=
    distance < bound * down || (closed && distance == bound * down)
  match within under below && c != 0, within rest above with
  | true, true =>
    if under < rest ∨ (under = rest ∧ c % 2 = 0) then some c else some (c + 1)
  | true, false => some c
  | false, true => some (c + 1)
  | false, false => none

def search (num den below above : Nat) (closed : Bool) (point : Int) : Nat → Nat → Nat × Int
  | 0, n =>
    (num * Nat.pow 10 (n - point).toNat / (den * Nat.pow 10 (point - n).toNat), point - n)
  | fuel + 1, n =>
    match gridPoint num den below above closed (point - n) with
    | some c => (c, point - n)
    | none => search num den below above closed point fuel (n + 1)

/-- Digits and exponent `(c, p)`, meaning `c * 10 ^ p`, of the shortest numeral that reads back as
the positive finite bit pattern `bits`. -/
def shortest (bits : Nat) : Nat × Int :=
  let (m, q) := decode bits
  let num := 4 * m * Nat.pow 2 q.toNat
  let den := 4 * Nat.pow 2 (-q).toNat
  let unit := Nat.pow 2 q.toNat
  let below := if m = leadingBit ∧ q > -1074 then unit else 2 * unit
  search num den below (2 * unit) (m % 2 = 0) (decimalPoint num den) 17 1

end Bundler.Binary64
