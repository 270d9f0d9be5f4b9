/-!
# Written numbers

`Binary.ofFloat` reads a `Float` as a sign and a value `m · 2 ^ q` with natural `m`, or as one of
the values that have no such form. Everything that writes numbers starts from this, in exact
arithmetic on natural numbers.

## Digits

A written number is a list of digits and the power of ten of the first of them. Two ways of
choosing the digits of a positive value are given. `Digits.shortest` takes the fewest digits for
which the written number still rounds to the value, and of those the nearest to it, the larger at
a tie. `Digits.rounded` takes a fixed number of digits, rounded exactly, with a half going to the
even neighbour.

## Layouts

A `Style` says how chosen digits are laid out. Three layouts are used.

* `Style.plain` is that of numbers inside sentences: never an exponent, and no fraction on whole
  numbers.
* `Style.general` is that of numbers as data: a fraction or an exponent always, the exponent
  outside the decades from `10 ^ -4` up to `10 ^ 16`.
* `scientific` is that of columns in progress lines: one digit before the point and a fixed
  number after it.

Zero keeps its sign, and the values that are no numbers are `NaN`, `inf` and `-inf`.
-/

namespace NonlinearProgram

/-! ## Binary values, taken apart -/

/-- A quotient of natural numbers, by which exact values are compared with powers of ten. -/
structure Ratio where
  num : Nat
  den : Nat

namespace Ratio

/-- The value `m · 2 ^ q`. -/
def ofBinary (m : Nat) (q : Int) : Ratio := ⟨m <<< q.toNat, 1 <<< (-q).toNat⟩

/-- The value divided by `10 ^ e`. -/
def shift (r : Ratio) (e : Int) : Ratio :=
  ⟨r.num * Nat.pow 10 (-e).toNat, r.den * Nat.pow 10 e.toNat⟩

/-- Comparison by cross products. -/
def le (r s : Ratio) : Bool := r.num * s.den ≤ s.num * r.den

/-- Strict comparison by cross products. -/
def lt (r s : Ratio) : Bool := r.num * s.den < s.num * r.den

/-- The integral part. -/
def floor (r : Ratio) : Nat := r.num / r.den

/-- The nearest natural number; of two, the even one. -/
def round (r : Ratio) : Nat :=
  let rest := 2 * (r.num % r.den)
  if rest < r.den then r.floor
  else if r.den < rest then r.floor + 1
  else r.floor + r.floor % 2

end Ratio

/-- A floating-point value: undefined, infinite with a sign, or `± m · 2 ^ q`. -/
inductive Binary where
  | undefined
  | infinite (negative : Bool)
  | finite (negative : Bool) (m : Nat) (q : Int)

namespace Binary

/-- Takes a `Float` apart: a sign bit, eleven bits of exponent and fifty-two of fraction. -/
def ofFloat (x : Float) : Binary :=
  let bits := x.toBits.toNat
  let negative := bits >>> 63 == 1
  let exponent : Nat := (bits >>> 52) % 2048
  let fraction : Nat := bits % (1 <<< 52)
  if exponent = 2047 then
    if fraction = 0 then .infinite negative else .undefined
  else if exponent = 0 then .finite negative fraction (-1074)
  else .finite negative ((1 <<< 52) + fraction) ((exponent : Int) - 1075)

end Binary

/-! ## Decimal digits of a value -/

/-- The number `d₀.d₁d₂… · 10 ^ leading`. -/
structure Digits where
  digits : List Nat
  leading : Int

namespace Digits

/-- Looks upward from `e`, at most `fuel` steps, for the power of ten that `r` lies on or above
with the next one above `r`. -/
def leadingFrom (r : Ratio) : Nat → Int → Int
  | 0, e => e
  | fuel + 1, e =>
    if (r.shift (e + 1)).lt ⟨1, 1⟩ then e else leadingFrom r fuel (e + 1)

/-- The power of ten of the first digit of `m · 2 ^ q`, for positive `m`. The search starts below
`log₁₀ 2` times the binary logarithm, for which 30103/100000 is a sufficient approximation. -/
def leadingOf (m : Nat) (q : Int) : Int :=
  let start := (Int.fdiv ((m.log2 + q) * 30103) 100000) - 1
  leadingFrom (.ofBinary m q) 4 start

/-- The decimal digits of a natural number, the first one first. -/
def ofNat (n : Nat) : List Nat := (Nat.toDigits 10 n).map fun c ↦ c.toNat - '0'.toNat

/-- Drops zeros at the end. -/
def trim (ds : List Nat) : List Nat := (ds.reverse.dropWhile (· == 0)).reverse

/-- The number `n · 10 ^ e`, for positive `n`. -/
def ofScaled (n : Nat) (e : Int) : Digits :=
  let ds := ofNat n
  ⟨trim ds, e + ds.length - 1⟩

/-- The values that round to `m · 2 ^ q`: from halfway to the neighbour below up to halfway to the
neighbour above. Below a power of two the neighbour is half as far away. The ends belong to the
interval when `m` is even. -/
structure Interval where
  low : Ratio
  high : Ratio
  closed : Bool

/-- The interval of values that round to `m · 2 ^ q`. -/
def Interval.ofBinary (m : Nat) (q : Int) : Interval where
  low := .ofBinary (if m = 1 <<< 52 ∧ -1074 < q then 4 * m - 1 else 4 * m - 2) (q - 2)
  high := .ofBinary (4 * m + 2) (q - 2)
  closed := m % 2 = 0

/-- Whether the interval holds a value. -/
def Interval.holds (i : Interval) (r : Ratio) : Bool :=
  if i.closed then i.low.le r && r.le i.high else i.low.lt r && r.lt i.high

/-- The multiple of `10 ^ e` in the interval next to the value `r`, if there is one; of two the
nearer, at a tie the larger. -/
def nearestOn (i : Interval) (r : Ratio) (e : Int) : Option Nat :=
  let n := (r.shift e).floor
  let at10 (k : Nat) : Ratio := (⟨k, 1⟩ : Ratio).shift (-e)
  let rest := (r.shift e).num % (r.shift e).den
  match i.holds (at10 n), i.holds (at10 (n + 1)) with
  | true, true => some (if 2 * rest < (r.shift e).den then n else n + 1)
  | true, false => some n
  | false, true => some (n + 1)
  | false, false => none

/-- Tries one digit more at a time, from the grid of `10 ^ e` on. -/
def shortestFrom (i : Interval) (r : Ratio) : Nat → Int → Digits
  | 0, e => ofScaled (r.shift e).round e
  | fuel + 1, e =>
    match nearestOn i r e with
    | some n => ofScaled n e
    | none => shortestFrom i r fuel (e - 1)

/-- The fewest digits that read back as `m · 2 ^ q`, for positive `m`. Seventeen always do. -/
def shortest (m : Nat) (q : Int) : Digits :=
  shortestFrom (.ofBinary m q) (.ofBinary m q) 17 (leadingOf m q)

/-- The first `count + 1` digits of `m · 2 ^ q`, rounded, for positive `m`. -/
def rounded (m : Nat) (q : Int) (count : Nat) : Digits :=
  let e := leadingOf m q - count
  let n := ((Ratio.ofBinary m q).shift e).round
  let ds := ofNat n
  ⟨ds.take (count + 1), e + ds.length - 1⟩

end Digits

/-! ## Layouts of digits -/

/-- How shortest digits are laid out. -/
structure Style where
  /-- The powers of ten of the first digit for which no exponent is written. -/
  positional : Int → Bool
  /-- Whether a whole number without exponent ends in a zero fraction. -/
  fraction : Bool

namespace Style

/-- Numbers inside sentences. -/
def plain : Style := ⟨fun _ ↦ true, false⟩

/-- Numbers as data. -/
def general : Style := ⟨fun e ↦ -4 ≤ e && e < 16, true⟩

/-- The text of a list of digits. -/
def digitText (ds : List Nat) : String := String.ofList (ds.map Nat.digitChar)

/-- Digits around a point that stands after the digit of power zero. -/
def positionalText (fraction : Bool) (d : Digits) : String :=
  if d.leading < 0 then
    "0." ++ digitText (List.replicate ((-d.leading).toNat - 1) 0 ++ d.digits)
  else
    let whole := d.leading.toNat + 1
    let front := d.digits.take whole
    let back := d.digits.drop whole
    let padded := front ++ List.replicate (whole - front.length) 0
    if back.isEmpty then
      if fraction then digitText padded ++ ".0" else digitText padded
    else digitText padded ++ "." ++ digitText back

/-- One digit, the others after a point, and the power of ten of the first. -/
def exponentText (d : Digits) : String :=
  let front := digitText (d.digits.take 1)
  let back := d.digits.drop 1
  let mark := "e" ++ toString d.leading
  if back.isEmpty then front ++ mark else front ++ "." ++ digitText back ++ mark

/-- The text of shortest digits in a style. -/
def text (s : Style) (d : Digits) : String :=
  if s.positional d.leading then positionalText s.fraction d else exponentText d

/-- The text of a value in a style. -/
def write (s : Style) (x : Float) : String :=
  match Binary.ofFloat x with
  | .undefined => "NaN"
  | .infinite negative => if negative then "-inf" else "inf"
  | .finite negative m q =>
    let body := if m = 0 then (if s.fraction then "0.0" else "0") else s.text (.shortest m q)
    if negative then "-" ++ body else body

end Style

/-- A value with one digit before the point and `places` after it, rounded; `signed` writes a
plus before what is not negative. -/
def scientific (places : Nat) (signed : Bool) (x : Float) : String :=
  let mark (negative : Bool) : String := if negative then "-" else if signed then "+" else ""
  match Binary.ofFloat x with
  | .undefined => "NaN"
  | .infinite negative => mark negative ++ "inf"
  | .finite negative m q =>
    let d : Digits := if m = 0 then ⟨List.replicate (places + 1) 0, 0⟩ else .rounded m q places
    mark negative ++ Style.exponentText d

end NonlinearProgram
