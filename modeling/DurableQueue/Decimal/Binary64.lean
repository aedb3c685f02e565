import DurableQueue.Time.Span

/-!
Decimal text of binary floating-point numbers.

`Binary64.shortest` finds the fewest digits that read back as the same number and, among those, the
nearest to it. `Binary64.render` lays the digits out as a `Layout` says: positionally for a range of
exponents, with an exponent outside it. `Binary64.toSpan?` reads a number as seconds and rounds it
to the nearest nanosecond, a tie to the even neighbour.
-/

namespace DurableQueue.Binary64

/-- A finite number as sign, integral significand and power of two. -/
structure Parts where
  negative : Bool
  significand : Nat
  exponent : Int

def parts (x : Float) : Parts :=
  let bits := x.toBits.toNat
  let stored : Nat := bits / Nat.pow 2 52 % 2048
  let low : Nat := bits % Nat.pow 2 52
  let negative := Nat.pow 2 63 ≤ bits
  if stored = 0 then ⟨negative, low, -1074⟩
  else ⟨negative, low + Nat.pow 2 52, (stored : Int) - 1075⟩

/-- A positive fraction scaled by a power of ten, as numerator and denominator. -/
def scaled (num den : Nat) (power : Int) : Nat × Nat :=
  if 0 ≤ power then (num * Nat.pow 10 power.toNat, den) else (num, den * Nat.pow 10 (-power).toNat)

/-- The exponent of the first digit of a positive fraction. -/
def leadingExponent (num den : Nat) : Int :=
  let guess : Int := ((Nat.log2 num : Int) - Nat.log2 den) * 30103 / 100000
  let fits (e : Int) : Bool :=
    let (n, d) := scaled num den (-e)
    d ≤ n && n < 10 * d
  if fits guess then guess
  else if fits (guess + 1) then guess + 1
  else if fits (guess - 1) then guess - 1
  else guess + 2

/-- Digits and the exponent of the first of them. -/
structure Digits where
  digits : List Char
  exponent : Int

/-- Tries the grids of 1, 2, … 17 digits. On the first grid that has a point between `low` and
`high` the point nearest to `value` wins; all three numbers count units of `1 / den`. -/
def firstGrid (value low high den : Nat) (closed : Bool) (leading : Int) : Nat → Nat → Digits
  | 0, places =>
    let (n, d) := scaled value den (places - 1 - leading)
    ⟨Nat.toDigits 10 (n / d), leading⟩
  | fuel + 1, places =>
    let power : Int := (places : Int) - 1 - leading
    let (n, d) := scaled value den power
    let (l, _) := scaled low den power
    let (h, _) := scaled high den power
    let inside (p : Nat) : Bool :=
      if closed then l ≤ p * d && p * d ≤ h else l < p * d && p * d < h
    let down := n / d
    let up := down + 1
    let pick : Option Nat :=
      match inside down, inside up with
      | true, true =>
        let below := n - down * d
        let above := up * d - n
        if below < above then some down
        else if above < below then some up
        else some (if down % 2 = 0 then down else up)
      | true, false => some down
      | false, true => some up
      | false, false => none
    match pick with
    | some p =>
      let text := Nat.toDigits 10 p
      ⟨text, leading + ((text.length : Int) - places)⟩
    | none => firstGrid value low high den closed leading fuel (places + 1)

/-- The shortest digits that read back as a positive finite number. -/
def shortest (p : Parts) : Digits :=
  let m := p.significand
  let narrow := m = Nat.pow 2 52 ∧ -1074 < p.exponent
  let value := 4 * m
  let low := if narrow then 4 * m - 1 else 4 * m - 2
  let high := 4 * m + 2
  let shift := p.exponent - 2
  let up := if 0 ≤ shift then Nat.pow 2 shift.toNat else 1
  let den := if 0 ≤ shift then 1 else Nat.pow 2 (-shift).toNat
  let found := firstGrid (value * up) (low * up) (high * up) den (m % 2 == 0)
    (leadingExponent (value * up) den) 17 1
  match (found.digits.reverse.dropWhile (· == '0')).reverse with
  | [] => found
  | kept => ⟨kept, found.exponent⟩

/-- How digits are laid out. -/
structure Layout where
  /-- Exponents of the first digit that are written positionally; all, if there is no bound. -/
  positional : Option (Int × Int)
  /-- Whether a whole number ends in `.0`. -/
  pointZero : Bool
  /-- Whether a positive exponent has a sign. -/
  plusSign : Bool

/-- The layout inside messages about structured text: a point always, an exponent from
ten to the sixteenth on and below a hundred-thousandth. -/
def Layout.scientific : Layout := ⟨some (-5, 15), true, true⟩

/-- The layout inside diagnostic texts: a point always, an exponent from ten to the sixteenth on
and below a ten-thousandth. -/
def Layout.diagnostic : Layout := ⟨some (-4, 15), true, false⟩

/-- The layout of settings: no exponent, no superfluous point. -/
def Layout.plain : Layout := ⟨none, false, false⟩

/-- Lays digits out with a decimal point and no exponent. -/
def positional (d : Digits) (pointZero : Bool) : List Char :=
  let count : Int := d.digits.length
  if d.exponent < 0 then
    '0' :: '.' :: (List.replicate (-d.exponent - 1).toNat '0' ++ d.digits)
  else if count ≤ d.exponent + 1 then
    d.digits ++ List.replicate (d.exponent + 1 - count).toNat '0' ++
      (if pointZero then ['.', '0'] else [])
  else
    let whole := (d.exponent + 1).toNat
    d.digits.take whole ++ '.' :: d.digits.drop whole

/-- Lays digits out with an exponent. -/
def withExponent (d : Digits) (plusSign : Bool) : List Char :=
  let mantissa := match d.digits with
    | [] => []
    | [c] => [c]
    | c :: rest => c :: '.' :: rest
  let sign := if d.exponent < 0 then ['-'] else if plusSign then ['+'] else []
  mantissa ++ 'e' :: (sign ++ Nat.toDigits 10 d.exponent.natAbs)

/-- A number in decimal. -/
def render (layout : Layout) (x : Float) : String :=
  if x.isNaN then "NaN"
  else if x.isInf then (if x < 0.0 then "-inf" else "inf")
  else
    let p := parts x
    let digits : Digits := if p.significand = 0 then ⟨['0'], 0⟩ else shortest p
    let body := match layout.positional with
      | none => positional digits layout.pointZero
      | some (low, high) =>
        if low ≤ digits.exponent ∧ digits.exponent ≤ high then positional digits layout.pointZero
        else withExponent digits layout.plusSign
    String.ofList (if p.negative then '-' :: body else body)

/-- The number nearest to `digits * 10 ^ exponent`; far beyond the range it is infinite or nought. -/
def ofDecimal (digits : Nat) (exponent : Int) : Float :=
  let magnitude : Int := exponent + (Nat.toDigits 10 digits).length
  if digits = 0 ∨ magnitude < -400 then 0.0
  else if 400 < magnitude then 1.0 / 0.0
  else if 0 ≤ exponent then Float.ofScientific digits false exponent.toNat
  else Float.ofScientific digits true (-exponent).toNat

/-- A quotient rounded to the nearest integer, a tie to the even one. -/
def roundEven (num den : Nat) : Nat :=
  let q := num / den
  let r := num % den
  if 2 * r < den then q
  else if den < 2 * r then q + 1
  else if q % 2 = 0 then q else q + 1

/-- A number of seconds as a span; none for a negative number, one that is out of range or NaN. -/
def toSpan? (x : Float) : Option Span :=
  if x.isNaN || x.isInf || x < 0.0 then none
  else
    let p := parts x
    let up := if 0 ≤ p.exponent then Nat.pow 2 p.exponent.toNat else 1
    let den := if 0 ≤ p.exponent then 1 else Nat.pow 2 (-p.exponent).toNat
    Span.ofNanos? (roundEven (p.significand * up * nanosPerSecond) den)

def ofSpan (s : Span) : Float :=
  s.seconds.toUInt64.toFloat + s.subsecond.toUInt64.toFloat / 1e9

/-- The bits of a number in sixteen hexadecimal digits. -/
def hexadecimal (x : Float) : String :=
  let digits := Nat.toDigits 16 x.toBits.toNat
  String.ofList (List.replicate (16 - digits.length) '0' ++ digits)

end DurableQueue.Binary64
