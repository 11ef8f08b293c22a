/-!
The shortest decimal that reads back as a given binary fraction. A finite double is `m · 2^q`; the
reals nearest to it form an interval around it, closed when `m` is even. Grids of one, two, …
seventeen decimal digits are tried in turn: the first on which a neighbour of the value lies in the
interval gives the digits, and of two such neighbours the nearer one.
-/
namespace BindingRelease.Decimal

/-- A positive decimal `0.d₁d₂…dₙ · 10^point`, digits without leading zero. -/
structure Digits where
  digits : Nat
  point : Int

/-- A positive double `mantissa · 2^exponent`; `lowEdge` marks a power of two, whose lower
neighbour is twice as close. -/
structure Binary where
  mantissa : Nat
  exponent : Int
  lowEdge : Bool

/-- The three points `low ≤ value ≤ high` of the rounding interval over one denominator. -/
structure Interval where
  low : Nat
  value : Nat
  high : Nat
  denominator : Nat
  closed : Bool

def Binary.interval (b : Binary) : Interval :=
  let (num, den) : Nat × Nat := match b.exponent with
    | .ofNat e => (Nat.pow 2 e, 1)
    | .negSucc e => (1, Nat.pow 2 (e + 1))
  let value := 4 * b.mantissa * num
  { low := value - (if b.lowEdge then 1 else 2) * num
    value := value
    high := value + 2 * num
    denominator := 4 * den
    closed := b.mantissa % 2 == 0 }

def Interval.holds (i : Interval) (num den : Nat) : Bool :=
  let x := num * i.denominator
  let lo := i.low * den
  let hi := i.high * den
  if i.closed then lo ≤ x && x ≤ hi else lo < x && x < hi

def pointOf (num den : Nat) : Int :=
  if num ≥ den then (Nat.toDigits 10 (num / den)).length
  else
    -- `den / num ≥ 10^k` leaves `k` zeros after the point
    let k := (Nat.toDigits 10 (den / num)).length - 1
    if num * Nat.pow 10 k = den then 1 - (k : Int) else -(k : Int)

def gridUnit (point : Int) (count : Nat) : Nat × Nat :=
  match point - count with
  | .ofNat e => (Nat.pow 10 e, 1)
  | .negSucc e => (1, Nat.pow 10 (e + 1))

def onGrid? (i : Interval) (point : Int) (count : Nat) : Option Digits :=
  let (unum, uden) := gridUnit point count
  -- value / unit = (value · uden) / (denominator · unum)
  let num := i.value * uden
  let den := i.denominator * unum
  let below := num / den
  let above := below + 1
  let fits (k : Nat) : Bool := k > 0 && i.holds (k * unum) uden
  let rest := num % den
  match fits below, fits above with
  | true, true =>
    if 2 * rest < den || (2 * rest == den && below % 2 == 0) then some ⟨below, point⟩
    else some ⟨above, point⟩
  | true, false => some ⟨below, point⟩
  | false, true => some ⟨above, point⟩
  | false, false => none

def shortest (b : Binary) : List Char × Int :=
  let i := b.interval
  let point := pointOf i.value i.denominator
  let found := (List.range 17).findSome? fun k => (onGrid? i point (k + 1)).map (k + 1, ·)
  match found with
  | none => (['0'], 1)
  | some (count, d) =>
    let ds := Nat.toDigits 10 d.digits
    -- rounding up may have carried into one more digit
    let point := d.point + ((ds.length : Int) - count)
    ((ds.reverse.dropWhile (· == '0')).reverse, point)

def decode (x : Float) : Bool × Option Binary :=
  let bits := x.toBits.toNat
  let negative := bits / Nat.pow 2 63 == 1
  let biased : Nat := bits / Nat.pow 2 52 % 2048
  let fraction : Nat := bits % Nat.pow 2 52
  if biased == 2047 || (biased == 0 && fraction == 0) then (negative, none)
  else if biased == 0 then (negative, some ⟨fraction, -1074, false⟩)
  else
    (negative, some ⟨Nat.pow 2 52 + fraction, (biased : Int) - 1075, fraction == 0 && biased > 1⟩)

/-- Writes a double: positional from `0.0001` up to `10^16` with at least one decimal, otherwise
with a mantissa and a signed exponent of at least two digits. -/
def floatText (x : Float) : String :=
  if x.isNaN then "nan"
  else match decode x with
    | (negative, none) =>
      (if negative then "-" else "") ++ (if x.isInf then "inf" else "0.0")
    | (negative, some b) =>
      let (ds, point) := shortest b
      let n := ds.length
      let body : List Char :=
        if -4 < point && point ≤ 16 then
          if point ≤ 0 then ['0', '.'] ++ List.replicate point.natAbs '0' ++ ds
          else
            let p := point.toNat
            if n ≤ p then ds ++ List.replicate (p - n) '0' ++ ['.', '0']
            else ds.take p ++ ['.'] ++ ds.drop p
        else
          let e := point - 1
          let es := Nat.toDigits 10 e.natAbs
          ds.take 1 ++ (if n = 1 then [] else '.' :: ds.drop 1) ++
            ['e', if e < 0 then '-' else '+'] ++
            (if es.length < 2 then '0' :: es else es)
      (if negative then "-" else "") ++ String.ofList body

end BindingRelease.Decimal
