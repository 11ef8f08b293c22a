import BindingRelease.Text.Blank
import BindingRelease.Text.Digit
/-!
Reading decimal fractions. The exponent is bounded before a power of ten is formed: beyond four
hundred places a value is infinite or zero whatever its digits are.
-/
namespace BindingRelease.Decimal
open BindingRelease.Text

def nearest (digits : Nat) (exponent : Int) : Float :=
  if digits = 0 then 0.0
  else
    let size : Int := (Nat.toDigits 10 digits).length + exponent
    if size > 400 then 1.0 / 0.0
    else if size < -400 then 0.0
    else match exponent with
      | .ofNat e => Float.ofScientific (digits * Nat.pow 10 e) false 0
      | .negSucc e => Float.ofScientific digits true (e + 1)

/-- Integer digits, fraction digits and exponent of an unsigned decimal; `none` when the text is
not one. The exponent part may be missing, and one of the two digit runs may be empty. -/
def unsigned? (cs : List Char) : Option (List Char × List Char × Int) :=
  let whole := cs.takeWhile isAsciiDigit
  let rest := cs.dropWhile isAsciiDigit
  let (fraction, rest) := match rest with
    | '.' :: r => (r.takeWhile isAsciiDigit, r.dropWhile isAsciiDigit)
    | _ => ([], rest)
  if whole.isEmpty && fraction.isEmpty then none
  else match rest with
    | [] => some (whole, fraction, 0)
    | e :: r =>
      if e = 'e' || e = 'E' then
        let (negative, ds) : Bool × List Char := match r with
          | '-' :: t => (true, t)
          | '+' :: t => (false, t)
          | _ => (false, r)
        if ds.isEmpty || !ds.all isAsciiDigit then none
        else
          let n : Int := natOfDigits ds
          some (whole, fraction, if negative then -n else n)
      else none

def unsignedFloat? (cs : List Char) : Option Float :=
  (unsigned? cs).map fun (whole, fraction, e) =>
    nearest (natOfDigits (whole ++ fraction)) (e - fraction.length)

/-- Reads a double as people write it: blanks around it, an optional sign, then a decimal or one
of the words `inf`, `infinity` and `nan` in any case. -/
def float? (cs : List Char) : Option Float :=
  let cs := stripChars cs
  let (negative, body) : Bool × List Char := match cs with
    | '-' :: t => (true, t)
    | '+' :: t => (false, t)
    | _ => (false, cs)
  let lower := body.map Char.toLower
  let magnitude : Option Float :=
    if lower = "inf".toList || lower = "infinity".toList then some (1.0 / 0.0)
    else if lower = "nan".toList then some (0.0 / 0.0)
    else unsignedFloat? body
  magnitude.map fun x => if negative then -x else x

end BindingRelease.Decimal
