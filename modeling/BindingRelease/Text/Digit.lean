import BindingRelease.Text.Blank
/-!
Decimal digits of every script: Unicode gives each a block of ten code points in ascending order,
so a table of the zeros is enough.
-/
namespace BindingRelease.Text

def digitZeros : List Nat :=
  [0x30, 0x660, 0x6F0, 0x7C0, 0x966, 0x9E6, 0xA66, 0xAE6, 0xB66, 0xBE6, 0xC66, 0xCE6, 0xD66,
    0xDE6, 0xE50, 0xED0, 0xF20, 0x1040, 0x1090, 0x17E0, 0x1810, 0x1946, 0x19D0, 0x1A80, 0x1A90,
    0x1B50, 0x1BB0, 0x1C40, 0x1C50, 0xA620, 0xA8D0, 0xA900, 0xA9D0, 0xA9F0, 0xAA50, 0xABF0,
    0xFF10, 0x104A0, 0x10D30, 0x11066, 0x110F0, 0x11136, 0x111D0, 0x112F0, 0x11450, 0x114D0,
    0x11650, 0x116C0, 0x11730, 0x118E0, 0x11950, 0x11C50, 0x11D50, 0x11DA0, 0x16A60, 0x16AC0,
    0x16B50, 0x1D7CE, 0x1D7D8, 0x1D7E2, 0x1D7EC, 0x1D7F6, 0x1E140, 0x1E2F0, 0x1E950, 0x1FBF0]

def digitValue? (c : Char) : Option Nat :=
  (digitZeros.find? fun z => z ≤ c.toNat && c.toNat < z + 10).map (c.toNat - ·)

def isAsciiDigit (c : Char) : Bool :=
  '0' ≤ c && c ≤ '9'

def asciiDigitValue (c : Char) : Nat :=
  c.toNat - 48

def natOfDigits (cs : List Char) : Nat :=
  cs.foldl (fun n c => 10 * n + asciiDigitValue c) 0

def hexValue? (c : Char) : Option Nat :=
  if isAsciiDigit c then some (c.toNat - 48)
  else if 'a' ≤ c && c ≤ 'f' then some (c.toNat - 87)
  else if 'A' ≤ c && c ≤ 'F' then some (c.toNat - 55)
  else none

def natInBase? (base : Nat) (cs : List Char) : Option Nat :=
  if cs.isEmpty then none
  else cs.foldlM (fun n c => do
    let d ← hexValue? c
    if d < base then some (base * n + d) else none) 0

def decimalText (n : Nat) : String :=
  String.ofList (Nat.toDigits 10 n)

def integerText (i : Int) : String :=
  match i with
  | .ofNat n => decimalText n
  | .negSucc n => "-" ++ decimalText (n + 1)

def paddedText (width n : Nat) : String :=
  let ds := Nat.toDigits 10 n
  String.ofList (List.replicate (width - ds.length) '0' ++ ds)

def hexText : Nat → Nat → String
  | 0, _ => ""
  | w + 1, n => hexText w (n / 16) ++ String.singleton (Nat.digitChar (n % 16))

/-- Reads an integer as people type it: blanks around it, an optional sign, and decimal digits of
any script with single underscores between them. -/
def readInteger? (cs : List Char) : Option Int :=
  let rec digits : List Char → Bool → Nat → Option Nat
    | [], afterDigit, n => if afterDigit then some n else none
    | c :: rest, afterDigit, n =>
      if c = '_' then (if afterDigit then digits rest false n else none)
      else match digitValue? c with
        | some d => digits rest true (10 * n + d)
        | none => none
  match trimPadding cs with
  | '-' :: rest => (digits rest false 0).map fun n => -(n : Int)
  | '+' :: rest => (digits rest false 0).map Int.ofNat
  | ds => (digits ds false 0).map Int.ofNat

end BindingRelease.Text
