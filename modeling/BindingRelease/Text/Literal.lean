import BindingRelease.Text.Digit
import BindingRelease.Text.Printable
/-!
Quoted literals. A text stands in single quotes, or in double quotes when it holds a single quote
and no double one. Backslash, the enclosing quote, tab, line feed and carriage return take a
backslash; other characters that do not print are written by their code in the shortest of the
three hexadecimal forms.
-/
namespace BindingRelease.Text

def codeEscape (n : Nat) : String :=
  if n < 0x100 then "\\x" ++ hexText 2 n
  else if n < 0x10000 then "\\u" ++ hexText 4 n
  else "\\U" ++ hexText 8 n

def escapeIn (quote : Char) (shows : Char → Bool) (c : Char) : String :=
  if c = quote || c = '\\' then "\\" ++ String.singleton c
  else if c = '\t' then "\\t"
  else if c = '\n' then "\\n"
  else if c = '\r' then "\\r"
  else if shows c then String.singleton c
  else codeEscape c.toNat

def quoteFor (cs : List Char) : Char :=
  if cs.contains '\'' && !cs.contains '"' then '"' else '\''

def literalWith (shows : Char → Bool) (s : String) : String :=
  let q := quoteFor s.toList
  String.singleton q ++ String.join (s.toList.map (escapeIn q shows)) ++ String.singleton q

/-- The literal of a text; printable characters of every script show as themselves. -/
def literal (s : String) : String :=
  literalWith isPrintable s

def asciiLiteral (s : String) : String :=
  literalWith (fun c => 32 ≤ c.toNat && c.toNat < 127) s

def byteEscape (quote : Char) (b : UInt8) : String :=
  escapeIn quote (fun c => 32 ≤ c.toNat && c.toNat < 127) (Char.ofNat b.toNat)

/-- The literal of a byte string: `b` and the literal of the bytes read as code points. -/
def bytesLiteral (bs : List UInt8) : String :=
  let q := quoteFor (bs.map fun b => Char.ofNat b.toNat)
  "b" ++ String.singleton q ++ String.join (bs.map (byteEscape q)) ++ String.singleton q

end BindingRelease.Text
