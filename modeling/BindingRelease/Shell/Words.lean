/-!
Shell words. A command line is cut at spaces, tabs, carriage returns and line feeds; single quotes
keep everything between them, double quotes everything but a backslash before a double quote or a
backslash, and a bare backslash keeps the next character. Quoting writes any text as one word.
-/
namespace BindingRelease.Shell

inductive WordError where
  | unclosedQuote
  | danglingEscape
  deriving DecidableEq, Repr

def WordError.message : WordError → String
  | unclosedQuote => "No closing quotation"
  | danglingEscape => "No escaped character"

def isSeparator (c : Char) : Bool :=
  c == ' ' || c == '\t' || c == '\r' || c == '\n'

/-- Where the reader stands; the letters are those of the open word. -/
inductive Place where
  | between
  | bare (letters : List Char)
  | single (letters : List Char)
  | double (letters : List Char)

def wordsFrom : Place → List Char → Except WordError (List (List Char))
  | .between, [] => .ok []
  | .bare w, [] => .ok [w]
  | .single _, [] | .double _, [] => .error .unclosedQuote
  | .between, c :: cs =>
    if isSeparator c then wordsFrom .between cs
    else if c = '\'' then wordsFrom (.single []) cs
    else if c = '"' then wordsFrom (.double []) cs
    else if c = '\\' then
      match cs with
      | [] => .error .danglingEscape
      | d :: ds => wordsFrom (.bare [d]) ds
    else wordsFrom (.bare [c]) cs
  | .bare w, c :: cs =>
    if isSeparator c then (wordsFrom .between cs).map (w :: ·)
    else if c = '\'' then wordsFrom (.single w) cs
    else if c = '"' then wordsFrom (.double w) cs
    else if c = '\\' then
      match cs with
      | [] => .error .danglingEscape
      | d :: ds => wordsFrom (.bare (w ++ [d])) ds
    else wordsFrom (.bare (w ++ [c])) cs
  | .single w, c :: cs =>
    if c = '\'' then wordsFrom (.bare w) cs else wordsFrom (.single (w ++ [c])) cs
  | .double w, c :: cs =>
    if c = '"' then wordsFrom (.bare w) cs
    else if c = '\\' then
      match cs with
      | [] => .error .danglingEscape
      | d :: ds =>
        if d = '"' || d = '\\' then wordsFrom (.double (w ++ [d])) ds
        else wordsFrom (.double (w ++ ['\\', d])) ds
    else wordsFrom (.double (w ++ [c])) cs

def words (cs : List Char) : Except WordError (List (List Char)) :=
  wordsFrom .between cs

def split (s : String) : Except WordError (List String) :=
  (words s.toList).map (·.map String.ofList)

def isPlain (c : Char) : Bool :=
  ('a' ≤ c && c ≤ 'z') || ('A' ≤ c && c ≤ 'Z') || ('0' ≤ c && c ≤ '9') ||
    ['_', '@', '%', '+', '=', ':', ',', '.', '/', '-'].contains c

/-- A single quote inside single quotes: close, quote it in double quotes, open again. -/
def quotedLetters : List Char → List Char
  | [] => []
  | c :: cs => if c = '\'' then ['\'', '"', '\'', '"', '\''] ++ quotedLetters cs
      else c :: quotedLetters cs

def quoteChars (cs : List Char) : List Char :=
  if cs = [] then ['\'', '\'']
  else if cs.all isPlain then cs
  else '\'' :: (quotedLetters cs ++ ['\''])

/-- Writes a text so that a shell reads it as one word. -/
def quote (s : String) : String :=
  String.ofList (quoteChars s.toList)

end BindingRelease.Shell
