import Accounts.Toml.Reader

/-! Writing strings and lists of strings for a TOML document. A string is written without escapes if
one of the four forms allows that, and in the first of them that does. -/
namespace Accounts.Toml

/-- The four forms of a string: with which quotes, and whether three of them. -/
inductive Form where
  | basic
  | literal
  | basicLines
  | literalLines
  deriving DecidableEq, Repr

/-- The longest run of a character in a text, where `run` of them stand before it. -/
def longestRun (c : Char) (run : Nat) : List Char → Nat
  | [] => run
  | d :: rest => if d = c then longestRun c (run + 1) rest else max run (longestRun c 0 rest)

/-- Control characters that no form holds as they are. -/
def isControl (c : Char) : Bool := c != '\n' && !isPlain c

/-- The form in which a text is written. -/
def Form.for (s : List Char) : Form :=
  let escaped := s.any isControl
  let newline := s.contains '\n'
  let backslash := s.contains '\\'
  let doubles := longestRun '"' 0 s
  let singles := longestRun '\'' 0 s
  if !escaped && !backslash && !newline && doubles = 0 then basic
  else if !escaped && !newline && singles = 0 then literal
  else if !escaped && !backslash && doubles ≤ 2 then basicLines
  else if !escaped && singles ≤ 2 then literalLines
  else if newline then basicLines
  else basic

/-- Whether a string in this form may run over several lines. -/
def Form.hasLines : Form → Bool
  | basic => false
  | literal => false
  | basicLines => true
  | literalLines => true

/-- The quotes around a string. -/
def Form.quotes : Form → List Char
  | basic => ['"']
  | literal => ['\'']
  | basicLines => ['"', '"', '"']
  | literalLines => ['\'', '\'', '\'']

/-- A character by its number. -/
def numbered (c : Char) : List Char :=
  let digits := (Nat.toDigits 16 c.toNat).map Char.toUpper
  '\\' :: 'u' :: List.replicate (4 - digits.length) '0' ++ digits

/-- A text with escapes. Of the quotes in a row every one after the first `free` is escaped, from
which counting starts anew; `run` of them stand before the text. -/
def escape (lines : Bool) (free run : Nat) : List Char → List Char
  | [] => []
  | c :: rest =>
    if c = '"' then
      if run < free then c :: escape lines free (run + 1) rest
      else '\\' :: '"' :: escape lines free 0 rest
    else if c = '\\' then '\\' :: '\\' :: escape lines free 0 rest
    else if c = '\x08' then '\\' :: 'b' :: escape lines free 0 rest
    else if c = '\t' then '\\' :: 't' :: escape lines free 0 rest
    else if c = '\x0c' then '\\' :: 'f' :: escape lines free 0 rest
    else if c = '\r' then '\\' :: 'r' :: escape lines free 0 rest
    else if c = '\n' then
      if lines then '\n' :: escape lines free 0 rest else '\\' :: 'n' :: escape lines free 0 rest
    else if isControl c then numbered c ++ escape lines free 0 rest
    else c :: escape lines free 0 rest

/-- A text in a form. One that runs over lines begins on a line of its own. -/
def Form.write (form : Form) (s : List Char) : List Char :=
  let body := match form with
    | basic => escape false 0 0 s
    | basicLines => escape true 2 0 s
    | literal => s
    | literalLines => s
  form.quotes ++ (if form.hasLines && s.contains '\n' then ['\n'] else []) ++ body ++ form.quotes

/-- A string. -/
def writeString (s : String) : List Char := (Form.for s.toList).write s.toList

/-- A list of strings, on one line unless there are several. -/
def writeStrings : List String → List Char
  | [] => ['[', ']']
  | [s] => '[' :: writeString s ++ [']']
  | items =>
    '[' :: '\n' :: items.flatMap (fun s => ' ' :: ' ' :: ' ' :: ' ' :: writeString s ++ [',', '\n'])
      ++ [']']

/-- A field on a line of its own. -/
def writeField (name : String) (value : List Char) : List Char :=
  name.toList ++ ' ' :: '=' :: ' ' :: value ++ ['\n']

end Accounts.Toml
