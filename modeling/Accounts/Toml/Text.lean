import Accounts.Text.Hex

/-! Strings, names and white space of TOML. A string stands between one quote and the next of its
kind, on one line, or between three and three, where it may run over several lines. In double quotes
a backslash escapes; single quotes take the text as it is. -/
namespace Accounts.Toml

/-- White space within a line. -/
def isBlank (c : Char) : Bool := c == ' ' || c == '\t'

/-- What strings and comments may hold as it is: all but control characters, the tab excepted. -/
def isPlain (c : Char) : Bool :=
  c == '\t' || (0x20 ≤ c.toNat && c != '\x7f')

/-- What a name may consist of without quotes. -/
def isBare (c : Char) : Bool := c.isAlphanum || c == '_' || c == '-'

/-- Cut a text after the quote that closes it. With escapes, a quote after a backslash does not
close. -/
def cutQuote (quote : Char) (escapes : Bool) : List Char → Option (List Char × List Char)
  | [] => none
  | [c] => if c = quote then some ([], []) else none
  | c :: d :: rest =>
    if c = quote then some ([], d :: rest)
    else if escapes ∧ c = '\\' then
      (cutQuote quote escapes rest).map fun (body, tail) => (c :: d :: body, tail)
    else (cutQuote quote escapes (d :: rest)).map fun (body, tail) => (c :: body, tail)

/-- Cut a text after the three quotes that close it. Up to two quotes just before those belong to
the text. -/
def cutQuotes (quote : Char) (escapes : Bool) : List Char → Option (List Char × List Char)
  | [] => none
  | [_] => none
  | c :: d :: rest =>
    if c = quote ∧ d = quote ∧ rest.head? = some quote then
      let more := min 2 ((rest.drop 1).takeWhile (· == quote)).length
      some (List.replicate more quote, rest.drop (1 + more))
    else if escapes ∧ c = '\\' then
      (cutQuotes quote escapes rest).map fun (body, tail) => (c :: d :: body, tail)
    else (cutQuotes quote escapes (d :: rest)).map fun (body, tail) => (c :: body, tail)

/-- The character with a number, given in hexadecimal. -/
def numbered? (digits : List Char) : Option Char :=
  (Text.readHex? digits).bind fun n => if n.isValidChar then some (Char.ofNat n) else none

/-- The character that a one-letter escape stands for. -/
def escaped? : Char → Option Char
  | 'b' => some '\x08'
  | 'e' => some '\x1b'
  | 't' => some '\t'
  | 'n' => some '\n'
  | 'f' => some '\x0c'
  | 'r' => some '\r'
  | '"' => some '"'
  | '\\' => some '\\'
  | _ => none

/-- Whether a text begins with the end of a line. -/
def atLineEnd : List Char → Bool
  | '\n' :: _ => true
  | '\r' :: '\n' :: _ => true
  | _ => false

/-- Replace every escape by what it stands for. A backslash with nothing but white space behind it
on its line joins the line to what follows: the backslash, the end of the line and all white space
after it drop out. While `joining`, white space drops out. No escape goes on behind a joint, because
what stands there is read anew. -/
def unescape? (joining : Bool) : List Char → Option (List Char)
  | [] => some []
  | '\\' :: 'x' :: a :: b :: rest =>
    match numbered? [a, b], unescape? false rest with
    | some e, some s => some (e :: s)
    | _, _ => none
  | '\\' :: 'u' :: a :: b :: c :: d :: rest =>
    match numbered? [a, b, c, d], unescape? false rest with
    | some e, some s => some (e :: s)
    | _, _ => none
  | '\\' :: 'U' :: a :: b :: c :: d :: e :: f :: g :: h :: rest =>
    match numbered? [a, b, c, d, e, f, g, h], unescape? false rest with
    | some e, some s => some (e :: s)
    | _, _ => none
  | '\\' :: c :: rest =>
    if atLineEnd ((c :: rest).dropWhile isBlank) then unescape? true (c :: rest)
    else
      match escaped? c, unescape? false rest with
      | some e, some s => some (e :: s)
      | _, _ => none
  | c :: rest =>
    if c = '\\' then none
    else if joining ∧ (isBlank c ∨ c = '\n' ∨ c = '\r') then unescape? true rest
    else (unescape? false rest).map (c :: ·)

/-- Whether a text of several lines holds nothing but plain characters and ends of lines. -/
def isPlainLines : List Char → Bool
  | [] => true
  | '\r' :: '\n' :: rest => isPlainLines rest
  | c :: rest => (c == '\n' || isPlain c) && isPlainLines rest

/-- Drop an end of line just after the opening quotes. -/
def dropLineEnd : List Char → List Char
  | '\n' :: rest => rest
  | '\r' :: '\n' :: rest => rest
  | s => s

/-- Read a string on one line. -/
def readLineString? : List Char → Option (String × List Char)
  | '"' :: rest =>
    match cutQuote '"' true rest with
    | some (body, tail) =>
      if body.all isPlain then (unescape? false body).map fun s => (String.ofList s, tail) else none
    | none => none
  | '\'' :: rest =>
    match cutQuote '\'' false rest with
    | some (body, tail) => if body.all isPlain then some (String.ofList body, tail) else none
    | none => none
  | _ => none

/-- Read a string. -/
def readString? : List Char → Option (String × List Char)
  | '"' :: '"' :: '"' :: rest =>
    match cutQuotes '"' true (dropLineEnd rest) with
    | some (body, tail) =>
      if isPlainLines body then
        (unescape? false body).map fun s => (String.ofList s, tail)
      else none
    | none => none
  | '\'' :: '\'' :: '\'' :: rest =>
    match cutQuotes '\'' false (dropLineEnd rest) with
    | some (body, tail) => if isPlainLines body then some (String.ofList body, tail) else none
    | none => none
  | s => readLineString? s

/-- Read one part of a name: a string on one line, or bare characters. -/
def readPart? (s : List Char) : Option (String × List Char) :=
  match s with
  | '"' :: _ => readLineString? s
  | '\'' :: _ => readLineString? s
  | _ =>
    let bare := s.takeWhile isBare
    if bare = [] then none else some (String.ofList bare, s.dropWhile isBare)

/-- Read what follows a part of a name, in no more than `fuel` parts, and leave out the white space
after it. -/
def readName? : Nat → List Char → Option ((List String × String) × List Char)
  | 0, _ => none
  | fuel + 1, s =>
    match readPart? (s.dropWhile isBlank) with
    | none => none
    | some (part, rest) =>
      match rest.dropWhile isBlank with
      | '.' :: rest =>
        (readName? fuel rest).map fun ((path, name), tail) => ((part :: path, name), tail)
      | rest => some (([], part), rest)

/-- Read the end of a line, before which there may be white space and a comment. -/
def readLineEnd? (s : List Char) : Option (List Char) :=
  let rest := match s.dropWhile isBlank with
    | '#' :: comment => comment.dropWhile isPlain
    | rest => rest
  match rest with
  | [] => some []
  | '\n' :: rest => some rest
  | '\r' :: '\n' :: rest => some rest
  | _ => none

/-- Skip white space, ends of lines and comments. A comment holds plain characters only. -/
def skip? (comment : Bool) : List Char → Option (List Char)
  | [] => some []
  | '\n' :: rest => skip? false rest
  | '\r' :: '\n' :: rest => skip? false rest
  | c :: rest =>
    if comment then if isPlain c then skip? true rest else none
    else if c = '#' then skip? true rest
    else if isBlank c then skip? false rest
    else some (c :: rest)

end Accounts.Toml
