import Accounts.Text.Cut
import Accounts.Text.Hex
import Accounts.Toml.Basic

/-! Words of TOML: the values that stand without quotes or brackets. A word must look like a
boolean, a number or a date. A date is checked at once; of a number only the outline is, and one
that turns out to be none, to have more than 128 bits, or to be too large for a double is kept as
unreadable. Digits may be grouped by single underscores. -/
namespace Accounts.Toml

/-- The characters of words: all but white space, ends of lines, the start of a comment, and the
signs that the document is built with. A point belongs to a word, because numbers hold it. -/
def isWordChar (c : Char) : Bool :=
  c != '=' && c != ',' && c != '[' && c != ']' && c != '{' && c != '}' && c != ' ' && c != '\t' &&
    c != '#' && c != '\r' && c != '\n'

/-- Whether a digit belongs to a base of at most sixteen. -/
def isDigitIn (base : Nat) (c : Char) : Bool := (Text.hexValue? c).any (· < base)

/-- A number without its underscores. -/
def ungrouped (s : List Char) : List Char := s.filter (· != '_')

/-- Whether every underscore stands between two digits. One right behind the first character needs
no digit before it, because that character may be a sign. -/
def isGrouped (isDigit : Char → Bool) (s : List Char) : Bool :=
  let groups := Text.pieces '_' s
  groups.tail.all (fun g => g.head?.any isDigit) &&
    groups.dropLast.all fun g => g.length == 1 || g.getLast?.any isDigit

/-- The number without its sign, and whether the sign is a minus. -/
def unsigned (s : List Char) : Bool × List Char :=
  match s with
  | '+' :: rest => (false, rest)
  | '-' :: rest => (true, rest)
  | _ => (false, s)

/-- The value of digits in a base of at most sixteen. -/
def inBase? (base : Nat) (s : List Char) : Option Nat :=
  if s ≠ [] ∧ s.all (isDigitIn base) then
    some (s.foldl (fun n c => base * n + (Text.hexValue? c).getD 0) 0)
  else none

/-- An integer of 128 bits, with a sign or without. -/
def bounded (value : Option Int) : Toml :=
  match value.filter fun n => -(Nat.pow 2 127 : Int) ≤ n && n < (Nat.pow 2 128 : Int) with
  | some n => .integer n
  | none => .unreadable

/-- The integer that is written after the prefix of a base. -/
def based? (base : Nat) (s : List Char) : Option Toml :=
  if s.all (fun c => isDigitIn base c || c == '_') ∧ isGrouped (isDigitIn 16) s then
    some (bounded ((inBase? base (ungrouped s)).map Int.ofNat))
  else none

/-- The integer that is written without a prefix. The outline of one is digits without a leading
zero; after an underscore anything may follow, and next to underscores the digits of base sixteen
count as digits too. -/
def decimal? (s : List Char) : Option Toml :=
  let (negative, value) := unsigned s
  let rest := value.dropWhile Char.isDigit
  if value ≠ [] ∧ (value = ['0'] ∨ value.head? ≠ some '0') ∧ (rest = [] ∨ rest.head? = some '_') ∧
      isGrouped (isDigitIn 16) s then
    some <| bounded <| (inBase? 10 (ungrouped value)).map fun n =>
      if negative then -(n : Int) else n
  else none

/-- Whether the number that the digits make with a decimal exponent is too large for a double, that
is at least halfway from the largest double to the next power of two. Numbers far from that bound
are told by their length. -/
def isTooLarge (digits : List Char) (exponent : Int) : Bool :=
  let ds := digits.dropWhile (· == '0')
  let n := Nat.ofDigitChars 10 ds 0
  let bound : Nat := Nat.pow 2 1024 - Nat.pow 2 970
  let length : Int := ds.length + exponent
  if ds = [] ∨ length < 308 then false
  else if 310 < length then true
  else bound * Nat.pow 10 (-exponent).toNat ≤ n * Nat.pow 10 exponent.toNat

/-- The digits of a part of a number, which may be grouped. There must be one. -/
def digits? (s : List Char) : Option (List Char) :=
  let ds := ungrouped s
  if ds ≠ [] ∧ ds.all Char.isDigit then some ds else none

/-- The digits before the point. The first may be zero only if it is alone. -/
def wholeDigits? (s : List Char) : Option (List Char) :=
  (digits? s).filter fun ds => s.head? ≠ some '0' || ds.length = 1

/-- The value of an exponent. -/
def exponent? (s : List Char) : Option Int :=
  let (negative, rest) := unsigned s
  (digits? rest).map fun ds =>
    let n := Nat.ofDigitChars 10 ds 0
    if negative then -(n : Int) else n

/-- The digits before and after the point, if there is one. -/
def mantissa? (s : List Char) : Option (List Char × List Char) :=
  match Text.cut? '.' s with
  | some (whole, fraction) =>
    match wholeDigits? whole, digits? fraction with
    | some ds, some fs => some (ds, fs)
    | _, _ => none
  | none => (wholeDigits? s).map (·, [])

/-- Whether a character makes a number a float. -/
def marksFloat (c : Char) : Bool := c == '.' || c == 'e' || c == 'E'

/-- The float that is written with a fraction, an exponent or both. -/
def float? (s : List Char) : Option Toml :=
  let rest := (unsigned s).2
  let mantissa := rest.takeWhile fun c => c != 'e' && c != 'E'
  let power := rest.drop mantissa.length
  let exponent := if power = [] then some 0 else exponent? (power.drop 1)
  match mantissa? mantissa, exponent with
  | some (ds, fs), some e =>
    if !isGrouped Char.isDigit s then none
    else if isTooLarge (ds ++ fs) (e - fs.length) then some .unreadable
    else some .float
  | _, _ => none

/-- The number that a word stands for, if it looks like one. -/
def number? (s : List Char) : Option Toml :=
  match s with
  | '0' :: 'x' :: rest => based? 16 rest
  | '0' :: 'o' :: rest => based? 8 rest
  | '0' :: 'b' :: rest => based? 2 rest
  | _ => if s.any marksFloat then float? s else decimal? s

/-! ## Dates and times -/

/-- Read exactly `count` digits as a number. -/
def readFixed? (count : Nat) (s : List Char) : Option (Nat × List Char) :=
  let ds := s.takeWhile Char.isDigit
  if ds.length = count then some (Nat.ofDigitChars 10 ds 0, s.drop count) else none

/-- Read a number of two digits, at most `most`, after a given character. -/
def readPair? (before : Char) (most : Nat) (s : List Char) : Option (List Char) :=
  match s with
  | c :: rest =>
    if c = before then
      match readFixed? 2 rest with
      | some (n, tail) => if n ≤ most then some tail else none
      | none => none
    else none
  | [] => none

/-- How many days a month has, in the calendar of today for all years. -/
def daysIn (year month : Nat) : Nat :=
  match month with
  | 2 => if year % 4 = 0 ∧ (year % 100 ≠ 0 ∨ year % 400 = 0) then 29 else 28
  | 4 => 30
  | 6 => 30
  | 9 => 30
  | 11 => 30
  | _ => 31

/-- Read a date as year, month and day. -/
def readDate? (s : List Char) : Option (List Char) := do
  let (year, rest) ← readFixed? 4 s
  match rest with
  | '-' :: rest =>
    let (month, rest) ← readFixed? 2 rest
    match rest with
    | '-' :: rest =>
      let (day, rest) ← readFixed? 2 rest
      if 1 ≤ month ∧ month ≤ 12 ∧ 1 ≤ day ∧ day ≤ daysIn year month then some rest else none
    | _ => none
  | _ => none

/-- Read the seconds of a time, after a colon. They may have a fraction, and a minute may have a
leap second. -/
def readSeconds? (s : List Char) : Option (List Char) := do
  match ← readPair? ':' 60 s with
  | '.' :: c :: rest => if c.isDigit then some (rest.dropWhile Char.isDigit) else none
  | ['.'] => none
  | rest => some rest

/-- Read a time of day, down to the minute or to the second. -/
def readTime? (s : List Char) : Option (List Char) := do
  match ← readPair? ':' 59 (← readPair? ':' 23 (':' :: s)) with
  | ':' :: rest => readSeconds? (':' :: rest)
  | rest => some rest

/-- Whether a text is an offset from universal time, or nothing. -/
def isOffset : List Char → Bool
  | [] => true
  | ['Z'] => true
  | ['z'] => true
  | '+' :: rest => isHours rest
  | '-' :: rest => isHours rest
  | _ => false
where
  /-- Whether a text is a time of day down to the minute. -/
  isHours (s : List Char) : Bool :=
    ((readPair? ':' 23 (':' :: s)).bind (readPair? ':' 59)) = some []

/-- Whether a text is a date, a time, or a date and a time. -/
def isDate (s : List Char) : Bool :=
  match readDate? s with
  | some [] => true
  | some (c :: rest) =>
    (c == 'T' || c == 't' || c == ' ') && (readTime? rest).any isOffset
  | none => readTime? s = some []

/-! ## Words -/

/-- The value of a word. -/
def word? (s : List Char) : Option Toml :=
  let name := (unsigned s).2
  if s = ['t', 'r', 'u', 'e'] then some (.boolean true)
  else if s = ['f', 'a', 'l', 's', 'e'] then some (.boolean false)
  else if name = ['i', 'n', 'f'] ∨ name = ['n', 'a', 'n'] then some .float
  else if isDate s then some .date
  else number? s

/-- Read a word. A date takes in the time that follows it after one space. -/
def readWord? (s : List Char) : Option (Toml × List Char) :=
  let first := s.takeWhile isWordChar
  let rest := s.dropWhile isWordChar
  match (if readDate? first = some [] then rest else []) with
  | ' ' :: c :: tail =>
    if c.isDigit then
      let second := (c :: tail).takeWhile isWordChar
      (word? (first ++ ' ' :: second)).map (·, (c :: tail).dropWhile isWordChar)
    else (word? first).map (·, rest)
  | _ => (word? first).map (·, rest)

end Accounts.Toml
