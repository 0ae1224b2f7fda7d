import Accounts.GroupName.Basic
import Accounts.Text.Space

/-! One line of a key file: blank or a comment, the header of a group, or a key with a value. -/
namespace Accounts.KeyFile

/-- What is wrong with a line. -/
inductive LineFault where
  | unterminatedHeader
  | invalidGroupName (name : String)
  | missingEquals
  | emptyKey
  | outsideGroup
  | invalidEscape (c : Char)
  | danglingEscape
  deriving DecidableEq, Repr

def LineFault.message : LineFault → String
  | unterminatedHeader => "unterminated group header"
  | invalidGroupName name => "invalid group name " ++ Text.quoted name
  | missingEquals => "expected key=value"
  | emptyKey => "empty key"
  | outsideGroup => "key outside of any group"
  | invalidEscape c => "invalid escape sequence \\" ++ String.singleton c
  | danglingEscape => "dangling escape at end of line"

/-- A line, its value still in written form. -/
inductive Line where
  | blank
  | header (group : GroupName)
  | entry (key : String) (raw : List Char)
  deriving DecidableEq

/-- The text that a header holds between its opening bracket and its closing one. White space may
follow the closing bracket. -/
def headerName? (s : List Char) : Option (List Char) :=
  match (Text.trimEnd s).reverse with
  | ']' :: name => some name.reverse
  | _ => none

/-- Read a line. Padding is skipped in front of the line and on both sides of the first equals
sign. -/
def Line.read (s : List Char) : Except LineFault Line :=
  match s.dropWhile Text.isPadding with
  | [] => .ok .blank
  | '#' :: _ => .ok .blank
  | '[' :: rest =>
    match headerName? rest with
    | none => .error .unterminatedHeader
    | some name =>
      match GroupName.parse (String.ofList name) with
      | .ok group => .ok (.header group)
      | .error _ => .error (.invalidGroupName (String.ofList name))
  | line =>
    match Text.cut? '=' line with
    | none => .error .missingEquals
    | some (left, right) =>
      let key := Text.dropEndWhile Text.isPadding left
      if key.isEmpty then .error .emptyKey
      else .ok (.entry (String.ofList key) (right.dropWhile Text.isPadding))

/-- The written form of one character of a value. -/
def escapeChar (c : Char) : List Char :=
  if c = '\\' then ['\\', '\\']
  else if c = '\n' then ['\\', 'n']
  else if c = '\t' then ['\\', 't']
  else if c = '\r' then ['\\', 'r']
  else [c]

/-- The written form of a value. A space in front is escaped, or it would be taken for padding. -/
def escape : List Char → List Char
  | ' ' :: rest => '\\' :: 's' :: rest.flatMap escapeChar
  | value => value.flatMap escapeChar

/-- The character that an escape stands for. -/
def escaped? : Char → Option Char
  | 's' => some ' '
  | 'n' => some '\n'
  | 't' => some '\t'
  | 'r' => some '\r'
  | '\\' => some '\\'
  | _ => none

/-- The value that a written form stands for. -/
def unescape : List Char → Except LineFault (List Char)
  | [] => .ok []
  | ['\\'] => .error .danglingEscape
  | '\\' :: c :: rest =>
    match escaped? c with
    | none => .error (.invalidEscape c)
    | some c' => (unescape rest).map (c' :: ·)
  | c :: rest => (unescape rest).map (c :: ·)

/-- Whether a key can stand on the left of an equals sign. -/
def isKey (key : String) : Bool :=
  let s := key.toList
  !s.isEmpty && Text.trim s == s && s.head? != some '[' && s.head? != some '#' &&
    s.all fun c => c != '=' && c != '\n' && c != '\r'

end Accounts.KeyFile
