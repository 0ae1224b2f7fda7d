import Accounts.Text.Hex

/-! Text as a JSON string, and objects laid out with two spaces to a level. -/
namespace Accounts.Text.Json

/-- White space between the tokens of a JSON text. -/
def isSpace (c : Char) : Bool := c == ' ' || c == '\t' || c == '\n' || c == '\r'

/-- The character that a one-letter escape stands for. -/
def escaped? : Char → Option Char
  | '"' => some '"'
  | '\\' => some '\\'
  | '/' => some '/'
  | 'b' => some '\x08'
  | 'f' => some '\x0c'
  | 'n' => some '\n'
  | 'r' => some '\r'
  | 't' => some '\t'
  | _ => none

/-- The character that a pair of code units stands for, the first from the high half of the
surrogates and the second from the low half. -/
def ofSurrogates (high low : Nat) : Char :=
  Char.ofNat (0x10000 + (high - 0xd800) * 0x400 + (low - 0xdc00))

/-- Read up to the closing quote, and return what follows it. Control characters must be escaped,
and surrogates come in pairs. -/
def readBody? : List Char → Option (List Char × List Char)
  | [] => none
  | '"' :: rest => some ([], rest)
  | '\\' :: 'u' :: a :: b :: c :: d :: rest =>
    match readHex? [a, b, c, d] with
    | none => none
    | some unit =>
      if 0xd800 ≤ unit ∧ unit < 0xdc00 then
        match rest with
        | '\\' :: 'u' :: e :: f :: g :: h :: rest' =>
          match readHex? [e, f, g, h] with
          | none => none
          | some low =>
            if 0xdc00 ≤ low ∧ low < 0xe000 then
              (readBody? rest').map fun (s, tail) => (ofSurrogates unit low :: s, tail)
            else none
        | _ => none
      else if 0xdc00 ≤ unit ∧ unit < 0xe000 then none
      else (readBody? rest).map fun (s, tail) => (Char.ofNat unit :: s, tail)
  | '\\' :: c :: rest =>
    match escaped? c with
    | none => none
    | some c' => (readBody? rest).map fun (s, tail) => (c' :: s, tail)
  | c :: rest =>
    if c.toNat < 0x20 ∨ c = '\\' then none
    else (readBody? rest).map fun (s, tail) => (c :: s, tail)

/-- The text of a JSON document that is one string. -/
def readString? (s : List Char) : Option String :=
  match s.dropWhile isSpace with
  | '"' :: rest => match readBody? rest with
    | some (body, tail) => if tail.all isSpace then some (String.ofList body) else none
    | none => none
  | _ => none

/-- The written form of one character. Only what a string cannot hold is escaped. -/
def escape (c : Char) : List Char :=
  if c = '"' then ['\\', '"']
  else if c = '\\' then ['\\', '\\']
  else if c = '\x08' then ['\\', 'b']
  else if c = '\x0c' then ['\\', 'f']
  else if c = '\n' then ['\\', 'n']
  else if c = '\r' then ['\\', 'r']
  else if c = '\t' then ['\\', 't']
  else if c.toNat < 0x20 then
    ['\\', 'u', '0', '0', hexDigit (c.toNat / 16), hexDigit (c.toNat % 16)]
  else [c]

/-- A JSON string. -/
def string (s : String) : List Char := '"' :: s.toList.flatMap escape ++ ['"']

private def newline (depth : Nat) : List Char := '\n' :: List.replicate (2 * depth) ' '

/-- An object at `depth`, one member a line. An object without members stays on its line. -/
def object {α : Type} (depth : Nat) (value : α → List Char) : List (String × α) → List Char
  | [] => ['{', '}']
  | first :: rest =>
    let member := fun (m : String × α) =>
      newline (depth + 1) ++ string m.1 ++ [':', ' '] ++ value m.2
    '{' :: member first ++ rest.flatMap (fun m => ',' :: member m) ++ newline depth ++ ['}']

end Accounts.Text.Json
