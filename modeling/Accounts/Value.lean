import Accounts.Error
import Accounts.Text.Space
import Accounts.Text.Decimal

/-! Typed parameter values, and the text that an account file keeps of them. The text does not tell
its kind, so a reader says which kind it wants. -/
namespace Accounts

/-- A parameter as supplied by whoever creates an account. -/
inductive Value where
  | string (text : String)
  | bool (flag : Bool)
  | int (n : Int64)
  | uint (n : UInt64)
  | list (items : List String)
  deriving DecidableEq

namespace Value

/-- The kind that a stored text is read as. -/
inductive Kind where
  | string
  | bool
  | int
  | uint
  | list
  deriving DecidableEq, Repr

/-- The name of a kind in an error. -/
def Kind.name : Kind → String
  | string => "string"
  | bool => "boolean"
  | int => "integer"
  | uint => "unsigned integer"
  | list => "string list"

def kind : Value → Kind
  | string _ => .string
  | bool _ => .bool
  | int _ => .int
  | uint _ => .uint
  | list _ => .list

/-- The text of a string, and nothing of any other value. -/
def string? : Value → Option String
  | string text => some text
  | _ => none

/-- One item of a list: a backslash stands before a backslash or a semicolon, and a semicolon
ends the item. -/
def encodeItem (item : List Char) : List Char :=
  item.flatMap (fun c => if c = '\\' ∨ c = ';' then ['\\', c] else [c]) ++ [';']

/-- The items of a list, one after the other. -/
def encodeList (items : List (List Char)) : List Char := items.flatMap encodeItem

/-- Read items, of which `item` has been read in part. A backslash takes the next character as it
is and must have one. A last item that no semicolon ends counts unless it is empty. -/
def decodeItems? (item : List Char) : List Char → Option (List (List Char))
  | [] => some (if item.isEmpty then [] else [item])
  | '\\' :: c :: rest => decodeItems? (item ++ [c]) rest
  | ['\\'] => none
  | c :: rest =>
    if c = ';' then (decodeItems? [] rest).map (item :: ·) else decodeItems? (item ++ [c]) rest

/-- The items of a list text. -/
def decodeList? (s : List Char) : Option (List (List Char)) := decodeItems? [] s

/-- The text that an account file keeps of a value. -/
def encode : Value → String
  | string text => text
  | bool true => "true"
  | bool false => "false"
  | int n => n.toInt.repr
  | uint n => n.toNat.repr
  | list items => String.ofList (encodeList (items.map String.toList))

/-- A whole number in the range of a signed word. -/
def int64? (n : Int) : Option Int64 :=
  if Int64.minValue.toInt ≤ n ∧ n ≤ Int64.maxValue.toInt then some (Int64.ofInt n) else none

/-- A number in the range of an unsigned word. -/
def uint64? (n : Nat) : Option UInt64 :=
  if n < UInt64.size then some (UInt64.ofNat n) else none

/-- Read a text as a value of a kind. White space around a boolean or a number does not count. -/
def decode? : Kind → String → Option Value
  | .string, raw => some (string raw)
  | .bool, raw =>
    match String.ofList (Text.trim raw.toList) with
    | "true" | "1" => some (bool true)
    | "false" | "0" => some (bool false)
    | _ => none
  | .int, raw => ((Text.readInt? (Text.trim raw.toList)).bind int64?).map int
  | .uint, raw => ((Text.readNat? (Text.trim raw.toList)).bind uint64?).map uint
  | .list, raw => (decodeList? raw.toList).map fun items => list (items.map String.ofList)

/-- Read a text as a value of a kind. -/
def decode (kind : Kind) (raw : String) : Except Error Value :=
  match decode? kind raw with
  | some value => .ok value
  | none => .error (.invalidValue kind.name raw)

end Value
end Accounts
