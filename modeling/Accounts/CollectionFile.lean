import Accounts.AccountFile
import Accounts.Text.Space

/-! The collection file: it stands beside the account file and remembers a collection that was made
up because none was configured. -/
namespace Accounts.CollectionFile

/-- The name of the file in its directory. -/
def name : String := "keyring-collection"

/-- What new identifiers begin with. -/
def idPrefix : List Char := ['k', 'e', 'e', 'p', 'e', 'r', '-']

/-- The identifier of a new collection, for a number of 128 bits. -/
def identifier (number : Nat) : String :=
  let digits := Nat.toDigits 16 number
  String.ofList (idPrefix ++ List.replicate (32 - digits.length) '0' ++ digits)

/-- The content of the file for a collection. -/
def content (collection : String) : Content := .text (collection ++ "\n")

/-- The collection that a file remembers. A blank file remembers none. -/
def remembered? : Option Content → Except String (Option String)
  | none => .ok none
  | some (.binary _) => .error "stream did not contain valid UTF-8"
  | some (.text s) =>
    let id := Text.trim s.toList
    .ok (if id = [] then none else some (String.ofList id))

/-- The collection to use, and whether it is to be remembered. One that is configured is used as it
is, without a look at the file. Else it is the one remembered, or else `fresh`. -/
def choose (configured : Option String) (saved : Except String (Option Content))
    (fresh : String) : Except String (String × Bool) :=
  match configured with
  | some collection => .ok (collection, false)
  | none => do
    match ← remembered? (← saved) with
    | some collection => return (collection, false)
    | none => return (fresh, true)

end Accounts.CollectionFile
