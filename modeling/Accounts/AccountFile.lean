import Accounts.KeyFile.Basic

/-! The account file: a key file that is read and replaced as a whole. -/
namespace Accounts

/-- What a file holds: text, or bytes that are no UTF-8. -/
inductive Content where
  | text (s : String)
  | binary (bytes : List UInt8)
  deriving DecidableEq

/-- The content with the given bytes. -/
def Content.ofBytes (bytes : List UInt8) : Content :=
  match String.fromUTF8? ⟨bytes.toArray⟩ with
  | some s => .text s
  | none => .binary bytes

namespace AccountFile

/-- The name of the file in its directory. -/
def name : String := "accounts.cfg"

/-- Read the file. One that is missing stands for the empty book. -/
def load : Option Content → Except Error Book
  | none => .ok ∅
  | some (.binary _) => .error (.storage "stream did not contain valid UTF-8")
  | some (.text s) => (KeyFile.parse s).mapError KeyFile.Fault.error

/-- The content of the file for a book. -/
def content (book : Book) : Content := .text (KeyFile.render book)

/-- A path can be saved to if it lies in some directory, as only the empty path and the root do
not. -/
def checkPath (path : String) : Except Error Unit :=
  if path.toList.all (· == '/') then .error (.storage "invalid storage path") else .ok ()

end AccountFile
end Accounts
