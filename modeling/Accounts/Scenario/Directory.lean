import Accounts.AccountFile

/-! The directory of an account file, which can be put out of reach for a while. -/
namespace Accounts.Scenario

/-- What is put in the place of what: a file of the directory, or a directory of the file. -/
inductive Blockage where
  | directory
  | file
  deriving DecidableEq

/-- The account directory. -/
structure Directory where
  /-- The account file with its permissions, if there is one. -/
  file : Option (Content × Nat)
  blocked : Option Blockage

namespace Directory

/-- The permissions of a saved file, for its owner alone. -/
def privateMode : Nat := 0o600

/-- The permissions of a file that something else made. -/
def sharedMode : Nat := 0o644

def content (d : Directory) : Option Content := d.file.map Prod.fst

/-- The error that a blocked directory gives for loads and saves. -/
def blockedReason : String := "Not a directory"

/-- Read the account file. -/
def load (d : Directory) : Except Error Book :=
  if d.blocked.isSome then .error (.storage blockedReason) else AccountFile.load d.content

/-- Replace the account file. -/
def save (d : Directory) (book : Book) : Except String Unit × Directory :=
  if d.blocked.isSome then (.error blockedReason, d)
  else (.ok (), { d with file := some (AccountFile.content book, privateMode) })

/-- Write over the account file from outside, unless it is out of reach. A file that is there keeps
its permissions. -/
def write (d : Directory) (content : Content) : Directory :=
  if d.blocked.isSome then d
  else { d with file := some (content, (d.file.map Prod.snd).getD sharedMode) }

/-- Remove the account file from outside, unless it is out of reach. -/
def remove (d : Directory) : Directory :=
  if d.blocked.isSome then d else { d with file := none }

/-- Put the account file out of reach, unless it is already. -/
def block (d : Directory) (how : Blockage) : Directory :=
  if d.blocked.isSome then d else { d with blocked := some how }

/-- The names of the files that can be listed. -/
def names (d : Directory) : List String :=
  match d.blocked with
  | some .directory => []
  | some .file => [AccountFile.name]
  | none => if d.file.isSome then [AccountFile.name] else []

/-- The permissions of what stands at the path of the account file, in octal. -/
def mode? (d : Directory) : Option String :=
  let octal := fun n => String.ofList (Nat.toDigits 8 n)
  match d.blocked with
  | some .directory => none
  | some .file => some (octal 0o755)
  | none => d.file.map fun f => octal f.2

end Directory
end Accounts.Scenario
