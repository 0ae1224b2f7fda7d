import Accounts.Book
import Accounts.KeyFile.Line
import Accounts.Text.Lines

/-! Key files: the text of an account book. Each group heads a section with its name in brackets,
and each attribute is a line. Blank lines and lines that start with a number sign do not count, and
sections with one name are one group. -/
namespace Accounts.KeyFile

/-- A fault in a file, with the number of its line. Lines are counted from one. -/
structure Fault where
  line : Nat
  cause : LineFault
  deriving DecidableEq

def Fault.error (f : Fault) : Error := .corruptStore f.line f.cause.message

/-- What has been read of a file: the groups, and the one whose section is open. -/
structure Progress where
  book : Book
  current : Option GroupName

/-- Take one more line into account. -/
def Progress.step (p : Progress) (line : List Char) : Except LineFault Progress :=
  match Line.read line with
  | .error fault => .error fault
  | .ok .blank => .ok p
  | .ok (.header group) => .ok ⟨p.book.write group [], some group⟩
  | .ok (.entry key raw) =>
    match p.current with
    | none => .error .outsideGroup
    | some group =>
      match unescape raw with
      | .error fault => .error fault
      | .ok value => .ok ⟨p.book.write group [(key, String.ofList value)], p.current⟩

/-- Read lines in turn, the first of them with the number `number`. -/
def readLines (p : Progress) (number : Nat) : List (List Char) → Except Fault Progress
  | [] => .ok p
  | line :: rest =>
    match p.step line with
    | .error cause => .error ⟨number, cause⟩
    | .ok p' => readLines p' (number + 1) rest

/-- Read a key file. The first line at fault decides. -/
def parse (text : String) : Except Fault Book :=
  (readLines ⟨∅, none⟩ 1 (Text.lines text.toList)).map Progress.book

/-- The line of an attribute. -/
def renderEntry (e : String × String) : List Char :=
  e.1.toList ++ '=' :: escape e.2.toList ++ ['\n']

/-- The section of a group. -/
def renderSection (e : GroupName × Attributes) : List Char :=
  '[' :: e.1.sectionName.toList ++ [']', '\n'] ++ e.2.toList.flatMap renderEntry

/-- The sections with a blank line between them. -/
def renderSections : List (GroupName × Attributes) → List Char
  | [] => []
  | first :: rest => renderSection first ++ rest.flatMap fun e => '\n' :: renderSection e

/-- The text of a book. -/
def render (book : Book) : String := String.ofList (renderSections book.toList)

end Accounts.KeyFile
