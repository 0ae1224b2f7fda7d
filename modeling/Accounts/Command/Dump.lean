import Accounts.KeyFile.Basic
import Accounts.Text.Json

/-! Two written forms of a book: the text of a key file without the white space at its end, and
JSON, where sections are ordered by their names. -/
namespace Accounts.Book

/-- The book as the text of a key file. -/
def dumpText (book : Book) : String :=
  String.ofList (Text.trimEnd (KeyFile.render book).toList)

/-- The attributes of every group, by section name. -/
def sections (book : Book) : SortedMap String Attributes :=
  .ofList (book.toList.map fun (g, a) => (g.sectionName, a))

/-- The book as JSON. -/
def dumpJson (book : Book) : String :=
  String.ofList <| Text.Json.object 0
    (fun (a : Attributes) => Text.Json.object 1 Text.Json.string a.toList) book.sections.toList

end Accounts.Book
