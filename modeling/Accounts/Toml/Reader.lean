import Accounts.Toml.Text
import Accounts.Toml.Word

/-! Reading a TOML document: its statements first, and from them the table that they build. -/
namespace Accounts.Toml

/-- Reads one thing from the start of a text, and says what follows it. -/
abbrev Reader (α : Type) := List Char → Option (α × List Char)

/-- How deep arrays and inline tables may be nested, and of how many parts a name may consist. -/
def maxDepth : Nat := 80

/-- Read the items of an array after its opening bracket. The last of them may have a comma, and
lines may end between them. Each item takes up some of the text, so its length is fuel enough. -/
def readItems? (value : Reader Toml) : Nat → Reader (List Toml)
  | 0, _ => none
  | fuel + 1, s =>
    match skip? false s with
    | none => none
    | some (']' :: rest) => some ([], rest)
    | some s =>
      match value s with
      | none => none
      | some (item, s) =>
        match skip? false s with
        | some (',' :: rest) =>
          (readItems? value fuel rest).map fun (items, r) => (item :: items, r)
        | some (']' :: rest) => some ([item], rest)
        | _ => none

/-- Read a name, the equals sign and a value. There may be a gap on either side of the sign. -/
def readField? (gap? : List Char → Option (List Char)) (value : Reader Toml) :
    Reader (Path × String × Toml) := fun s =>
  match readName? maxDepth s with
  | none => none
  | some ((path, name), s) =>
    match gap? s with
    | some ('=' :: s) => ((gap? s).bind value).map fun (v, r) => ((path, name, v), r)
    | _ => none

/-- Read the fields of an inline table after its opening brace. The last of them may have a comma,
and lines may end wherever there may be white space, except within a name. Each field takes up some
of the text, so its length is fuel enough. -/
def readFields? (value : Reader Toml) : Nat → Reader (List (Path × String × Toml))
  | 0, _ => none
  | fuel + 1, s =>
    match skip? false s with
    | none => none
    | some ('}' :: rest) => some ([], rest)
    | some s =>
      match readField? (skip? false) value s with
      | none => none
      | some (field, s) =>
        match skip? false s with
        | some (',' :: rest) =>
          (readFields? value fuel rest).map fun (fields, r) => (field :: fields, r)
        | some ('}' :: rest) => some ([field], rest)
        | _ => none

/-- Read a value in which arrays and inline tables are nested at most `nesting` deep. -/
def readValue? : Nat → Reader Toml
  | nesting + 1, '[' :: rest =>
    (readItems? (readValue? nesting) (rest.length + 1) rest).map fun (items, r) => (.array items, r)
  | nesting + 1, '{' :: rest =>
    match readFields? (readValue? nesting) (rest.length + 1) rest with
    | some (fields, r) => (inline? fields).map (·, r)
    | none => none
  | _, s =>
    match readString? s with
    | some (text, rest) => some (.string text, rest)
    | none => readWord? s

/-- Read a statement. -/
def readStatement? : Reader Statement
  | '[' :: '[' :: rest =>
    match readName? maxDepth rest with
    | some ((path, name), ']' :: ']' :: tail) => some (.element path name, tail)
    | _ => none
  | '[' :: rest =>
    match readName? maxDepth rest with
    | some ((path, name), ']' :: tail) => some (.header path name, tail)
    | _ => none
  | s =>
    (readField? (fun s => some (s.dropWhile isBlank)) (readValue? maxDepth) s).map
      fun ((path, name, v), r) => (.assign path name v, r)

/-- Read statements to the end of the text. Each of them has a line of its own. -/
def readStatements? : Nat → List Char → Option (List Statement)
  | 0, _ => none
  | fuel + 1, s =>
    match skip? false s with
    | none => none
    | some [] => some []
    | some s =>
      match readStatement? s with
      | none => none
      | some (statement, s) =>
        match readLineEnd? s with
        | none => none
        | some s => (readStatements? fuel s).map (statement :: ·)

/-- Read a document. It may begin with a byte order mark. -/
def read? (text : String) : Option Fields :=
  let s := match text.toList with
    | '\uFEFF' :: rest => rest
    | s => s
  (readStatements? (s.length + 1) s).bind ofStatements?

end Accounts.Toml
