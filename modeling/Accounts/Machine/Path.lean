import Accounts.Text.Cut

/-! Paths, and the places that they lead to. A path says how to go from directory to directory; a
place is known by the names on the straight way to it from the root. -/
namespace Accounts.Path

/-- Whether a path starts at the root. -/
def isAbsolute (path : String) : Bool := path.toList.head? = some '/'

/-- The path of a name in a directory. The empty directory is the current one. -/
def join (dir name : String) : String :=
  if dir = "" ∨ dir.toList.getLast? = some '/' then dir ++ name else dir ++ "/" ++ name

/-- Drop the slashes and single dots that a path ends in, from its text in reverse. -/
def dropStay : List Char → List Char
  | '/' :: rest => dropStay rest
  | '.' :: '/' :: rest => dropStay ('/' :: rest)
  | s => s

/-- The directory in which a path lies. -/
def parent (path : String) : String :=
  String.ofList (dropStay (path.toList.reverse.dropWhile (· != '/'))).reverse

/-! ## Places -/

/-- The place of the root. Other places are the names on the way, each after a slash. -/
def root : String := ""

/-- The directory that a place is in. The root is in itself. -/
def up (place : String) : String :=
  String.ofList ((place.toList.reverse.dropWhile (· != '/')).drop 1).reverse

/-- The place of a name in a directory. -/
def down (place name : String) : String := place ++ "/" ++ name

/-! ## Steps -/

/-- One step on the way that a path describes. -/
inductive Step where
  /-- Stay in the directory. -/
  | stay
  /-- Go to the directory above. -/
  | up
  /-- Go to what has a name in the directory. -/
  | down (name : String)
  deriving DecidableEq, Repr

/-- The place to which a step leads. -/
def Step.target (place : String) : Step → String
  | stay => place
  | up => Path.up place
  | down name => Path.down place name

/-- The steps of a path. Slashes may be doubled. -/
def steps (path : String) : List Step :=
  ((Text.pieces '/' path.toList).filter (· ≠ [])).map fun part =>
    if part = ['.'] then .stay
    else if part = ['.', '.'] then .up
    else .down (String.ofList part)

/-- Where the steps of a path start, for a current directory. -/
def start (current path : String) : String := if isAbsolute path then root else current

/-- The places on the way, in the order in which they are reached. -/
def places (place : String) : List Step → List String
  | [] => []
  | step :: rest => step.target place :: places (step.target place) rest

end Accounts.Path
