import Accounts.AccountFile
import Accounts.Machine.Path

/-! The files and directories of a machine. A path leads somewhere only if each directory that it
goes through is there, even one that it leaves again at once. Main statement: what has been written
to a path is read from it. -/
namespace Accounts

/-- What can be at a place. -/
inductive Node where
  | directory
  | file (content : Content)
  deriving DecidableEq

/-- What stands in the way of reading or writing a file. -/
inductive Obstacle where
  /-- There is nothing where the path goes through. -/
  | missing
  /-- There is a file where the path goes through. -/
  | notDirectory
  /-- The path leads to a directory. -/
  | isDirectory
  /-- The path or a name in it is too long. -/
  | tooLong
  /-- The path holds a character that no path may hold. -/
  | notPath
  deriving DecidableEq, Repr

def Obstacle.message : Obstacle → String
  | missing => "No such file or directory"
  | notDirectory => "Not a directory"
  | isDirectory => "Is a directory"
  | tooLong => "File name too long"
  | notPath => "file name contained an unexpected NUL byte"

/-- Files and directories. -/
structure Files where
  /-- What there is, by its place. The root is always there and not listed. -/
  nodes : SortedMap String Node
  /-- The place of the current directory. -/
  current : String
  deriving DecidableEq

namespace Files

/-- How many bytes a name may have. -/
def maxName : Nat := 255

/-- How many bytes a path may have. -/
def maxPath : Nat := 4095

/-- What there is at a place. -/
def node? (files : Files) (place : String) : Option Node :=
  if place = Path.root then some .directory else files.nodes.get? place

/-- Put something at a place. -/
def put (files : Files) (place : String) (node : Node) : Files :=
  { files with nodes := files.nodes.insert place node }

/-- Why a step cannot be taken from any directory. -/
def refusal? : Path.Step → Option Obstacle
  | .down name => if maxName < name.utf8ByteSize then some .tooLong else none
  | _ => none

/-- Why a path cannot be followed at all. -/
def pathRefusal? (path : String) : Option Obstacle :=
  if path.toList.contains '\x00' then some .notPath
  else if maxPath < path.utf8ByteSize then some .tooLong
  else none

/-- The place to which steps lead. Each is taken from a directory. -/
def follow (files : Files) (place : String) : List Path.Step → Except Obstacle String
  | [] => .ok place
  | step :: rest =>
    match files.node? place with
    | none => .error .missing
    | some (.file _) => .error .notDirectory
    | some .directory =>
      match refusal? step with
      | some obstacle => .error obstacle
      | none => files.follow (step.target place) rest

/-- The place to which a path leads. There may be nothing at it yet. -/
def locate (files : Files) (path : String) : Except Obstacle String :=
  match pathRefusal? path with
  | some obstacle => .error obstacle
  | none => files.follow (Path.start files.current path) (Path.steps path)

/-- Whether a path leads to anything. -/
def leadsSomewhere (files : Files) (path : String) : Bool :=
  match files.locate path with
  | .ok place => (files.node? place).isSome
  | .error _ => false

/-- The content of a file, if there is one. -/
def read (files : Files) (path : String) : Except Obstacle (Option Content) :=
  match files.locate path with
  | .error .missing => .ok none
  | .error obstacle => .error obstacle
  | .ok place =>
    match files.node? place with
    | none => .ok none
    | some .directory => .error .isDirectory
    | some (.file content) => .ok (some content)

/-- The content of a file that is missing also where its path leads nowhere, for whatever reason. -/
def find (files : Files) (path : String) : Except Obstacle (Option Content) :=
  if files.leadsSomewhere path then files.read path else .ok none

/-- Write a file in a directory that is there. -/
def write (files : Files) (path : String) (content : Content) : Except Obstacle Files :=
  match files.locate path with
  | .error obstacle => .error obstacle
  | .ok place =>
    match files.node? place with
    | some .directory => .error .isDirectory
    | _ => .ok (files.put place (.file content))

theorem node?_put {files : Files} {place other : String} {node : Node} (h : place ≠ Path.root) :
    (files.put place node).node? other =
      if other = place then some node else files.node? other := by
  by_cases hOther : other = place
  · subst hOther; simp [node?, put, h]
  · by_cases hRoot : other = Path.root
    · simp [node?, hRoot, Ne.symm h]
    · simp [node?, put, hOther, hRoot, Ne.symm hOther]

/-- A way goes through directories only, so a file at its end changes nothing about it. -/
theorem follow_put_file {files : Files} {start place : String} {steps : List Path.Step}
    (content : Content) (hFollow : files.follow start steps = .ok place)
    (hPlace : files.node? place ≠ some .directory) :
    (files.put place (.file content)).follow start steps = .ok place := by
  have hRoot : place ≠ Path.root := fun h => hPlace (by simp [node?, h])
  induction steps generalizing start with
  | nil => exact hFollow
  | cons step rest ih =>
    rw [follow] at hFollow ⊢
    rw [node?_put hRoot]
    cases hNode : files.node? start with
    | none => simp [hNode] at hFollow
    | some node =>
      cases node with
      | file content => simp [hNode] at hFollow
      | directory =>
        have hNe : start ≠ place := fun h => hPlace (h ▸ hNode)
        simp only [hNode] at hFollow
        simp only [hNe, if_false]
        cases hStep : refusal? step with
        | some obstacle => simp [hStep] at hFollow
        | none =>
          simp only [hStep] at hFollow ⊢
          exact ih hFollow

/-- What has been written to a path is read from it. -/
theorem read_of_write {files after : Files} {path : String} {content : Content}
    (h : files.write path content = .ok after) : after.read path = .ok (some content) := by
  unfold write locate at h
  cases hPath : pathRefusal? path with
  | some obstacle => simp [hPath] at h
  | none =>
    simp only [hPath] at h
    cases hFollow : files.follow (Path.start files.current path) (Path.steps path) with
    | error obstacle => simp [hFollow] at h
    | ok place =>
      simp only [hFollow] at h
      by_cases hPlace : files.node? place = some .directory
      · simp [hPlace] at h
      · have hRoot : place ≠ Path.root := fun h => hPlace (by simp [node?, h])
        obtain rfl : files.put place (.file content) = after := by
          split at h
          · contradiction
          · exact Except.ok.inj h
        have hAgain := follow_put_file content hFollow hPlace
        have hCurrent : (files.put place (.file content)).current = files.current := rfl
        simp [read, locate, hPath, hCurrent, hAgain, node?_put hRoot]

/-- Follow steps and make the directories that are missing, each once the one that it is in is
there. Just before single dots at the end of the way nothing is made, since the dots ask for a
directory that is there already. What has been made stays even if a later step fails. -/
def makeWay (files : Files) (place : String) : List Path.Step → Except Obstacle Unit × Files
  | [] => (.ok (), files)
  | step :: rest =>
    match refusal? step with
    | some obstacle => (.error obstacle, files)
    | none =>
      let next := step.target place
      match files.node? next with
      | some .directory => files.makeWay next rest
      | some (.file _) => (.error .notDirectory, files)
      | none =>
        if rest ≠ [] ∧ rest.all (· = .stay) then (.error .missing, files)
        else (files.put next .directory).makeWay next rest

/-- Make a directory with those that its path goes through, as far as they are missing. -/
def makeDirectory (files : Files) (path : String) : Except Obstacle Unit × Files :=
  match pathRefusal? path with
  | some obstacle => (.error obstacle, files)
  | none => files.makeWay (Path.start files.current path) (Path.steps path)

/-- Nothing yet but the current directory and those that it is in. -/
def bare (current : String) : Files :=
  { ((⟨∅, Path.root⟩ : Files).makeDirectory current).2 with current }

/-- Write a file, after making the directory `dir` for it. -/
def writeIn (files : Files) (dir path : String) (content : Content) :
    Except Obstacle Unit × Files :=
  match files.makeDirectory dir with
  | (.error obstacle, files) => (.error obstacle, files)
  | (.ok (), files) =>
    match files.write path content with
    | .error obstacle => (.error obstacle, files)
    | .ok files => (.ok (), files)

end Files
end Accounts
