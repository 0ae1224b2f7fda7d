import Mathlib.Tactic.SplitIfs
import Accounts.Machine.Files

/-! What becomes of the files of a machine when one is written: the file is written as a whole, or no
file changes. Directories may be made either way. -/
namespace Accounts.Files

variable {files after last : Files}

/-- There are the same files in the same places, whatever directories there are. -/
def SameFiles (files after : Files) : Prop :=
  ∀ place content,
    after.node? place = some (.file content) ↔ files.node? place = some (.file content)

theorem SameFiles.refl (files : Files) : files.SameFiles files :=
  fun _ _ => Iff.rfl

theorem SameFiles.trans (h : files.SameFiles after) (hLast : after.SameFiles last) :
    files.SameFiles last :=
  fun place content => (hLast place content).trans (h place content)

/-- Where nothing was, a directory does not take the place of a file. -/
theorem sameFiles_put_directory {place : String} (h : files.node? place = none) :
    files.SameFiles (files.put place .directory) := by
  have hRoot : place ≠ Path.root := by
    rintro rfl
    simp [node?] at h
  intro other content
  rw [node?_put hRoot]
  split_ifs with hPlace
  · rw [hPlace, h]
    simp
  · rfl

theorem sameFiles_makeWay (files : Files) (place : String) (steps : List Path.Step) :
    files.SameFiles (files.makeWay place steps).2 := by
  induction steps generalizing files place with
  | nil => exact SameFiles.refl files
  | cons step rest ih =>
      rw [makeWay]
      cases refusal? step with
      | some obstacle => exact SameFiles.refl files
      | none =>
          dsimp only
          cases hNode : files.node? (step.target place) with
          | none =>
              dsimp only
              split_ifs
              · exact SameFiles.refl files
              · exact (sameFiles_put_directory hNode).trans (ih _ _)
          | some node =>
              cases node with
              | file content => exact SameFiles.refl files
              | directory => exact ih files _

theorem sameFiles_makeDirectory (files : Files) (path : String) :
    files.SameFiles (files.makeDirectory path).2 := by
  unfold makeDirectory
  split
  · exact SameFiles.refl files
  · exact sameFiles_makeWay files _ _

/-- A file is written as a whole, or else no file changes. -/
theorem writeIn_cases (files : Files) (dir path : String) (content : Content) :
    ((files.writeIn dir path content).1 = .ok () ∧
      (files.writeIn dir path content).2.read path = .ok (some content)) ∨
    ((∃ obstacle, (files.writeIn dir path content).1 = .error obstacle) ∧
      files.SameFiles (files.writeIn dir path content).2) := by
  have hSame := sameFiles_makeDirectory files dir
  unfold writeIn
  cases hMade : files.makeDirectory dir with
  | mk outcome made =>
      rw [hMade] at hSame
      cases outcome with
      | error obstacle => exact Or.inr ⟨⟨obstacle, rfl⟩, hSame⟩
      | ok _ =>
          dsimp only
          cases hWrite : made.write path content with
          | error obstacle => exact Or.inr ⟨⟨obstacle, rfl⟩, hSame⟩
          | ok written => exact Or.inl ⟨rfl, read_of_write hWrite⟩

end Accounts.Files
