import Accounts.Proofs.Book
import Accounts.Proofs.KeyFile.RoundTrip
import Accounts.Proofs.Process

/-! The account file and the book that a process holds in memory. A book that was read can be
written, and reads the same when it was. -/
namespace Accounts

namespace AccountFile

/-- A saved book is read back. -/
theorem load_content {book : Book} (h : book.AllKeys KeyFile.IsWritable) :
    load (some (content book)) = .ok book := by
  simp [load, content, KeyFile.parse_render_of_writable h, Except.mapError]

/-- Every book that was read can be written again. -/
theorem allKeys_of_load {file : Option Content} {book : Book} (h : load file = .ok book) :
    book.AllKeys KeyFile.IsWritable := by
  cases file with
  | none =>
      obtain rfl := Except.ok.inj h
      exact Book.allKeys_empty
  | some c =>
      cases c with
      | binary bytes => contradiction
      | text s =>
          rw [load] at h
          cases hParse : KeyFile.parse s with
          | error fault =>
              rw [hParse] at h
              contradiction
          | ok b =>
              rw [hParse] at h
              obtain rfl := Except.ok.inj h
              exact KeyFile.allKeys_of_parse hParse

end AccountFile

namespace Process

/-- The file holds the book of the process, and every key in it has the property. -/
structure Intact (P : String → Prop) (p : Process) : Prop where
  load_file : AccountFile.load p.file = .ok p.book
  allKeys : p.book.AllKeys P

theorem Intact.save {P : String → Prop} (hP : ∀ key, P key → KeyFile.IsWritable key)
    (p : Process) {b : Book} (h : b.AllKeys P) : (p.save b).Intact P :=
  ⟨AccountFile.load_content (h.mono hP), h⟩

theorem Intact.write {p : Process} (h : p.Intact KeyFile.IsWritable) (g : GroupName)
    {entries : List (String × String)} (hKeys : ∀ e ∈ entries, KeyFile.isKey e.1 = true) :
    (p.save (p.book.write g entries)).Intact KeyFile.IsWritable :=
  Intact.save (fun _ h => h) p
    (h.allKeys.write fun e he => KeyFile.isWritable_of_isKey (hKeys e he))

theorem Intact.mono {P P' : String → Prop} {p : Process} (h : p.Intact P)
    (hImp : ∀ key, P key → P' key) : p.Intact P' :=
  ⟨h.load_file, h.allKeys.mono hImp⟩

theorem start_of_load {d : Storage} {book : Book} (h : AccountFile.load d.file = .ok book) :
    d.start = .ok { d with book, events := [] } := by
  rw [Storage.start, h]
  rfl

theorem load_of_start {d : Storage} {p : Process} (h : d.start = .ok p) :
    ∃ book, AccountFile.load d.file = .ok book ∧ p = { d with book, events := [] } := by
  unfold Storage.start at h
  cases hLoad : AccountFile.load d.file with
  | error e =>
      rw [hLoad] at h
      contradiction
  | ok book =>
      rw [hLoad] at h
      exact ⟨book, rfl, (Except.ok.inj h).symm⟩

theorem intact_of_start {d : Storage} {p : Process} (h : d.start = .ok p) :
    p.Intact KeyFile.IsWritable := by
  obtain ⟨book, hLoad, rfl⟩ := load_of_start h
  exact ⟨hLoad, AccountFile.allKeys_of_load hLoad⟩

theorem events_of_start {d : Storage} {p : Process} (h : d.start = .ok p) : p.events = [] := by
  obtain ⟨_, _, rfl⟩ := load_of_start h
  rfl

theorem toStorage_of_start {d : Storage} {p : Process} (h : d.start = .ok p) : p.toStorage = d := by
  obtain ⟨_, _, rfl⟩ := load_of_start h
  rfl

end Process

end Accounts
