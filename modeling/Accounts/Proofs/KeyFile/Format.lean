import Accounts.Proofs.KeyFile.Grammar
import Accounts.Proofs.KeyFile.RoundTrip
import Accounts.Proofs.Since

/-! The format of key files as a whole. Which lines are good, and what a file of good lines means,
is said of the lines alone: of the headers among them and of the keys that stand under a header.
The reader accepts the files of good lines, gives them that meaning, and stops at the first line
that is not good. -/
namespace Accounts.KeyFile

/-! ## The meaning of lines -/

/-- Whether a line is the header of some group. -/
def IsHeader (line : List Char) : Prop := ∃ g, Line.Derives line (.header g)

/-- The last header among the lines is that of the group. -/
def Opens (lines : List (List Char)) (g : GroupName) : Prop :=
  ∃ before line after, lines = before ++ line :: after ∧ Line.Derives line (.header g) ∧
    ∀ l ∈ after, ¬IsHeader l

/-- A line gives the group a value in written form under the key: it is a line for the key, and the
group is the one whose section the lines before it have opened. -/
def Sets (before : List (List Char)) (line : List Char) (g : GroupName) (key : String)
    (raw : List Char) : Prop :=
  Opens before g ∧ Line.Derives line (.entry key raw)

/-- The last line for the key that stands under a header for the group gives it this value. It does
not matter in which of the group's sections the line stands. -/
def Assigns (lines : List (List Char)) (g : GroupName) (key : String) (value : List Char) : Prop :=
  ∃ before line after raw, lines = before ++ line :: after ∧ Sets before line g key raw ∧
    Denotes raw value ∧
    ∀ between line' rest raw', after = between ++ line' :: rest →
      ¬Sets (before ++ line :: between) line' g key raw'

/-- A line that may follow some lines: blank, a comment, a header, or a line for a key with a
header before it and a value that denotes something. -/
inductive Good (before : List (List Char)) (line : List Char) : Prop where
  | blank (h : Line.Derives line .blank)
  | header (g : GroupName) (h : Line.Derives line (.header g))
  | entry (key : String) (raw value : List Char) (h : Line.Derives line (.entry key raw))
      (hHeader : ∃ l ∈ before, IsHeader l) (hValue : Denotes raw value)

def AllGood (lines : List (List Char)) : Prop :=
  ∀ before line after, lines = before ++ line :: after → Good before line

/-- A book with the groups that headers name, and the values that were assigned last. -/
structure Means (lines : List (List Char)) (book : Book) : Prop where
  groups : ∀ g, book.contains g = true ↔ ∃ line ∈ lines, Line.Derives line (.header g)
  values : ∀ g key value, book.value? g key = some value ↔ Assigns lines g key value.toList

/-! ## One line more -/

section Snoc

variable {lines : List (List Char)} {line : List Char} {g : GroupName} {key : String}

theorem opens_snoc :
    Opens (lines ++ [line]) g ↔ Line.Derives line (.header g) ∨ Opens lines g ∧ ¬IsHeader line :=
  since_snoc

/-- Whether the new line gives the key its value decides which line assigns it. -/
theorem assigns_snoc {value : List Char} :
    Assigns (lines ++ [line]) g key value ↔
      (∃ raw, Sets lines line g key raw ∧ Denotes raw value) ∨
      Assigns lines g key value ∧ ∀ raw, ¬Sets lines line g key raw := by
  constructor
  · rintro ⟨before, setter, after, raw, hLines, hSets, hValue, hLast⟩
    rcases snoc_eq_append_cons hLines with ⟨rfl, rfl, -⟩ | ⟨after', rfl, rfl⟩
    · exact .inl ⟨raw, hSets, hValue⟩
    · refine .inr ⟨⟨before, setter, after', raw, rfl, hSets, hValue, ?_⟩, fun raw' =>
        hLast after' line [] raw' rfl⟩
      intro between line' rest raw' hAfter
      exact hLast between line' (rest ++ [line]) raw' (by simp [hAfter])
  · rintro (⟨raw, hSets, hValue⟩ | ⟨⟨before, setter, after, raw, rfl, hSets, hValue, hLast⟩, hLine⟩)
    · exact ⟨lines, line, [], raw, rfl, hSets, hValue, by simp⟩
    · refine ⟨before, setter, after ++ [line], raw, by simp, hSets, hValue, ?_⟩
      intro between line' rest raw' hAfter
      rcases snoc_eq_append_cons hAfter with ⟨rfl, rfl, -⟩ | ⟨rest', -, rfl⟩
      · exact hLine raw'
      · exact hLast between line' rest' raw' rfl

theorem allGood_nil : AllGood [] := fun _ _ _ h => by simp at h

theorem allGood_snoc : AllGood (lines ++ [line]) ↔ AllGood lines ∧ Good lines line := by
  constructor
  · intro h
    exact ⟨fun before l after hLines => h before l (after ++ [line]) (by simp [hLines]),
      h lines line [] rfl⟩
  · rintro ⟨hLines, hLine⟩ before l after hAppend
    rcases snoc_eq_append_cons hAppend with ⟨rfl, rfl, -⟩ | ⟨after', -, hBefore⟩
    · exact hLine
    · exact hLines before l after' hBefore

/-- Among lines that are not all good, one is the first that is not. -/
theorem exists_first_of_not_allGood (h : ¬AllGood lines) :
    ∃ before line after, lines = before ++ line :: after ∧ AllGood before ∧ ¬Good before line := by
  induction lines using List.reverseRecOn with
  | nil => exact absurd allGood_nil h
  | append_singleton lines line ih =>
      by_cases hLines : AllGood lines
      · exact ⟨lines, line, [], rfl, hLines, fun hLine => h (allGood_snoc.mpr ⟨hLines, hLine⟩)⟩
      · obtain ⟨before, bad, after, rfl, hBefore, hBad⟩ := ih hLines
        exact ⟨before, bad, after ++ [line], by simp, hBefore, hBad⟩

/-- There is a header exactly when there is a last one. -/
theorem exists_opens_iff : (∃ g, Opens lines g) ↔ ∃ l ∈ lines, IsHeader l := by
  constructor
  · rintro ⟨g, before, line, after, rfl, hHeader, -⟩
    exact ⟨line, by simp, g, hHeader⟩
  · rintro ⟨l, hMem, g, hHeader⟩
    induction lines using List.reverseRecOn with
    | nil => simp at hMem
    | append_singleton lines line ih =>
        by_cases hLine : IsHeader line
        · obtain ⟨g', hg'⟩ := hLine
          exact ⟨g', opens_snoc.mpr (.inl hg')⟩
        · rcases List.mem_append.mp hMem with hMem | hMem
          · obtain ⟨g', hg'⟩ := ih hMem
            exact ⟨g', opens_snoc.mpr (.inr ⟨hg', hLine⟩)⟩
          · exact absurd ⟨g, List.mem_singleton.mp hMem ▸ hHeader⟩ hLine

end Snoc

/-! ## What the reader has read -/

/-- What has been read after some lines is what the lines mean. -/
structure Reads (lines : List (List Char)) (p : Progress) : Prop where
  means : Means lines p.book
  current : ∀ g, p.current = some g ↔ Opens lines g

theorem reads_nil : Reads [] ⟨∅, none⟩ := by
  refine ⟨⟨fun g => ?_, fun g key value => ?_⟩, fun g => ?_⟩
  · simp [SortedMap.contains]
  · simp [Book.value?, Assigns]
  · simp [Opens]

/-- A line derives one thing at most. -/
theorem derives_iff {s : List Char} {a b : Line} (h : Line.Derives s a) :
    Line.Derives s b ↔ a = b := by
  constructor
  · intro hb
    exact Except.ok.inj ((Line.read_of_derives h).symm.trans (Line.read_of_derives hb))
  · rintro rfl
    exact h

section Step

variable {lines : List (List Char)} {line : List Char} {p q : Progress}

theorem reads_blank (h : Reads lines p) (hLine : Line.Derives line .blank) :
    Reads (lines ++ [line]) p where
  means.groups g := by simp [h.means.groups, derives_iff hLine]
  means.values g key value := by simp [h.means.values, assigns_snoc, Sets, derives_iff hLine]
  current g := by simp [h.current, opens_snoc, IsHeader, derives_iff hLine]

theorem reads_header {g : GroupName} (h : Reads lines p) (hLine : Line.Derives line (.header g)) :
    Reads (lines ++ [line]) ⟨p.book.write g [], some g⟩ where
  means.groups g' := by
    rw [Book.contains_write]
    by_cases hGroup : g = g'
    · simp [hGroup, derives_iff hLine]
    · simp [hGroup, h.means.groups, derives_iff hLine]
  means.values g' key value := by
    have hValue : (p.book.write g []).value? g' key = p.book.value? g' key := by
      rw [Book.value?_write]
      split_ifs with hGroup
      · rw [← hGroup]
        exact Book.get?_attributes ..
      · rfl
    simp [hValue, h.means.values, assigns_snoc, Sets, derives_iff hLine]
  current g' := by simp [opens_snoc, IsHeader, derives_iff hLine]

theorem reads_entry {g : GroupName} {key : String} {raw value : List Char} (h : Reads lines p)
    (hCurrent : p.current = some g) (hLine : Line.Derives line (.entry key raw))
    (hDenotes : Denotes raw value) :
    Reads (lines ++ [line]) ⟨p.book.write g [(key, String.ofList value)], p.current⟩ := by
  have hOpens : ∀ g', Opens lines g' ↔ g = g' := by
    intro g'
    rw [← h.current, hCurrent, Option.some.injEq]
  have hValues : ∀ g' key', (p.book.write g [(key, String.ofList value)]).value? g' key' =
      if g = g' ∧ key = key' then some (String.ofList value) else p.book.value? g' key' := by
    intro g' key'
    rw [Book.value?_write, SortedMap.insertMany_cons, SortedMap.insertMany_nil,
      SortedMap.get?_insert, Book.get?_attributes]
    by_cases hGroup : g = g'
    · simp [hGroup]
    · simp [hGroup]
  refine ⟨⟨fun g' => ?_, fun g' key' value' => ?_⟩, fun g' => ?_⟩
  · rw [Book.contains_write]
    by_cases hGroup : g = g'
    · obtain ⟨before, header, after, hLines, hHeader, -⟩ := (hOpens g).mpr rfl
      subst hGroup
      simpa [derives_iff hLine] using ⟨header, by simp [hLines], hHeader⟩
    · simp [hGroup, h.means.groups, derives_iff hLine]
  · rw [hValues]
    by_cases hHere : g = g' ∧ key = key'
    · obtain ⟨rfl, rfl⟩ := hHere
      have hUnique : ∀ v, Denotes raw v ↔ value = v := by
        intro v
        rw [← unescape_eq_ok_iff, unescape_of_denotes hDenotes, Except.ok.injEq]
      simp [assigns_snoc, Sets, hOpens, derives_iff hLine, hUnique, ← String.toList_inj]
    · have hNot : ∀ raw', ¬Sets lines line g' key' raw' := by
        rintro raw' ⟨hGroup, hEntry⟩
        exact hHere ⟨(hOpens g').mp hGroup, (Line.entry.inj ((derives_iff hLine).mp hEntry)).1⟩
      simp [hHere, h.means.values, assigns_snoc, hNot]
  · simp [h.current, opens_snoc, IsHeader, derives_iff hLine]

/-- A line that the reader takes is good, and what it has read then is what the lines mean. -/
theorem reads_step (hFeed : '\n' ∉ line) (h : Reads lines p) (hStep : p.step line = .ok q) :
    Good lines line ∧ Reads (lines ++ [line]) q := by
  cases takes_of_step hStep with
  | blank hRead =>
      have hLine := (Line.read_eq_ok_iff hFeed).mp hRead
      exact ⟨.blank hLine, reads_blank h hLine⟩
  | header g hRead =>
      have hLine := (Line.read_eq_ok_iff hFeed).mp hRead
      exact ⟨.header g hLine, reads_header h hLine⟩
  | entry g key raw value hRead hCurrent hValue =>
      have hLine := (Line.read_eq_ok_iff hFeed).mp hRead
      have hHeader := exists_opens_iff.mp ⟨g, (h.current g).mp hCurrent⟩
      have hDenotes := unescape_eq_ok_iff.mp hValue
      exact ⟨.entry key raw value hLine hHeader hDenotes,
        reads_entry h hCurrent hLine hDenotes⟩

/-- The reader takes every good line. -/
theorem step_of_good (h : Reads lines p) (hGood : Good lines line) : ∃ q, p.step line = .ok q := by
  unfold Progress.step
  cases hGood with
  | blank hLine =>
      rw [Line.read_of_derives hLine]
      exact ⟨_, rfl⟩
  | header g hLine =>
      rw [Line.read_of_derives hLine]
      exact ⟨_, rfl⟩
  | entry key raw value hLine hHeader hValue =>
      obtain ⟨g, hOpens⟩ := exists_opens_iff.mpr hHeader
      simp only [Line.read_of_derives hLine, (h.current g).mpr hOpens, unescape_of_denotes hValue]
      exact ⟨_, rfl⟩

end Step

/-! ## Whole files -/

/-- Lines that have all been read are good, and what has been read is what they mean. -/
theorem reads_of_readLines {before rest : List (List Char)} {p q : Progress} {number : Nat}
    (h : Reads before p) (hFeed : ∀ line ∈ rest, '\n' ∉ line) (hGood : AllGood before)
    (hRead : readLines p number rest = .ok q) :
    AllGood (before ++ rest) ∧ Reads (before ++ rest) q := by
  induction rest generalizing before p number with
  | nil =>
      obtain rfl := Except.ok.inj hRead
      simpa using ⟨hGood, h⟩
  | cons line rest ih =>
      rw [readLines] at hRead
      cases hStep : p.step line with
      | error cause => simp [hStep] at hRead
      | ok p' =>
          rw [hStep] at hRead
          obtain ⟨hLine, hReads⟩ := reads_step (hFeed line (List.mem_cons_self ..)) h hStep
          rw [List.append_cons]
          exact ih hReads (fun l hl => hFeed l (List.mem_cons_of_mem _ hl))
            (allGood_snoc.mpr ⟨hGood, hLine⟩) hRead

/-- Good lines are all read. -/
theorem readLines_of_allGood {before rest : List (List Char)} {p : Progress} {number : Nat}
    (h : Reads before p) (hFeed : ∀ line ∈ rest, '\n' ∉ line) (hGood : AllGood (before ++ rest)) :
    ∃ q, readLines p number rest = .ok q := by
  induction rest generalizing before p number with
  | nil => exact ⟨p, rfl⟩
  | cons line rest ih =>
      obtain ⟨p', hStep⟩ := step_of_good h (hGood before line rest rfl)
      obtain ⟨-, hReads⟩ := reads_step (hFeed line (List.mem_cons_self ..)) h hStep
      rw [readLines, hStep]
      rw [List.append_cons] at hGood
      exact ih hReads (fun l hl => hFeed l (List.mem_cons_of_mem _ hl)) hGood

theorem readLines_append {first second : List (List Char)} {p q : Progress} {number : Nat}
    (h : readLines p number first = .ok q) :
    readLines p number (first ++ second) = readLines q (number + first.length) second := by
  induction first generalizing p number with
  | nil =>
      obtain rfl := Except.ok.inj h
      rfl
  | cons line first ih =>
      rw [readLines] at h
      rw [List.cons_append, readLines, List.length_cons]
      cases hStep : p.step line with
      | error cause => simp [hStep] at h
      | ok p' =>
          rw [hStep] at h
          rw [Nat.add_comm first.length, ← Nat.add_assoc]
          exact ih h

/-- The reader stops at a line that is not good, and has counted the lines before it. -/
theorem readLines_of_not_good {before after : List (List Char)} {line : List Char}
    (hFeed : ∀ l ∈ before ++ line :: after, '\n' ∉ l) (hGood : AllGood before)
    (hLine : ¬Good before line) :
    ∃ cause, readLines ⟨∅, none⟩ 1 (before ++ line :: after) =
      .error ⟨before.length + 1, cause⟩ := by
  have hBefore : ∀ l ∈ before, '\n' ∉ l := fun l hl => hFeed l (List.mem_append_left _ hl)
  obtain ⟨p, hRead⟩ : ∃ p, readLines ⟨∅, none⟩ 1 before = .ok p :=
    readLines_of_allGood reads_nil hBefore hGood
  have hReads : Reads before p := (reads_of_readLines reads_nil hBefore allGood_nil hRead).2
  rw [readLines_append hRead, readLines, Nat.add_comm]
  cases hStep : p.step line with
  | error cause => exact ⟨cause, rfl⟩
  | ok q => exact absurd (reads_step (hFeed line (by simp)) hReads hStep).1 hLine

/-- The reader accepts exactly the texts whose lines are all good, and the book that it returns
then is what the lines mean. Of any other text it reports the first line that is not good, by its
number. -/
theorem parse_decides_format (text : String) :
    ((∃ book, parse text = .ok book) ↔ AllGood (Text.lines text.toList)) ∧
    (∀ book, parse text = .ok book → Means (Text.lines text.toList) book) ∧
    (¬AllGood (Text.lines text.toList) →
      ∃ before line after reason, Text.lines text.toList = before ++ line :: after ∧
        AllGood before ∧ ¬Good before line ∧
        (parse text).mapError Fault.error = .error (.corruptStore (before.length + 1) reason)) := by
  have hFeed : ∀ line ∈ Text.lines text.toList, '\n' ∉ line :=
    fun line hLine => Text.newline_notMem_of_mem_lines hLine
  have hRead : ∀ book, parse text = .ok book →
      AllGood (Text.lines text.toList) ∧ Means (Text.lines text.toList) book := by
    intro book hParse
    unfold parse at hParse
    cases hLines : readLines ⟨∅, none⟩ 1 (Text.lines text.toList) with
    | error fault => simp [hLines, Except.map] at hParse
    | ok p =>
        simp only [hLines, Except.map, Except.ok.injEq] at hParse
        subst hParse
        obtain ⟨hGood, hReads⟩ := reads_of_readLines reads_nil hFeed allGood_nil hLines
        exact ⟨hGood, hReads.means⟩
  refine ⟨⟨fun ⟨book, hParse⟩ => (hRead book hParse).1, fun hGood => ?_⟩,
    fun book hParse => (hRead book hParse).2, fun hNotGood => ?_⟩
  · obtain ⟨p, hLines⟩ : ∃ p, readLines ⟨∅, none⟩ 1 (Text.lines text.toList) = .ok p :=
      readLines_of_allGood reads_nil hFeed hGood
    exact ⟨p.book, by rw [parse, hLines]; rfl⟩
  · obtain ⟨before, line, after, hLines, hGood, hLine⟩ := exists_first_of_not_allGood hNotGood
    rw [hLines] at hFeed
    obtain ⟨cause, hFault⟩ := readLines_of_not_good hFeed hGood hLine
    exact ⟨before, line, after, cause.message, hLines, hGood, hLine, by
      rw [parse, hLines, hFault]; rfl⟩

end Accounts.KeyFile
