import Accounts.KeyFile.Basic
import Accounts.Proofs.Book
import Accounts.Proofs.KeyFile.Line

/-! Reading back what has been written. A book comes back from its text exactly when every key in
it is one that a line can carry, and the keys of a book that was read from a text always are. -/
namespace Accounts.KeyFile

/-! ## Reading without line numbers -/

/-- Lines that are all read are read whatever their numbers are. -/
theorem readLines_eq_ok_iff {p q : Progress} {number : Nat} {text : List (List Char)} :
    readLines p number text = .ok q ↔ text.foldlM Progress.step p = .ok q := by
  induction text generalizing p number with
  | nil => simp [readLines, pure, Except.pure]
  | cons line rest ih =>
      rw [readLines, List.foldlM_cons]
      cases hStep : p.step line with
      | error cause => simp [bind, Except.bind]
      | ok p' => exact ih

theorem parse_eq_ok_iff {text : String} {book : Book} :
    parse text = .ok book ↔ ∃ current,
      (Text.lines text.toList).foldlM Progress.step ⟨∅, none⟩ = .ok ⟨book, current⟩ := by
  rw [parse]
  constructor
  · intro h
    cases hRead : readLines ⟨∅, none⟩ 1 (Text.lines text.toList) with
    | error fault => simp [hRead, Except.map] at h
    | ok p =>
        simp only [hRead, Except.map, Except.ok.injEq] at h
        subst h
        exact ⟨p.current, readLines_eq_ok_iff.mp hRead⟩
  · rintro ⟨current, hFold⟩
    rw [readLines_eq_ok_iff.mpr hFold]
    rfl

/-! ## The lines of a written book -/

def sectionLines (e : GroupName × Attributes) : List (List Char) :=
  headerLine e.1 :: e.2.toList.map entryLine

/-- The lines of sections with a blank line between them. -/
def bookLines : List (GroupName × Attributes) → List (List Char)
  | [] => []
  | first :: rest => sectionLines first ++ rest.flatMap fun e => [] :: sectionLines e

theorem lines_headerLine (g : GroupName) (rest : List Char) :
    Text.lines (headerLine g ++ '\n' :: rest) = headerLine g :: Text.lines rest := by
  apply Text.lines_append_newline
  · simp only [headerLine, List.cons_append, List.mem_cons, List.mem_append, not_or]
    refine ⟨by decide, fun hMem => ?_, by decide, by simp⟩
    rcases GroupName.mem_sectionName hMem with hChar | hSlash
    · revert hChar
      decide
    · revert hSlash
      decide
  · have hLast : (headerLine g).getLast? = some ']' := List.getLast?_concat
    rw [hLast]
    decide

theorem lines_entryLine {e : String × String} (h : IsWritable e.1) (rest : List Char) :
    Text.lines (entryLine e ++ '\n' :: rest) = entryLine e :: Text.lines rest := by
  apply Text.lines_append_newline
  · simp only [entryLine, List.mem_append, List.mem_cons, not_or]
    exact ⟨h.newline_notMem, by decide, fun hMem => (mem_escape hMem).1 rfl⟩
  · rw [entryLine, List.getLast?_append]
    cases hLast : (escape e.2.toList).getLast? with
    | none => simp [List.getLast?_cons, hLast]
    | some c => simpa [List.getLast?_cons, hLast] using (mem_escape (List.mem_of_getLast? hLast)).2

theorem lines_renderEntries {entries : List (String × String)}
    (h : ∀ e ∈ entries, IsWritable e.1) (rest : List Char) :
    Text.lines (entries.flatMap renderEntry ++ rest) =
      entries.map entryLine ++ Text.lines rest := by
  induction entries with
  | nil => rfl
  | cons e entries ih =>
      have hEntry : (e :: entries).flatMap renderEntry ++ rest =
          entryLine e ++ '\n' :: (entries.flatMap renderEntry ++ rest) := by
        simp [renderEntry, entryLine]
      rw [hEntry, lines_entryLine (h e (List.mem_cons_self ..)),
        ih fun e' he' => h e' (List.mem_cons_of_mem _ he')]
      rfl

theorem lines_renderSection {e : GroupName × Attributes}
    (h : ∀ key ∈ e.2.keys, IsWritable key) (rest : List Char) :
    Text.lines (renderSection e ++ rest) = sectionLines e ++ Text.lines rest := by
  have hSection : renderSection e ++ rest =
      headerLine e.1 ++ '\n' :: (e.2.toList.flatMap renderEntry ++ rest) := by
    simp [renderSection, headerLine]
  rw [hSection, lines_headerLine,
    lines_renderEntries fun e' he' => h e'.1 (List.mem_map_of_mem he')]
  rfl

theorem lines_renderSections {es : List (GroupName × Attributes)}
    (h : ∀ e ∈ es, ∀ key ∈ e.2.keys, IsWritable key) :
    Text.lines (renderSections es) = bookLines es := by
  have hRest : ∀ es : List (GroupName × Attributes), (∀ e ∈ es, ∀ key ∈ e.2.keys, IsWritable key) →
      Text.lines (es.flatMap fun e => '\n' :: renderSection e) =
        es.flatMap fun e => [] :: sectionLines e := by
    intro es hKeys
    induction es with
    | nil => rfl
    | cons e es ih =>
        rw [List.flatMap_cons, List.cons_append, Text.lines,
          lines_renderSection (hKeys e (List.mem_cons_self ..)),
          ih fun e' he' => hKeys e' (List.mem_cons_of_mem _ he')]
        rfl
  cases es with
  | nil => rfl
  | cons first rest =>
      rw [renderSections, lines_renderSection (h first (List.mem_cons_self ..)),
        hRest rest fun e he => h e (List.mem_cons_of_mem _ he)]
      rfl

/-! ## Reading the lines of a written book -/

theorem step_nil (p : Progress) : p.step [] = .ok p := rfl

theorem step_headerLine (p : Progress) (g : GroupName) :
    p.step (headerLine g) = .ok ⟨p.book.write g [], some g⟩ := by
  rw [Progress.step, Line.read_headerLine]

theorem step_entryLine {book : Book} {g : GroupName} {e : String × String} (h : IsWritable e.1) :
    Progress.step ⟨book, some g⟩ (entryLine e) = .ok ⟨book.write g [e], some g⟩ := by
  rw [Progress.step, Line.read_entryLine h]
  simp [unescape_escape]

theorem foldlM_entryLines {book : Book} {g : GroupName} {entries : List (String × String)}
    (h : ∀ e ∈ entries, IsWritable e.1) :
    (entries.map entryLine).foldlM Progress.step ⟨book.write g [], some g⟩ =
      .ok ⟨book.write g entries, some g⟩ := by
  induction entries using List.reverseRecOn with
  | nil => rfl
  | append_singleton entries e ih =>
      rw [List.map_append, List.foldlM_append,
        ih fun e' he' => h e' (List.mem_append_left _ he')]
      change ([e].map entryLine).foldlM Progress.step ⟨book.write g entries, some g⟩ = _
      simp [step_entryLine (h e (by simp)), Book.write_write]

theorem foldlM_sectionLines (p : Progress) {e : GroupName × Attributes}
    (h : ∀ key ∈ e.2.keys, IsWritable key) :
    (sectionLines e).foldlM Progress.step p = .ok ⟨p.book.write e.1 e.2.toList, some e.1⟩ := by
  rw [sectionLines, List.foldlM_cons, step_headerLine]
  exact foldlM_entryLines fun e' he' => h e'.1 (List.mem_map_of_mem he')

theorem foldlM_bookLines {es : List (GroupName × Attributes)}
    (h : ∀ e ∈ es, ∀ key ∈ e.2.keys, IsWritable key) :
    ∃ current, (bookLines es).foldlM Progress.step ⟨∅, none⟩ =
      .ok ⟨es.foldl (fun book e => book.write e.1 e.2.toList) ∅, current⟩ := by
  have hRest : ∀ (es : List (GroupName × Attributes)) (p : Progress),
      (∀ e ∈ es, ∀ key ∈ e.2.keys, IsWritable key) →
      ∃ current, (es.flatMap fun e => [] :: sectionLines e).foldlM Progress.step p =
        .ok ⟨es.foldl (fun book e => book.write e.1 e.2.toList) p.book, current⟩ := by
    intro es p hKeys
    induction es generalizing p with
    | nil => exact ⟨p.current, rfl⟩
    | cons e es ih =>
        rw [List.flatMap_cons, List.foldlM_append, List.foldlM_cons, step_nil]
        change ∃ current, (sectionLines e).foldlM Progress.step p >>= _ = _
        rw [foldlM_sectionLines p (hKeys e (List.mem_cons_self ..))]
        exact ih _ fun e' he' => hKeys e' (List.mem_cons_of_mem _ he')
  cases es with
  | nil => exact ⟨none, rfl⟩
  | cons first rest =>
      rw [bookLines, List.foldlM_append, foldlM_sectionLines _ (h first (List.mem_cons_self ..))]
      exact hRest rest _ fun e he => h e (List.mem_cons_of_mem _ he)

/-- Sections with distinct names do not merge. -/
theorem foldl_write {es : List (GroupName × Attributes)} (hNodup : (es.map Prod.fst).Nodup)
    (book : Book) (hNew : ∀ e ∈ es, book.get? e.1 = none) :
    es.foldl (fun book e => book.write e.1 e.2.toList) book = book.insertMany es := by
  induction es generalizing book with
  | nil => rfl
  | cons e es ih =>
      rw [List.map_cons, List.nodup_cons] at hNodup
      rw [List.foldl_cons, SortedMap.insertMany_cons,
        Book.write_toList _ (hNew e (List.mem_cons_self ..))]
      apply ih hNodup.2
      intro e' he'
      have hNe : e.1 ≠ e'.1 := by
        intro hEq
        exact hNodup.1 (hEq ▸ List.mem_map_of_mem he')
      simpa [hNe] using hNew e' (List.mem_cons_of_mem _ he')

/-- A book with keys that lines can carry comes back from its text. -/
theorem parse_render_of_writable {book : Book} (h : book.AllKeys IsWritable) :
    parse (render book) = .ok book := by
  have hKeys : ∀ e ∈ book.toList, ∀ key ∈ e.2.keys, IsWritable key := by
    intro e he
    exact h e.1 e.2 (SortedMap.mem_toList_iff.mp he)
  obtain ⟨current, hFold⟩ := foldlM_bookLines hKeys
  rw [foldl_write book.nodup_keys ∅ (fun _ _ => rfl)] at hFold
  rw [parse_eq_ok_iff]
  refine ⟨current, ?_⟩
  rw [render, String.toList_ofList, lines_renderSections hKeys, hFold]
  exact congrArg (fun b => Except.ok (Progress.mk b current)) (SortedMap.ofList_toList book)

/-! ## The keys of a book that was read -/

/-- What one line may make of what has been read before it. -/
inductive Progress.Takes (p : Progress) (line : List Char) : Progress → Prop
  | blank (hRead : Line.read line = .ok .blank) : Takes p line p
  | header (g : GroupName) (hRead : Line.read line = .ok (.header g)) :
      Takes p line ⟨p.book.write g [], some g⟩
  | entry (g : GroupName) (key : String) (raw value : List Char)
      (hRead : Line.read line = .ok (.entry key raw)) (hCurrent : p.current = some g)
      (hValue : unescape raw = .ok value) :
      Takes p line ⟨p.book.write g [(key, String.ofList value)], p.current⟩

theorem takes_of_step {p q : Progress} {line : List Char} (h : p.step line = .ok q) :
    p.Takes line q := by
  unfold Progress.step at h
  cases hRead : Line.read line with
  | error fault => simp [hRead] at h
  | ok read =>
      rw [hRead] at h
      cases read with
      | blank =>
          obtain rfl := Except.ok.inj h
          exact .blank hRead
      | header group =>
          obtain rfl := Except.ok.inj h
          exact .header group hRead
      | entry key raw =>
          cases hCurrent : p.current with
          | none => simp [hCurrent] at h
          | some group =>
              cases hValue : unescape raw with
              | error fault => simp [hCurrent, hValue] at h
              | ok value =>
                  simp only [hCurrent, hValue, Except.ok.injEq] at h
                  subst h
                  rw [← hCurrent]
                  exact .entry group key raw value hRead hCurrent hValue

theorem allKeys_of_step {p q : Progress} {line : List Char} (hFeed : '\n' ∉ line)
    (h : p.book.AllKeys IsWritable) (hStep : p.step line = .ok q) : q.book.AllKeys IsWritable := by
  cases takes_of_step hStep with
  | blank => exact h
  | header g => exact h.write (by simp)
  | entry g key raw value hRead =>
      refine h.write fun e he => ?_
      rw [List.mem_singleton] at he
      subst he
      exact isWritable_of_read hFeed hRead

theorem allKeys_of_foldlM {lines : List (List Char)} {p q : Progress}
    (hFeed : ∀ line ∈ lines, '\n' ∉ line) (h : p.book.AllKeys IsWritable)
    (hFold : lines.foldlM Progress.step p = .ok q) : q.book.AllKeys IsWritable := by
  induction lines generalizing p with
  | nil =>
      obtain rfl := Except.ok.inj hFold
      exact h
  | cons line lines ih =>
      rw [List.foldlM_cons] at hFold
      cases hStep : p.step line with
      | error cause => simp [hStep, bind, Except.bind] at hFold
      | ok p' =>
          rw [hStep] at hFold
          exact ih (fun l hl => hFeed l (List.mem_cons_of_mem _ hl))
            (allKeys_of_step (hFeed line (List.mem_cons_self ..)) h hStep) hFold

theorem allKeys_of_parse {text : String} {book : Book} (h : parse text = .ok book) :
    book.AllKeys IsWritable := by
  obtain ⟨current, hFold⟩ := parse_eq_ok_iff.mp h
  exact allKeys_of_foldlM (fun line hLine => Text.newline_notMem_of_mem_lines hLine)
    Book.allKeys_empty hFold

/-- A book comes back from its text exactly when lines can carry all its keys. That is so for keys
that pass the check, and for whatever has been read from some text. -/
theorem parse_render_eq_ok_iff (book : Book) :
    (parse (render book) = .ok book ↔ book.AllKeys IsWritable) ∧
    (book.AllKeys (fun key => isKey key = true) → parse (render book) = .ok book) ∧
    ∀ text, parse text = .ok book → parse (render book) = .ok book := by
  refine ⟨⟨allKeys_of_parse, parse_render_of_writable⟩, ?_, ?_⟩
  · intro hKeys
    exact parse_render_of_writable (hKeys.mono fun _ => isWritable_of_isKey)
  · intro text hParse
    exact parse_render_of_writable (allKeys_of_parse hParse)

end Accounts.KeyFile
