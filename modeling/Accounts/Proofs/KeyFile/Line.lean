import Mathlib.Data.List.DropRight
import Accounts.KeyFile.Line
import Accounts.Proofs.GroupName

/-! Single lines of a key file: what a written header and a written entry are read as, and which
keys a line can carry. -/
namespace Accounts.KeyFile

/-- What a key must be like to be read back from a line of its own. A value may be any text, since
it is escaped; a key is written as it is. -/
structure IsWritable (key : String) : Prop where
  ne_nil : key.toList ≠ []
  equals_notMem : '=' ∉ key.toList
  newline_notMem : '\n' ∉ key.toList
  head : ∀ c ∈ key.toList.head?, c ≠ '[' ∧ c ≠ '#' ∧ c ≠ ' ' ∧ c ≠ '\t'
  last : ∀ c ∈ key.toList.getLast?, c ≠ ' ' ∧ c ≠ '\t'

theorem isPadding_eq_false_iff {c : Char} : Text.isPadding c = false ↔ c ≠ ' ' ∧ c ≠ '\t' := by
  simp [Text.isPadding]

theorem dropEndWhile_eq_rdropWhile (p : Char → Bool) (s : List Char) :
    Text.dropEndWhile p s = s.rdropWhile p := rfl

theorem dropEndWhile_of_last {p : Char → Bool} {s : List Char}
    (h : ∀ c ∈ s.getLast?, p c = false) : Text.dropEndWhile p s = s := by
  rw [dropEndWhile_eq_rdropWhile, List.rdropWhile_eq_self_iff]
  intro hNe
  simp [h (s.getLast hNe) (List.getLast_mem_getLast? hNe)]

/-! ## Values -/

theorem mem_escapeChar {c d : Char} (h : d ∈ escapeChar c) : d ≠ '\n' ∧ d ≠ '\r' := by
  unfold escapeChar at h
  split_ifs at h with hBackslash hFeed hTab hReturn
  all_goals simp only [List.mem_cons, List.not_mem_nil, or_false] at h
  · rcases h with rfl | rfl <;> decide
  · rcases h with rfl | rfl <;> decide
  · rcases h with rfl | rfl <;> decide
  · rcases h with rfl | rfl <;> decide
  · subst h
    exact ⟨hFeed, hReturn⟩

theorem mem_flatMap_escapeChar {v : List Char} {d : Char} (h : d ∈ v.flatMap escapeChar) :
    d ≠ '\n' ∧ d ≠ '\r' := by
  obtain ⟨c, _, hd⟩ := List.mem_flatMap.mp h
  exact mem_escapeChar hd

theorem escape_of_ne_space {v : List Char} (h : v.head? ≠ some ' ') :
    escape v = v.flatMap escapeChar := by
  rw [escape]
  rintro rest rfl
  simp at h

/-- The written form of a value stays within its line. -/
theorem mem_escape {v : List Char} {d : Char} (h : d ∈ escape v) : d ≠ '\n' ∧ d ≠ '\r' := by
  by_cases hSpace : v.head? = some ' '
  · obtain ⟨rest, rfl⟩ := List.head?_eq_some_iff.mp hSpace
    simp only [escape, List.mem_cons] at h
    rcases h with rfl | rfl | h
    · decide
    · decide
    · exact mem_flatMap_escapeChar h
  · rw [escape_of_ne_space hSpace] at h
    exact mem_flatMap_escapeChar h

theorem escapeChar_head {c : Char} (h : c ≠ ' ') :
    ∃ d rest, escapeChar c = d :: rest ∧ Text.isPadding d = false := by
  unfold escapeChar
  split_ifs with hBackslash hFeed hTab hReturn
  · exact ⟨_, _, rfl, by decide⟩
  · exact ⟨_, _, rfl, by decide⟩
  · exact ⟨_, _, rfl, by decide⟩
  · exact ⟨_, _, rfl, by decide⟩
  · exact ⟨_, _, rfl, isPadding_eq_false_iff.mpr ⟨h, hTab⟩⟩

/-- No padding in front of a value is lost, since its written form starts with none. -/
theorem dropWhile_escape (v : List Char) : (escape v).dropWhile Text.isPadding = escape v := by
  cases v with
  | nil => rfl
  | cons c rest =>
      by_cases hSpace : c = ' '
      · subst hSpace
        rfl
      · obtain ⟨d, tail, hEscape, hPadding⟩ := escapeChar_head hSpace
        rw [escape_of_ne_space (by simpa using hSpace), List.flatMap_cons, hEscape]
        simp [hPadding]

theorem unescape_flatMap_escapeChar (v : List Char) :
    unescape (v.flatMap escapeChar) = .ok v := by
  induction v with
  | nil => rfl
  | cons c rest ih =>
      rw [List.flatMap_cons, escapeChar]
      split_ifs with hBackslash hFeed hTab hReturn
      · simp [unescape, escaped?, ih, hBackslash, Except.map]
      · simp [unescape, escaped?, ih, hFeed, Except.map]
      · simp [unescape, escaped?, ih, hTab, Except.map]
      · simp [unescape, escaped?, ih, hReturn, Except.map]
      · simp [unescape, ih, hBackslash, Except.map]

theorem unescape_escape (v : List Char) : unescape (escape v) = .ok v := by
  by_cases hSpace : v.head? = some ' '
  · obtain ⟨rest, rfl⟩ := List.head?_eq_some_iff.mp hSpace
    simp [escape, unescape, escaped?, unescape_flatMap_escapeChar, Except.map]
  · rw [escape_of_ne_space hSpace, unescape_flatMap_escapeChar]

/-! ## Lines -/

/-- What the reader makes of a line that is no comment and no header. -/
theorem Line.read_of_dropWhile {s rest : List Char} {c : Char}
    (hLine : s.dropWhile Text.isPadding = c :: rest) (hComment : c ≠ '#') (hHeader : c ≠ '[') :
    Line.read s = match Text.cut? '=' (c :: rest) with
      | none => .error .missingEquals
      | some (left, right) =>
        let key := Text.dropEndWhile Text.isPadding left
        if key.isEmpty then .error .emptyKey
        else .ok (.entry (String.ofList key) (right.dropWhile Text.isPadding)) := by
  rw [Line.read, hLine]
  split
  · simp_all
  · simp_all
  · simp_all
  · rfl

/-- The line that opens the section of a group. -/
def headerLine (g : GroupName) : List Char := '[' :: g.sectionName.toList ++ [']']

/-- The line of an attribute. -/
def entryLine (e : String × String) : List Char := e.1.toList ++ '=' :: escape e.2.toList

theorem Line.read_headerLine (g : GroupName) : Line.read (headerLine g) = .ok (.header g) := by
  have hDrop : (headerLine g).dropWhile Text.isPadding =
      '[' :: (g.sectionName.toList ++ [']']) := by
    simp [headerLine, Text.isPadding]
  have hName : headerName? (g.sectionName.toList ++ [']']) = some g.sectionName.toList := by
    simp [headerName?, Text.trimEnd,
      Text.dropEndWhile_append_of_neg _ (by decide : Text.isSpace ']' = false)]
  simp [Line.read, hDrop, hName]

theorem Line.read_entryLine {e : String × String} (h : IsWritable e.1) :
    Line.read (entryLine e) = .ok (.entry e.1 (escape e.2.toList)) := by
  obtain ⟨key, value⟩ := e
  obtain ⟨c, rest, hKey⟩ := List.exists_cons_of_ne_nil h.ne_nil
  obtain ⟨hHeader, hComment, hPadding⟩ := h.head c (by simp [hKey])
  have hDrop : (entryLine (key, value)).dropWhile Text.isPadding =
      c :: (rest ++ '=' :: escape value.toList) := by
    simp [entryLine, hKey, isPadding_eq_false_iff.mpr hPadding]
  have hCut : Text.cut? '=' (c :: (rest ++ '=' :: escape value.toList)) =
      some (key.toList, escape value.toList) := by
    rw [Text.cut?_eq_some_iff]
    exact ⟨by simp [hKey], h.equals_notMem⟩
  have hTrim : Text.dropEndWhile Text.isPadding key.toList = key.toList :=
    dropEndWhile_of_last fun d hd => isPadding_eq_false_iff.mpr (h.last d hd)
  rw [Line.read_of_dropWhile hDrop hComment hHeader, hCut]
  simp [hTrim, h.ne_nil, dropWhile_escape]

/-- An entry is read from a line that is neither a comment nor a header. Its key is what stands in
front of the first equals sign, less the padding at its end. -/
theorem Line.read_eq_entry {s raw : List Char} {key : String}
    (hRead : Line.read s = .ok (.entry key raw)) :
    ∃ c rest left right, s.dropWhile Text.isPadding = c :: rest ∧ c ≠ '#' ∧ c ≠ '[' ∧
      c :: rest = left ++ '=' :: right ∧ '=' ∉ left ∧ key.toList ≠ [] ∧
      key.toList = Text.dropEndWhile Text.isPadding left := by
  cases hLine : s.dropWhile Text.isPadding with
  | nil => simp [Line.read, hLine] at hRead
  | cons c rest =>
      by_cases hComment : c = '#'
      · simp [Line.read, hLine, hComment] at hRead
      by_cases hHeader : c = '['
      · subst hHeader
        simp only [Line.read, hLine] at hRead
        cases hName : headerName? rest with
        | none => simp [hName] at hRead
        | some name =>
            cases hGroup : GroupName.parse (String.ofList name) <;> simp [hName, hGroup] at hRead
      rw [Line.read_of_dropWhile hLine hComment hHeader] at hRead
      cases hCut : Text.cut? '=' (c :: rest) with
      | none => simp [hCut] at hRead
      | some parts =>
          obtain ⟨left, right⟩ := parts
          obtain ⟨hSplit, hEquals⟩ := Text.cut?_eq_some_iff.mp hCut
          simp only [hCut] at hRead
          by_cases hKey : Text.dropEndWhile Text.isPadding left = []
          · simp [hKey] at hRead
          · simp only [List.isEmpty_iff, hKey, if_false, Except.ok.injEq, Line.entry.injEq] at hRead
            obtain ⟨rfl, -⟩ := hRead
            exact ⟨c, rest, left, right, rfl, hComment, hHeader, hSplit, hEquals, by simpa using hKey,
              by simp⟩

/-- The keys that a reader finds are keys that a line can carry. -/
theorem isWritable_of_read {s raw : List Char} {key : String} (hFeed : '\n' ∉ s)
    (hRead : Line.read s = .ok (.entry key raw)) : IsWritable key := by
  obtain ⟨c, rest, left, right, hLine, hComment, hHeader, hSplit, hEquals, hNe, hKey⟩ :=
    Line.read_eq_entry hRead
  rw [dropEndWhile_eq_rdropWhile] at hKey
  have hPrefix : key.toList <+: left := hKey ▸ List.rdropWhile_prefix _ _
  have hPadding : Text.isPadding c = false := by
    have hHead := List.head?_dropWhile_not Text.isPadding s
    rw [hLine] at hHead
    simpa using hHead
  have hFirst : key.toList.head? = some c := by
    obtain ⟨d, tail, hCons⟩ := List.exists_cons_of_ne_nil hNe
    obtain ⟨more, hMore⟩ := hPrefix
    rw [← hMore, hCons] at hSplit
    rw [hCons, List.head?_cons, (List.cons.inj hSplit).1]
  refine ⟨hNe, fun hMem => hEquals (hPrefix.subset hMem), fun hMem => hFeed ?_, ?_, ?_⟩
  · have hLeft : '\n' ∈ c :: rest := by
      rw [hSplit]
      exact List.mem_append_left _ (hPrefix.subset hMem)
    rw [← hLine] at hLeft
    exact (List.dropWhile_suffix _).subset hLeft
  · intro d hd
    rw [hFirst, Option.mem_some_iff] at hd
    subst hd
    exact ⟨hHeader, hComment, isPadding_eq_false_iff.mp hPadding⟩
  · intro d hd
    have hLast := List.rdropWhile_last_not Text.isPadding left (hKey ▸ hNe)
    rw [hKey, List.getLast?_eq_getLast_of_ne_nil (hKey ▸ hNe), Option.mem_some_iff] at hd
    rw [hd, Bool.not_eq_true] at hLast
    exact isPadding_eq_false_iff.mp hLast

/-- A key that passes the check has no white space at its ends, so it has no padding there. -/
theorem isWritable_of_isKey {key : String} (h : isKey key = true) : IsWritable key := by
  simp only [isKey, Bool.and_eq_true, Bool.not_eq_true', List.isEmpty_eq_false_iff, beq_iff_eq,
    bne_iff_ne, List.all_eq_true] at h
  obtain ⟨⟨⟨⟨hNe, hTrim⟩, hHeader⟩, hComment⟩, hChars⟩ := h
  have hStart : key.toList.dropWhile Text.isSpace = key.toList := by
    apply (List.dropWhile_suffix _).eq_of_length_le
    calc key.toList.length
        = (Text.trim key.toList).length := by rw [hTrim]
      _ ≤ (key.toList.dropWhile Text.isSpace).length := (List.rdropWhile_prefix _ _).length_le
  have hEnd : key.toList.rdropWhile Text.isSpace = key.toList := by
    rw [Text.trim, hStart] at hTrim
    exact hTrim
  have hNotPadding : ∀ c, Text.isSpace c = false → c ≠ ' ' ∧ c ≠ '\t' := by
    intro c hc
    apply isPadding_eq_false_iff.mp
    by_contra hPadding
    rw [Bool.not_eq_false] at hPadding
    simp [Text.isSpace_of_isPadding hPadding] at hc
  refine ⟨hNe, fun hMem => (hChars _ hMem).1.1 rfl, fun hMem => (hChars _ hMem).1.2 rfl, ?_, ?_⟩
  · intro c hc
    have hHead := List.head?_dropWhile_not Text.isSpace key.toList
    rw [hStart, Option.mem_def.mp hc] at hHead
    refine ⟨?_, ?_, hNotPadding c hHead⟩
    · rintro rfl
      exact hHeader hc
    · rintro rfl
      exact hComment hc
  · intro c hc
    have hLast := List.rdropWhile_last_not Text.isSpace key.toList (hEnd.symm ▸ hNe)
    simp only [hEnd, Bool.not_eq_true] at hLast
    rw [List.getLast?_eq_getLast_of_ne_nil hNe, Option.mem_some_iff] at hc
    rw [hc] at hLast
    exact hNotPadding c hLast

end Accounts.KeyFile
