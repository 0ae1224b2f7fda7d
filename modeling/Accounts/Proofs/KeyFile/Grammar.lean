import Accounts.Proofs.KeyFile.Line

/-! The grammar of one line of a key file, and that the reader of lines decides it: a line is read
as what it derives, and a written value as what it denotes, and nothing else is read at all. -/
namespace Accounts.KeyFile

/-! ## Values -/

/-- The value that a written form denotes. A backslash stands only at the head of one of the five
escapes. -/
inductive Denotes : List Char → List Char → Prop where
  | nil : Denotes [] []
  | plain {c : Char} {raw value : List Char} (hChar : c ≠ '\\') (h : Denotes raw value) :
      Denotes (c :: raw) (c :: value)
  | space {raw value : List Char} (h : Denotes raw value) :
      Denotes ('\\' :: 's' :: raw) (' ' :: value)
  | newline {raw value : List Char} (h : Denotes raw value) :
      Denotes ('\\' :: 'n' :: raw) ('\n' :: value)
  | tab {raw value : List Char} (h : Denotes raw value) :
      Denotes ('\\' :: 't' :: raw) ('\t' :: value)
  | carriageReturn {raw value : List Char} (h : Denotes raw value) :
      Denotes ('\\' :: 'r' :: raw) ('\r' :: value)
  | backslash {raw value : List Char} (h : Denotes raw value) :
      Denotes ('\\' :: '\\' :: raw) ('\\' :: value)

theorem denotes_escaped {c d : Char} {raw value : List Char} (hChar : escaped? c = some d)
    (h : Denotes raw value) : Denotes ('\\' :: c :: raw) (d :: value) := by
  unfold escaped? at hChar
  split at hChar
  · obtain rfl := Option.some.inj hChar
    exact .space h
  · obtain rfl := Option.some.inj hChar
    exact .newline h
  · obtain rfl := Option.some.inj hChar
    exact .tab h
  · obtain rfl := Option.some.inj hChar
    exact .carriageReturn h
  · obtain rfl := Option.some.inj hChar
    exact .backslash h
  · contradiction

theorem denotes_of_unescape {raw value : List Char} (h : unescape raw = .ok value) :
    Denotes raw value := by
  induction raw using unescape.induct generalizing value with
  | case1 =>
      obtain rfl := Except.ok.inj h
      exact .nil
  | case2 => simp [unescape] at h
  | case3 c rest hEscape => simp [unescape, hEscape] at h
  | case4 c rest d hEscape ih =>
      simp only [unescape, hEscape] at h
      cases hRest : unescape rest with
      | error fault => simp [hRest, Except.map] at h
      | ok tail =>
          simp only [hRest, Except.map, Except.ok.injEq] at h
          subst h
          exact denotes_escaped hEscape (ih hRest)
  | case5 c rest hAlone hEscape ih =>
      have hChar : c ≠ '\\' := by
        rintro rfl
        cases rest with
        | nil => exact hAlone rfl rfl
        | cons d rest => exact hEscape d rest rfl rfl
      rw [unescape.eq_4 c rest hAlone hEscape] at h
      cases hRest : unescape rest with
      | error fault => simp [hRest, Except.map] at h
      | ok tail =>
          simp only [hRest, Except.map, Except.ok.injEq] at h
          subst h
          exact .plain hChar (ih hRest)

theorem unescape_of_denotes {raw value : List Char} (h : Denotes raw value) :
    unescape raw = .ok value := by
  induction h with
  | nil => rfl
  | plain hChar _ ih => simp [unescape, hChar, ih, Except.map]
  | space _ ih => simp [unescape, escaped?, ih, Except.map]
  | newline _ ih => simp [unescape, escaped?, ih, Except.map]
  | tab _ ih => simp [unescape, escaped?, ih, Except.map]
  | carriageReturn _ ih => simp [unescape, escaped?, ih, Except.map]
  | backslash _ ih => simp [unescape, escaped?, ih, Except.map]

theorem unescape_eq_ok_iff {raw value : List Char} :
    unescape raw = .ok value ↔ Denotes raw value :=
  ⟨denotes_of_unescape, unescape_of_denotes⟩

/-! ## Lines -/

/-- Spaces and tabs, or nothing. -/
def IsPad (s : List Char) : Prop := ∀ c ∈ s, c = ' ' ∨ c = '\t'

/-- What a line derives. A header may be followed by white space of any kind; around a key, and in
front of a value, there is padding only, and the first equals sign is the one that counts. -/
inductive Line.Derives : List Char → Line → Prop where
  | empty {pad : List Char} (hPad : IsPad pad) : Derives pad .blank
  | comment {pad text : List Char} (hPad : IsPad pad) : Derives (pad ++ '#' :: text) .blank
  | header {pad space : List Char} {g : GroupName} (hPad : IsPad pad)
      (hSpace : ∀ c ∈ space, Text.isSpace c = true) :
      Derives (pad ++ '[' :: (g.sectionName.toList ++ ']' :: space)) (.header g)
  | entry {pad gap pad' raw : List Char} {key : String} (hPad : IsPad pad) (hKey : IsWritable key)
      (hGap : IsPad gap) (hPad' : IsPad pad') (hRaw : ∀ c ∈ raw.head?, c ≠ ' ' ∧ c ≠ '\t') :
      Derives (pad ++ (key.toList ++ (gap ++ '=' :: (pad' ++ raw)))) (.entry key raw)

theorem isPadding_eq_true_iff {c : Char} : Text.isPadding c = true ↔ c = ' ' ∨ c = '\t' := by
  simp [Text.isPadding]

theorem isPad_iff {s : List Char} : IsPad s ↔ ∀ c ∈ s, Text.isPadding c = true :=
  forall₂_congr fun _ _ => isPadding_eq_true_iff.symm

theorem isPad_takeWhile (s : List Char) : IsPad (s.takeWhile Text.isPadding) :=
  isPad_iff.mpr fun _ hc => List.mem_takeWhile_imp hc

/-- A line is its padding and what follows it. -/
theorem dropWhile_pad {pad : List Char} (hPad : IsPad pad) (rest : List Char)
    (hRest : ∀ c ∈ rest.head?, c ≠ ' ' ∧ c ≠ '\t') :
    (pad ++ rest).dropWhile Text.isPadding = rest := by
  rw [List.dropWhile_append_of_pos (isPad_iff.mp hPad)]
  cases rest with
  | nil => rfl
  | cons c rest =>
      exact List.dropWhile_cons_of_neg (by simp [isPadding_eq_false_iff.mpr (hRest c rfl)])

theorem dropWhile_eq_nil_iff_isPad {s : List Char} : s.dropWhile Text.isPadding = [] ↔ IsPad s := by
  rw [List.dropWhile_eq_nil_iff, isPad_iff]

/-- Removing what satisfies `p` from the end of a text leaves a text in front of what was removed. -/
theorem exists_of_dropEndWhile (p : Char → Bool) (s : List Char) :
    ∃ tail, s = Text.dropEndWhile p s ++ tail ∧ ∀ c ∈ tail, p c = true := by
  refine ⟨s.rtakeWhile p, ?_, fun c hc => List.mem_rtakeWhile_imp hc⟩
  rw [dropEndWhile_eq_rdropWhile, List.rdropWhile_append_rtakeWhile]

theorem dropEndWhile_append {p : Char → Bool} {s tail : List Char} (hTail : ∀ c ∈ tail, p c = true)
    (hLast : ∀ c ∈ s.getLast?, p c = false) : Text.dropEndWhile p (s ++ tail) = s := by
  rw [Text.dropEndWhile, List.reverse_append,
    List.dropWhile_append_of_pos fun c hc => hTail c (List.mem_reverse.mp hc)]
  exact dropEndWhile_of_last hLast

/-- A header is closed by the last bracket that only white space follows. -/
theorem headerName?_eq_some_iff {s name : List Char} :
    headerName? s = some name ↔
      ∃ space, s = name ++ ']' :: space ∧ ∀ c ∈ space, Text.isSpace c = true := by
  constructor
  · intro h
    obtain ⟨space, hSplit, hSpace⟩ := exists_of_dropEndWhile Text.isSpace s
    refine ⟨space, ?_, hSpace⟩
    unfold headerName? at h
    split at h
    next name' hTrim =>
      obtain rfl := Option.some.inj h
      have hHead : Text.trimEnd s = name'.reverse ++ [']'] := by
        rw [← List.reverse_reverse (Text.trimEnd s), hTrim, List.reverse_cons]
      rw [Text.trimEnd] at hHead
      rw [hHead] at hSplit
      simpa using hSplit
    next => contradiction
  · rintro ⟨space, rfl, hSpace⟩
    have hTrim : Text.trimEnd (name ++ ']' :: space) = name ++ [']'] := by
      have hAppend : name ++ ']' :: space = (name ++ [']']) ++ space := by simp
      rw [Text.trimEnd, hAppend]
      refine dropEndWhile_append hSpace fun c hc => ?_
      obtain rfl : c = ']' := by simpa using hc.symm
      decide
    simp [headerName?, hTrim]

/-- A header line is read as the group that it names. -/
theorem Line.read_of_header {pad space : List Char} {g : GroupName} (hPad : IsPad pad)
    (hSpace : ∀ c ∈ space, Text.isSpace c = true) :
    Line.read (pad ++ '[' :: (g.sectionName.toList ++ ']' :: space)) = .ok (.header g) := by
  have hDrop := dropWhile_pad hPad ('[' :: (g.sectionName.toList ++ ']' :: space)) (by simp)
  have hName : headerName? (g.sectionName.toList ++ ']' :: space) = some g.sectionName.toList :=
    headerName?_eq_some_iff.mpr ⟨space, rfl, hSpace⟩
  simp [Line.read, hDrop, hName]

/-- A key is read from a line with what follows the first equals sign, whatever padding there is. -/
theorem Line.read_of_entry {pad gap pad' raw : List Char} {key : String} (hPad : IsPad pad)
    (hKey : IsWritable key) (hGap : IsPad gap) (hPad' : IsPad pad')
    (hRaw : ∀ c ∈ raw.head?, c ≠ ' ' ∧ c ≠ '\t') :
    Line.read (pad ++ (key.toList ++ (gap ++ '=' :: (pad' ++ raw)))) = .ok (.entry key raw) := by
  obtain ⟨c, rest, hCons⟩ := List.exists_cons_of_ne_nil hKey.ne_nil
  obtain ⟨hHeader, hComment, hPadding⟩ := hKey.head c (by simp [hCons])
  have hDrop : (pad ++ (key.toList ++ (gap ++ '=' :: (pad' ++ raw)))).dropWhile Text.isPadding =
      c :: (rest ++ (gap ++ '=' :: (pad' ++ raw))) := by
    rw [hCons]
    exact dropWhile_pad hPad _ (by simpa using hPadding)
  have hCut : Text.cut? '=' (c :: (rest ++ (gap ++ '=' :: (pad' ++ raw)))) =
      some (key.toList ++ gap, pad' ++ raw) := by
    rw [Text.cut?_eq_some_iff]
    refine ⟨by simp [hCons], ?_⟩
    rw [List.mem_append, not_or]
    exact ⟨hKey.equals_notMem, fun hMem => by simpa using hGap _ hMem⟩
  have hTrim : Text.dropEndWhile Text.isPadding (key.toList ++ gap) = key.toList :=
    dropEndWhile_append (isPad_iff.mp hGap) fun d hd => isPadding_eq_false_iff.mpr (hKey.last d hd)
  rw [Line.read_of_dropWhile hDrop hComment hHeader, hCut]
  simp [hTrim, hKey.ne_nil, dropWhile_pad hPad' raw hRaw]

theorem Line.read_of_derives {s : List Char} {line : Line} (h : Line.Derives s line) :
    Line.read s = .ok line := by
  cases h with
  | empty hPad => simp [Line.read, dropWhile_eq_nil_iff_isPad.mpr hPad]
  | @comment pad text hPad =>
      have hDrop := dropWhile_pad hPad ('#' :: text) (by simp)
      simp [Line.read, hDrop]
  | header hPad hSpace => exact Line.read_of_header hPad hSpace
  | entry hPad hKey hGap hPad' hRaw => exact Line.read_of_entry hPad hKey hGap hPad' hRaw

theorem Line.derives_of_read {s : List Char} {line : Line} (hFeed : '\n' ∉ s)
    (h : Line.read s = .ok line) : Line.Derives s line := by
  have hSplit : s = s.takeWhile Text.isPadding ++ s.dropWhile Text.isPadding :=
    (List.takeWhile_append_dropWhile).symm
  have hPad := isPad_takeWhile s
  cases hLine : s.dropWhile Text.isPadding with
  | nil =>
      simp only [Line.read, hLine, Except.ok.injEq] at h
      subst h
      exact .empty (dropWhile_eq_nil_iff_isPad.mp hLine)
  | cons c rest =>
      rw [hLine] at hSplit
      by_cases hComment : c = '#'
      · subst hComment
        simp only [Line.read, hLine, Except.ok.injEq] at h
        subst h
        rw [hSplit]
        exact .comment hPad
      by_cases hHeader : c = '['
      · subst hHeader
        simp only [Line.read, hLine] at h
        cases hName : headerName? rest with
        | none => simp [hName] at h
        | some name =>
            cases hGroup : GroupName.parse (String.ofList name) with
            | error _ => simp [hName, hGroup] at h
            | ok g =>
                simp only [hName, hGroup, Except.ok.injEq] at h
                subst h
                obtain ⟨space, hRest, hSpace⟩ := headerName?_eq_some_iff.mp hName
                have hList := congrArg String.toList (GroupName.parse_eq_ok_iff.mp hGroup)
                rw [String.toList_ofList] at hList
                rw [hSplit, hRest, hList]
                exact .header hPad hSpace
      have hRead := h
      rw [Line.read_of_dropWhile hLine hComment hHeader] at h
      cases hCut : Text.cut? '=' (c :: rest) with
      | none => simp [hCut] at h
      | some parts =>
          obtain ⟨left, right⟩ := parts
          obtain ⟨hEquals, -⟩ := Text.cut?_eq_some_iff.mp hCut
          simp only [hCut] at h
          split at h
          next => contradiction
          next =>
            obtain rfl := Except.ok.inj h
            obtain ⟨gap, hLeft, hGap⟩ := exists_of_dropEndWhile Text.isPadding left
            have hWhole : s = s.takeWhile Text.isPadding ++
                ((String.ofList (Text.dropEndWhile Text.isPadding left)).toList ++ (gap ++ '=' ::
                  (right.takeWhile Text.isPadding ++ right.dropWhile Text.isPadding))) := by
              rw [String.toList_ofList, List.takeWhile_append_dropWhile, ← List.append_assoc _ gap,
                ← hLeft, ← hEquals]
              exact hSplit
            rw [hWhole]
            refine .entry hPad (isWritable_of_read hFeed hRead) (isPad_iff.mpr hGap)
              (isPad_takeWhile right) fun d hd => isPadding_eq_false_iff.mp ?_
            have hHead := List.head?_dropWhile_not Text.isPadding right
            rw [Option.mem_def.mp hd] at hHead
            exact hHead

/-- A line without line feeds is read exactly as what it derives. -/
theorem Line.read_eq_ok_iff {s : List Char} {line : Line} (hFeed : '\n' ∉ s) :
    Line.read s = .ok line ↔ Line.Derives s line :=
  ⟨Line.derives_of_read hFeed, Line.read_of_derives⟩

end Accounts.KeyFile
