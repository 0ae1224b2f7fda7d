import Mathlib.Data.List.Nodup
import Accounts.Command.Run
import Accounts.Proofs.Registry.History

/-! What the two written forms of the accounts say. JSON says all of it. The text is cut at its end
before it is printed, and what white space the last value has there goes with the cut unless it was
written as an escape. -/
namespace Accounts

namespace Text

/-- Nothing is dropped in front of the last character that is to be kept. -/
theorem dropEndWhile_append_cons {p : Char → Bool} {c : Char} (s t : List Char)
    (h : p c = false) : dropEndWhile p (s ++ c :: t) = s ++ c :: dropEndWhile p t := by
  induction t using List.reverseRecOn with
  | nil => exact dropEndWhile_append_of_neg s h
  | append_singleton t d ih =>
      have hSnoc : s ++ c :: (t ++ [d]) = (s ++ c :: t) ++ [d] := by simp
      rw [hSnoc]
      by_cases hDrop : p d = true
      · rw [dropEndWhile_append_of_pos _ hDrop, dropEndWhile_append_of_pos _ hDrop, ih]
      · rw [Bool.not_eq_true] at hDrop
        rw [dropEndWhile_append_of_neg _ hDrop, dropEndWhile_append_of_neg _ hDrop, hSnoc]

theorem isSpace_eq_false_of_mem_getLast?_trimEnd {s : List Char} {c : Char}
    (h : c ∈ (trimEnd s).getLast?) : isSpace c = false := by
  have hNe : trimEnd s ≠ [] := List.ne_nil_of_mem (List.mem_of_getLast? h)
  rw [Option.mem_def, List.getLast?_eq_some_getLast hNe, Option.some.injEq] at h
  rw [← h]
  exact (Bool.not_eq_true _).mp (List.rdropWhile_last_not isSpace s hNe)

/-- The last line need not be ended, unless nothing stands in it or the end of line would take a
carriage return away from it. -/
theorem lines_append_singleton_newline {s : List Char} (hNe : s ≠ [])
    (hLast : ∀ c ∈ s.getLast?, c ≠ '\n' ∧ c ≠ '\r') : lines (s ++ ['\n']) = lines s := by
  induction s with
  | nil => exact absurd rfl hNe
  | cons c s ih =>
      cases s with
      | nil =>
          obtain ⟨hFeed, hReturn⟩ := hLast c rfl
          rw [lines_append_newline [] (by simpa using Ne.symm hFeed) (by simpa using hReturn),
            lines_cons hFeed fun h => absurd h hReturn, lines]
      | cons d s =>
          rw [List.getLast?_cons_of_ne_nil (List.cons_ne_nil d s)] at hLast
          have hRest := ih (List.cons_ne_nil d s) hLast
          by_cases hFeed : c = '\n'
          · subst hFeed
            exact congrArg ([] :: ·) hRest
          by_cases hReturn : c = '\r' ∧ d = '\n'
          · obtain ⟨rfl, rfl⟩ := hReturn
            exact hRest
          · have hHead : ∀ t, c = '\r' → (d :: t).head? ≠ some '\n' := fun t h hd =>
              hReturn ⟨h, Option.some.inj hd⟩
            rw [List.cons_append, List.cons_append, lines_cons hFeed (hHead _),
              lines_cons hFeed (hHead _), ← List.cons_append, hRest]

end Text

namespace KeyFile

/-! ## The end of a value -/

/-- White space that a value is written with as it is. -/
def isBare (c : Char) : Bool := Text.isSpace c && c != '\n' && c != '\t' && c != '\r'

/-- What is left of a value when its written form is cut. A space in front is written as an escape
and stays. -/
def crop : List Char → List Char
  | ' ' :: rest => ' ' :: Text.dropEndWhile isBare rest
  | value => Text.dropEndWhile isBare value

theorem crop_of_ne_space {v : List Char} (h : v.head? ≠ some ' ') :
    crop v = Text.dropEndWhile isBare v := by
  rw [crop]
  rintro rest rfl
  simp at h

theorem escapeChar_of_isBare {c : Char} (h : isBare c = true) :
    escapeChar c = [c] ∧ Text.isSpace c = true := by
  simp only [isBare, Bool.and_eq_true, bne_iff_ne] at h
  obtain ⟨⟨⟨hSpace, hFeed⟩, hTab⟩, hReturn⟩ := h
  have hBackslash : c ≠ '\\' := by
    rintro rfl
    contradiction
  exact ⟨by simp [escapeChar, hBackslash, hFeed, hTab, hReturn], hSpace⟩

theorem escapeChar_ne_nil (c : Char) : escapeChar c ≠ [] := by
  unfold escapeChar
  split_ifs <;> simp

/-- An escape does not end in white space. -/
theorem isSpace_getLast?_escapeChar {c : Char} (h : isBare c = false) :
    ∀ d ∈ (escapeChar c).getLast?, Text.isSpace d = false := by
  unfold escapeChar
  split_ifs with hBackslash hFeed hTab hReturn
  · simp [Text.isSpace]
  · simp [Text.isSpace]
  · simp [Text.isSpace]
  · simp [Text.isSpace]
  · simpa [isBare, hFeed, hTab, hReturn] using h

theorem trimEnd_flatMap_escapeChar (v : List Char) :
    Text.trimEnd (v.flatMap escapeChar) = (Text.dropEndWhile isBare v).flatMap escapeChar := by
  induction v using List.reverseRecOn with
  | nil => rfl
  | append_singleton v c ih =>
      rw [List.flatMap_append, List.flatMap_singleton]
      by_cases hBare : isBare c = true
      · obtain ⟨hEscape, hSpace⟩ := escapeChar_of_isBare hBare
        rw [hEscape, Text.trimEnd, Text.dropEndWhile_append_of_pos _ hSpace,
          Text.dropEndWhile_append_of_pos _ hBare]
        exact ih
      · rw [Bool.not_eq_true] at hBare
        rw [Text.dropEndWhile_append_of_neg _ hBare, List.flatMap_append, List.flatMap_singleton]
        apply dropEndWhile_of_last
        intro d hd
        rw [List.getLast?_append_of_ne_nil _ (escapeChar_ne_nil c)] at hd
        exact isSpace_getLast?_escapeChar hBare d hd

/-- What is left of a written form is the written form of what is left. -/
theorem trimEnd_escape (v : List Char) : Text.trimEnd (escape v) = escape (crop v) := by
  by_cases hSpace : v.head? = some ' '
  · obtain ⟨rest, rfl⟩ := List.head?_eq_some_iff.mp hSpace
    rw [escape, crop, escape, ← trimEnd_flatMap_escapeChar]
    exact Text.dropEndWhile_append_cons ['\\'] _ (by decide)
  · have hCropped : (Text.dropEndWhile isBare v).head? ≠ some ' ' := by
      intro hHead
      obtain ⟨rest, hRest⟩ := List.head?_eq_some_iff.mp hHead
      obtain ⟨dropped, hAppend⟩ := List.rdropWhile_prefix isBare (l := v)
      rw [← dropEndWhile_eq_rdropWhile, hRest] at hAppend
      rw [← hAppend] at hSpace
      exact hSpace rfl
    rw [escape_of_ne_space hSpace, crop_of_ne_space hSpace, trimEnd_flatMap_escapeChar,
      escape_of_ne_space hCropped]

theorem dropEndWhile_eq_self_iff {p : Char → Bool} {s : List Char} :
    Text.dropEndWhile p s = s ↔ ∀ c ∈ s.getLast?, p c = false := by
  refine ⟨fun h c hLast => ?_, dropEndWhile_of_last⟩
  rw [dropEndWhile_eq_rdropWhile, List.rdropWhile_eq_self_iff] at h
  have hNe : s ≠ [] := List.ne_nil_of_mem (List.mem_of_getLast? hLast)
  rw [Option.mem_def, List.getLast?_eq_some_getLast hNe, Option.some.injEq] at hLast
  rw [← hLast]
  exact (Bool.not_eq_true _).mp (h hNe)

theorem crop_eq_self_iff {v : List Char} :
    crop v = v ↔ v = [' '] ∨ ∀ c ∈ v.getLast?, isBare c = false := by
  by_cases hSpace : v.head? = some ' '
  · obtain ⟨rest, rfl⟩ := List.head?_eq_some_iff.mp hSpace
    rw [crop, List.cons.injEq, dropEndWhile_eq_self_iff]
    cases rest with
    | nil => simp
    | cons c rest => simp [List.getLast?_cons_cons]
  · rw [crop_of_ne_space hSpace, dropEndWhile_eq_self_iff]
    refine ⟨Or.inr, fun h => h.resolve_left ?_⟩
    rintro rfl
    exact hSpace rfl

/-! ## The end of a book -/

/-- A section stands after the sections before it and a blank line, if there are any. -/
theorem renderSections_concat (es : List (GroupName × Attributes)) (e : GroupName × Attributes) :
    renderSections (es ++ [e]) =
      renderSections es ++ (if es = [] then [] else ['\n']) ++ renderSection e := by
  cases es with
  | nil => simp [renderSections]
  | cons first rest => simp [renderSections]

/-- The last line of a text need not be ended. -/
theorem parse_append_newline {text : String}
    (hLast : ∀ c ∈ text.toList.getLast?, c ≠ '\n' ∧ c ≠ '\r') :
    parse (text ++ "\n") = parse text := by
  by_cases hEmpty : text = ""
  · subst hEmpty
    rfl
  · have hNe : text.toList ≠ [] := by simpa using hEmpty
    rw [parse, parse, String.toList_append]
    exact congrArg (fun ls => (readLines ⟨∅, none⟩ 1 ls).map Progress.book)
      (Text.lines_append_singleton_newline hNe hLast)

/-- What the text of some sections has in front of the last equals sign, where the last group has
other attributes before the last one. -/
def front (es : List (GroupName × Attributes)) (g : GroupName) (entries : List (String × String))
    (key : String) : List Char :=
  renderSections es ++ (if es = [] then [] else ['\n']) ++
    ('[' :: g.sectionName.toList ++ [']', '\n']) ++ entries.flatMap renderEntry ++ key.toList

section Last

variable (es : List (GroupName × Attributes)) (g : GroupName) {a : Attributes}

theorem renderSections_of_last {entries : List (String × String)} {key value : String}
    (h : a.toList = entries ++ [(key, value)]) :
    renderSections (es ++ [(g, a)]) =
      front es g entries key ++ '=' :: (escape value.toList ++ ['\n']) := by
  rw [renderSections_concat, renderSection, h]
  simp [front, renderEntry]

/-- The cut takes away the end of the last line, and of the last value what is not left. -/
theorem trimEnd_renderSections_of_last {entries : List (String × String)} {key value : String}
    (h : a.toList = entries ++ [(key, value)]) :
    Text.trimEnd (renderSections (es ++ [(g, a)])) =
      front es g entries key ++ '=' :: escape (crop value.toList) := by
  rw [renderSections_of_last es g h, Text.trimEnd,
    Text.dropEndWhile_append_cons _ _ (by decide : Text.isSpace '=' = false),
    Text.dropEndWhile_append_of_pos _ (by decide : Text.isSpace '\n' = true)]
  exact congrArg _ (congrArg _ (trimEnd_escape value.toList))

/-- After a header the cut takes away nothing but the end of the line. -/
theorem trimEnd_renderSections_of_blank (h : a.toList = []) :
    Text.trimEnd (renderSections (es ++ [(g, a)])) ++ ['\n'] = renderSections (es ++ [(g, a)]) := by
  have hText : renderSections (es ++ [(g, a)]) = renderSections es ++
      (if es = [] then [] else ['\n']) ++ '[' :: g.sectionName.toList ++ ']' :: ['\n'] := by
    rw [renderSections_concat, renderSection, h]
    simp
  rw [hText, Text.trimEnd, Text.dropEndWhile_append_cons _ _ (by decide : Text.isSpace ']' = false)]
  simp [Text.dropEndWhile, Text.isSpace]

end Last

end KeyFile

namespace SortedMap

variable {κ ν : Type} [Ord κ]

/-- An entry is placed behind all entries with smaller keys. -/
theorem place_append {k : κ} {v : ν} (before after : List (κ × ν))
    (h : ∀ e ∈ before, compare k e.1 = .gt) :
    place k v (before ++ after) = before ++ place k v after := by
  induction before with
  | nil => rfl
  | cons e before ih =>
      rw [List.cons_append, place, h e List.mem_cons_self]
      exact congrArg _ (ih fun e' he' => h e' (List.mem_cons_of_mem _ he'))

variable [Std.TransOrd κ] [Std.LawfulEqOrd κ]

/-- A new value for the last key is the last value. -/
theorem toList_insert_of_last {m : SortedMap κ ν} {before : List (κ × ν)} {k : κ} {v : ν}
    (h : m.toList = before ++ [(k, v)]) (w : ν) : (m.insert k w).toList = before ++ [(k, w)] := by
  have hBefore : ∀ e ∈ before, compare k e.1 = .gt := by
    intro e he
    have hSorted := m.sorted
    rw [h, List.pairwise_append] at hSorted
    exact Std.OrientedCmp.gt_iff_lt.mpr (hSorted.2.2 e he (k, v) List.mem_cons_self)
  calc (m.insert k w).toList = place k w (before ++ [(k, v)]) := congrArg (place k w) h
    _ = before ++ place k w [(k, v)] := place_append before _ hBefore
    _ = before ++ [(k, w)] := by simp [place, Std.ReflOrd.compare_self]

theorem insert_eq_self [DecidableEq κ] {m : SortedMap κ ν} {k : κ} {v : ν}
    (h : m.get? k = some v) : m.insert k v = m := by
  ext1 k'
  by_cases hKey : k = k'
  · subst hKey
    simp [h]
  · simp [hKey]

/-- Keys may be renamed one by one. -/
theorem get?_ofList_map {κ' : Type} [Ord κ'] [Std.TransOrd κ'] [Std.LawfulEqOrd κ']
    [DecidableEq κ'] {f : κ → κ'} (hf : Function.Injective f) (m : SortedMap κ ν) (k : κ) :
    (ofList (m.toList.map fun (k, v) => (f k, v))).get? (f k) = m.get? k := by
  have hLookup : ∀ l : List (κ × ν), lookup (f k) (l.map fun (k, v) => (f k, v)) = lookup k l := by
    intro l
    induction l with
    | nil => rfl
    | cons e l ih =>
        obtain ⟨k', v⟩ := e
        have hKey : compare (f k) (f k') = .eq ↔ compare k k' = .eq := by
          rw [Std.compare_eq_iff_eq, Std.compare_eq_iff_eq, hf.eq_iff]
        simp only [List.map_cons, lookup, hKey, ih]
  have hNodup : ((m.toList.map fun (k, v) => (f k, v)).map Prod.fst).Nodup := by
    simpa [keys, Function.comp_def] using m.nodup_keys.map hf
  calc (ofList (m.toList.map fun (k, v) => (f k, v))).get? (f k)
      = (lookup (f k) (m.toList.map fun (k, v) => (f k, v))).or none :=
        get?_insertMany empty hNodup (f k)
    _ = m.get? k := by rw [Option.or_none, hLookup, get?]

end SortedMap

namespace Book
open KeyFile

variable {book : Book}

/-- The group, the key and the value of the last line of a book, if that is the line of an
attribute. -/
def lastAttribute? (book : Book) : Option (GroupName × String × String) :=
  book.toList.getLast?.bind fun (g, a) => a.toList.getLast?.map fun (key, value) => (g, key, value)

/-- The book with what is left of the last value when the text is cut. -/
def cropped (book : Book) : Book :=
  match book.lastAttribute? with
  | some (g, key, value) => book.write g [(key, String.ofList (crop value.toList))]
  | none => book

theorem value?_of_lastAttribute? {g : GroupName} {key value : String}
    (h : book.lastAttribute? = some (g, key, value)) : book.value? g key = some value := by
  obtain ⟨⟨g', a⟩, hGroup, hLast⟩ := Option.bind_eq_some_iff.mp h
  obtain ⟨⟨key', value'⟩, hEntry, hEq⟩ := Option.map_eq_some_iff.mp hLast
  obtain ⟨rfl, rfl, rfl⟩ : g' = g ∧ key' = key ∧ value' = value := by simpa using hEq
  rw [value?, SortedMap.mem_toList_iff.mp (List.mem_of_getLast? hGroup), Option.bind_some]
  exact SortedMap.mem_toList_iff.mp (List.mem_of_getLast? hEntry)

theorem AllKeys.cropped {P : String → Prop} (h : book.AllKeys P) : book.cropped.AllKeys P := by
  unfold Book.cropped
  split
  case h_1 g key value hLast =>
      refine h.write fun e he => ?_
      rw [List.mem_singleton.mp he]
      exact allKeys_iff.mp h g key value (value?_of_lastAttribute? hLast)
  case h_2 => exact h

/-- To write the value that is there changes nothing. -/
theorem write_eq_self {g : GroupName} {key value : String} (h : book.value? g key = some value) :
    book.write g [(key, value)] = book := by
  obtain ⟨a, ha, hValue⟩ := Option.bind_eq_some_iff.mp h
  rw [write, attributes, ha, Option.getD_some, SortedMap.insertMany_cons, SortedMap.insertMany_nil,
    SortedMap.insert_eq_self hValue, SortedMap.insert_eq_self ha]

/-- Nothing is lost when the last value is a space alone or ends in nothing that is cut away. -/
theorem cropped_eq_self_iff :
    book.cropped = book ↔ ∀ g key value, book.lastAttribute? = some (g, key, value) →
      value = " " ∨ ∀ c ∈ value.toList.getLast?, isBare c = false := by
  unfold Book.cropped
  split
  case h_1 g key value hLast =>
      have hValue := value?_of_lastAttribute? hLast
      have hCrop : book.write g [(key, String.ofList (crop value.toList))] = book ↔
          crop value.toList = value.toList := by
        refine ⟨fun hBook => ?_, fun hCrop => ?_⟩
        · have hWritten := congrArg (value? · g key) hBook
          simp only [value?_write, ↓reduceIte, SortedMap.insertMany_cons, SortedMap.insertMany_nil,
            SortedMap.get?_insert_self, hValue, Option.some.injEq] at hWritten
          simpa using congrArg String.toList hWritten
        · rw [hCrop, String.ofList_toList]
          exact write_eq_self hValue
      have hSpace : value.toList = [' '] ↔ value = " " := @String.toList_inj value " "
      rw [hCrop, crop_eq_self_iff, hSpace]
      simp [hLast]
  case h_2 hNone => simp [hNone]

/-- The text with the end of its last line is the text of the cropped book. -/
theorem dumpText_append_newline (hNe : book.toList ≠ []) :
    book.dumpText ++ "\n" = render book.cropped := by
  obtain ⟨es, ⟨g, a⟩, hBook⟩ := List.eq_nil_or_concat' book.toList |>.resolve_left hNe
  have hFeed : "\n".toList = ['\n'] := rfl
  rw [← String.toList_inj, String.toList_append, hFeed, dumpText, render, render,
    String.toList_ofList, String.toList_ofList, String.toList_ofList]
  have hLast : book.lastAttribute? = a.toList.getLast?.map fun (key, value) => (g, key, value) := by
    rw [lastAttribute?, hBook, List.getLast?_concat, Option.bind_some]
  rcases List.eq_nil_or_concat' a.toList with hBlank | ⟨entries, ⟨key, value⟩, hEntries⟩
  · have hCropped : book.cropped = book := by
      rw [cropped, hLast, hBlank]
      rfl
    rw [hCropped, hBook]
    exact trimEnd_renderSections_of_blank es g hBlank
  · have hGroup : book.get? g = some a := by
      rw [← SortedMap.mem_toList_iff, hBook]
      exact List.mem_append_right _ List.mem_cons_self
    have hCropped : book.cropped =
        book.insert g (a.insert key (String.ofList (crop value.toList))) := by
      rw [cropped, hLast, hEntries, List.getLast?_concat, Option.map_some]
      simp [write, attributes, hGroup]
    rw [hCropped, SortedMap.toList_insert_of_last hBook, hBook,
      trimEnd_renderSections_of_last es g hEntries,
      renderSections_of_last es g (SortedMap.toList_insert_of_last hEntries _)]
    simp

theorem getLast?_dumpText (book : Book) :
    ∀ c ∈ book.dumpText.toList.getLast?, c ≠ '\n' ∧ c ≠ '\r' := by
  intro c hLast
  rw [dumpText, String.toList_ofList] at hLast
  have hSpace := Text.isSpace_eq_false_of_mem_getLast?_trimEnd hLast
  constructor
  · rintro rfl
    contradiction
  · rintro rfl
    contradiction

/-- It makes no difference whether the end of the last line is printed. -/
theorem parse_dumpText_append_newline (book : Book) :
    parse (book.dumpText ++ "\n") = parse book.dumpText :=
  parse_append_newline book.getLast?_dumpText

/-- The text is read as the cropped book. -/
theorem parse_dumpText (h : book.AllKeys IsWritable) : parse book.dumpText = .ok book.cropped := by
  by_cases hNe : book.toList = []
  · have hEmpty : book = ∅ := by
      apply SortedMap.ext_get?
      intro g
      rw [SortedMap.get?, hNe]
      rfl
    subst hEmpty
    rfl
  · rw [← parse_dumpText_append_newline, dumpText_append_newline hNe]
    exact parse_render_of_writable h.cropped

/-! ## The sections of a book -/

/-- Groups are told apart by their section names. -/
theorem get?_sections (book : Book) (g : GroupName) :
    book.sections.get? g.sectionName = book.get? g :=
  SortedMap.get?_ofList_map GroupName.sectionName_injective book g

theorem get?_sections_eq_some_iff {name : String} {a : Attributes} :
    book.sections.get? name = some a ↔ ∃ g, g.sectionName = name ∧ book.get? g = some a := by
  constructor
  · intro h
    have hKey : name ∈ book.sections.keys := SortedMap.mem_keys_iff.mpr ⟨a, h⟩
    rcases SortedMap.mem_keys_insertMany.mp hKey with hName | hNone
    · obtain ⟨e, hEntry, rfl⟩ := List.mem_map.mp hName
      obtain ⟨⟨g, b⟩, _, rfl⟩ := List.mem_map.mp hEntry
      exact ⟨g, rfl, (get?_sections book g).symm.trans h⟩
    · contradiction
  · rintro ⟨g, rfl, h⟩
    exact (get?_sections book g).trans h

theorem sections_inj {other : Book} : book.sections = other.sections ↔ book = other := by
  refine ⟨fun h => SortedMap.ext_get? fun g => ?_, congrArg sections⟩
  rw [← get?_sections, h, get?_sections]

theorem get?_visible_eq_some_iff {secrets : SecretNames} {g : GroupName} {a : Attributes} :
    (book.visible secrets).get? g = some a ↔
      ∃ b, book.get? g = some b ∧ b.isPending = false ∧ a = b.withoutSecrets secrets := by
  rw [visible, SortedMap.get?_map, SortedMap.get?_filter, Option.map_eq_some_iff]
  simp only [Option.filter_eq_some_iff, Bool.not_eq_true', and_assoc, eq_comm (a := a)]

/-- The sections of the accounts that may be shown are the live groups without their secrets. -/
theorem get?_sections_visible {secrets : SecretNames} {name : String} {a : Attributes} :
    (book.visible secrets).sections.get? name = some a ↔ ∃ g b, g.sectionName = name ∧
      book.get? g = some b ∧ b.isPending = false ∧ a = b.withoutSecrets secrets := by
  simp only [get?_sections_eq_some_iff, get?_visible_eq_some_iff, exists_and_left]

theorem AllKeys.visible {P : String → Prop} (h : book.AllKeys P) (secrets : SecretNames) :
    (book.visible secrets).AllKeys P := by
  intro g a ha key hKey
  obtain ⟨b, hb, _, rfl⟩ := get?_visible_eq_some_iff.mp ha
  obtain ⟨value, hValue⟩ := SortedMap.mem_keys_iff.mp hKey
  rw [Attributes.withoutSecrets, SortedMap.get?_filter, Option.filter_eq_some_iff] at hValue
  exact h g b hb key (SortedMap.mem_keys_iff.mpr ⟨value, hValue.1⟩)

end Book

namespace Registry
open Process

variable {p : Process}

/-- Both commands show the live groups without their secrets and change nothing. The text is read
back as what JSON says of them exactly when the value in its last line is a space alone or does not
end in white space, except for the white space that is written as an escape. Otherwise that end
is lost, and nothing else. -/
theorem dumps_agree_iff (hArises : p.Arises) (r : Registry) (path : String) (faults : Faults) :
    let shown := p.book.visible r.secrets
    (Command.run r path (.dump false)).run.run host (p, faults) = (.ok shown.dumpText, p, faults) ∧
    (Command.run r path (.dump true)).run.run host (p, faults) = (.ok shown.dumpJson, p, faults) ∧
    (∀ name a, shown.sections.get? name = some a ↔ ∃ g b, g.sectionName = name ∧
      p.book.get? g = some b ∧ b.isPending = false ∧ a = b.withoutSecrets r.secrets) ∧
    ∃ book, KeyFile.parse shown.dumpText = .ok book ∧
      KeyFile.parse (shown.dumpText ++ "\n") = .ok book ∧ book = shown.cropped ∧
      (book.sections = shown.sections ↔ ∀ g key value,
        shown.lastAttribute? = some (g, key, value) →
          value = " " ∨ ∀ c ∈ value.toList.getLast?, KeyFile.isBare c = false) := by
  intro shown
  have hParse := Book.parse_dumpText (hArises.intact.allKeys.visible r.secrets)
  refine ⟨rfl, rfl, fun name a => Book.get?_sections_visible, _, hParse, ?_, rfl, ?_⟩
  · rw [Book.parse_dumpText_append_newline, hParse]
  · rw [Book.sections_inj, Book.cropped_eq_self_iff]

theorem arises_after {op : Operation} (h : p.Arises) (r : Registry) (faults : Faults) :
    (r.after op p faults).Arises := by
  obtain ⟨d, p₀, hStart, hSteps⟩ := h
  exact ⟨d, p₀, hStart, hSteps.tail ⟨r, becomes_after r op p faults⟩⟩

theorem arises_accountProcess : accountProcess.Arises := by
  have hEq : accountProcess = ringRegistry.after
      (.create "keeper" "health" (.ofList [("password", .string "old")]))
      { Storage.unused with book := ∅, events := [] } .none := by decide +kernel
  rw [hEq]
  exact arises_after ⟨Storage.unused, _, rfl, .refl⟩ ringRegistry .none

/-- The value in the last line ends in a letter. -/
theorem dumps_agree_of_account :
    accountProcess.Arises ∧ ∃ book,
      KeyFile.parse (accountProcess.book.visible ringRegistry.secrets).dumpText = .ok book ∧
      book.sections = (accountProcess.book.visible ringRegistry.secrets).sections := by
  obtain ⟨_, _, _, book, hParse, _, _, hAgree⟩ :=
    dumps_agree_iff arises_accountProcess ringRegistry "" .none
  have hLast : (accountProcess.book.visible ringRegistry.secrets).lastAttribute? =
      some (accountGroup, "protocol", "health") := by decide +kernel
  have hEnd : "health".toList.getLast? = some 'h' := by decide +kernel
  refine ⟨arises_accountProcess, book, hParse, hAgree.mpr fun g key value hEntry => .inr ?_⟩
  obtain ⟨rfl, rfl, rfl⟩ : accountGroup = g ∧ "protocol" = key ∧ "health" = value := by
    simpa [hLast] using hEntry
  intro c hc
  rw [hEnd] at hc
  obtain rfl := Option.some.inj hc
  decide

/-- The account with a space at the end of an attribute. -/
def spacedProcess : Process :=
  ringRegistry.after (.setProperty accountGroup "zeta" (.string "x ")) accountProcess .none

/-- The space is lost in the text and kept in JSON. -/
theorem dumps_disagree :
    spacedProcess.Arises ∧ ∃ text shown book,
      (Command.run ringRegistry "" (.dump false)).run.run host (spacedProcess, .none) =
        (.ok text, spacedProcess, .none) ∧
      (Command.run ringRegistry "" (.dump true)).run.run host (spacedProcess, .none) =
        (.ok (Book.dumpJson shown), spacedProcess, .none) ∧
      KeyFile.parse text = .ok book ∧ book.sections ≠ shown.sections ∧
      book.value? accountGroup "zeta" = some "x" ∧
      shown.value? accountGroup "zeta" = some "x " := by
  have hText : KeyFile.parse (spacedProcess.book.visible ringRegistry.secrets).dumpText =
      .ok (spacedProcess.book.write accountGroup [("zeta", "x")]) := by decide +kernel
  exact ⟨arises_after arises_accountProcess ringRegistry .none, _,
    spacedProcess.book.visible ringRegistry.secrets, _, rfl, rfl, hText,
    by decide +kernel, by decide +kernel, by decide +kernel⟩

end Registry
end Accounts
