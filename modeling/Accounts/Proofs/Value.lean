import Mathlib.Algebra.Ring.Parity
import Accounts.Value

/-! The text of a value, read back. A number is read from its digits, over the whole range of its
kind. Each item of a list ends in a semicolon of its own, so an empty item leaves a trace and an
empty list leaves none. A list text is unreadable where its last backslash has nothing to escape,
which shows in the run of backslashes at its end. -/
namespace Accounts

/-! ## Numbers -/

namespace Text

theorem isDigit_of_mem_repr {n : Nat} {c : Char} (h : c ∈ n.repr.toList) : c.isDigit = true := by
  rw [Nat.toList_repr] at h
  exact Nat.isDigit_of_mem_toDigits (by decide) (by decide) h

theorem isSpace_of_isDigit {c : Char} (h : c.isDigit = true) : isSpace c = false := by
  have hAll : ∀ n < 58, 48 ≤ n → isSpace (Char.ofNat n) = false := by decide
  simp only [Char.isDigit, Bool.and_eq_true, decide_eq_true_eq] at h
  have hLow : 48 ≤ c.toNat := h.1
  have hHigh : c.toNat ≤ 57 := h.2
  have hSpace := hAll c.toNat (by omega) hLow
  rwa [Char.ofNat_toNat] at hSpace

/-- A number without a sign is read from its digits. -/
theorem readNat?_repr (n : Nat) : readNat? n.repr.toList = some n := by
  have hDigits := readDigits?_repr n
  unfold readNat?
  split
  next digits hPlus =>
    have hDigit : '+'.isDigit = true := isDigit_of_mem_repr (n := n) (by simp [hPlus])
    exact absurd hDigit (by decide)
  next => exact hDigits

/-- A number is read from its digits, with a sign in front of a negative one. -/
theorem readInt?_repr (n : Int) : readInt? n.repr.toList = some n := by
  cases n with
  | ofNat n =>
      show readInt? n.repr.toList = some (Int.ofNat n)
      unfold readInt?
      split
      next digits hMinus =>
        have hDigit : '-'.isDigit = true := isDigit_of_mem_repr (n := n) (by simp [hMinus])
        exact absurd hDigit (by decide)
      next => rw [readNat?_repr, Option.map_some]
  | negSucc n =>
      show readInt? ("-" ++ (n + 1).repr).toList = some (Int.negSucc n)
      have hText : ("-" ++ (n + 1).repr).toList = '-' :: (n + 1).repr.toList := by simp
      rw [hText, readInt?, readDigits?_repr]
      rfl

theorem trim_repr_nat (n : Nat) : trim n.repr.toList = n.repr.toList :=
  trim_of_forall_not_isSpace fun _ hMem => isSpace_of_isDigit (isDigit_of_mem_repr hMem)

theorem trim_repr_int (n : Int) : trim n.repr.toList = n.repr.toList := by
  cases n with
  | ofNat n => exact trim_repr_nat n
  | negSucc n =>
      show trim ("-" ++ (n + 1).repr).toList = ("-" ++ (n + 1).repr).toList
      have hText : ("-" ++ (n + 1).repr).toList = '-' :: (n + 1).repr.toList := by simp
      rw [hText]
      apply trim_of_forall_not_isSpace
      intro c hMem
      rcases List.mem_cons.mp hMem with rfl | hDigit
      · decide
      · exact isSpace_of_isDigit (isDigit_of_mem_repr hDigit)

end Text

namespace Value

theorem int64?_toInt (n : Int64) : int64? n.toInt = some n := by
  rw [int64?, if_pos ⟨n.minValue_le_toInt, n.toInt_le⟩, Int64.ofInt_toInt]

theorem uint64?_toNat (n : UInt64) : uint64? n.toNat = some n := by
  rw [uint64?, if_pos n.toNat_lt, UInt64.ofNat_toNat]

/-! ## Items -/

/-- The text of an item without the semicolon that ends it. -/
def escapeItem (item : List Char) : List Char :=
  item.flatMap fun c => if c = '\\' ∨ c = ';' then ['\\', c] else [c]

theorem encodeItem_eq (item : List Char) : encodeItem item = escapeItem item ++ [';'] := rfl

theorem escapeItem_cons (c : Char) (item : List Char) :
    escapeItem (c :: item) = (if c = '\\' ∨ c = ';' then ['\\', c] else [c]) ++ escapeItem item :=
  rfl

/-- A character that needs no escape is added to the item being read. -/
theorem decodeItems?_plain {c : Char} (hBackslash : c ≠ '\\') (hSemicolon : c ≠ ';')
    (item rest : List Char) : decodeItems? item (c :: rest) = decodeItems? (item ++ [c]) rest := by
  rw [decodeItems?.eq_4, if_neg hSemicolon]
  · intro c' rest' hEscape
    exact absurd hEscape hBackslash
  · intro hEscape
    exact absurd hEscape hBackslash

/-- A semicolon ends the item being read. -/
theorem decodeItems?_semicolon (item rest : List Char) :
    decodeItems? item (';' :: rest) = (decodeItems? [] rest).map (item :: ·) := by
  rw [decodeItems?.eq_4, if_pos rfl]
  · intro c' rest' hEscape
    exact absurd hEscape (by decide)
  · intro hEscape
    exact absurd hEscape (by decide)

/-- An escaped item is added as it is to what has been read of the item before. -/
theorem decodeItems?_escapeItem (read item rest : List Char) :
    decodeItems? read (escapeItem item ++ rest) = decodeItems? (read ++ item) rest := by
  induction item generalizing read with
  | nil => simp [escapeItem]
  | cons c item ih =>
      rw [escapeItem_cons, List.append_cons read c item, ← ih (read ++ [c])]
      split
      next => rfl
      next hPlain =>
        obtain ⟨hBackslash, hSemicolon⟩ := not_or.mp hPlain
        exact decodeItems?_plain hBackslash hSemicolon read _

/-- The items of a list are read one by one, whatever follows. -/
theorem decodeItems?_encodeList (items : List (List Char)) (rest : List Char) :
    decodeItems? [] (encodeList items ++ rest) = (decodeItems? [] rest).map (items ++ ·) := by
  induction items with
  | nil => simp [encodeList]
  | cons item items ih =>
      have hSplit : encodeList (item :: items) ++ rest =
          escapeItem item ++ (';' :: (encodeList items ++ rest)) := by
        simp [encodeList, encodeItem_eq]
      rw [hSplit, decodeItems?_escapeItem, decodeItems?_semicolon, ih, Option.map_map]
      rfl

/-- A list is read from its text. -/
theorem decodeList?_encodeList (items : List (List Char)) :
    decodeList? (encodeList items) = some items := by
  have hRead := decodeItems?_encodeList items []
  simpa [decodeList?, decodeItems?] using hRead

/-- Behind other items, a last item without its semicolon counts unless it is empty. -/
theorem decodeList?_of_unended (items : List (List Char)) (last : List Char) :
    decodeList? (encodeList items ++ escapeItem last) =
      some (items ++ if last.isEmpty then [] else [last]) := by
  have hLast : decodeItems? [] (escapeItem last) = some (if last.isEmpty then [] else [last]) := by
    have hRead := decodeItems?_escapeItem [] last []
    rwa [List.append_nil, List.nil_append, decodeItems?] at hRead
  rw [decodeList?, decodeItems?_encodeList, hLast, Option.map_some]

/-! ## Backslashes at the end -/

/-- The length of the run of backslashes that a text ends in. -/
def trailingBackslashes (s : List Char) : Nat := (s.reverse.takeWhile (· == '\\')).length

/-- A character in front lengthens the run only if it is a backslash before nothing else. -/
theorem trailingBackslashes_cons (c : Char) (s : List Char) :
    trailingBackslashes (c :: s) =
      if c = '\\' ∧ trailingBackslashes s = s.length then s.length + 1
      else trailingBackslashes s := by
  unfold trailingBackslashes
  rw [List.reverse_cons, List.takeWhile_append, List.length_reverse]
  by_cases hAll : (s.reverse.takeWhile (· == '\\')).length = s.length
  · by_cases hBackslash : c = '\\'
    · simp [hAll, hBackslash]
    · simp [hAll, hBackslash]
  · simp [hAll]

/-- A character in front that is no backslash does not count. -/
theorem trailingBackslashes_of_ne {c : Char} (h : c ≠ '\\') (s : List Char) :
    trailingBackslashes (c :: s) = trailingBackslashes s := by
  rw [trailingBackslashes_cons, if_neg fun hBoth => h hBoth.1]

/-- A backslash in front together with the character that it escapes keeps the run even or odd. -/
theorem odd_trailingBackslashes_escape (c : Char) (s : List Char) :
    Odd (trailingBackslashes ('\\' :: c :: s)) ↔ Odd (trailingBackslashes s) := by
  have hInner := trailingBackslashes_cons c s
  have hOuter := trailingBackslashes_cons '\\' (c :: s)
  rw [List.length_cons] at hOuter
  by_cases hAll : trailingBackslashes s = s.length
  · by_cases hBackslash : c = '\\'
    · rw [if_pos ⟨hBackslash, hAll⟩] at hInner
      rw [if_pos ⟨rfl, hInner⟩] at hOuter
      rw [hOuter, hAll, Nat.odd_iff, Nat.odd_iff]
      omega
    · rw [if_neg fun hBoth => hBackslash hBoth.1] at hInner
      rw [if_neg (by omega), hInner] at hOuter
      rw [hOuter]
  · have hShort : trailingBackslashes s ≤ s.length := by
      unfold trailingBackslashes
      have hPrefix := (List.takeWhile_prefix (l := s.reverse) (· == '\\')).length_le
      rwa [List.length_reverse] at hPrefix
    rw [if_neg fun hBoth => hAll hBoth.2] at hInner
    rw [if_neg (by omega), hInner] at hOuter
    rw [hOuter]

/-- Items cannot be read exactly from a text that ends in an odd number of backslashes, however
much of an item has been read before. -/
theorem decodeItems?_eq_none_iff (item s : List Char) :
    decodeItems? item s = none ↔ Odd (trailingBackslashes s) := by
  -- The item read so far decides nothing, so it is left free along the cases of the reader.
  induction item, s using decodeItems?.induct with
  | case1 item => simp [decodeItems?, trailingBackslashes]
  | case2 item c rest ih => rw [decodeItems?, ih, odd_trailingBackslashes_escape]
  | case3 item => simp [decodeItems?, trailingBackslashes]
  | case4 item rest _ _ ih =>
      rw [decodeItems?_semicolon, Option.map_eq_none_iff, ih,
        trailingBackslashes_of_ne (by decide)]
  | case5 item c rest hEscape hAlone hSemicolon ih =>
      have hBackslash : c ≠ '\\' := by
        rintro rfl
        cases rest with
        | nil => exact hAlone rfl rfl
        | cons c' rest => exact hEscape c' rest rfl rfl
      rw [decodeItems?_plain hBackslash hSemicolon, ih, trailingBackslashes_of_ne hBackslash]

/-! ## Values -/

/-- A value is read from its text. -/
theorem decode_encode (v : Value) : decode v.kind v.encode = .ok v := by
  have hRead : decode? v.kind v.encode = some v := by
    cases v with
    | string text => rfl
    | bool flag =>
        cases flag with
        | false => rfl
        | true => rfl
    | int n =>
        show ((Text.readInt? (Text.trim n.toInt.repr.toList)).bind int64?).map int = some (int n)
        rw [Text.trim_repr_int, Text.readInt?_repr, Option.bind_some, int64?_toInt,
          Option.map_some]
    | uint n =>
        show ((Text.readNat? (Text.trim n.toNat.repr.toList)).bind uint64?).map uint =
          some (uint n)
        rw [Text.trim_repr_nat, Text.readNat?_repr, Option.bind_some, uint64?_toNat,
          Option.map_some]
    | list items =>
        show (decodeList? (String.ofList (encodeList (items.map String.toList))).toList).map
          (fun read => list (read.map String.ofList)) = some (list items)
        rw [String.toList_ofList, decodeList?_encodeList, Option.map_some, List.map_map]
        simp
  rw [decode, hRead]

/-- A text is a list unless its last backslash has nothing to escape. -/
theorem decode_list_cases (text : String) :
    (Odd (trailingBackslashes text.toList) ∧
      decode .list text = .error (.invalidValue Kind.list.name text)) ∨
    (¬ Odd (trailingBackslashes text.toList) ∧
      ∃ items, decode .list text = .ok (list items)) := by
  have hNone : decodeList? text.toList = none ↔ Odd (trailingBackslashes text.toList) :=
    decodeItems?_eq_none_iff [] text.toList
  cases hRead : decodeList? text.toList with
  | none =>
      have hOdd := hNone.mp hRead
      have hDecode : decode? .list text = none := by rw [decode?, hRead, Option.map_none]
      exact Or.inl ⟨hOdd, by rw [decode, hDecode]⟩
  | some items =>
      have hEven : ¬ Odd (trailingBackslashes text.toList) := by
        rw [← hNone, hRead]
        exact Option.some_ne_none items
      have hDecode : decode? .list text = some (list (items.map String.ofList)) := by
        rw [decode?, hRead, Option.map_some]
      exact Or.inr ⟨hEven, _, by rw [decode, hDecode]⟩

/-- The text of a list of which the last item lacks its semicolon. -/
def encodeUnended (items : List String) (last : String) : String :=
  String.ofList (encodeList (items.map String.toList) ++ escapeItem last.toList)

theorem encode_append_singleton (items : List String) (last : String) :
    (list (items ++ [last])).encode = encodeUnended items last ++ ";" := by
  apply String.toList_injective
  simp [encode, encodeUnended, encodeList, encodeItem_eq]

/-- Without the final semicolon the last item is read unless it is empty. -/
theorem decode_encodeUnended (items : List String) (last : String) :
    decode .list (encodeUnended items last) =
      .ok (list (items ++ if last = "" then [] else [last])) := by
  have hRead : decode? .list (encodeUnended items last) =
      some (list (items ++ if last = "" then [] else [last])) := by
    rw [decode?, encodeUnended, String.toList_ofList, decodeList?_of_unended, Option.map_some]
    by_cases hLast : last = ""
    · simp [hLast]
    · simp [hLast]
  rw [decode, hRead]

/-- Every value is read back from its text, whatever its kind. A text has no items, and is refused
as a list, exactly where it ends in an odd number of backslashes; any other is read as a list. The
text of a list with at least one item ends in a semicolon; without it the text is read as the same
list unless the last item is empty. -/
theorem text_round_trip :
    (∀ v : Value, decode v.kind v.encode = .ok v) ∧
    (∀ text : String,
      (decodeList? text.toList = none ↔ Odd (trailingBackslashes text.toList)) ∧
      (decode .list text = .error (.invalidValue Kind.list.name text) ↔
        Odd (trailingBackslashes text.toList)) ∧
      ((∃ items, decode .list text = .ok (list items)) ↔
        ¬ Odd (trailingBackslashes text.toList))) ∧
    ∀ (items : List String) (last : String), ∃ text : String,
      (list (items ++ [last])).encode = text ++ ";" ∧
      (decode .list text = .ok (list (items ++ [last])) ↔ last ≠ "") := by
  refine ⟨decode_encode, ?_, ?_⟩
  · intro text
    apply And.intro (decodeItems?_eq_none_iff [] text.toList)
    rcases decode_list_cases text with ⟨hOdd, hError⟩ | ⟨hEven, items, hOk⟩
    · constructor
      · exact iff_of_true hError hOdd
      · apply iff_of_false _ (not_not_intro hOdd)
        rintro ⟨items, hOk⟩
        rw [hError] at hOk
        cases hOk
    · constructor
      · apply iff_of_false _ hEven
        intro hError
        rw [hOk] at hError
        cases hError
      · exact iff_of_true ⟨items, hOk⟩ hEven
  · intro items last
    apply Exists.intro (encodeUnended items last)
    apply And.intro (encode_append_singleton items last)
    rw [decode_encodeUnended]
    by_cases hLast : last = ""
    · simp [hLast]
    · simp [hLast]

/-- Three items, of which the first ends in a semicolon and the last is empty. -/
example : (list ["a;", "\\", ""]).encode = "a\\;;\\\\;;" := by decide

end Value
end Accounts
