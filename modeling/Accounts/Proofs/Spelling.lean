import Accounts.Proofs.Value

/-! The texts that stand for a value. They are told by their form and not by how they are read: a
number is a run of digits that may have a sign, and a list is its items with what ends them. Main
statement: a text is read as a value just if it spells it (`Value.decode_eq_ok_iff`). -/
namespace Accounts

/-! ## Numbers -/

namespace Text

/-- The digits make the number. Leading zeros are allowed. -/
def IsNumeral (digits : List Char) (n : Nat) : Prop :=
  digits ≠ [] ∧ (∀ c ∈ digits, c.isDigit = true) ∧ Nat.ofDigitChars 10 digits 0 = n

/-- The text is the number, with or without a plus sign. -/
def SpellsNat (s : List Char) (n : Nat) : Prop :=
  ∃ digits, IsNumeral digits n ∧ (s = digits ∨ s = '+' :: digits)

/-- The text is the number, with a minus sign or as a number without one. -/
def SpellsInt (s : List Char) (n : Int) : Prop :=
  (∃ m : Nat, SpellsNat s m ∧ n = m) ∨ ∃ digits m, IsNumeral digits m ∧ s = '-' :: digits ∧ n = -m

theorem not_isNumeral_cons {c : Char} (h : c.isDigit = false) (s : List Char) (n : Nat) :
    ¬IsNumeral (c :: s) n := by
  rintro ⟨_, hDigits, _⟩
  simp [h] at hDigits

theorem readDigits?_eq_some_iff {s : List Char} {n : Nat} :
    readDigits? s = some n ↔ IsNumeral s n := by
  unfold readDigits?
  split_ifs with hDigits
  · have hAll := List.all_eq_true.mp hDigits.2
    exact ⟨fun hValue => ⟨hDigits.1, hAll, Option.some.inj hValue⟩,
      fun hNumeral => congrArg some hNumeral.2.2⟩
  · refine ⟨fun hNone => by contradiction, fun hNumeral => ?_⟩
    exact absurd ⟨hNumeral.1, List.all_eq_true.mpr hNumeral.2.1⟩ hDigits

theorem readNat?_eq_some_iff {s : List Char} {n : Nat} : readNat? s = some n ↔ SpellsNat s n := by
  unfold readNat?
  split
  next digits =>
    have hPlus := not_isNumeral_cons (c := '+') (by decide) digits n
    rw [readDigits?_eq_some_iff]
    constructor
    · exact fun hNumeral => ⟨digits, hNumeral, .inr rfl⟩
    · rintro ⟨digits', hNumeral, rfl | hEq⟩
      · exact absurd hNumeral hPlus
      · rwa [(List.cons.inj hEq).2]
  next hUnsigned =>
    rw [readDigits?_eq_some_iff]
    constructor
    · exact fun hNumeral => ⟨s, hNumeral, .inl rfl⟩
    · rintro ⟨digits, hNumeral, rfl | hEq⟩
      · exact hNumeral
      · exact absurd hEq (hUnsigned digits)

theorem readInt?_minus (digits : List Char) :
    readInt? ('-' :: digits) = (readDigits? digits).map fun m : Nat => -(m : Int) := by
  rw [readInt?]
  cases readDigits? digits with
  | none => rfl
  | some m => rfl

theorem readInt?_eq_some_iff {s : List Char} {n : Int} : readInt? s = some n ↔ SpellsInt s n := by
  by_cases hMinus : ∃ digits, s = '-' :: digits
  · obtain ⟨digits, rfl⟩ := hMinus
    simp only [readInt?_minus, Option.map_eq_some_iff, readDigits?_eq_some_iff]
    constructor
    · rintro ⟨m, hNumeral, rfl⟩
      exact .inr ⟨digits, m, hNumeral, rfl, rfl⟩
    · rintro (⟨m, ⟨digits', hNumeral, rfl | hEq⟩, rfl⟩ | ⟨digits', m, hNumeral, hEq, rfl⟩)
      · exact absurd hNumeral (not_isNumeral_cons (by decide) digits m)
      · simp at hEq
      · exact ⟨m, (List.cons.inj hEq).2 ▸ hNumeral, rfl⟩
  · have hUnsigned : readInt? s = (readNat? s).map Int.ofNat := by
      unfold readInt?
      split
      next digits => exact absurd ⟨digits, rfl⟩ hMinus
      next => rfl
    simp only [hUnsigned, Option.map_eq_some_iff, readNat?_eq_some_iff]
    constructor
    · rintro ⟨m, hSpells, rfl⟩
      exact .inl ⟨m, hSpells, rfl⟩
    · rintro (⟨m, hSpells, rfl⟩ | ⟨digits, m, _, hEq, _⟩)
      · exact ⟨m, hSpells, rfl⟩
      · exact absurd ⟨digits, hEq⟩ hMinus

end Text

namespace Value

theorem int64?_eq_some_iff {n : Int} {m : Int64} : int64? n = some m ↔ n = m.toInt := by
  constructor
  · intro h
    unfold int64? at h
    split_ifs at h with hRange
    obtain rfl := Option.some.inj h
    have hBelow : n < 2 ^ 63 := Int.lt_of_le_of_lt hRange.2 (by decide)
    exact (Int64.toInt_ofInt_of_le hRange.1 hBelow).symm
  · rintro rfl
    exact int64?_toInt m

theorem uint64?_eq_some_iff {n : Nat} {m : UInt64} : uint64? n = some m ↔ n = m.toNat := by
  constructor
  · intro h
    unfold uint64? at h
    split_ifs at h with hRange
    obtain rfl := Option.some.inj h
    exact (UInt64.toNat_ofNat_of_lt hRange).symm
  · rintro rfl
    exact uint64?_toNat m

/-! ## Items -/

/-- The text is the item without what ends it. A backslash stands before each backslash and each
semicolon of the item, and may stand before any other character. -/
inductive SpellsItem : List Char → List Char → Prop
  | nil : SpellsItem [] []
  | plain {c : Char} {item s : List Char} (hBackslash : c ≠ '\\') (hSemicolon : c ≠ ';')
      (h : SpellsItem item s) : SpellsItem (c :: item) (c :: s)
  | escaped (c : Char) {item s : List Char} (h : SpellsItem item s) :
      SpellsItem (c :: item) ('\\' :: c :: s)

/-- The text is the items. Each ends in a semicolon, but for the last one, which need not if it is
not empty. -/
inductive SpellsItems : List (List Char) → List Char → Prop
  | nil : SpellsItems [] []
  | last {item s : List Char} (hNe : item ≠ []) (h : SpellsItem item s) : SpellsItems [item] s
  | ended {item s : List Char} {items : List (List Char)} {rest : List Char}
      (h : SpellsItem item s) (hRest : SpellsItems items rest) :
      SpellsItems (item :: items) (s ++ ';' :: rest)

/-- What spells an item is added to what has been read of the item before. -/
theorem SpellsItem.decodeItems? {item s : List Char} (h : SpellsItem item s)
    (read rest : List Char) :
    Value.decodeItems? read (s ++ rest) = Value.decodeItems? (read ++ item) rest := by
  induction h generalizing read with
  | nil => rw [List.nil_append, List.append_nil]
  | @plain c item s hBackslash hSemicolon _ ih =>
      rw [List.cons_append, decodeItems?_plain hBackslash hSemicolon, ih, List.append_assoc]
      rfl
  | @escaped c item s _ ih =>
      rw [List.cons_append, List.cons_append, Value.decodeItems?, ih, List.append_assoc]
      rfl

/-- Items are read from what spells them. -/
theorem SpellsItems.decodeList? {items : List (List Char)} {s : List Char}
    (h : SpellsItems items s) : Value.decodeList? s = some items := by
  unfold Value.decodeList?
  induction h with
  | nil => rfl
  | last hNe h =>
      have hRead := h.decodeItems? [] []
      rw [List.append_nil, List.nil_append] at hRead
      simp [hRead, Value.decodeItems?, hNe]
  | ended h _ ih =>
      rw [h.decodeItems?, List.nil_append, decodeItems?_semicolon, ih, Option.map_some]

/-- The text is the rest of an item of which something has been read, with other items behind it. -/
def GoesOn (read : List Char) (items : List (List Char)) (s : List Char) : Prop :=
  (∃ item, SpellsItem item s ∧ items = if read ++ item = [] then [] else [read ++ item]) ∨
    ∃ item s' rest items', SpellsItem item s' ∧ SpellsItems items' rest ∧
      s = s' ++ ';' :: rest ∧ items = (read ++ item) :: items'

/-- One character more at the front belongs to the item, whatever follows the item. -/
theorem GoesOn.cons {read s : List Char} {items : List (List Char)} {c : Char}
    (h : GoesOn (read ++ [c]) items s) (front : List Char)
    (hFront : ∀ item s', SpellsItem item s' → SpellsItem (c :: item) (front ++ s')) :
    GoesOn read items (front ++ s) := by
  obtain ⟨item, hItem, hItems⟩ | ⟨item, s', rest, items', hItem, hRest, rfl, hItems⟩ := h
  · exact .inl ⟨c :: item, hFront _ _ hItem, by simpa using hItems⟩
  · exact .inr ⟨c :: item, front ++ s', rest, items', hFront _ _ hItem, hRest, by simp,
      by simpa using hItems⟩

/-- If nothing has been read, the text is items. -/
theorem GoesOn.spellsItems {items : List (List Char)} {s : List Char} (h : GoesOn [] items s) :
    SpellsItems items s := by
  obtain ⟨item, hItem, rfl⟩ | ⟨item, s', rest, items', hItem, hRest, rfl, rfl⟩ := h
  · by_cases hNil : item = []
    · subst hNil
      cases hItem
      exact .nil
    · simpa [hNil] using SpellsItems.last hNil hItem
  · exact .ended hItem hRest

theorem goesOn_of_decodeItems? (read : List Char) {s : List Char} {items : List (List Char)}
    (h : decodeItems? read s = some items) : GoesOn read items s := by
  induction read, s using decodeItems?.induct generalizing items with
  | case1 read =>
      rw [decodeItems?] at h
      refine .inl ⟨[], .nil, ?_⟩
      rw [List.append_nil, ← Option.some.inj h]
      simp only [List.isEmpty_iff]
  | case2 read c rest ih =>
      rw [decodeItems?] at h
      exact (ih h).cons ['\\', c] fun _ _ hItem => .escaped c hItem
  | case3 read => simp [decodeItems?] at h
  | case4 read rest _ _ ih =>
      rw [decodeItems?_semicolon] at h
      obtain ⟨items', hRest, rfl⟩ := Option.map_eq_some_iff.mp h
      exact .inr ⟨[], [], rest, items', .nil, (ih hRest).spellsItems, rfl, by simp⟩
  | case5 read c rest hEscape hAlone hSemicolon ih =>
      have hBackslash : c ≠ '\\' := by
        rintro rfl
        cases rest with
        | nil => exact hAlone rfl rfl
        | cons c' rest => exact hEscape c' rest rfl rfl
      rw [decodeItems?_plain hBackslash hSemicolon] at h
      exact (ih h).cons [c] fun _ _ hItem => .plain hBackslash hSemicolon hItem

/-- Items are read from what spells them, and from nothing else. -/
theorem decodeList?_eq_some_iff {s : List Char} {items : List (List Char)} :
    decodeList? s = some items ↔ SpellsItems items s :=
  ⟨fun h => (goesOn_of_decodeItems? [] h).spellsItems, SpellsItems.decodeList?⟩

/-! ## Values -/

/-- The text stands for the value. White space around a boolean or a number does not count. -/
def Spells : Value → String → Prop
  | .string s, text => text = s
  | .bool true, text => Text.trim text.toList = "true".toList ∨ Text.trim text.toList = "1".toList
  | .bool false, text => Text.trim text.toList = "false".toList ∨ Text.trim text.toList = "0".toList
  | .int n, text => Text.SpellsInt (Text.trim text.toList) n.toInt
  | .uint n, text => Text.SpellsNat (Text.trim text.toList) n.toNat
  | .list items, text => SpellsItems (items.map String.toList) text.toList

theorem kind_of_decode? {kind : Kind} {text : String} {v : Value}
    (h : decode? kind text = some v) : v.kind = kind := by
  cases kind with
  | string =>
      obtain rfl := Option.some.inj h
      rfl
  | bool =>
      have hFlags : v = bool true ∨ v = bool false := by
        unfold decode? at h
        dsimp only at h
        split at h <;> simp_all
      rcases hFlags with rfl | rfl
      · rfl
      · rfl
  | int =>
      obtain ⟨n, _, rfl⟩ := Option.map_eq_some_iff.mp h
      rfl
  | uint =>
      obtain ⟨n, _, rfl⟩ := Option.map_eq_some_iff.mp h
      rfl
  | list =>
      obtain ⟨items, _, rfl⟩ := Option.map_eq_some_iff.mp h
      rfl

theorem decode?_bool_iff (flag : Bool) (text : String) :
    decode? .bool text = some (bool flag) ↔ (bool flag).Spells text := by
  have hWord : ∀ word : String, Text.trim text.toList = word.toList ↔
      String.ofList (Text.trim text.toList) = word := fun word => by
    rw [← String.toList_inj, String.toList_ofList]
  cases flag with
  | true =>
      simp only [Spells, hWord, decode?]
      split <;> simp_all
  | false =>
      simp only [Spells, hWord, decode?]
      split <;> simp_all

theorem map_ofList_eq_iff {read : List (List Char)} {items : List String} :
    read.map String.ofList = items ↔ read = items.map String.toList := by
  constructor
  · rintro rfl
    simp
  · rintro rfl
    simp

theorem decode?_kind_iff (v : Value) (text : String) :
    decode? v.kind text = some v ↔ v.Spells text := by
  cases v with
  | string s => simp [decode?, kind, Spells]
  | bool flag => exact decode?_bool_iff flag text
  | int n =>
      simp only [decode?, kind, Spells, Option.map_eq_some_iff, Option.bind_eq_some_iff, int.injEq,
        exists_eq_right, int64?_eq_some_iff, Text.readInt?_eq_some_iff]
  | uint n =>
      simp only [decode?, kind, Spells, Option.map_eq_some_iff, Option.bind_eq_some_iff, uint.injEq,
        exists_eq_right, uint64?_eq_some_iff, Text.readNat?_eq_some_iff]
  | list items =>
      simp only [decode?, kind, Spells, Option.map_eq_some_iff, list.injEq, map_ofList_eq_iff,
        exists_eq_right, decodeList?_eq_some_iff]

theorem decode?_eq_some_iff {kind : Kind} {text : String} {v : Value} :
    decode? kind text = some v ↔ v.kind = kind ∧ v.Spells text := by
  constructor
  · intro h
    obtain rfl := kind_of_decode? h
    exact ⟨rfl, (decode?_kind_iff v text).mp h⟩
  · rintro ⟨rfl, hSpells⟩
    exact (decode?_kind_iff v text).mpr hSpells

/-- A text is read as a value just if it spells it. -/
theorem decode_eq_ok_iff {kind : Kind} {text : String} {v : Value} :
    decode kind text = .ok v ↔ v.kind = kind ∧ v.Spells text := by
  rw [← decode?_eq_some_iff, decode]
  cases decode? kind text with
  | none => simp
  | some w => simp

/-- A text is refused just if it spells no value of the kind. -/
theorem decode_eq_error_iff {kind : Kind} {text : String} {e : Error} :
    decode kind text = .error e ↔
      e = .invalidValue kind.name text ∧ ∀ v : Value, v.kind = kind → ¬v.Spells text := by
  have hNone : (∀ v : Value, v.kind = kind → ¬v.Spells text) ↔ decode? kind text = none := by
    rw [Option.eq_none_iff_forall_ne_some]
    refine forall_congr' fun v => ?_
    rw [ne_eq, decode?_eq_some_iff, not_and]
  rw [hNone, decode]
  cases decode? kind text with
  | none => simp [eq_comm]
  | some w => simp

/-- The text of a value spells it. -/
theorem spells_encode (v : Value) : v.Spells v.encode :=
  (decode_eq_ok_iff.mp (decode_encode v)).2

/-- No text spells two values of one kind. -/
theorem Spells.unique {v w : Value} {text : String} (hKind : v.kind = w.kind) (hv : v.Spells text)
    (hw : w.Spells text) : v = w := by
  have hRead := decode_eq_ok_iff.mpr ⟨hKind, hv⟩
  rw [decode_eq_ok_iff.mpr ⟨rfl, hw⟩] at hRead
  exact (Except.ok.inj hRead).symm

end Value
end Accounts
