import Accounts.Proofs.GroupName

/-! Identifiers and the texts that they stand for. What is written can be read again, so different
texts have different identifiers. The reader takes other spellings too. What sets the written one
apart is that its digits are lower case, that nothing is escaped without need, and that it begins
with a letter or an underscore. -/
namespace Accounts

/-! ## The bytes of a text -/

theorem Text.toList_loop (bytes : ByteArray) (i : Nat) (acc : List UInt8) :
    ByteArray.toList.loop bytes i acc = acc.reverse ++ bytes.data.toList.drop i := by
  rw [ByteArray.toList.loop]
  split
  next h =>
    have hSize : i < bytes.data.toList.length := by simpa using h
    have hByte : bytes.get! i = bytes.data.toList[i] := by
      rw [Array.getElem_toList]
      exact getElem!_pos bytes.data i (by simpa using h)
    rw [toList_loop, List.reverse_cons, hByte, List.append_assoc, List.singleton_append,
      List.drop_eq_getElem_cons hSize]
  next h =>
    have hSize : bytes.data.toList.length ≤ i := by simpa using h
    rw [List.drop_eq_nil_of_le hSize, List.append_nil]
termination_by bytes.size - i

/-- Bytes are read as the text that has them. -/
theorem Text.fromUTF8?_eq_some_iff {bytes : List UInt8} {s : String} :
    String.fromUTF8? ⟨bytes.toArray⟩ = some s ↔ s.toUTF8.toList = bytes := by
  have hList : s.toUTF8.toList = s.toUTF8.data.toList := by
    rw [ByteArray.toList, toList_loop, List.reverse_nil, List.nil_append, List.drop_zero]
  rw [hList, String.fromUTF8?]
  constructor
  · intro h
    split at h
    next hValid =>
      obtain rfl := Option.some.inj h
      rfl
    next => contradiction
  · rintro rfl
    exact dif_pos s.isValidUTF8

namespace Identifier

/-! ## Digits -/

/-- A hexadecimal digit in the case in which it is written. -/
def isLowerHex (c : Char) : Bool := c.isDigit || ('a' ≤ c && c ≤ 'f')

theorem isLowerHex_hexDigit {n : Nat} (h : n < 16) : isLowerHex (Text.hexDigit n) = true := by
  revert n
  decide

/-- Digits of the right case are those that are written for some value. -/
theorem exists_hexDigit {c : Char} (h : isLowerHex c = true) : ∃ n < 16, Text.hexDigit n = c := by
  have hDecimal : ∀ n < 10, Text.hexDigit n = Char.ofNat (48 + n) := by decide
  have hLetter : ∀ n < 6, Text.hexDigit (10 + n) = Char.ofNat (97 + n) := by decide
  simp only [isLowerHex, Char.isDigit, Bool.or_eq_true, Bool.and_eq_true, decide_eq_true_eq,
    Char.le_def, UInt32.le_iff_toNat_le] at h
  rcases h with ⟨hLow, hHigh⟩ | ⟨hLow, hHigh⟩
  · obtain ⟨n, hn⟩ := Nat.exists_eq_add_of_le (show 48 ≤ c.toNat from hLow)
    have hTen : n < 10 := by have : c.toNat ≤ 57 := hHigh; omega
    exact ⟨n, by omega, by rw [hDecimal n hTen, ← hn, Char.ofNat_toNat]⟩
  · obtain ⟨n, hn⟩ := Nat.exists_eq_add_of_le (show 97 ≤ c.toNat from hLow)
    have hSix : n < 6 := by have : c.toNat ≤ 102 := hHigh; omega
    exact ⟨10 + n, by omega, by rw [hLetter n hSix, ← hn, Char.ofNat_toNat]⟩

theorem readByte?_hexDigit : ∀ m < 16, ∀ n < 16,
    readByte? (Text.hexDigit m) (Text.hexDigit n) = some (UInt8.ofNat (16 * m + n)) := by
  decide

/-- A byte is read from the digits that are written for it. -/
theorem readByte?_of_byte (b : UInt8) :
    readByte? (Text.hexDigit (b.toNat / 16)) (Text.hexDigit (b.toNat % 16)) = some b := by
  have hSize := b.toNat_lt
  rw [readByte?_hexDigit _ (by omega) _ (by omega), Nat.div_add_mod, UInt8.ofNat_toNat]

/-- From digits of the right case no byte is read but the one that they are written for. -/
theorem escapeByte_of_readByte? {high low : Char} {b : UInt8} (hHigh : isLowerHex high = true)
    (hLow : isLowerHex low = true) (h : readByte? high low = some b) :
    escapeByte b = ['_', high, low] := by
  obtain ⟨m, hm, rfl⟩ := exists_hexDigit hHigh
  obtain ⟨n, hn, rfl⟩ := exists_hexDigit hLow
  rw [readByte?_hexDigit m hm n hn, Option.some.injEq] at h
  have hByte : b.toNat = 16 * m + n := by
    rw [← h, UInt8.toNat_ofNat_of_lt' (by simp only [UInt8.size]; omega)]
  have hDiv : b.toNat / 16 = m := by omega
  have hMod : b.toNat % 16 = n := by omega
  rw [escapeByte, hDiv, hMod]

/-! ## Pieces -/

/-- What is written for a byte, in front of an identifier or further inside. -/
def spell (front : Bool) (b : UInt8) : List Char :=
  if isAlphanum b && !(front && isDigit b) then [Char.ofNat b.toNat] else escapeByte b

theorem escapeBytes_cons (b : UInt8) (bytes : List UInt8) :
    escapeBytes (b :: bytes) = spell true b ++ bytes.flatMap (spell false) := by
  have hInner : escapeInner = spell false := by
    funext b
    simp [escapeInner, spell]
  have hFront : (if isAlphanum b && !isDigit b then escapeInner b else escapeByte b) =
      spell true b := by
    rw [hInner]
    cases hDigit : isDigit b with
    | true => simp [spell, hDigit]
    | false =>
        cases hBare : isAlphanum b with
        | true => simp [spell, hBare, hDigit]
        | false => simp [spell, hBare]
  rw [escapeBytes, hFront, hInner]

/-- A letter or digit of ASCII is its own character. -/
theorem ofNat_toNat_of_isAlphanum {b : UInt8} (h : isAlphanum b = true) :
    (Char.ofNat b.toNat).toNat = b.toNat ∧ b.toNat < 0x80 ∧
      isComponentChar (Char.ofNat b.toNat) = true ∧ Char.ofNat b.toNat ≠ '_' ∧
      (Char.ofNat b.toNat).isDigit = isDigit b := by
  have hAll : ∀ n < 256, isAlphanum (UInt8.ofNat n) = true →
      (Char.ofNat n).toNat = n ∧ n < 0x80 ∧ isComponentChar (Char.ofNat n) = true ∧
        Char.ofNat n ≠ '_' ∧ (Char.ofNat n).isDigit = isDigit (UInt8.ofNat n) := by
    decide +kernel
  have hByte := hAll b.toNat b.toNat_lt
  rw [UInt8.ofNat_toNat] at hByte
  exact hByte h

/-- A piece is read as the byte that it is written for, whatever follows. -/
theorem unescapeBytes?_spell (front : Bool) (b : UInt8) (rest : List Char) :
    unescapeBytes? (spell front b ++ rest) = (unescapeBytes? rest).map (b :: ·) := by
  unfold spell
  split
  next hBare =>
    have hAlphanum : isAlphanum b = true := (Bool.and_eq_true_iff.mp hBare).1
    obtain ⟨hNat, hAscii, -, hPlain, -⟩ := ofNat_toNat_of_isAlphanum hAlphanum
    rw [List.singleton_append, unescapeBytes?]
    · simp only [hNat, UInt8.ofNat_toNat]
      rw [if_pos ⟨hAscii, hAlphanum⟩]
    · intro high low rest' hEscape
      exact absurd hEscape hPlain
  next =>
    rw [escapeByte, List.cons_append, List.cons_append, List.singleton_append, unescapeBytes?,
      readByte?_of_byte]
    cases unescapeBytes? rest with
    | none => rfl
    | some bytes => rfl

theorem unescapeBytes?_flatMap_spell (bytes : List UInt8) :
    unescapeBytes? (bytes.flatMap (spell false)) = some bytes := by
  induction bytes with
  | nil => rfl
  | cons b bytes ih => rw [List.flatMap_cons, unescapeBytes?_spell, ih, Option.map_some]

/-- What is written for the bytes of a text that is not empty is no lone underscore. -/
theorem escapeBytes_cons_ne (b : UInt8) (bytes : List UInt8) :
    escapeBytes (b :: bytes) ≠ ['_'] := by
  rw [escapeBytes_cons, spell]
  split
  next hBare =>
    have hPlain := (ofNat_toNat_of_isAlphanum (Bool.and_eq_true_iff.mp hBare).1).2.2.2.1
    simp [hPlain]
  next => simp [escapeByte]

theorem unescapeBytes?_escapeBytes (b : UInt8) (bytes : List UInt8) :
    unescapeBytes? (escapeBytes (b :: bytes)) = some (b :: bytes) := by
  rw [escapeBytes_cons, unescapeBytes?_spell, unescapeBytes?_flatMap_spell, Option.map_some]

theorem escape_empty : escape "" = "_" :=
  congrArg (fun bytes => String.ofList (escapeBytes bytes)) ByteArray.toList_empty

/-- What is written for a text can be read again. -/
theorem unescape?_escape (s : String) : unescape? (escape s) = some s := by
  have hBytes : String.fromUTF8? ⟨s.toUTF8.toList.toArray⟩ = some s :=
    Text.fromUTF8?_eq_some_iff.mpr rfl
  unfold unescape? escape
  cases hText : s.toUTF8.toList with
  | nil =>
      rw [hText] at hBytes
      have hEmpty : "".toUTF8.toList = [] := ByteArray.toList_empty
      obtain rfl := Option.some.inj (hBytes.symm.trans (Text.fromUTF8?_eq_some_iff.mpr hEmpty))
      rfl
  | cons b bytes =>
      have hNe : String.ofList (escapeBytes (b :: bytes)) ≠ "_" := by
        intro hEq
        exact escapeBytes_cons_ne b bytes (by simpa using congrArg String.toList hEq)
      rw [if_neg hNe, String.toList_ofList, unescapeBytes?_escapeBytes, Option.bind_some, ← hText]
      exact hBytes

/-! ## Canonical spelling -/

/-- Whether the digits are lower case, nothing is escaped without need, and, where the text has not
begun yet, something comes that is no digit. -/
def isCanonical : Bool → List Char → Bool
  | front, '_' :: high :: low :: rest =>
    isLowerHex high && isLowerHex low &&
      ((readByte? high low).all fun b => !isAlphanum b || (front && isDigit b)) &&
      isCanonical false rest
  | front, [] => !front
  | front, c :: rest => !(front && c.isDigit) && isCanonical false rest

/-- What is written for a byte that stands in front, or further inside, is canonical there. -/
theorem isCanonical_spell (front : Bool) (b : UInt8) (rest : List Char) :
    isCanonical front (spell front b ++ rest) = isCanonical false rest := by
  unfold spell
  split
  next hBare =>
    obtain ⟨hAlphanum, hFront⟩ := Bool.and_eq_true_iff.mp hBare
    obtain ⟨-, -, -, hPlain, hDigit⟩ := ofNat_toNat_of_isAlphanum hAlphanum
    rw [List.singleton_append, isCanonical, hDigit, hFront, Bool.true_and]
    intro high low rest' hEscape
    exact absurd hEscape hPlain
  next hEscaped =>
    have hSize := b.toNat_lt
    have hHigh := isLowerHex_hexDigit (show b.toNat / 16 < 16 by omega)
    have hLow := isLowerHex_hexDigit (show b.toNat % 16 < 16 by omega)
    have hNeed : (!isAlphanum b || (front && isDigit b)) = true := by
      cases hBare : isAlphanum b with
      | true => simpa [hBare] using hEscaped
      | false => rfl
    rw [escapeByte, List.cons_append, List.cons_append, List.singleton_append, isCanonical, hHigh,
      hLow, readByte?_of_byte, Option.all_some, hNeed]
    rfl

theorem isCanonical_flatMap_spell (bytes : List UInt8) :
    isCanonical false (bytes.flatMap (spell false)) = true := by
  induction bytes with
  | nil => rfl
  | cons b bytes ih => rw [List.flatMap_cons, isCanonical_spell, ih]

/-- A canonical text begins with what is written for the first byte that is read from it. -/
theorem eq_spell_append {front : Bool} {t : List Char} {b : UInt8} {bytes : List UInt8}
    (hRead : unescapeBytes? t = some (b :: bytes)) (hCanonical : isCanonical front t = true) :
    ∃ rest, t = spell front b ++ rest ∧ unescapeBytes? rest = some bytes ∧
      isCanonical false rest = true := by
  cases t using unescapeBytes?.fun_cases with
  | case1 => simp [unescapeBytes?] at hRead
  | case2 high low rest =>
      simp only [unescapeBytes?, Option.bind_eq_bind, Option.bind_eq_some_iff, Option.pure_def,
        Option.some.injEq, List.cons.injEq] at hRead
      obtain ⟨b, hByte, _, hRest, rfl, rfl⟩ := hRead
      simp only [isCanonical, hByte, Option.all_some, Bool.and_eq_true] at hCanonical
      obtain ⟨⟨⟨hHigh, hLow⟩, hNeed⟩, hInner⟩ := hCanonical
      refine ⟨rest, ?_, hRest, hInner⟩
      have hEscaped : spell front b = escapeByte b := by
        rw [spell, if_neg]
        cases hBare : isAlphanum b with
        | true => simpa [hBare] using hNeed
        | false => simp
      rw [hEscaped, escapeByte_of_readByte? hHigh hLow hByte]
      rfl
  | case3 c rest hPlain _ hBare =>
      rw [unescapeBytes?, if_pos hBare] at hRead
      · rw [Option.map_eq_some_iff] at hRead
        obtain ⟨_, hRest, hBytes⟩ := hRead
        obtain ⟨rfl, rfl⟩ := List.cons.inj hBytes
        have hNat : (UInt8.ofNat c.toNat).toNat = c.toNat :=
          UInt8.toNat_ofNat_of_lt' (by have := hBare.1; simp only [UInt8.size]; omega)
        have hChar : Char.ofNat (UInt8.ofNat c.toNat).toNat = c := by rw [hNat, Char.ofNat_toNat]
        have hDigit := (ofNat_toNat_of_isAlphanum hBare.2).2.2.2.2
        rw [hChar] at hDigit
        rw [isCanonical, Bool.and_eq_true, hDigit] at hCanonical
        · refine ⟨rest, ?_, hRest, hCanonical.2⟩
          rw [spell, hBare.2, hCanonical.1, Bool.true_and, if_pos rfl, hChar]
          rfl
        · exact hPlain
      · exact hPlain
  | case4 c rest hPlain _ hBare =>
      rw [unescapeBytes?, if_neg hBare] at hRead
      · contradiction
      · exact hPlain

theorem eq_nil_of_unescapeBytes? {t : List Char} (h : unescapeBytes? t = some []) : t = [] := by
  cases t using unescapeBytes?.fun_cases with
  | case1 => rfl
  | case2 high low rest => simp [unescapeBytes?, Option.bind_eq_some_iff] at h
  | case3 c rest hPlain _ hBare =>
      rw [unescapeBytes?, if_pos hBare] at h
      · simp at h
      · exact hPlain
  | case4 c rest hPlain _ hBare =>
      rw [unescapeBytes?, if_neg hBare] at h
      · contradiction
      · exact hPlain

theorem eq_flatMap_spell {t : List Char} {bytes : List UInt8}
    (hRead : unescapeBytes? t = some bytes) (hCanonical : isCanonical false t = true) :
    t = bytes.flatMap (spell false) := by
  induction bytes generalizing t with
  | nil => exact eq_nil_of_unescapeBytes? hRead
  | cons b bytes ih =>
      obtain ⟨rest, rfl, hRest, hInner⟩ := eq_spell_append hRead hCanonical
      rw [ih hRest hInner, List.flatMap_cons]

theorem isCanonical_escape (s : String) : isCanonical true (escape s).toList = true := by
  rw [escape, String.toList_ofList]
  cases s.toUTF8.toList with
  | nil => rfl
  | cons b bytes => rw [escapeBytes_cons, isCanonical_spell, isCanonical_flatMap_spell]

theorem escape_of_isCanonical {s t : String} (hRead : unescape? t = some s)
    (hCanonical : isCanonical true t.toList = true) : escape s = t := by
  unfold unescape? at hRead
  split at hRead
  next hEmpty =>
    obtain rfl := Option.some.inj hRead
    exact escape_empty.trans hEmpty.symm
  next =>
    obtain ⟨bytes, hBytes, hText⟩ := Option.bind_eq_some_iff.mp hRead
    rw [escape, Text.fromUTF8?_eq_some_iff.mp hText]
    cases bytes with
    | nil =>
        rw [eq_nil_of_unescapeBytes? hBytes] at hCanonical
        contradiction
    | cons b bytes =>
        obtain ⟨rest, hSplit, hRest, hInner⟩ := eq_spell_append hBytes hCanonical
        rw [escapeBytes_cons, ← eq_flatMap_spell hRest hInner, ← hSplit, String.ofList_toList]

/-- A text is written for another one exactly if it is read as that one and is canonical. -/
theorem escape_eq_iff (s t : String) :
    escape s = t ↔ unescape? t = some s ∧ isCanonical true t.toList = true := by
  constructor
  · rintro rfl
    exact ⟨unescape?_escape s, isCanonical_escape s⟩
  · rintro ⟨hRead, hCanonical⟩
    exact escape_of_isCanonical hRead hCanonical

/-- The reader takes upper case digits, a sign, an escape without need, a digit in front, and the
empty text, none of which is ever written. -/
theorem foreign_spellings_read :
    unescape? "_2E" = some "." ∧ escape "." = "_2e" ∧
      unescape? "_+a" = some "\n" ∧ escape "\n" = "_0a" ∧
      unescape? "_61" = some "a" ∧ escape "a" = "a" ∧
      unescape? "1" = some "1" ∧ escape "1" = "_31" ∧
      unescape? "" = some "" ∧ escape "" = "_" := by
  decide +kernel

/-! ## Names of new groups -/

theorem isComponentChar_hexDigit : ∀ n < 16, isComponentChar (Text.hexDigit n) = true := by
  decide

theorem isComponentChar_of_mem_spell {front : Bool} {b : UInt8} {c : Char}
    (h : c ∈ spell front b) : isComponentChar c = true := by
  unfold spell at h
  split at h
  next hBare =>
    rw [List.mem_singleton.mp h]
    exact (ofNat_toNat_of_isAlphanum (Bool.and_eq_true_iff.mp hBare).1).2.2.1
  next =>
    have hSize := b.toNat_lt
    simp only [escapeByte, List.mem_cons, List.not_mem_nil, or_false] at h
    rcases h with rfl | rfl | rfl
    · decide
    · exact isComponentChar_hexDigit _ (by omega)
    · exact isComponentChar_hexDigit _ (by omega)

theorem isDigit_head?_spell_append (b : UInt8) (rest : List Char) :
    ∃ c, (spell true b ++ rest).head? = some c ∧ c.isDigit = false := by
  unfold spell
  split
  next hBare =>
    obtain ⟨hAlphanum, hFront⟩ := Bool.and_eq_true_iff.mp hBare
    refine ⟨_, rfl, ?_⟩
    rw [(ofNat_toNat_of_isAlphanum hAlphanum).2.2.2.2]
    simpa using hFront
  next => exact ⟨'_', rfl, by decide⟩

/-- An identifier is a component, and no digit stands in front of it. -/
theorem isComponent_escape (s : String) :
    IsComponent (escape s) ∧ ∀ c ∈ (escape s).toList.head?, c.isDigit = false := by
  rw [isComponent_iff, escape, String.toList_ofList]
  cases s.toUTF8.toList with
  | nil => simp [escapeBytes, isComponentChar]
  | cons b bytes =>
      rw [escapeBytes_cons]
      obtain ⟨first, hHead, hDigit⟩ := isDigit_head?_spell_append b (bytes.flatMap (spell false))
      refine ⟨⟨fun hNil => ?_, fun c hc => ?_⟩, fun c hc => ?_⟩
      · rw [hNil] at hHead
        contradiction
      · rcases List.mem_append.mp hc with hc | hc
        · exact isComponentChar_of_mem_spell hc
        · obtain ⟨_, _, hPiece⟩ := List.mem_flatMap.mp hc
          exact isComponentChar_of_mem_spell hPiece
      · rw [hHead, Option.mem_some_iff] at hc
        rwa [← hc]

theorem escape_injective : Function.Injective escape := by
  intro s t hEq
  have hRead := unescape?_escape s
  rw [hEq, unescape?_escape] at hRead
  exact (Option.some.inj hRead).symm

end Identifier

namespace GroupName
open Identifier

/-- The protocol of an account as it stands in the name of its group. -/
def protocolComponent (protocol : String) : String :=
  String.ofList (protocol.toList.map fun c => if c = '-' then '_' else c)

variable {manager protocol identity : String} {serial : Nat} {g : GroupName}

theorem isComponent_append_repr {s : String} (h : IsComponent s) (n : Nat) :
    IsComponent (s ++ n.repr) := by
  rw [isComponent_iff] at h ⊢
  rw [String.toList_append]
  refine ⟨by simp [h.1], fun c hc => ?_⟩
  rcases List.mem_append.mp hc with hc | hc
  · exact h.2 c hc
  · rw [Nat.toList_repr] at hc
    have hDigit := Nat.isDigit_of_mem_toDigits (by decide) (by decide) hc
    simp [isComponentChar, Char.isAlphanum, hDigit]

/-- What stands in the name of a new group, if there can be one. -/
theorem allocate_eq_ok_iff :
    allocate manager protocol identity serial = .ok g ↔
      g.manager = escape manager ∧ g.protocol = protocolComponent protocol ∧
        g.account = escape identity ++ serial.repr :=
  ofComponents_eq_ok_iff

/-- Only the protocol decides whether a new group can have a name. -/
theorem exists_allocate (h : IsComponent (protocolComponent protocol)) (manager identity : String)
    (serial : Nat) : ∃ g, allocate manager protocol identity serial = .ok g :=
  have hAccount := isComponent_append_repr (isComponent_escape identity).1 serial
  ⟨⟨escape manager, protocolComponent protocol, escape identity ++ serial.repr,
    (isComponent_escape manager).1, h, hAccount⟩, allocate_eq_ok_iff.mpr ⟨rfl, rfl, rfl⟩⟩

theorem allocate_inj {manager' identity' : String}
    (h : allocate manager protocol identity serial = .ok g)
    (h' : allocate manager' protocol identity' serial = .ok g) :
    manager' = manager ∧ identity' = identity := by
  obtain ⟨hManager, -, hAccount⟩ := allocate_eq_ok_iff.mp h
  obtain ⟨hManager', -, hAccount'⟩ := allocate_eq_ok_iff.mp h'
  have hIdentity : escape identity' = escape identity := by
    rw [hAccount, ← String.toList_inj, String.toList_append, String.toList_append] at hAccount'
    exact String.toList_inj.mp (List.append_cancel_right hAccount'.symm)
  exact ⟨escape_injective (hManager'.symm.trans hManager), escape_injective hIdentity⟩

end GroupName

/-- An identifier can be read again, and it is a component that begins with no digit. So different
texts have different identifiers, and new groups of one protocol and one serial number, whose names
can be made for any manager and any identity, have different names unless they agree in both. -/
theorem Identifier.escape_reversible :
    (∀ s, Identifier.unescape? (Identifier.escape s) = some s) ∧
    (∀ s, IsComponent (Identifier.escape s) ∧
      ∀ c ∈ (Identifier.escape s).toList.head?, c.isDigit = false) ∧
    Function.Injective Identifier.escape ∧
    ∀ protocol serial, IsComponent (GroupName.protocolComponent protocol) →
      ∀ manager identity, ∃ g, GroupName.allocate manager protocol identity serial = .ok g ∧
        ∀ manager' identity', GroupName.allocate manager' protocol identity' serial = .ok g →
          manager' = manager ∧ identity' = identity := by
  refine ⟨Identifier.unescape?_escape, Identifier.isComponent_escape, Identifier.escape_injective,
    fun protocol serial hProtocol manager identity => ?_⟩
  obtain ⟨g, hName⟩ := GroupName.exists_allocate hProtocol manager identity serial
  exact ⟨g, hName, fun manager' identity' => GroupName.allocate_inj hName⟩

/-- A manager that begins with a digit and an empty identity can be told from the name. -/
theorem Identifier.escape_reversible_of_hyphen :
    ∃ g, GroupName.allocate "1a-b" "local-xmpp" "" 3 = .ok g ∧
      g.sectionName = "_31a_2db/local_xmpp/_3" ∧
        ∀ manager identity, GroupName.allocate manager "local-xmpp" identity 3 = .ok g →
          manager = "1a-b" ∧ identity = "" := by
  obtain ⟨_, _, _, hNames⟩ := escape_reversible
  obtain ⟨g, hName, hOnly⟩ := hNames "local-xmpp" 3 (by decide) "1a-b" ""
  refine ⟨g, hName, ?_, hOnly⟩
  obtain ⟨hManager, hProtocol, hAccount⟩ := GroupName.allocate_eq_ok_iff.mp hName
  rw [GroupName.sectionName, hManager, hProtocol, hAccount]
  decide +kernel

end Accounts
