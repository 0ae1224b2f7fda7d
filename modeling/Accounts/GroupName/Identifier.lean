import Accounts.Text.Hex

/-! Identifiers: any text written with ASCII letters, digits and underscores only. A byte that may
not stand for itself is an underscore and two hexadecimal digits, and the empty text is a lone
underscore. -/
namespace Accounts.Identifier

/-- Whether a byte is an ASCII digit. -/
def isDigit (b : UInt8) : Bool := 0x30 ≤ b && b ≤ 0x39

/-- Whether a byte is an ASCII letter or digit. -/
def isAlphanum (b : UInt8) : Bool :=
  isDigit b || (0x41 ≤ b && b ≤ 0x5a) || (0x61 ≤ b && b ≤ 0x7a)

/-- A byte by number. -/
def escapeByte (b : UInt8) : List Char :=
  ['_', Text.hexDigit (b.toNat / 16), Text.hexDigit (b.toNat % 16)]

/-- A byte behind the first one. Letters and digits stand for themselves. -/
def escapeInner (b : UInt8) : List Char :=
  if isAlphanum b then [Char.ofNat b.toNat] else escapeByte b

/-- The bytes of a text. A digit in front is written by number, so no identifier starts with one. -/
def escapeBytes : List UInt8 → List Char
  | [] => ['_']
  | first :: rest =>
    (if isAlphanum first && !isDigit first then escapeInner first else escapeByte first) ++
      rest.flatMap escapeInner

/-- The identifier that stands for a text. -/
def escape (s : String) : String := String.ofList (escapeBytes s.toUTF8.toList)

/-- The byte with the two given digits. A plus sign may stand in front of a single digit. -/
def readByte? : Char → Char → Option UInt8
  | '+', low => (Text.hexValue? low).map UInt8.ofNat
  | high, low => do
    let h ← Text.hexValue? high
    let l ← Text.hexValue? low
    return UInt8.ofNat (16 * h + l)

/-- The bytes that an identifier stands for. -/
def unescapeBytes? : List Char → Option (List UInt8)
  | [] => some []
  | '_' :: high :: low :: rest => do
    let b ← readByte? high low
    let bs ← unescapeBytes? rest
    return b :: bs
  | c :: rest =>
    let b := UInt8.ofNat c.toNat
    if c.toNat < 0x80 ∧ isAlphanum b then (unescapeBytes? rest).map (b :: ·) else none

/-- The text that an identifier stands for. -/
def unescape? (s : String) : Option String :=
  if s = "_" then some ""
  else (unescapeBytes? s.toList).bind fun bytes => String.fromUTF8? ⟨bytes.toArray⟩

end Accounts.Identifier
