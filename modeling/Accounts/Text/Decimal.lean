/-! Decimal numbers: an optional sign and at least one ASCII digit. Leading zeros are allowed. -/
namespace Accounts.Text

/-- The value of a nonempty run of ASCII digits. -/
def readDigits? (s : List Char) : Option Nat :=
  if s ≠ [] ∧ s.all Char.isDigit then some (Nat.ofDigitChars 10 s 0) else none

/-- Read a number that may carry a plus sign. -/
def readNat? : List Char → Option Nat
  | '+' :: digits => readDigits? digits
  | digits => readDigits? digits

/-- Read a number that may carry a sign. -/
def readInt? : List Char → Option Int
  | '-' :: digits => (readDigits? digits).map fun n => -(n : Int)
  | s => (readNat? s).map Int.ofNat

theorem readDigits?_repr (n : Nat) : readDigits? n.repr.toList = some n := by
  have hNe : Nat.toDigits 10 n ≠ [] := by
    intro h
    have := Nat.length_toDigits_pos (b := 10) (n := n)
    simp [h] at this
  have hDigits : (Nat.toDigits 10 n).all Char.isDigit = true := by
    rw [List.all_eq_true]
    intro c hc
    exact Nat.isDigit_of_mem_toDigits (by decide) (by decide) hc
  rw [Nat.toList_repr, readDigits?, if_pos ⟨hNe, hDigits⟩,
    Nat.ofDigitChars_toDigits (by decide) (by decide)]

end Accounts.Text
