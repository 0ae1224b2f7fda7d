import Accounts.Error
import Accounts.Text.Cut
import Accounts.GroupName.Identifier

/-! Names of account groups. A group is named by its manager, its protocol and its account, and
the three stand with slashes between them where the group heads a section of the account file. -/
namespace Accounts

/-- The characters of a component: ASCII letters, ASCII digits and the underscore. -/
def isComponentChar (c : Char) : Bool := c.isAlphanum || c == '_'

/-- Whether a text is a component: nonempty, and of the characters of components only. -/
def isComponent (s : String) : Bool := !s.toList.isEmpty && s.toList.all isComponentChar

/-- A component never holds a slash. -/
def IsComponent (s : String) : Prop := isComponent s = true

instance (s : String) : Decidable (IsComponent s) := inferInstanceAs (Decidable (_ = true))

theorem isComponent_iff {s : String} :
    IsComponent s ↔ s.toList ≠ [] ∧ ∀ c ∈ s.toList, isComponentChar c = true := by
  simp [IsComponent, isComponent]

/-- The name of an account group. -/
structure GroupName where
  manager : String
  protocol : String
  account : String
  isComponent_manager : IsComponent manager
  isComponent_protocol : IsComponent protocol
  isComponent_account : IsComponent account
  deriving DecidableEq

namespace GroupName

/-- Three texts with slashes between them. -/
def join (manager protocol account : String) : String :=
  manager ++ "/" ++ protocol ++ "/" ++ account

/-- The name as it heads a section. -/
def sectionName (g : GroupName) : String := join g.manager g.protocol g.account

/-- The group with the given components, each in the form in which it is stored. -/
def ofComponents (manager protocol account : String) : Except Error GroupName :=
  if h : IsComponent manager ∧ IsComponent protocol ∧ IsComponent account then
    .ok ⟨manager, protocol, account, h.1, h.2.1, h.2.2⟩
  else .error (.invalidGroup (join manager protocol account))

/-- Read a section name. -/
def parse (s : String) : Except Error GroupName :=
  match Text.pieces '/' s.toList with
  | [manager, protocol, account] =>
    ofComponents (String.ofList manager) (String.ofList protocol) (String.ofList account)
  | _ => .error (.invalidGroup s)

/-- The group of a new account, made from its manager, its protocol and its identity. The serial
number tells it from others with the same three. -/
def allocate (manager protocol identity : String) (serial : Nat) : Except Error GroupName :=
  ofComponents (Identifier.escape manager)
    (String.ofList (protocol.toList.map fun c => if c = '-' then '_' else c))
    (Identifier.escape identity ++ serial.repr)

/-- Names are ordered by manager, then protocol, then account. -/
instance : Ord GroupName where
  compare := compareLex (compareOn manager)
    (compareLex (compareOn protocol) (compareOn account))

instance : Std.TransOrd GroupName :=
  inferInstanceAs (Std.TransCmp (compareLex (compareOn manager)
    (compareLex (compareOn protocol) (compareOn account))))

instance : Std.LawfulEqOrd GroupName where
  eq_of_compare {a b} h := by
    obtain ⟨m, p, x, _, _, _⟩ := a
    obtain ⟨m', p', x', _, _, _⟩ := b
    change compareLex (compareOn manager) (compareLex (compareOn protocol) (compareOn account))
      _ _ = .eq at h
    simp only [compareLex, compareOn, Ordering.then_eq_eq, Std.LawfulEqOrd.compare_eq_iff_eq] at h
    simp [h.1, h.2.1, h.2.2]
  compare_self := Std.ReflCmp.compare_self

end GroupName
end Accounts
