import Accounts.SortedMap.Lemmas

/-! Secret services: external stores of secrets, addressed by a collection and a key in it. -/
namespace Accounts

/-- The address of one secret. -/
structure Entry where
  collection : String
  key : String
  deriving DecidableEq, Repr

namespace Entry

/-- Entries are ordered by collection, then by key. -/
instance : Ord Entry where
  compare := compareLex (compareOn collection) (compareOn key)

instance : Std.TransOrd Entry :=
  inferInstanceAs (Std.TransCmp (compareLex (compareOn collection) (compareOn key)))

instance : Std.LawfulEqOrd Entry where
  eq_of_compare {a b} h := by
    obtain ⟨c, k⟩ := a
    obtain ⟨c', k'⟩ := b
    change compareLex (compareOn collection) (compareOn key) _ _ = .eq at h
    simp only [compareLex, compareOn, Ordering.then_eq_eq, Std.LawfulEqOrd.compare_eq_iff_eq] at h
    simp [h.1, h.2]
  compare_self := Std.ReflCmp.compare_self

end Entry

/-- Every secret that a service holds. -/
abbrev Vault := SortedMap Entry String

/-- Why a service refuses a call. -/
inductive ServiceError where
  | noEntry
  | unavailable (reason : String)
  deriving DecidableEq, Repr

def ServiceError.message : ServiceError → String
  | noEntry => "no secret stored for this entry"
  | unavailable reason => "secret service unavailable: " ++ reason

/-- Why a call to a service gave its caller no answer. A call that timed out may still take
effect. -/
inductive CallFailure where
  | refused (error : ServiceError)
  | timedOut
  | crashed
  deriving DecidableEq, Repr

/-- A call to a service. -/
inductive Request where
  | put (entry : Entry) (value : String)
  | get (entry : Entry)
  | delete (entry : Entry)
  deriving DecidableEq, Repr

namespace Vault

def put (v : Vault) (e : Entry) (value : String) : Vault := SortedMap.insert v e value

/-- Read a secret, which must be there. -/
def read (v : Vault) (e : Entry) : Except ServiceError String :=
  match v.get? e with
  | some value => .ok value
  | none => .error .noEntry

/-- Remove a secret, which must be there. -/
def delete (v : Vault) (e : Entry) : Except ServiceError Vault :=
  if v.contains e then .ok (v.erase e) else .error .noEntry

/-- Carry out a call. A write and a removal answer with the empty text. -/
def serve (v : Vault) : Request → Except ServiceError String × Vault
  | .put e value => (.ok "", v.put e value)
  | .get e => (v.read e, v)
  | .delete e =>
    match v.delete e with
    | .ok v' => (.ok "", v')
    | .error error => (.error error, v)

end Vault
end Accounts
