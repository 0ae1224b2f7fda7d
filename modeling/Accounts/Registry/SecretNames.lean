import Accounts.Book

/-! Which parameters are secret. A parameter is an attribute under its name with a fixed prefix. -/
namespace Accounts

/-- The prefix of the keys of parameters. -/
def paramPrefix : String := "param-"

/-- The key of a parameter. -/
def paramKey (name : String) : String := paramPrefix ++ name

/-- The name of the parameter that a key belongs to, if it belongs to one. -/
def paramName? (key : String) : Option String :=
  match key.toList with
  | 'p' :: 'a' :: 'r' :: 'a' :: 'm' :: '-' :: name => some (String.ofList name)
  | _ => none

/-- The names of the secret parameters, each once and in order. -/
structure SecretNames where
  set : SortedMap String Unit
  deriving DecidableEq

namespace SecretNames

def ofList (names : List String) : SecretNames :=
  ⟨SortedMap.ofList (names.map fun name => (name, ()))⟩

/-- Passwords are secret unless something else is configured. -/
def default : SecretNames := ofList ["password"]

/-- Whether the parameter is secret. -/
def isSecret (s : SecretNames) (name : String) : Bool := s.set.contains name

/-- Whether the key is that of a secret parameter. -/
def isSecretKey (s : SecretNames) (key : String) : Bool :=
  (paramName? key).any s.isSecret

/-- The keys of the secret parameters. -/
def keys (s : SecretNames) : List String := s.set.keys.map paramKey

end SecretNames

/-- The attributes that are not secret. -/
def Attributes.withoutSecrets (a : Attributes) (s : SecretNames) : Attributes :=
  a.filter fun key _ => !s.isSecretKey key

end Accounts
