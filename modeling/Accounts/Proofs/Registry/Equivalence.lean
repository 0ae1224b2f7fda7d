import Accounts.Proofs.Registry.Ledger

/-! Equivalent accounts. Two accounts are equivalent if they agree in their manager, in their
protocol and in every parameter that is not secret. What a registry compares is a map of encoded
parameters with the attributes of a group, which hold much else; what is said here is which groups
it finds. -/
namespace Accounts

/-- The group shows an account with this manager, this protocol and exactly these parameters,
secret ones aside. -/
structure Book.HasAccount (b : Book) (secrets : SecretNames) (manager protocol : String)
    (params : SortedMap String Value) (g : GroupName) : Prop where
  live : b.isLive g = true
  manager : b.value? g managerKey = some manager
  protocol : b.value? g protocolKey = some protocol
  param : ∀ name, secrets.isSecret name = false →
    b.value? g (paramKey name) = (params.get? name).map Value.encode

/-- The group is the first one with such an account. -/
def Book.FirstAccount (b : Book) (secrets : SecretNames) (manager protocol : String)
    (params : SortedMap String Value) (g : GroupName) : Prop :=
  b.HasAccount secrets manager protocol params g ∧
    ∀ h, b.HasAccount secrets manager protocol params h → h = g ∨ compare g h = .lt

/-- The groups show accounts that agree in manager, protocol and parameters, secret ones aside. -/
structure Book.Agree (b : Book) (secrets : SecretNames) (g h : GroupName) : Prop where
  manager : b.value? g managerKey = b.value? h managerKey
  protocol : b.value? g protocolKey = b.value? h protocolKey
  param : ∀ name, secrets.isSecret name = false →
    b.value? g (paramKey name) = b.value? h (paramKey name)

/-- The first element in order that satisfies `p` comes before every other one that does. -/
theorem eq_or_rel_of_find? {α : Type} {R : α → α → Prop} {l : List α} (hSorted : l.Pairwise R)
    {p : α → Bool} {a b : α} (hFind : l.find? p = some a) (hMem : b ∈ l) (hb : p b = true) :
    b = a ∨ R a b := by
  obtain ⟨-, before, after, rfl, hBefore⟩ := List.find?_eq_some_iff_append.mp hFind
  rcases List.mem_append.mp hMem with hFront | hBack
  · have hNot := hBefore b hFront
    rw [hb] at hNot
    contradiction
  · rcases List.mem_cons.mp hBack with rfl | hBehind
    · exact Or.inl rfl
    · obtain ⟨-, hTail, -⟩ := List.pairwise_append.mp hSorted
      exact Or.inr ((List.pairwise_cons.mp hTail).1 b hBehind)

namespace Registry

variable {r : Registry} {b : Book} {manager protocol : String} {params : SortedMap String Value}
variable {g h : GroupName}

theorem get?_plainParams_paramKey (r : Registry) (params : SortedMap String Value) {name : String}
    (h : r.secrets.isSecret name = false) :
    (r.plainParams params).get? (paramKey name) = (params.get? name).map Value.encode := by
  rw [Ledger.plainParams_eq, Attributes.get?_withoutSecrets, SecretNames.isSecretKey_paramKey, h,
    Ledger.get?_paramAttributes, paramName?_paramKey]
  rfl

/-- The parameters in the attributes are the encoded ones if they are for every name. -/
theorem filter_eq_plainParams_iff {a : Attributes} :
    (a.filter fun key _ => (paramName? key).isSome && !r.secrets.isSecretKey key) =
        r.plainParams params ↔
      ∀ name, r.secrets.isSecret name = false →
        a.get? (paramKey name) = (params.get? name).map Value.encode := by
  constructor
  · intro hEq name hPlain
    rw [← get?_plainParams_paramKey r params hPlain, ← hEq, SortedMap.get?_filter]
    cases a.get? (paramKey name) <;> simp [hPlain, Option.filter]
  · intro hParam
    apply SortedMap.ext_get?
    intro key
    rw [SortedMap.get?_filter]
    cases hSecret : r.secrets.isSecretKey key with
    | true =>
        rw [Ledger.plainParams_eq, Attributes.get?_withoutSecrets, hSecret]
        cases a.get? key <;> simp
    | false =>
        cases hName : paramName? key with
        | none =>
            rw [Ledger.plainParams_eq, Attributes.get?_withoutSecrets, hSecret,
              Ledger.get?_paramAttributes, hName]
            cases a.get? key <;> simp
        | some name =>
            obtain rfl := paramKey_of_paramName? hName
            rw [SecretNames.isSecretKey_paramKey] at hSecret
            rw [get?_plainParams_paramKey r params hSecret, hParam name hSecret]
            cases params.get? name <;> simp

theorem isEquivalent_iff :
    b.isLive g = true ∧ r.isEquivalent manager protocol (r.plainParams params) (b.attributes g) ↔
      b.HasAccount r.secrets manager protocol params g := by
  simp only [isEquivalent, Bool.and_eq_true, beq_iff_eq, decide_eq_true_eq, Book.get?_attributes,
    filter_eq_plainParams_iff]
  constructor
  · rintro ⟨hLive, ⟨hManager, hProtocol⟩, hParam⟩
    exact ⟨hLive, hManager, hProtocol, hParam⟩
  · intro hHas
    exact ⟨hHas.live, ⟨hHas.manager, hHas.protocol⟩, hHas.param⟩

/-- A group is found if there is one. -/
theorem equivalent?_eq_none_iff :
    r.equivalent? b manager protocol (r.plainParams params) = none ↔
      ∀ g, ¬b.HasAccount r.secrets manager protocol params g := by
  rw [equivalent?, List.find?_eq_none]
  apply forall_congr'
  intro g
  rw [← isEquivalent_iff, Book.mem_liveGroups, not_and]

/-- The group that is found is the first one. -/
theorem firstAccount_of_equivalent?
    (h : r.equivalent? b manager protocol (r.plainParams params) = some g) :
    b.FirstAccount r.secrets manager protocol params g := by
  unfold equivalent? at h
  have hLive := Book.mem_liveGroups.mp (List.mem_of_find?_eq_some h)
  have hEquivalent : r.isEquivalent manager protocol (r.plainParams params) (b.attributes g) :=
    (List.find?_eq_some_iff_append.mp h).1
  apply And.intro (isEquivalent_iff.mp ⟨hLive, hEquivalent⟩)
  intro g' hHas
  obtain ⟨hLive', hEquivalent'⟩ := isEquivalent_iff.mpr hHas
  exact eq_or_rel_of_find? b.pairwise_liveGroups h (Book.mem_liveGroups.mpr hLive') hEquivalent'

theorem firstAccount_unique (hFirst : b.FirstAccount r.secrets manager protocol params g)
    (hFirst' : b.FirstAccount r.secrets manager protocol params h) : h = g := by
  rcases hFirst.2 h hFirst'.1 with hEq | hLess
  · exact hEq
  · rcases hFirst'.2 g hFirst.1 with hEq | hGreater
    · exact hEq.symm
    · rw [Std.OrientedCmp.gt_iff_lt.mpr hLess] at hGreater
      contradiction

/-- A group is the first one exactly if it is found. -/
theorem equivalent?_eq_some_iff :
    r.equivalent? b manager protocol (r.plainParams params) = some g ↔
      b.FirstAccount r.secrets manager protocol params g := by
  constructor
  · exact firstAccount_of_equivalent?
  · intro hFirst
    cases hFind : r.equivalent? b manager protocol (r.plainParams params) with
    | none => exact absurd hFirst.1 (equivalent?_eq_none_iff.mp hFind g)
    | some h => rw [firstAccount_unique hFirst (firstAccount_of_equivalent? hFind)]

end Registry
end Accounts
