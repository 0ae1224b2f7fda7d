import Mathlib.Data.List.Nodup
import Accounts.Proofs.Registry.Basic

/-! What an account shows. The attributes are told apart by their keys: the manager, the protocol,
the parameters, and properties under all other keys. Nothing is lost in that, so the attributes can
be put together again from the account. -/
namespace Accounts

/-- A key under which an account has a property: it is neither reserved for the owner nor the key of
a parameter. -/
def IsPropertyKey (key : String) : Prop :=
  key ≠ managerKey ∧ key ≠ protocolKey ∧ paramName? key = none

instance : DecidablePred IsPropertyKey :=
  fun _ => inferInstanceAs (Decidable (_ ∧ _ ∧ _))

theorem paramKey_ne_managerKey (name : String) : paramKey name ≠ managerKey := by
  intro hEq
  have hName := congrArg paramName? hEq
  rw [paramName?_paramKey] at hName
  contradiction

theorem paramKey_ne_protocolKey (name : String) : paramKey name ≠ protocolKey := by
  intro hEq
  have hName := congrArg paramName? hEq
  rw [paramName?_paramKey] at hName
  contradiction

namespace Account

variable {account : Account} {a : Attributes} {key value : String}

/-- The attributes that the account shows, each with its key. -/
def entries (account : Account) : List (String × String) :=
  (managerKey, account.manager) :: (protocolKey, account.protocol) ::
    (account.params.toList.map fun e => (paramKey e.1, e.2)) ++ account.properties.toList

/-- The account shows each of the attributes in the place where its key belongs. -/
structure Reflects (account : Account) (a : Attributes) : Prop where
  manager : account.manager = (a.get? managerKey).getD ""
  protocol : account.protocol = (a.get? protocolKey).getD ""
  params : ∀ name, account.params.get? name = a.get? (paramKey name)
  properties : ∀ key, account.properties.get? key = if IsPropertyKey key then a.get? key else none

theorem reflects_blank (g : GroupName) : (blank g).Reflects ∅ := by
  refine ⟨rfl, rfl, fun _ => rfl, fun key => ?_⟩
  split_ifs
  · rfl
  · rfl

/-- What is no property does not show among the properties. -/
theorem ite_get?_insert (hKey : ¬IsPropertyKey key) (a : Attributes) (value key' : String) :
    (if IsPropertyKey key' then (a.insert key value).get? key' else none) =
      if IsPropertyKey key' then a.get? key' else none := by
  split_ifs with hProperty
  · have hNe : key ≠ key' := fun hEq => hKey (hEq ▸ hProperty)
    rw [SortedMap.get?_insert, if_neg hNe]
  · rfl

/-- One more attribute goes where its key belongs, and nowhere else. -/
theorem Reflects.add (h : account.Reflects a) (key value : String) :
    (account.add key value).Reflects (a.insert key value) := by
  unfold Account.add
  split_ifs with hManager hProtocol
  · subst hManager
    refine ⟨?_, ?_, fun name => ?_, fun key' => ?_⟩
    · simp
    · rw [SortedMap.get?_insert, if_neg (by decide)]
      exact h.protocol
    · rw [SortedMap.get?_insert, if_neg (paramKey_ne_managerKey name).symm]
      exact h.params name
    · rw [ite_get?_insert fun hProperty => hProperty.1 rfl]
      exact h.properties key'
  · subst hProtocol
    refine ⟨?_, ?_, fun name => ?_, fun key' => ?_⟩
    · rw [SortedMap.get?_insert, if_neg (by decide)]
      exact h.manager
    · simp
    · rw [SortedMap.get?_insert, if_neg (paramKey_ne_protocolKey name).symm]
      exact h.params name
    · rw [ite_get?_insert fun hProperty => hProperty.2.1 rfl]
      exact h.properties key'
  · cases hName : paramName? key with
    | some name =>
        obtain rfl := paramKey_of_paramName? hName
        refine ⟨?_, ?_, fun name' => ?_, fun key' => ?_⟩
        · rw [SortedMap.get?_insert, if_neg hManager]
          exact h.manager
        · rw [SortedMap.get?_insert, if_neg hProtocol]
          exact h.protocol
        · have hKeys : paramKey name = paramKey name' ↔ name = name' :=
            ⟨paramKey_injective, congrArg paramKey⟩
          simp only [SortedMap.get?_insert, hKeys, h.params name']
        · have hOther : ¬IsPropertyKey (paramKey name) := by simp [IsPropertyKey]
          rw [ite_get?_insert hOther]
          exact h.properties key'
    | none =>
        have hProperty : IsPropertyKey key := ⟨hManager, hProtocol, hName⟩
        refine ⟨?_, ?_, fun name => ?_, fun key' => ?_⟩
        · rw [SortedMap.get?_insert, if_neg hManager]
          exact h.manager
        · rw [SortedMap.get?_insert, if_neg hProtocol]
          exact h.protocol
        · have hNe : key ≠ paramKey name := by
            rintro rfl
            simp at hName
          rw [SortedMap.get?_insert, if_neg hNe]
          exact h.params name
        · dsimp only
          rw [SortedMap.get?_insert, SortedMap.get?_insert, h.properties key']
          by_cases hSame : key = key'
          · subst hSame
            simp [hProperty]
          · simp [hSame]

theorem Reflects.foldl (h : account.Reflects a) (es : List (String × String)) :
    (es.foldl (fun account e => account.add e.1 e.2) account).Reflects (a.insertMany es) := by
  induction es generalizing account a with
  | nil => exact h
  | cons e es ih => exact ih (h.add e.1 e.2)

/-- An account shows all attributes that are not secret. -/
theorem reflects_ofAttributes (g : GroupName) (a : Attributes) (secrets : SecretNames) :
    (ofAttributes g a secrets).Reflects (a.withoutSecrets secrets) := by
  have hAll := (reflects_blank g).foldl (a.withoutSecrets secrets).toList
  have hList : SortedMap.insertMany ∅ (a.withoutSecrets secrets).toList =
      a.withoutSecrets secrets := SortedMap.ofList_toList _
  rw [hList] at hAll
  exact hAll

theorem group_ofAttributes (g : GroupName) (a : Attributes) (secrets : SecretNames) :
    (ofAttributes g a secrets).group = g := by
  have hAdd : ∀ (account : Account) key value, (account.add key value).group = account.group := by
    intro account key value
    unfold add
    split_ifs
    · rfl
    · rfl
    · cases paramName? key with
      | some name => rfl
      | none => rfl
  have hFold : ∀ (es : List (String × String)) (account : Account),
      (es.foldl (fun account e => account.add e.1 e.2) account).group = account.group := by
    intro es
    induction es with
    | nil => exact fun _ => rfl
    | cons e es ih => exact fun account => (ih _).trans (hAdd account e.1 e.2)
  exact hFold _ _

theorem mem_entries_iff :
    (key, value) ∈ account.entries ↔ (key = managerKey ∧ value = account.manager) ∨
      (key = protocolKey ∧ value = account.protocol) ∨
      (∃ name, account.params.get? name = some value ∧ paramKey name = key) ∨
      account.properties.get? key = some value := by
  simp [entries, SortedMap.mem_toList_iff]

theorem keys_entries (account : Account) :
    account.entries.map Prod.fst =
      managerKey :: protocolKey :: (account.params.keys.map paramKey ++ account.properties.keys) := by
  simp [entries, SortedMap.keys, Function.comp_def]

namespace Reflects

/-- The properties are under keys of their own. -/
theorem isPropertyKey (h : account.Reflects a) (hThere : key ∈ account.properties.keys) :
    IsPropertyKey key := by
  obtain ⟨value, hValue⟩ := SortedMap.mem_keys_iff.mp hThere
  by_contra hOther
  rw [h.properties, if_neg hOther] at hValue
  contradiction

/-- No two attributes that an account shows have the same key. -/
theorem nodup_keys (h : account.Reflects a) : (account.entries.map Prod.fst).Nodup := by
  have hParams : (account.params.keys.map paramKey).Nodup :=
    account.params.nodup_keys.map fun _ _ => paramKey_injective
  have hApart : ∀ key ∈ account.params.keys.map paramKey, key ∉ account.properties.keys := by
    intro key hParam hProperty
    obtain ⟨name, _, rfl⟩ := List.mem_map.mp hParam
    have hNone := (h.isPropertyKey hProperty).2.2
    simp at hNone
  have hBoth : (account.params.keys.map paramKey ++ account.properties.keys).Nodup :=
    List.nodup_append'.mpr ⟨hParams, account.properties.nodup_keys, hApart⟩
  rw [keys_entries, List.nodup_cons, List.nodup_cons]
  refine ⟨?_, ?_, hBoth⟩
  · simp only [List.mem_cons, List.mem_append, List.mem_map, not_or]
    refine ⟨by decide, ?_, fun hProperty => (h.isPropertyKey hProperty).1 rfl⟩
    rintro ⟨name, _, hName⟩
    exact paramKey_ne_managerKey name hName
  · simp only [List.mem_append, List.mem_map, not_or]
    refine ⟨?_, fun hProperty => (h.isPropertyKey hProperty).2.1 rfl⟩
    rintro ⟨name, _, hName⟩
    exact paramKey_ne_protocolKey name hName

/-- As long as its owner is known, an account shows just the attributes that it was made of. -/
theorem mem_entries (h : account.Reflects a) {manager protocol : String}
    (hManager : a.get? managerKey = some manager) (hProtocol : a.get? protocolKey = some protocol)
    (key value : String) : (key, value) ∈ account.entries ↔ a.get? key = some value := by
  rw [mem_entries_iff, h.manager, h.protocol, hManager, hProtocol, h.properties]
  simp only [h.params, Option.getD_some]
  by_cases hOwner : key = managerKey
  · subst hOwner
    simp [paramKey_ne_managerKey, IsPropertyKey, hManager, eq_comm (a := value),
      show managerKey ≠ protocolKey by decide]
  by_cases hOwner' : key = protocolKey
  · subst hOwner'
    simp [paramKey_ne_protocolKey, IsPropertyKey, hProtocol, eq_comm (a := value),
      show protocolKey ≠ managerKey by decide]
  cases hName : paramName? key with
  | some name =>
      obtain rfl := paramKey_of_paramName? hName
      have hKeys : ∀ name', paramKey name' = paramKey name ↔ name' = name :=
        fun _ => ⟨paramKey_injective, congrArg paramKey⟩
      simp [hOwner, hOwner', IsPropertyKey, hKeys]
  | none =>
      have hParam : ∀ name, paramKey name ≠ key := by
        rintro name rfl
        simp at hName
      simp [hOwner, hOwner', IsPropertyKey, hParam, hName]

/-- Put together again, the account is what it was made of. -/
theorem ofList_entries (h : account.Reflects a) {manager protocol : String}
    (hManager : a.get? managerKey = some manager) (hProtocol : a.get? protocolKey = some protocol) :
    SortedMap.ofList account.entries = a :=
  SortedMap.ofList_eq_of_mem_iff h.nodup_keys (h.mem_entries hManager hProtocol)

end Reflects

end Account
end Accounts
