import Accounts.Proofs.KeyFile.Line
import Accounts.Registry.Open

/-! The parts of a registry that have no effects: the keys that it uses, the attributes that a new
group begins with, and the name of the group. -/
namespace Accounts

@[simp] theorem paramName?_paramKey (name : String) : paramName? (paramKey name) = some name := by
  simp [paramName?, paramKey, paramPrefix]

theorem paramKey_injective {name name' : String} (h : paramKey name = paramKey name') :
    name = name' := by
  have hName := congrArg paramName? h
  simpa using hName

theorem paramKey_of_paramName? {key name : String} (h : paramName? key = some name) :
    key = paramKey name := by
  unfold paramName? at h
  split at h
  case h_1 rest hChars =>
      obtain rfl := Option.some.inj h
      rw [← String.toList_inj, hChars]
      simp [paramKey, paramPrefix]
  case h_2 => contradiction

namespace SecretNames

variable (secrets : SecretNames)

@[simp] theorem isSecretKey_paramKey (name : String) :
    secrets.isSecretKey (paramKey name) = secrets.isSecret name := by
  simp [isSecretKey]

theorem mem_keys_iff {key : String} : key ∈ secrets.keys ↔ secrets.isSecretKey key = true := by
  simp only [keys, List.mem_map, SortedMap.mem_keys_iff]
  constructor
  · rintro ⟨name, ⟨_, hName⟩, rfl⟩
    simp [isSecret, SortedMap.contains, hName]
  · intro h
    obtain ⟨name, hName, hSecret⟩ := (Option.any_eq_true _ _).mp h
    obtain ⟨u, hu⟩ := Option.isSome_iff_exists.mp hSecret
    exact ⟨name, ⟨u, hu⟩, (paramKey_of_paramName? hName).symm⟩

@[simp] theorem isSecretKey_managerKey : secrets.isSecretKey managerKey = false := by
  simp [isSecretKey, paramName?, managerKey]

@[simp] theorem isSecretKey_protocolKey : secrets.isSecretKey protocolKey = false := by
  simp [isSecretKey, paramName?, protocolKey]

@[simp] theorem isSecretKey_pendingKey : secrets.isSecretKey pendingKey = false := by
  simp [isSecretKey, paramName?, pendingKey]

end SecretNames

theorem Attributes.get?_withoutSecrets (a : Attributes) (secrets : SecretNames) (key : String) :
    (a.withoutSecrets secrets).get? key =
      if secrets.isSecretKey key then none else a.get? key := by
  rw [withoutSecrets, SortedMap.get?_filter]
  cases secrets.isSecretKey key <;> cases a.get? key <;> simp [Option.filter]

namespace Registry

/-- The keys that the registry writes to the account file. -/
def Writes (r : Registry) (key : String) : Prop :=
  KeyFile.isKey key = true ∧ (r.backend.isInline = true ∨ r.secrets.isSecretKey key = false)

/-- The keys that may stand in the account file of the registry. -/
def Allows (r : Registry) (key : String) : Prop :=
  KeyFile.IsWritable key ∧ (r.backend.isInline = true ∨ r.secrets.isSecretKey key = false)

theorem allows_of_writes {r : Registry} {key : String} (h : r.Writes key) : r.Allows key :=
  ⟨KeyFile.isWritable_of_isKey h.1, h.2⟩

/-- The keys whose values the registry keeps in a service. -/
def serviceKeys (r : Registry) : List String :=
  if r.backend.isInline then [] else r.secrets.keys

theorem finishRemoval_eq (r : Registry) (g : GroupName) :
    r.finishRemoval g =
      tryCatch (do
        r.serviceKeys.forM fun key => r.backend.delete g key
        let _ ← Store.deleteGroup g)
        fun e => throw (.partialRemoval g.sectionName e.message) := by
  unfold finishRemoval serviceKeys
  cases r.backend.isInline with
  | true => simp
  | false => rfl

theorem migrate_eq {r : Registry} (h : r.backend.isInline = false) :
    r.migrate = Store.book >>= fun b =>
      (r.inlineSecrets b).forM fun e => r.moveSecret e.1 e.2.1 e.2.2 := by
  unfold migrate
  rw [h]
  rfl

theorem migrate_inline {r : Registry} (h : r.backend.isInline = true) : r.migrate = pure () := by
  unfold migrate
  rw [h]
  rfl

theorem isKey_pendingKey : KeyFile.isKey pendingKey = true := by decide

theorem writes_pendingKey (r : Registry) : r.Writes pendingKey :=
  ⟨isKey_pendingKey, Or.inr (r.secrets.isSecretKey_pendingKey)⟩

theorem isSecretKey_of_mem_plainParams {r : Registry} {params : SortedMap String Value}
    {key : String} (h : key ∈ (r.plainParams params).keys) : r.secrets.isSecretKey key = false := by
  rw [plainParams, SortedMap.ofList, SortedMap.mem_keys_insertMany] at h
  rcases h with h | h
  · simp only [List.map_map, List.mem_map, SortedMap.filter, List.mem_filter] at h
    obtain ⟨e, ⟨_, hPlain⟩, rfl⟩ := h
    simpa using hPlain
  · exact absurd h (by simp [SortedMap.keys, SortedMap.empty])

theorem isSecretKey_of_mem_secretParams {r : Registry} {params : SortedMap String Value}
    {e : String × String} (h : e ∈ r.secretParams params) : r.secrets.isSecretKey e.1 = true := by
  simp only [secretParams, SortedMap.filter, List.mem_map, List.mem_filter] at h
  obtain ⟨param, ⟨_, hSecret⟩, rfl⟩ := h
  simpa using hSecret

theorem isSecretKey_of_mem_inlineSecrets {r : Registry} {book : Book}
    {e : GroupName × String × String} (h : e ∈ r.inlineSecrets book) :
    r.secrets.isSecretKey e.2.1 = true := by
  simp only [inlineSecrets, List.mem_flatMap, List.mem_map, List.mem_filter] at h
  obtain ⟨_, _, _, ⟨_, hSecret⟩, rfl⟩ := h
  exact hSecret

/-- The attributes that a new group is written with, its mark among them. -/
def initialAttributes (r : Registry) (manager protocol : String)
    (params : SortedMap String Value) : Attributes :=
  (((r.plainParams params).insert managerKey manager).insert protocolKey protocol).insert
    pendingKey "true"

/-- What is left of a creation once the name of the group is known. -/
def establish (r : Registry) (g : GroupName) (a : Attributes) (secrets : List (String × String)) :
    Action GroupName := do
  Store.setMany g a.toList
  tryCatch (r.publish g secrets) fun e => do
    r.abandon g
    throw e
  Action.emit (.created g)
  return g

theorem create_eq (r : Registry) (manager protocol : String) (params : SortedMap String Value) :
    r.create manager protocol params = Store.book >>= fun b =>
      match r.equivalent? b manager protocol (r.plainParams params) with
      | some existing => throw (.duplicateAccount existing.sectionName)
      | none => Store.book >>= fun b =>
        Action.ofExcept (allocate b manager protocol (r.identity params)) >>= fun g =>
          r.establish g (r.initialAttributes manager protocol params) (r.secretParams params) :=
  rfl

theorem get?_initialAttributes_pendingKey (r : Registry) (manager protocol : String)
    (params : SortedMap String Value) :
    (r.initialAttributes manager protocol params).get? pendingKey = some "true" := by
  simp [initialAttributes]

theorem get?_initialAttributes_managerKey (r : Registry) (manager protocol : String)
    (params : SortedMap String Value) :
    (r.initialAttributes manager protocol params).get? managerKey = some manager := by
  simp [initialAttributes, managerKey, protocolKey, pendingKey]

theorem get?_initialAttributes_protocolKey (r : Registry) (manager protocol : String)
    (params : SortedMap String Value) :
    (r.initialAttributes manager protocol params).get? protocolKey = some protocol := by
  simp [initialAttributes, protocolKey, pendingKey]

/-- No secret is written with a new group. -/
theorem isSecretKey_of_mem_initialAttributes {r : Registry} {params : SortedMap String Value}
    {manager protocol key : String} (h : key ∈ (r.initialAttributes manager protocol params).keys) :
    r.secrets.isSecretKey key = false := by
  simp only [initialAttributes, SortedMap.mem_keys_insert] at h
  rcases h with rfl | rfl | rfl | h
  · simp
  · simp
  · simp
  · exact isSecretKey_of_mem_plainParams h

/-- The group of a new account has a serial number, and it was not there before. -/
theorem exists_serial_of_allocateAmong {book : Book} {manager protocol identity : String}
    {serials : List Nat} {g : GroupName}
    (h : allocateAmong book manager protocol identity serials = .ok g) :
    (∃ serial, GroupName.allocate manager protocol identity serial = .ok g) ∧
      book.get? g = none := by
  induction serials with
  | nil => contradiction
  | cons serial rest ih =>
      rw [allocateAmong] at h
      cases hName : GroupName.allocate manager protocol identity serial with
      | error e =>
          rw [hName] at h
          contradiction
      | ok name =>
          simp only [hName] at h
          cases hTaken : book.contains name with
          | true =>
              rw [hTaken] at h
              exact ih h
          | false =>
              rw [hTaken] at h
              obtain rfl := Except.ok.inj h
              exact ⟨⟨serial, hName⟩, by simpa [SortedMap.contains] using hTaken⟩

theorem get?_eq_none_of_allocate {book : Book} {manager protocol identity : String} {g : GroupName}
    (h : allocate book manager protocol identity = .ok g) : book.get? g = none :=
  (exists_serial_of_allocateAmong h).2

theorem allocateAmong_eq {book book' : Book} (h : ∀ g, book.contains g = book'.contains g)
    (manager protocol identity : String) (serials : List Nat) :
    allocateAmong book manager protocol identity serials =
      allocateAmong book' manager protocol identity serials := by
  induction serials with
  | nil => rfl
  | cons serial rest ih =>
      rw [allocateAmong, allocateAmong, ih]
      cases GroupName.allocate manager protocol identity serial with
      | error e => rfl
      | ok g =>
          dsimp only
          rw [h g]

/-- Which name is free depends only on which groups there are. -/
theorem allocate_eq {book book' : Book} (h : ∀ g, book.contains g = book'.contains g)
    (manager protocol identity : String) :
    allocate book manager protocol identity = allocate book' manager protocol identity := by
  have hSize : book.size = book'.size := by
    have hKeys := congrArg List.length (SortedMap.keys_eq_of_contains_eq h)
    rwa [SortedMap.length_keys, SortedMap.length_keys] at hKeys
  rw [allocate, allocate, hSize, allocateAmong_eq h]

end Registry
end Accounts
