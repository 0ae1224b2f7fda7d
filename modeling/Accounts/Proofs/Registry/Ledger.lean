import Mathlib.Data.List.Nodup
import Accounts.Proofs.Account
import Accounts.Proofs.Book
import Accounts.Proofs.Registry.Operation
import Accounts.Proofs.Spelling

/-! The ledger: what a registry is to those who use it, a map from groups to texts by key. It knows
of no backend, nothing in it is pending, and it does not notice when a process ends. It tells texts
only, and `Ledger.Tells` says what a registry has to make of them for those who ask. -/
namespace Accounts

/-- One step in the use of a registry: an operation, or the registry opened anew. At an opening,
secrets that were in the account file may move to a service. -/
inductive Step where
  | call (op : Operation)
  | reopen (ring? : Option Keyring)
  deriving DecidableEq

/-- Whether an operation is about what accounts hold. The backend check is not, and neither is a look
into the backend for a key that is not secret. -/
def Operation.isRecorded (secrets : SecretNames) : Operation → Bool
  | .getSecret _ key => secrets.isSecretKey key
  | .check => false
  | _ => true

/-- Whether a step is an opening or about what accounts hold. -/
def Step.isRecorded (secrets : SecretNames) : Step → Bool
  | .call op => op.isRecorded secrets
  | .reopen _ => true

/-- Every secret has a key that can stand in an account file. -/
def SecretNames.Storable (secrets : SecretNames) : Prop :=
  ∀ key ∈ secrets.keys, KeyFile.isKey key = true

instance (secrets : SecretNames) : Decidable secrets.Storable :=
  inferInstanceAs (Decidable (∀ _ ∈ _, _))

theorem SecretNames.Storable.isKey {secrets : SecretNames} {key : String} (h : secrets.Storable)
    (hSecret : secrets.isSecretKey key = true) : KeyFile.isKey key = true :=
  h key (secrets.mem_keys_iff.mpr hSecret)

theorem SecretNames.Storable.isSecretKey_eq_false {secrets : SecretNames} {key : String}
    (h : secrets.Storable) (hKey : KeyFile.isKey key = false) : secrets.isSecretKey key = false := by
  cases hSecret : secrets.isSecretKey key with
  | false => rfl
  | true =>
      rw [h.isKey hSecret] at hKey
      contradiction

namespace Ledger

/-- The attributes of all parameters, secret or not. -/
def paramAttributes (params : SortedMap String Value) : Attributes :=
  .ofList (params.toList.map fun e => (paramKey e.1, e.2.encode))

/-- All that a new account is recorded with. -/
def accountAttributes (manager protocol : String) (params : SortedMap String Value) : Attributes :=
  ((paramAttributes params).insert managerKey manager).insert protocolKey protocol

/-- The text that the group of a new account is named after. -/
def identity (secrets : SecretNames) (params : SortedMap String Value) : String :=
  (((params.get? Registry.identityParam).filter fun _ =>
    !secrets.isSecret Registry.identityParam).map Value.encode).getD Registry.identityParam

/-- Whether the attributes are those of an account with this manager, this protocol and exactly
these parameters, secret ones aside. -/
def isTwin (secrets : SecretNames) (manager protocol : String) (params : SortedMap String Value)
    (a : Attributes) : Bool :=
  a.get? managerKey == some manager && a.get? protocolKey == some protocol &&
    decide (SortedMap.filter (a.withoutSecrets secrets) (fun key _ => (paramName? key).isSome) =
      (paramAttributes params).withoutSecrets secrets)

/-- What a ledger tells when an operation does not fail. -/
inductive Answer where
  | done
  | group (g : GroupName)
  | groups (gs : List GroupName)
  | text (text : String)
  /-- A text that is asked for as a value of a kind. -/
  | typed (kind : Value.Kind) (text : String)
  /-- All that is recorded of a group. -/
  | attributes (g : GroupName) (a : Attributes)
  /-- All that is recorded. -/
  | book (m : Book)
  deriving DecidableEq

section
variable (secrets : SecretNames) (m : Book)

/-- The text that is recorded of a group under a key. -/
def text? (g : GroupName) (key : String) : Option String := (m.get? g).bind fun a => a.get? key

/-- The first group with an equivalent account. -/
def twin? (manager protocol : String) (params : SortedMap String Value) : Option GroupName :=
  m.keys.find? fun g => isTwin secrets manager protocol params ((m.get? g).getD ∅)

/-- The group with the first serial number whose name is not taken. -/
def newGroup (manager protocol identity : String) : Except Error GroupName :=
  let names := (List.range (min (m.size + 1) Registry.serials)).map
    (GroupName.allocate manager protocol identity)
  (names.find? fun name => !name.toOption.any m.contains).getD
    (.error (.storage ("no free account name for " ++ identity)))

/-- Record a new account with everything it comes with. -/
def create (manager protocol : String) (params : SortedMap String Value) :
    Except Error (GroupName × Book) :=
  match twin? secrets m manager protocol params with
  | some existing => .error (.duplicateAccount existing.sectionName)
  | none => match newGroup m manager protocol (identity secrets params) with
    | .error e => .error e
    | .ok g =>
      let a := accountAttributes manager protocol params
      match a.toList.find? fun e => !KeyFile.isKey e.1 with
      | some e => .error (.invalidValue "attribute key" e.1)
      | none => .ok (g, m.insert g a)

/-- Put one text in place of another. -/
def write (g : GroupName) (key text : String) : Except Error Book :=
  match m.get? g with
  | none => .error (.unknownGroup g.sectionName)
  | some a =>
    if key = managerKey ∨ key = protocolKey ∨ key = pendingKey then
      .error (.invalidValue "writable attribute key" key)
    else if !KeyFile.isKey key then .error (.invalidValue "attribute key" key)
    else .ok (m.insert g (a.insert key text))

def read (g : GroupName) (key : String) : Except Error String :=
  if !m.contains g then .error (.unknownGroup g.sectionName)
  else match text? m g key with
    | some text => .ok text
    | none => .error (.notFound g.sectionName key)

/-- Strike out a group with everything under it. -/
def remove (g : GroupName) : Except Error Book :=
  if m.contains g then .ok (m.erase g) else .error (.unknownGroup g.sectionName)

def account (g : GroupName) : Except Error Attributes :=
  match m.get? g with
  | some a => .ok a
  | none => .error (.unknownGroup g.sectionName)

/-- What an operation is told and the ledger after it. One that fails changes nothing. -/
def apply : Operation → Except Error (Answer × Book)
  | .create manager protocol params =>
    (create secrets m manager protocol params).map fun (g, m') => (.group g, m')
  | .setProperty g key value => (write m g key value.encode).map fun m' => (.done, m')
  | .setEnabled g enabled =>
    (write m g enabledKey (Value.bool enabled).encode).map fun m' => (.done, m')
  | .read g key => (read m g key).map fun text => (.text text, m)
  | .getParam g name kind => (read m g (paramKey name)).map fun text => (.typed kind text, m)
  | .getSecret g key => (read m g key).map fun text => (.text text, m)
  | .remove g => (remove m g).map fun m' => (.done, m')
  | .list => .ok (.groups m.keys, m)
  | .account g => (account m g).map fun a => (.attributes g a, m)
  | .dump => .ok (.book m, m)
  | .check => .ok (.done, m)

end

/-- What a ledger tells at steps in turn. Opening anew always works and does nothing. -/
def answers (secrets : SecretNames) : Book → List Step → List (Except Error Answer)
  | _, [] => []
  | m, .call op :: rest =>
    match apply secrets m op with
    | .ok (answer, m') => .ok answer :: answers secrets m' rest
    | .error e => .error e :: answers secrets m rest
  | m, .reopen _ :: rest => .ok .done :: answers secrets m rest

/-! ## What is made of it -/

/-- The account shows all that is recorded, each text in its place, but for secrets. -/
structure Presents (secrets : SecretNames) (account : Account) (a : Attributes) : Prop where
  manager : a.get? managerKey = some account.manager
  protocol : a.get? protocolKey = some account.protocol
  params : ∀ name text, account.params.get? name = some text ↔
    a.get? (paramKey name) = some text ∧ secrets.isSecret name = false
  properties : ∀ key text, account.properties.get? key = some text ↔
    a.get? key = some text ∧ IsPropertyKey key

/-- The book that is shown has the groups that are recorded, with all their texts but secrets. -/
structure Publishes (secrets : SecretNames) (shown m : Book) : Prop where
  keys : shown.keys = m.keys
  texts : ∀ g key text, text? shown g key = some text ↔
    text? m g key = some text ∧ secrets.isSecretKey key = false

/-- What a registry has to answer where the ledger tells this. A text that spells a value of the
kind asked for is answered with that value, and any other text is refused. -/
inductive Tells (secrets : SecretNames) : Except Error Answer → Except Error Reply → Prop
  | error (e : Error) : Tells secrets (.error e) (.error e)
  | done : Tells secrets (.ok .done) (.ok .done)
  | group (g : GroupName) : Tells secrets (.ok (.group g)) (.ok (.group g))
  | groups (gs : List GroupName) : Tells secrets (.ok (.groups gs)) (.ok (.groups gs))
  | text (text : String) : Tells secrets (.ok (.text text)) (.ok (.text text))
  | value {kind : Value.Kind} {text : String} {v : Value} (hKind : v.kind = kind)
      (hText : v.Spells text) : Tells secrets (.ok (.typed kind text)) (.ok (.value v))
  | mistyped {kind : Value.Kind} {text : String}
      (hNone : ∀ v : Value, v.kind = kind → ¬v.Spells text) :
      Tells secrets (.ok (.typed kind text)) (.error (.invalidValue kind.name text))
  | account {g : GroupName} {a : Attributes} {account : Account} (hGroup : account.group = g)
      (hShown : Presents secrets account a) :
      Tells secrets (.ok (.attributes g a)) (.ok (.account account))
  | book {m shown : Book} (hShown : Publishes secrets shown m) :
      Tells secrets (.ok (.book m)) (.ok (.book shown))

section
variable {secrets : SecretNames} {a : Attributes} {m : Book}

theorem Presents.unique {account account' : Account} (h : Presents secrets account a)
    (h' : Presents secrets account' a) (hGroup : account.group = account'.group) :
    account = account' := by
  obtain ⟨g, manager, protocol, params, properties⟩ := account
  obtain ⟨g', manager', protocol', params', properties'⟩ := account'
  obtain rfl : g = g' := hGroup
  obtain rfl : manager = manager' := Option.some.inj (h.manager.symm.trans h'.manager)
  obtain rfl : protocol = protocol' := Option.some.inj (h.protocol.symm.trans h'.protocol)
  obtain rfl : params = params' := SortedMap.ext_get? fun name => Option.ext fun text =>
    (h.params name text).trans (h'.params name text).symm
  obtain rfl : properties = properties' := SortedMap.ext_get? fun key => Option.ext fun text =>
    (h.properties key text).trans (h'.properties key text).symm
  rfl

theorem Publishes.unique {shown shown' : Book} (h : Publishes secrets shown m)
    (h' : Publishes secrets shown' m) : shown = shown' := by
  have hTexts : ∀ g key, text? shown g key = text? shown' g key := fun g key =>
    Option.ext fun text => (h.texts g key text).trans (h'.texts g key text).symm
  have hKeys : ∀ g, g ∈ shown.keys ↔ g ∈ shown'.keys := fun g => by rw [h.keys, h'.keys]
  apply SortedMap.ext_get?
  intro g
  have hThere := hKeys g
  have hSame := hTexts g
  unfold text? at hSame
  rw [SortedMap.mem_keys_iff, SortedMap.mem_keys_iff] at hThere
  cases hShown : shown.get? g with
  | none =>
      cases hShown' : shown'.get? g with
      | none => rfl
      | some b => simp [hShown, hShown'] at hThere
  | some a =>
      cases hShown' : shown'.get? g with
      | none => simp [hShown, hShown'] at hThere
      | some b =>
          rw [hShown, hShown'] at hSame
          exact congrArg some (SortedMap.ext_get? hSame)

/-- What the ledger tells leaves no choice of the answer. -/
theorem Tells.unique {told : Except Error Answer} {reply reply' : Except Error Reply}
    (h : Tells secrets told reply) (h' : Tells secrets told reply') : reply = reply' := by
  cases h with
  | error e => cases h'; rfl
  | done => cases h'; rfl
  | group g => cases h'; rfl
  | groups gs => cases h'; rfl
  | text text => cases h'; rfl
  | value hKind hText =>
      cases h' with
      | value hKind' hText' => rw [hText.unique (hKind.trans hKind'.symm) hText']
      | mistyped hNone => exact absurd hText (hNone _ hKind)
  | mistyped hNone =>
      cases h' with
      | value hKind' hText' => exact absurd hText' (hNone _ hKind')
      | mistyped _ => rfl
  | account hGroup hShown =>
      cases h' with
      | account hGroup' hShown' => rw [hShown.unique hShown' (hGroup.trans hGroup'.symm)]
  | book hShown =>
      cases h' with
      | book hShown' => rw [hShown.unique hShown']

end

/-! ## The attributes of parameters -/

theorem nodup_paramKeys (params : SortedMap String Value) :
    ((params.toList.map fun e => (paramKey e.1, e.2.encode)).map Prod.fst).Nodup := by
  have hKeys := List.Nodup.map (fun _ _ => paramKey_injective) params.nodup_keys
  simpa [SortedMap.keys, Function.comp_def] using hKeys

theorem lookup_params (params : SortedMap String Value) (key : String) :
    SortedMap.lookup key (params.toList.map fun e => (paramKey e.1, e.2.encode)) =
      (paramName? key).bind fun name => (params.get? name).map Value.encode := by
  unfold SortedMap.get?
  generalize params.toList = entries
  induction entries with
  | nil => cases paramName? key <;> rfl
  | cons e entries ih =>
      rw [List.map_cons, SortedMap.lookup, ih]
      cases hName : paramName? key with
      | none =>
          have hNe : key ≠ paramKey e.1 := by
            rintro rfl
            simp at hName
          simp [hNe]
      | some name =>
          obtain rfl := paramKey_of_paramName? hName
          by_cases hEq : name = e.1
          · simp [hEq, SortedMap.lookup]
          · have hNe : paramKey name ≠ paramKey e.1 := fun h => hEq (paramKey_injective h)
            simp [hEq, hNe, SortedMap.lookup]

theorem get?_paramAttributes (params : SortedMap String Value) (key : String) :
    (paramAttributes params).get? key =
      (paramName? key).bind fun name => (params.get? name).map Value.encode := by
  rw [paramAttributes, SortedMap.ofList, SortedMap.get?_insertMany _ (nodup_paramKeys params),
    lookup_params]
  exact Option.or_none

theorem get?_accountAttributes_pendingKey (manager protocol : String)
    (params : SortedMap String Value) :
    (accountAttributes manager protocol params).get? pendingKey = none := by
  have hName : paramName? pendingKey = none := by decide
  rw [accountAttributes, SortedMap.get?_insert, if_neg (by decide), SortedMap.get?_insert,
    if_neg (by decide), get?_paramAttributes, hName]
  rfl

/-! ## What a registry makes of the parameters -/

section
variable (r : Registry) (params : SortedMap String Value)

theorem identity_eq : r.identity params = identity r.secrets params := by
  unfold Registry.identity identity
  cases r.secrets.isSecret Registry.identityParam with
  | true => cases params.get? Registry.identityParam <;> rfl
  | false => cases params.get? Registry.identityParam <;> rfl

theorem plainParams_eq :
    r.plainParams params = (paramAttributes params).withoutSecrets r.secrets := by
  apply SortedMap.ext_get?
  intro key
  change (paramAttributes (params.filter fun name _ => !r.secrets.isSecret name)).get? key = _
  rw [Attributes.get?_withoutSecrets, get?_paramAttributes, get?_paramAttributes,
    SecretNames.isSecretKey]
  cases paramName? key with
  | none => rfl
  | some name =>
      rw [Option.bind_some, Option.bind_some, Option.any_some, SortedMap.get?_filter]
      cases r.secrets.isSecret name <;> cases params.get? name <;> rfl

theorem get?_insertMany_secretParams (a : Attributes) (key : String) :
    (a.insertMany (r.secretParams params)).get? key =
      (if r.secrets.isSecretKey key then (paramAttributes params).get? key else none).or
        (a.get? key) := by
  rw [Registry.secretParams, SortedMap.get?_insertMany _ (nodup_paramKeys _), lookup_params,
    get?_paramAttributes, SecretNames.isSecretKey]
  cases paramName? key with
  | none => rfl
  | some name =>
      rw [Option.bind_some, Option.bind_some, Option.any_some, SortedMap.get?_filter]
      cases r.secrets.isSecret name <;> cases params.get? name <;> rfl

/-- What is written in two places, and then unmarked, is what the account is recorded with. -/
theorem accountAttributes_eq (manager protocol : String) :
    ((r.initialAttributes manager protocol params).insertMany (r.secretParams params)).erase
      pendingKey = accountAttributes manager protocol params := by
  apply SortedMap.ext_get?
  intro key
  rw [SortedMap.get?_erase, get?_insertMany_secretParams]
  by_cases hMark : pendingKey = key
  · subst hMark
    rw [if_pos rfl, get?_accountAttributes_pendingKey]
  · rw [if_neg hMark, Registry.initialAttributes, accountAttributes, plainParams_eq]
    simp only [SortedMap.get?_insert, if_neg hMark, Attributes.get?_withoutSecrets]
    by_cases hProtocol : protocolKey = key
    · subst hProtocol
      simp
    · by_cases hManager : managerKey = key
      · subst hManager
        simp [hProtocol]
      · cases r.secrets.isSecretKey key <;> simp [hProtocol, hManager]

theorem get?_of_not_secret (manager protocol : String) {key : String}
    (h : r.secrets.isSecretKey key = false) :
    ((r.initialAttributes manager protocol params).insertMany (r.secretParams params)).get? key =
      (r.initialAttributes manager protocol params).get? key := by
  rw [get?_insertMany_secretParams, h]
  rfl

/-- A key that cannot be written is found in the one place or in the other. -/
theorem find?_initialAttributes (hSecrets : r.secrets.Storable) (manager protocol : String) :
    (r.initialAttributes manager protocol params).toList.find? (fun e => !KeyFile.isKey e.1) =
      (accountAttributes manager protocol params).toList.find? fun e => !KeyFile.isKey e.1 := by
  have hFilter : SortedMap.filter (r.initialAttributes manager protocol params)
      (fun key _ => !KeyFile.isKey key) =
        SortedMap.filter (accountAttributes manager protocol params)
          fun key _ => !KeyFile.isKey key := by
    apply SortedMap.ext_get?
    intro key
    rw [SortedMap.get?_filter, SortedMap.get?_filter]
    cases hKey : KeyFile.isKey key with
    | true => simp
    | false =>
        have hMark : pendingKey ≠ key := by
          rintro rfl
          rw [Registry.isKey_pendingKey] at hKey
          contradiction
        rw [← accountAttributes_eq r, SortedMap.get?_erase, if_neg hMark,
          get?_of_not_secret r params manager protocol (hSecrets.isSecretKey_eq_false hKey)]
  rw [← List.head?_filter, ← List.head?_filter]
  exact congrArg (fun a => a.toList.head?) hFilter

end

/-! ## Ledgers that hold accounts only -/

/-- The keys that tell to whom an account belongs. -/
def ownerKeys : List String := [managerKey, protocolKey]

/-- No group is marked, and of every group it is known to whom it belongs. -/
structure Proper (m : Book) : Prop where
  unmarked : ∀ g, m.value? g pendingKey = none
  owned : ∀ g, m.contains g = true → ∀ key ∈ ownerKeys, ∃ owner, m.value? g key = some owner

theorem proper_empty : Proper ∅ :=
  ⟨fun _ => rfl, fun _ h => absurd h Bool.false_ne_true⟩

variable {m m' : Book} {g : GroupName}

theorem of_write_eq_ok {key text : String} (h : write m g key text = .ok m') :
    m.contains g = true ∧ key ∉ ownerKeys ∧ key ≠ pendingKey ∧ m' = m.write g [(key, text)] := by
  unfold write at h
  cases hGroup : m.get? g with
  | none =>
      rw [hGroup] at h
      contradiction
  | some a =>
      simp only [hGroup] at h
      split_ifs at h with hReserved hKey
      rw [not_or, not_or] at hReserved
      refine ⟨by simp [SortedMap.contains, hGroup], ?_, hReserved.2.2, ?_⟩
      · simp [ownerKeys, hReserved]
      · rw [← Except.ok.inj h, Book.write, Book.attributes, hGroup]
        rfl

theorem exists_owner (manager protocol : String) (params : SortedMap String Value) {key : String}
    (hKey : key ∈ ownerKeys) :
    ∃ owner, (accountAttributes manager protocol params).get? key = some owner := by
  simp only [ownerKeys, List.mem_cons, List.not_mem_nil, or_false] at hKey
  rcases hKey with rfl | rfl
  · exact ⟨manager, by simp [accountAttributes, managerKey, protocolKey]⟩
  · exact ⟨protocol, by simp [accountAttributes]⟩

theorem Proper.insert (h : Proper m) (manager protocol : String)
    (params : SortedMap String Value) :
    Proper (m.insert g (accountAttributes manager protocol params)) := by
  constructor
  · intro g'
    rw [Book.value?, SortedMap.get?_insert]
    split_ifs
    · exact get?_accountAttributes_pendingKey manager protocol params
    · exact h.unmarked g'
  · intro g' hThere key hKey
    rw [SortedMap.contains, SortedMap.get?_insert] at hThere
    rw [Book.value?, SortedMap.get?_insert]
    split_ifs at hThere ⊢
    · exact exists_owner manager protocol params hKey
    · exact h.owned g' hThere key hKey

theorem Proper.write (h : Proper m) {key text : String} (hThere : m.contains g = true)
    (hOwner : key ∉ ownerKeys) (hMark : key ≠ pendingKey) :
    Proper (m.write g [(key, text)]) := by
  constructor
  · intro g'
    rw [Book.value?_write]
    split_ifs with hEq
    · simp [hMark, h.unmarked]
    · exact h.unmarked g'
  · intro g' hThere' key' hKey
    have hNe : key ≠ key' := fun hEq => hOwner (hEq ▸ hKey)
    rw [Book.contains_write] at hThere'
    rw [Book.value?_write]
    split_ifs at hThere' ⊢ with hEq
    · simpa [hNe] using h.owned g hThere key' hKey
    · exact h.owned g' hThere' key' hKey

theorem Proper.erase (h : Proper m) (g : GroupName) : Proper (m.erase g) := by
  constructor
  · intro g'
    rw [Book.value?_erase]
    split_ifs
    · rfl
    · exact h.unmarked g'
  · intro g' hThere key hKey
    rw [SortedMap.contains, SortedMap.get?_erase] at hThere
    rw [Book.value?_erase]
    split_ifs at hThere ⊢
    · contradiction
    · exact h.owned g' hThere key hKey

/-! ## Names -/

theorem allocateAmong_eq (m : Book) (manager protocol identity : String) (serials : List Nat) :
    Registry.allocateAmong m manager protocol identity serials =
      ((serials.map (GroupName.allocate manager protocol identity)).find? fun name =>
        !name.toOption.any m.contains).getD
          (.error (.storage ("no free account name for " ++ identity))) := by
  induction serials with
  | nil => rfl
  | cons serial rest ih =>
      rw [Registry.allocateAmong, List.map_cons, ih]
      cases hName : GroupName.allocate manager protocol identity serial with
      | error e => rfl
      | ok g =>
          cases hTaken : m.contains g with
          | true => simp [Except.toOption, hTaken]
          | false => simp [Except.toOption, hTaken]

theorem newGroup_eq (m : Book) (manager protocol identity : String) :
    newGroup m manager protocol identity = Registry.allocate m manager protocol identity :=
  (allocateAmong_eq m manager protocol identity _).symm

end Ledger
end Accounts
