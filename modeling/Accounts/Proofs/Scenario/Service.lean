import Accounts.Proofs.Process
import Accounts.Proofs.Registry.Entries
import Accounts.Scenario.Service

/-! The secrets of one collection are apart. The key of an entry tells which group and which attribute
it was made for, so what is asked about one secret has nothing to do with any other, and the last
change of a secret decides what is read of it. -/
namespace Accounts

/-- Two attributes have entries with one key only if they are the same attribute of the same group. -/
theorem Keyring.entry_key_eq_iff {ring ring' : Keyring} {g h : GroupName} {key key' : String} :
    (ring.entry g key).key = (ring'.entry h key').key ↔ g = h ∧ key = key' := by
  constructor
  · exact GroupName.sectionName_append_inj
  · rintro ⟨rfl, rfl⟩
    rfl

theorem Keyring.entry_eq_iff {ring : Keyring} {g h : GroupName} {key key' : String} :
    ring.entry g key = ring.entry h key' ↔ g = h ∧ key = key' := by
  constructor
  · exact entry_inj
  · rintro ⟨rfl, rfl⟩
    rfl

namespace Vault

theorem read_put (v : Vault) (e e' : Entry) (value : String) :
    (v.put e value).read e' = if e = e' then .ok value else v.read e' := by
  rw [read, put, SortedMap.get?_insert]
  split_ifs
  · rfl
  · rfl

theorem read_erase (v : Vault) (e e' : Entry) :
    read (SortedMap.erase v e) e' = if e = e' then .error .noEntry else v.read e' := by
  rw [read, SortedMap.get?_erase]
  split_ifs
  · rfl
  · rfl

end Vault

namespace Scenario

/-- What a keyring may ask of its service for one secret: to keep a value, or to keep none. -/
structure SecretChange where
  group : GroupName
  key : String
  value : Option String

namespace SecretChange

/-- The change as a call to the service. -/
def request (ring : Keyring) (c : SecretChange) : Request :=
  match c.value with
  | some value => .put (ring.entry c.group c.key) value
  | none => .delete (ring.entry c.group c.key)

/-- What is read of the secret once it was changed. -/
def outcome (c : SecretChange) : Except ServiceError String :=
  c.value.elim (.error .noEntry) .ok

/-- Whether the change is about this secret. -/
def isAbout (g : GroupName) (key : String) (c : SecretChange) : Bool :=
  c.group = g ∧ c.key = key

end SecretChange

namespace MemoryService

variable {g : GroupName} {key : String}

/-- The service after a change that was asked of it. -/
def change (ring : Keyring) (m : MemoryService) (c : SecretChange) : MemoryService :=
  (m.serve (c.request ring)).2

/-- What the service answers when it is asked for a secret. -/
def answer (ring : Keyring) (m : MemoryService) (g : GroupName) (key : String) :
    Except ServiceError String :=
  (m.serve (.get (ring.entry g key))).1

theorem change_of_offline {m : MemoryService} (h : m.offline = true) (ring : Keyring)
    (c : SecretChange) : m.change ring c = m := by
  rw [change, serve, if_pos h]

theorem offline_change (ring : Keyring) (m : MemoryService) (c : SecretChange) :
    (m.change ring c).offline = m.offline := by
  rw [change, serve]
  split_ifs
  · rfl
  · rfl

theorem offline_foldl_change (ring : Keyring) (m : MemoryService) (changes : List SecretChange) :
    (changes.foldl (change ring) m).offline = m.offline := by
  induction changes generalizing m with
  | nil => rfl
  | cons c changes ih => exact (ih (m.change ring c)).trans (offline_change ring m c)

theorem answer_of_online {m : MemoryService} (h : m.offline = false) (ring : Keyring)
    (g : GroupName) (key : String) : m.answer ring g key = m.vault.read (ring.entry g key) := by
  rw [answer, serve, if_neg (by simp [h])]
  rfl

theorem read_vault_change {m : MemoryService} (h : m.offline = false) (ring : Keyring)
    (c : SecretChange) (e : Entry) :
    (m.change ring c).vault.read e =
      if ring.entry c.group c.key = e then c.outcome else m.vault.read e := by
  obtain ⟨g, key, value⟩ := c
  rw [change, serve, if_neg (by simp [h])]
  cases value with
  | some value => exact Vault.read_put m.vault _ e value
  | none =>
      dsimp only [SecretChange.request]
      rw [Vault.serve_delete]
      exact Vault.read_erase m.vault _ e

/-- A change shows in the secret that it is about, and in no other. -/
theorem answer_change (ring : Keyring) (m : MemoryService) (c : SecretChange) (g : GroupName)
    (key : String) :
    (m.change ring c).answer ring g key =
      if m.offline = false ∧ c.group = g ∧ c.key = key then c.outcome
      else m.answer ring g key := by
  cases hOffline : m.offline with
  | true =>
      rw [change_of_offline hOffline]
      simp
  | false =>
      rw [answer_of_online ((offline_change ring m c).trans hOffline), answer_of_online hOffline,
        read_vault_change hOffline]
      simp [Keyring.entry_eq_iff]

/-- The last change that is about a secret decides what is read of it. -/
theorem answer_foldl_change (ring : Keyring) (m : MemoryService) (changes : List SecretChange)
    (g : GroupName) (key : String) :
    (changes.foldl (change ring) m).answer ring g key =
      if m.offline then m.answer ring g key
      else (changes.filter (·.isAbout g key)).getLast?.elim (m.answer ring g key)
        SecretChange.outcome := by
  induction changes using List.reverseRecOn with
  | nil => simp
  | append_singleton changes c ih =>
      have hOffline : (changes.foldl (change ring) m).offline = m.offline :=
        offline_foldl_change ring m changes
      rw [List.foldl_append, List.foldl_cons, List.foldl_nil, answer_change, hOffline, ih,
        List.filter_append]
      cases hSwitch : m.offline with
      | true => simp
      | false =>
          by_cases hAbout : c.group = g ∧ c.key = key
          · simp [hAbout, SecretChange.isAbout]
          · simp [hAbout, SecretChange.isAbout]

/-- No two attributes share an entry. So whatever state the service is in, writing or removing one
secret leaves what is read of every other one as it was, and of all that is done to a collection only
what is done to a secret itself bears on what is read of it. -/
theorem secrets_apart (ring : Keyring) (g h : GroupName) (key key' : String) :
    ((ring.entry g key).key = (ring.entry h key').key ↔ g = h ∧ key = key') ∧
      (∀ (m : MemoryService) (value : String),
        ((m.serve (.put (ring.entry g key) value)).2.serve (.get (ring.entry h key'))).1 =
          (if m.offline = false ∧ g = h ∧ key = key' then .ok value
          else (m.serve (.get (ring.entry h key'))).1) ∧
        ((m.serve (.delete (ring.entry g key))).2.serve (.get (ring.entry h key'))).1 =
          if m.offline = false ∧ g = h ∧ key = key' then .error .noEntry
          else (m.serve (.get (ring.entry h key'))).1) ∧
      ∀ (m : MemoryService) (changes : List SecretChange),
        (changes.foldl (change ring) m).answer ring h key' =
          if m.offline then m.answer ring h key'
          else (changes.filter (·.isAbout h key')).getLast?.elim (m.answer ring h key')
            SecretChange.outcome := by
  refine ⟨Keyring.entry_key_eq_iff, fun m value => ⟨?_, ?_⟩, fun m changes => ?_⟩
  · exact answer_change ring m ⟨g, key, some value⟩ h key'
  · exact answer_change ring m ⟨g, key, none⟩ h key'
  · exact answer_foldl_change ring m changes h key'

end MemoryService

end Scenario
end Accounts
