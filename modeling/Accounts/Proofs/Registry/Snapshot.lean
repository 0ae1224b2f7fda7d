import Accounts.Proofs.Account
import Accounts.Proofs.Dump
import Accounts.Proofs.Registry.Owners

/-! Two views of an account. The one tells the attributes of the account apart by their keys, the
other lists them in a book with those of all other accounts. Both leave out the secrets and show
everything else. -/
namespace Accounts

/-- All attributes of the group but its secrets, if it shows. -/
theorem Book.get?_visible_of_isLive {book : Book} {g : GroupName} (hLive : book.isLive g = true)
    (secrets : SecretNames) :
    (book.visible secrets).get? g = some ((book.attributes g).withoutSecrets secrets) := by
  obtain ⟨a, hGroup, hShown⟩ := isLive_eq_true_iff.mp hLive
  rw [get?_visible_eq_some_iff, attributes, hGroup]
  exact ⟨a, rfl, hShown, rfl⟩

theorem Book.value?_visible_of_secret (book : Book) {secrets : SecretNames} {key : String}
    (hSecret : secrets.isSecretKey key = true) (g : GroupName) :
    (book.visible secrets).value? g key = none := by
  rw [value?]
  cases hGroup : (book.visible secrets).get? g with
  | none => rfl
  | some a =>
      obtain ⟨b, _, _, rfl⟩ := get?_visible_eq_some_iff.mp hGroup
      rw [Option.bind_some, Attributes.get?_withoutSecrets, if_pos hSecret]

namespace Registry
open Process Accounts.Action

variable {r : Registry} {g : GroupName} {p : Process} {s : Process × Faults}

/-- An account that shows can be looked at, whatever is about to fail. -/
theorem run_account (hLive : s.1.book.isLive g = true) :
    (r.account g).run.run host s =
      (.ok (.ofAttributes g (s.1.book.attributes g) r.secrets), s) := by
  obtain ⟨a, hGroup, hShown⟩ := Book.isLive_eq_true_iff.mp hLive
  have hEntries : (Store.entries g).run.run host s = (.ok a, s) := by
    rw [Store.entries, run_book, hGroup]
    rfl
  have hThere : (ensureLive g).run.run host s = (.ok (), s) := by
    rw [ensureLive, run_book, hLive]
    rfl
  rw [account, run_bind, hThere]
  change (Store.entries g >>= fun a => pure (Account.ofAttributes g a r.secrets)).run.run host s = _
  rw [run_bind, hEntries, Book.attributes, hGroup]
  rfl

/-- In an account that shows, whatever registries brought it about since the file was empty, the
attributes have distinct keys and are just those that are stored with the group and not secret. A
dump has the same attributes under the group. Neither view has anything under a secret key. -/
theorem account_agrees_with_dump {d : Storage} {p₀ p : Process}
    (hEmpty : AccountFile.load d.file = .ok ∅) (hStart : d.start = .ok p₀)
    (hSteps : Relation.ReflTransGen (fun x y => ∃ r, Process.Becomes r x y) p₀ p)
    (r : Registry) (g : GroupName) (hLive : p.book.isLive g = true) (faults : Faults) :
    ∃ account shown, (r.account g).run.run host (p, faults) = (.ok account, p, faults) ∧
      r.dump.run.run host (p, faults) = (.ok shown, p, faults) ∧ account.group = g ∧
      (account.entries.map Prod.fst).Nodup ∧
      (∀ key value, (key, value) ∈ account.entries ↔
        p.book.value? g key = some value ∧ r.secrets.isSecretKey key = false) ∧
      shown.get? g = some (SortedMap.ofList account.entries) ∧
      ∀ key, r.secrets.isSecretKey key = true →
        key ∉ account.entries.map Prod.fst ∧ ∀ h, shown.value? h key = none := by
  obtain ⟨_, hOwners⟩ := namesOwner_of_steps hEmpty hStart hSteps
  obtain ⟨manager, protocol, hManager, hProtocol, _⟩ := hOwners g hLive
  have hReflects := Account.reflects_ofAttributes g (p.book.attributes g) r.secrets
  have hManager' : ((p.book.attributes g).withoutSecrets r.secrets).get? managerKey =
      some manager := by
    rw [Attributes.get?_withoutSecrets, SecretNames.isSecretKey_managerKey, Book.get?_attributes]
    exact hManager
  have hProtocol' : ((p.book.attributes g).withoutSecrets r.secrets).get? protocolKey =
      some protocol := by
    rw [Attributes.get?_withoutSecrets, SecretNames.isSecretKey_protocolKey, Book.get?_attributes]
    exact hProtocol
  have hEntries : ∀ key value,
      (key, value) ∈ (Account.ofAttributes g (p.book.attributes g) r.secrets).entries ↔
        p.book.value? g key = some value ∧ r.secrets.isSecretKey key = false := by
    intro key value
    rw [hReflects.mem_entries hManager' hProtocol', Attributes.get?_withoutSecrets,
      Book.get?_attributes]
    cases r.secrets.isSecretKey key with
    | true => simp
    | false => simp
  refine ⟨_, _, run_account hLive, rfl, Account.group_ofAttributes .., hReflects.nodup_keys,
    hEntries, ?_, fun key hSecret => ⟨fun hKey => ?_, Book.value?_visible_of_secret p.book hSecret⟩⟩
  · rw [hReflects.ofList_entries hManager' hProtocol']
    exact Book.get?_visible_of_isLive hLive r.secrets
  · obtain ⟨⟨key', value⟩, hEntry, rfl⟩ := List.mem_map.mp hKey
    have hPlain := ((hEntries key' value).mp hEntry).2
    rw [hSecret] at hPlain
    contradiction

/-- Parameters whose names look like something else, and a password. -/
def oddParams : SortedMap String Value :=
  .ofList [("", .string "nameless"), ("manager", .string "someone"), ("param-a", .string "twice"),
    ("password", .string "secrecy")]

/-- The group of an account with these parameters. -/
def oddGroup : GroupName := .ofSerial isComponent_localXmpp "keeper" identityParam 0

/-- The account is created on unused storage and given a property. -/
def oddProcess : Process :=
  ringRegistry.after (.setProperty oddGroup "Icon" (.string "im-local-xmpp"))
    (ringRegistry.after (.create "keeper" "local-xmpp" oddParams) unusedProcess .none) .none

/-- The parameter called manager is not taken for the manager of the account. -/
theorem account_agrees_with_dump_of_odd_names :
    ∃ account shown,
      (ringRegistry.account oddGroup).run.run host (oddProcess, .none) =
        (.ok account, oddProcess, .none) ∧
      ringRegistry.dump.run.run host (oddProcess, .none) = (.ok shown, oddProcess, .none) ∧
      (managerKey, "keeper") ∈ account.entries ∧ ("param-manager", "someone") ∈ account.entries ∧
      ("param-", "nameless") ∈ account.entries ∧ ("param-param-a", "twice") ∈ account.entries ∧
      ("Icon", "im-local-xmpp") ∈ account.entries ∧
      "param-password" ∉ account.entries.map Prod.fst ∧
      shown.get? oddGroup = some (SortedMap.ofList account.entries) := by
  have hSteps : Relation.ReflTransGen (fun x y => ∃ r, Process.Becomes r x y) unusedProcess
      oddProcess :=
    (Relation.ReflTransGen.single ⟨ringRegistry, becomes_after ..⟩).tail
      ⟨ringRegistry, becomes_after ..⟩
  have hLive : oddProcess.book.isLive oddGroup = true := by decide +kernel
  obtain ⟨account, shown, hAccount, hDump, _, _, hEntries, hShown, hHidden⟩ :=
    account_agrees_with_dump (d := Storage.unused) rfl rfl hSteps ringRegistry oddGroup hLive .none
  obtain ⟨hPassword, _⟩ := hHidden "param-password" (by decide +kernel)
  refine ⟨account, shown, hAccount, hDump, ?_, ?_, ?_, ?_, ?_, hPassword, hShown⟩
  all_goals
    rw [hEntries]
    decide +kernel

end Registry
end Accounts
