import Accounts.Proofs.Alike
import Accounts.Proofs.AccountFile
import Accounts.Proofs.Registry.Entries

/-! Processes that differ only in the values of secrets, and what a registry makes of their books
without any effects: the name of a new group, the account that a new one would repeat, and all that
may be shown. -/
namespace Accounts

namespace Registry

variable {r : Registry} {b b' : Book}

/-- The keys whose values the account file holds although they are secret. -/
def Hides (r : Registry) (key : String) : Prop :=
  r.backend.isInline = true ∧ r.secrets.isSecretKey key = true

theorem not_hides {key : String} (h : r.secrets.isSecretKey key = false) : ¬r.Hides key :=
  fun ⟨_, hSecret⟩ => by simp [h] at hSecret

theorem not_hides_of_not_isInline (h : r.backend.isInline = false) (key : String) : ¬r.Hides key :=
  fun ⟨hInline, _⟩ => by simp [h] at hInline

/-- An account file that holds no secrets hides nothing. -/
theorem eq_of_alike (h : b.Alike r.Hides b') (hRing : r.backend.isInline = false) : b = b' :=
  h.eq_of_forall_not (not_hides_of_not_isInline hRing)

/-! ## Attributes and books -/

theorem withoutSecrets_eq_of_alike {a a' : Attributes} (h : a.Alike r.Hides a') :
    a.withoutSecrets r.secrets = a'.withoutSecrets r.secrets :=
  h.filter_eq _ fun _ hShown => not_hides (by simpa using hShown)

theorem ofAttributes_eq_of_alike {a a' : Attributes} (h : a.Alike r.Hides a') (g : GroupName) :
    Account.ofAttributes g a r.secrets = Account.ofAttributes g a' r.secrets := by
  rw [Account.ofAttributes, Account.ofAttributes, withoutSecrets_eq_of_alike h]

theorem isEquivalent_eq_of_alike {a a' : Attributes} (h : a.Alike r.Hides a')
    (manager protocol : String) (plain : Attributes) :
    r.isEquivalent manager protocol plain a = r.isEquivalent manager protocol plain a' := by
  have hParams := h.filter_eq (fun key => (paramName? key).isSome && !r.secrets.isSecretKey key)
    fun key hShown => not_hides (by simpa using (Bool.and_eq_true _ _).mp hShown |>.2)
  rw [isEquivalent, isEquivalent, h.get?_eq managerKey (not_hides (by simp)),
    h.get?_eq protocolKey (not_hides (by simp)), hParams]

theorem equivalent?_eq_of_alike (h : b.Alike r.Hides b') (manager protocol : String)
    (plain : Attributes) :
    r.equivalent? b manager protocol plain = r.equivalent? b' manager protocol plain := by
  rw [equivalent?, equivalent?, h.liveGroups_eq]
  congr 1
  funext g
  exact isEquivalent_eq_of_alike (h.attributes g) manager protocol plain

/-- What may be shown of the books is the same. -/
theorem visible_eq_of_alike (h : b.Alike r.Hides b') :
    b.visible r.secrets = b'.visible r.secrets := by
  apply SortedMap.ext_get?
  intro g
  rw [Book.visible, Book.visible, SortedMap.get?_map, SortedMap.get?_map, SortedMap.get?_filter,
    SortedMap.get?_filter]
  rcases h.cases g with ⟨hGet, hGet'⟩ | ⟨a, a', hGet, hGet', hAttributes⟩
  · rw [hGet, hGet']
  · have hPending : a.isPending = a'.isPending := hAttributes.contains_eq pendingKey
    rw [hGet, hGet', Option.filter_some, Option.filter_some, hPending]
    split
    · exact congrArg some (withoutSecrets_eq_of_alike hAttributes)
    · rfl

/-! ## Parameters -/

section
variable {params params' : SortedMap String Value}
  (h : params.Alike (r.secrets.isSecret · = true) params')
include h

theorem plainParams_eq_of_alike : r.plainParams params = r.plainParams params' := by
  rw [plainParams, plainParams, h.filter_eq (fun name => !r.secrets.isSecret name)
    fun name hShown => by simpa using hShown]

theorem identity_eq_of_alike : r.identity params = r.identity params' := by
  unfold identity
  split_ifs with hSecret
  · rfl
  · rw [h.get?_eq identityParam hSecret]

theorem initialAttributes_eq_of_alike (manager protocol : String) :
    r.initialAttributes manager protocol params = r.initialAttributes manager protocol params' := by
  rw [initialAttributes, initialAttributes, plainParams_eq_of_alike h]

/-- The same secrets are written, though with other values. -/
theorem forall₂_secretParams :
    List.Forall₂ (fun e e' => e.1 = e'.1 ∧ r.secrets.isSecretKey e.1 = true)
      (r.secretParams params) (r.secretParams params') := by
  have hKeys : (r.secretParams params).map Prod.fst = (r.secretParams params').map Prod.fst := by
    have hNames := congrArg (List.map paramKey) (h.keys_filter_eq r.secrets.isSecret)
    simpa [secretParams, SortedMap.keys, Function.comp_def] using hNames
  have hEqual : List.Forall₂ (· = ·) ((r.secretParams params).map Prod.fst)
      ((r.secretParams params').map Prod.fst) := by
    rw [List.forall₂_eq_eq_eq]
    exact hKeys
  have hPairs := List.forall₂_map_left_iff.mp (List.forall₂_map_right_iff.mp hEqual)
  have hBoth := (List.forall₂_and_left (p := fun e => r.secrets.isSecretKey e.1 = true) _ _).mpr
    ⟨fun _ he => isSecretKey_of_mem_secretParams he, hPairs⟩
  exact hBoth.imp fun _ _ hEntry => ⟨hEntry.2, hEntry.1⟩

end
end Registry

namespace Process

/-- The processes differ only in the values of secrets, wherever these are kept. They gave the same
notices, and an account file that is to hold no secrets is the same. -/
structure Alike (r : Registry) (p p' : Process) : Prop where
  book : p.book.Alike r.Hides p'.book
  vault : p.vault.Alike (fun e => ∃ g, e ∈ r.entries g) p'.vault
  events : p.events = p'.events
  file : r.backend.isInline = false → p.file = p'.file

namespace Alike

variable {r : Registry} {p p' : Process}

theorem refl (p : Process) : Alike r p p := ⟨.refl _, .refl _, rfl, fun _ => rfl⟩

theorem save (h : Alike r p p') {b b' : Book} (hBook : b.Alike r.Hides b') :
    Alike r (p.save b) (p'.save b') where
  book := hBook
  vault := h.vault
  events := h.events
  file hRing := by
    rw [Registry.eq_of_alike hBook hRing]
    rfl

theorem withVault (h : Alike r p p') {v v' : Vault}
    (hVault : v.Alike (fun e => ∃ g, e ∈ r.entries g) v') :
    Alike r (p.withVault v) (p'.withVault v') :=
  ⟨h.book, hVault, h.events, h.file⟩

theorem notify (h : Alike r p p') (event : Event) : Alike r (p.notify event) (p'.notify event) where
  book := h.book
  vault := h.vault
  events := by rw [Process.notify, Process.notify, h.events]
  file := h.file

/-- Processes that take over from the two begin with no notices. -/
theorem restart (h : Alike r p p') :
    Alike r { p with events := [] } { p' with events := [] } :=
  ⟨h.book, h.vault, rfl, h.file⟩

end Alike
end Process
end Accounts
