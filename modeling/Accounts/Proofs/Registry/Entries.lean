import Accounts.Proofs.GroupName
import Accounts.Proofs.Registry.Basic

/-! The entries under which a secret service holds the secrets of a group. -/
namespace Accounts

/-- No component of a section name holds a slash, so a section name ends where the third slash
stands, whatever follows. -/
theorem GroupName.sectionName_append_inj {g h : GroupName} {s t : String}
    (hEq : g.sectionName ++ "/" ++ s = h.sectionName ++ "/" ++ t) : g = h ∧ s = t := by
  have hParts : ∀ (f : GroupName) (u : String), (f.sectionName ++ "/" ++ u).toList =
      f.manager.toList ++ '/' :: (f.protocol.toList ++ '/' :: (f.account.toList ++
        '/' :: u.toList)) := by
    intro f u
    simp [sectionName, join]
  rw [← String.toList_inj, hParts, hParts] at hEq
  have hSlash : ∀ {u : String}, IsComponent u → '/' ∉ u.toList := slash_notMem_of_isComponent
  obtain ⟨hManager, hEq⟩ :=
    Text.eq_of_append_cons_eq (hSlash g.isComponent_manager) (hSlash h.isComponent_manager) hEq
  obtain ⟨hProtocol, hEq⟩ :=
    Text.eq_of_append_cons_eq (hSlash g.isComponent_protocol) (hSlash h.isComponent_protocol) hEq
  obtain ⟨hAccount, hRest⟩ :=
    Text.eq_of_append_cons_eq (hSlash g.isComponent_account) (hSlash h.isComponent_account) hEq
  refine ⟨?_, String.toList_inj.mp hRest⟩
  apply GroupName.sectionName_injective
  simp [sectionName, String.toList_inj.mp hManager, String.toList_inj.mp hProtocol,
    String.toList_inj.mp hAccount]

theorem Keyring.entry_inj {ring : Keyring} {g h : GroupName} {key key' : String}
    (hEq : ring.entry g key = ring.entry h key') : g = h ∧ key = key' :=
  GroupName.sectionName_append_inj (Entry.mk.inj hEq).2

/-- The vault without some of its entries. -/
def Vault.without (v : Vault) (es : List Entry) : Vault :=
  SortedMap.filter v fun e _ => !es.contains e

theorem Vault.get?_without (v : Vault) (es : List Entry) (e : Entry) :
    (v.without es).get? e = if e ∈ es then none else SortedMap.get? v e := by
  rw [without, SortedMap.get?_filter]
  by_cases he : e ∈ es
  · cases SortedMap.get? v e <;> simp [he, Option.filter]
  · cases SortedMap.get? v e <;> simp [he, Option.filter]

@[simp] theorem Vault.without_nil (v : Vault) : v.without [] = v := by
  apply SortedMap.ext_get?
  intro e
  simp [get?_without]

theorem Vault.without_cons (v : Vault) (e : Entry) (es : List Entry) :
    v.without (e :: es) = Vault.without (SortedMap.erase v e) es := by
  apply SortedMap.ext_get?
  intro e'
  simp only [get?_without, SortedMap.get?_erase, List.mem_cons]
  by_cases hHead : e = e'
  · simp [hHead]
  · simp [hHead, Ne.symm hHead]

namespace Registry

/-- The entries for the secrets of a group. -/
def entries (r : Registry) (g : GroupName) : List Entry :=
  match r.backend with
  | .inline => []
  | .keyring ring => r.secrets.keys.map (ring.entry g)

theorem entries_of_inline {r : Registry} (h : r.backend = .inline) (g : GroupName) :
    r.entries g = [] := by
  rw [entries, h]

theorem entries_of_keyring {r : Registry} {ring : Keyring} (h : r.backend = .keyring ring)
    (g : GroupName) : r.entries g = r.secrets.keys.map (ring.entry g) := by
  rw [entries, h]

theorem mem_entries {r : Registry} {ring : Keyring} (h : r.backend = .keyring ring)
    {g : GroupName} {e : Entry} :
    e ∈ r.entries g ↔ ∃ key, r.secrets.isSecretKey key = true ∧ ring.entry g key = e := by
  simp [entries_of_keyring h, SecretNames.mem_keys_iff]

/-- No entry serves two groups. -/
theorem eq_of_mem_entries {r : Registry} {g h : GroupName} {e : Entry} (hg : e ∈ r.entries g)
    (hh : e ∈ r.entries h) : g = h := by
  cases hBackend : r.backend with
  | inline => simp [entries_of_inline hBackend] at hg
  | keyring ring =>
      obtain ⟨key, _, hKey⟩ := (mem_entries hBackend).mp hg
      obtain ⟨key', _, hKey'⟩ := (mem_entries hBackend).mp hh
      exact (Keyring.entry_inj (hKey.trans hKey'.symm)).1

end Registry
end Accounts
