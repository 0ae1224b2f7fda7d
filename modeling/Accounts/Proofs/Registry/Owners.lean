import Accounts.Proofs.Registry.Allocation
import Accounts.Proofs.Registry.Founding

/-! The owner of an account. Its manager and its protocol are stored with the account, and they are
read off the name of its group as well. Since a group is founded under a name made from the two, and
nobody can write them afterwards, name and attributes agree for as long as the group is there. -/
namespace Accounts

/-- The group is named after the owner that is stored with it. -/
def Book.NamesOwner (b : Book) (g : GroupName) : Prop :=
  ∃ manager protocol, b.value? g managerKey = some manager ∧
    b.value? g protocolKey = some protocol ∧ g.manager = Identifier.escape manager ∧
    g.protocol = GroupName.protocolComponent protocol

/-- The keys of the owner. -/
def IsOwnerKey (key : String) : Prop := key = managerKey ∨ key = protocolKey

namespace Registry

variable {r : Registry} {g : GroupName} {b b' : Book}

theorem not_isOwnerKey_of_paramName? {key name : String} (h : paramName? key = some name) :
    ¬IsOwnerKey key := by
  rintro (rfl | rfl)
  · simp [paramName?, managerKey] at h
  · simp [paramName?, protocolKey] at h

theorem spares_isOwnerKey (r : Registry) : r.Spares IsOwnerKey := by
  constructor
  · rintro (hEq | hEq)
    · exact absurd hEq (by decide)
    · exact absurd hEq (by decide)
  · intro key hSecret
    obtain ⟨name, hName, _⟩ := (Option.any_eq_true _ _).mp hSecret
    exact not_isOwnerKey_of_paramName? hName

/-- No operation writes an owner, whatever key it is given. -/
theorem operation_spares_isOwnerKey (op : Operation) : op.Spares IsOwnerKey := by
  apply Operation.spares_of
  · rintro (hEq | hEq)
    · exact absurd hEq (by decide)
    · exact absurd hEq (by decide)
  · intro g key value _ hOwner
    exact hOwner

/-- A group that was just founded is named after its owner. -/
theorem Founds.namesOwner {manager protocol : String} {params : SortedMap String Value}
    (h : r.Founds manager protocol params g b b') : b'.NamesOwner g := by
  obtain ⟨⟨serial, hName⟩, -⟩ := exists_serial_of_allocateAmong h.name
  obtain ⟨hManager, hProtocol, -⟩ := GroupName.allocate_eq_ok_iff.mp hName
  exact ⟨manager, protocol, h.manager, h.protocol, hManager, hProtocol⟩

/-- A group that has the owner that it had is still named after it. -/
theorem namesOwner_of_retains (hOwner : b.NamesOwner g) (hThere : b'.contains g = true)
    (hKept : b.Retains IsOwnerKey g b') : b'.NamesOwner g := by
  obtain ⟨manager, protocol, hManager, hProtocol, hName⟩ := hOwner
  obtain ⟨-, hSame⟩ := hKept hThere
  refine ⟨manager, protocol, ?_, ?_, hName⟩
  · rw [hSame managerKey (Or.inl rfl), hManager]
  · rw [hSame protocolKey (Or.inr rfl), hProtocol]

end Registry

namespace Process
open Registry

variable {r : Registry} {g : GroupName} {p q : Process}

/-- A group that is there keeps its owner, pending or not. -/
theorem Becomes.retains_owner (h : p.Becomes r q) (hIntact : p.Intact KeyFile.IsWritable)
    (hThere : p.book.contains g = true) : p.book.Retains IsOwnerKey g q.book := by
  obtain ⟨name, hName⟩ := r.exists_paramName?_checkKey
  have hCheck : ¬IsOwnerKey r.checkKey := not_isOwnerKey_of_paramName? hName
  exact h.using.retains hIntact r.spares_isOwnerKey (fun op _ => operation_spares_isOwnerKey op)
    hThere (Or.inr hCheck)

/-- One step keeps all groups that show named after their owners. -/
theorem Becomes.namesOwner (h : p.Becomes r q) (hIntact : p.Intact KeyFile.IsWritable)
    (hOwners : ∀ g, p.book.isLive g = true → p.book.NamesOwner g) :
    ∀ g, q.book.isLive g = true → q.book.NamesOwner g := by
  intro g hLive
  obtain ⟨manager, protocol, params, hShown⟩ := h.using.live_or_founded hIntact
  rcases hShown g hLive with hBefore | hFounds
  · have hKept := h.retains_owner hIntact (contains_of_isLive hBefore)
    exact namesOwner_of_retains (hOwners g hBefore) (contains_of_isLive hLive) hKept
  · exact hFounds.namesOwner

/-- Since the file was empty, all groups that show are named after their owners. -/
theorem namesOwner_of_steps {d : Storage} {p₀ : Process}
    (hEmpty : AccountFile.load d.file = .ok ∅) (hStart : d.start = .ok p₀)
    (hSteps : Relation.ReflTransGen (fun x y => ∃ r, Process.Becomes r x y) p₀ p) :
    p.Intact KeyFile.IsWritable ∧ ∀ g, p.book.isLive g = true → p.book.NamesOwner g := by
  induction hSteps with
  | refl =>
      obtain ⟨book, hLoad, rfl⟩ := load_of_start hStart
      obtain rfl : ∅ = book := Except.ok.inj (hEmpty.symm.trans hLoad)
      exact ⟨intact_of_start hStart, fun g hLive => by contradiction⟩
  | tail _ hLast ih =>
      obtain ⟨r, hBecomes⟩ := hLast
      exact ⟨intact_of_becomes ih.1 hBecomes, hBecomes.namesOwner ih.1 ih.2⟩

/-- The owner of a group that is there all the time is the same all the time. -/
theorem History.owner_eq {run : List (Registry × Process)} (hRun : p.History run)
    (hIntact : p.Intact KeyFile.IsWritable) (hThere : p.book.contains g = true)
    (hStays : ∀ x ∈ run, x.2.book.contains g = true) :
    ∀ x ∈ run, ∀ key, IsOwnerKey key → x.2.book.value? g key = p.book.value? g key := by
  induction hRun with
  | nil => simp
  | @cons r p q rest hBecomes _ ih =>
      obtain ⟨hThere', hRest⟩ := List.forall_mem_cons.mp hStays
      obtain ⟨-, hSame⟩ := hBecomes.retains_owner hIntact hThere hThere'
      have hLater := ih (intact_of_becomes hIntact hBecomes) hThere' hRest
      intro x hx key hKey
      rcases List.mem_cons.mp hx with rfl | hx
      · exact hSame key hKey
      · rw [hLater x hx key hKey, hSame key hKey]

end Process

namespace Registry
open Process

/-- Whatever registries work on an empty account file, whatever fails and wherever processes are cut
off: the manager and the protocol that are stored with a group that shows are those that it is named
after, and the manager can be read off the name again. The two stay what they are for as long as the
group is there, even while it is pending. -/
theorem owner_of_name {d : Storage} {p₀ p : Process} (hEmpty : AccountFile.load d.file = .ok ∅)
    (hStart : d.start = .ok p₀)
    (hSteps : Relation.ReflTransGen (fun x y => ∃ r, Process.Becomes r x y) p₀ p) :
    (∀ g, p.book.isLive g = true → ∃ manager protocol,
      p.book.value? g managerKey = some manager ∧ p.book.value? g protocolKey = some protocol ∧
      g.manager = Identifier.escape manager ∧
      g.protocol = GroupName.protocolComponent protocol ∧
      Identifier.unescape? g.manager = some manager) ∧
    ∀ run g, p.History run → p.book.contains g = true →
      (∀ x ∈ run, x.2.book.contains g = true) → ∀ x ∈ run,
        x.2.book.value? g managerKey = p.book.value? g managerKey ∧
        x.2.book.value? g protocolKey = p.book.value? g protocolKey := by
  obtain ⟨hIntact, hOwners⟩ := namesOwner_of_steps hEmpty hStart hSteps
  constructor
  · intro g hLive
    obtain ⟨manager, protocol, hManager, hProtocol, hName, hName'⟩ := hOwners g hLive
    refine ⟨manager, protocol, hManager, hProtocol, hName, hName', ?_⟩
    rw [hName, Identifier.unescape?_escape]
  · intro run g hRun hThere hStays x hx
    have hSame := hRun.owner_eq hIntact hThere hStays x hx
    exact ⟨hSame managerKey (Or.inl rfl), hSame protocolKey (Or.inr rfl)⟩

/-- The group of an account whose manager begins with a digit. -/
def hyphenGroup : GroupName := .ofSerial isComponent_localXmpp "1a-b" identityParam 0

/-- The account is created on unused storage. -/
def hyphenProcess : Process :=
  ringRegistry.after (.create "1a-b" "local-xmpp" ∅) unusedProcess .none

/-- The removal of the account stalls, and the group is pending then. -/
def hyphenRemoval : List (Registry × Process) :=
  [(ringRegistry, ringRegistry.after (.remove hyphenGroup) hyphenProcess stalledFaults)]

/-- The manager is read off the name, and the group that does not show any more has it still. -/
theorem owner_of_name_of_hyphen :
    hyphenProcess.book.isLive hyphenGroup = true ∧
      (∃ manager, hyphenProcess.book.value? hyphenGroup managerKey = some manager ∧
        Identifier.unescape? hyphenGroup.manager = some manager) ∧
      ∀ x ∈ hyphenRemoval, x.2.book.isLive hyphenGroup = false ∧
        x.2.book.value? hyphenGroup managerKey = some "1a-b" := by
  have hSteps : Relation.ReflTransGen (fun x y => ∃ r, Process.Becomes r x y) unusedProcess
      hyphenProcess :=
    .single ⟨ringRegistry, becomes_after ..⟩
  have hRun : hyphenProcess.History hyphenRemoval := .cons (becomes_after ..) (.nil _)
  have hLive : hyphenProcess.book.isLive hyphenGroup = true := by decide +kernel
  have hStays : ∀ x ∈ hyphenRemoval, x.2.book.contains hyphenGroup = true := by decide +kernel
  have hHidden : ∀ x ∈ hyphenRemoval, x.2.book.isLive hyphenGroup = false := by decide +kernel
  have hManager : hyphenProcess.book.value? hyphenGroup managerKey = some "1a-b" := by
    decide +kernel
  obtain ⟨hOwners, hFixed⟩ := owner_of_name (d := Storage.unused) rfl rfl hSteps
  obtain ⟨manager, protocol, hStored, -, -, -, hRead⟩ := hOwners hyphenGroup hLive
  refine ⟨hLive, ⟨manager, hStored, hRead⟩, fun x hx => ⟨hHidden x hx, ?_⟩⟩
  obtain ⟨hSame, -⟩ := hFixed hyphenRemoval hyphenGroup hRun (contains_of_isLive hLive) hStays x hx
  rw [hSame, hManager]

end Registry
end Accounts
